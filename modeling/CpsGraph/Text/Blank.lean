import CpsGraph.Text.Ranges

/-! # Blank characters

The characters with the Unicode property `White_Space`, as a table of closed ranges in ascending
order. Blanks may stand before, between and after the tokens of a written type.
-/

namespace CpsGraph.Text

/-- The closed code point ranges of the property `White_Space`. -/
def blankRanges : CharRanges :=
  [(0x9, 0xD), (0x20, 0x20), (0x85, 0x85), (0xA0, 0xA0), (0x1680, 0x1680), (0x2000, 0x200A),
    (0x2028, 0x2029), (0x202F, 0x202F), (0x205F, 0x205F), (0x3000, 0x3000)]

/-- Whether a character is blank. -/
def isBlank (c : Char) : Bool := blankRanges.covers c

end CpsGraph.Text
