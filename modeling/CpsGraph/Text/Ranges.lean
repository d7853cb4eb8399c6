/-! # Ranges of characters

A class of characters is given by the closed ranges of its code points. The tables of this library
follow version 17.0 of Unicode.
-/

namespace CpsGraph.Text

/-- Closed ranges of code points. -/
abbrev CharRanges := List (Nat × Nat)

namespace CharRanges

/-- Whether a character lies in one of the ranges. -/
def covers (ranges : CharRanges) (c : Char) : Bool :=
  ranges.any fun (low, high) => low ≤ c.toNat && c.toNat ≤ high

end CharRanges

end CpsGraph.Text
