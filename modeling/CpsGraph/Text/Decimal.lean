/-! # Written integers

Integers in decimal notation, with an optional sign. Only the ten ASCII digits count, and leading
zeros are allowed.
-/

namespace CpsGraph.Text

/-- The number that a nonempty sequence of digits stands for. -/
def digits? (chars : List Char) : Option Nat :=
  if chars.isEmpty then none
  else
    chars.foldlM
      (fun value c => if c.isDigit then some (value * 10 + (c.toNat - 48)) else none) 0

/-- The integer that digits with an optional sign stand for. -/
def integer? : List Char → Option Int
  | '-' :: rest => (digits? rest).map fun value => -(value : Int)
  | '+' :: rest => (digits? rest).map fun value => (value : Int)
  | chars => (digits? chars).map fun value => (value : Int)

/-- The 64-bit integer that a text stands for. There is none outside the range. -/
def int64? (text : String) : Option Int64 := do
  let value ← integer? text.toList
  if Int64.minValue.toInt ≤ value ∧ value ≤ Int64.maxValue.toInt then some (Int64.ofInt value)
  else none

/-- A number is written with digits only. -/
theorem isDigit_of_mem_number {number : Nat} {c : Char} (member : c ∈ (toString number).toList) :
    c.isDigit := by
  rw [Nat.toString_eq_repr, Nat.toList_repr] at member
  exact Nat.isDigit_of_mem_toDigits (by decide) (by decide) member

/-- A number can be read off a text that ends with it, whatever the text begins with. -/
theorem append_number_inj {text : String} {first second : Nat} :
    text ++ toString first = text ++ toString second ↔ first = second := by
  constructor
  · intro same
    have digits : Nat.toDigits 10 first = Nat.toDigits 10 second := by
      simpa [Nat.repr_eq_ofList_toDigits, String.ofList_inj] using same
    have numbers := congrArg (Nat.ofDigitChars 10 · 0) digits
    simpa [Nat.ofDigitChars_toDigits] using numbers
  · rintro rfl
    rfl

end CpsGraph.Text
