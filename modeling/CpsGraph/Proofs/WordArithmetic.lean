import CpsGraph.Operator.Evaluate
import Mathlib.Data.Int.ModEq

/-! # Arithmetic on 64-bit words

Every integer is congruent modulo `2 ^ 64` to exactly one word, and the words of a sum, a difference,
a product, a truncated quotient and its remainder are the results of the operators. From this the
equation between dividend, quotient and remainder carries over to words even where the quotient does
not fit: the smallest word divided by `-1` is the only such case, and gives the smallest word again.
-/

namespace CpsGraph

namespace Word

/-- A word is congruent to an integer if and only if it is the word of that integer. -/
theorem modEq_iff_eq_ofInt {word : Int64} {integer : Int} :
    word.toInt ≡ integer [ZMOD 2 ^ 64] ↔ word = Int64.ofInt integer := by
  have wrapped : (Int64.ofInt integer).toInt ≡ integer [ZMOD 2 ^ 64] := by
    rw [Int64.toInt_ofInt]
    exact Int.bmod_emod
  constructor
  · intro congruent
    have same := congruent.trans wrapped.symm
    have lower := word.le_toInt
    have upper := word.toInt_lt
    have lowerToo := (Int64.ofInt integer).le_toInt
    have upperToo := (Int64.ofInt integer).toInt_lt
    rw [← Int64.toInt_inj]
    unfold Int.ModEq at same
    omega
  · rintro rfl
    exact wrapped

variable (a b : Int64)

theorem add_eq_ofInt : a + b = .ofInt (a.toInt + b.toInt) := by
  rw [Int64.ofInt_add, Int64.ofInt_toInt, Int64.ofInt_toInt]

theorem sub_eq_ofInt : a - b = .ofInt (a.toInt - b.toInt) := by
  rw [Int64.ofInt_sub, Int64.ofInt_toInt, Int64.ofInt_toInt]

theorem mul_eq_ofInt : a * b = .ofInt (a.toInt * b.toInt) := by
  rw [Int64.ofInt_mul, Int64.ofInt_toInt, Int64.ofInt_toInt]

theorem div_eq_ofInt : a / b = .ofInt (a.toInt.tdiv b.toInt) := by
  rw [← Int64.toInt_inj, Int64.toInt_div, Int64.toInt_ofInt]

theorem mod_eq_ofInt : a % b = .ofInt (a.toInt.tmod b.toInt) := by
  rw [← Int64.toInt_mod, Int64.ofInt_toInt]

/-- Quotient and remainder make up the dividend, whether the quotient fits or not. -/
theorem div_mul_add_mod : a / b * b + a % b = a := by
  have product : a / b * b = .ofInt (a.toInt.tdiv b.toInt * b.toInt) := by
    rw [Int64.ofInt_mul, Int64.ofInt_toInt, ← div_eq_ofInt]
  rw [product, mod_eq_ofInt, ← Int64.ofInt_add, Int.tdiv_mul_add_tmod, Int64.ofInt_toInt]

variable {a b}

theorem toInt_ne_zero (nonzero : b ≠ 0) : b.toInt ≠ 0 := by
  intro zero
  exact nonzero (Int64.toInt_inj.mp zero)

/-- The truncated quotient fits unless the smallest word is divided by `-1`. -/
theorem toInt_div_of_fits (fits : ¬(a = Int64.minValue ∧ b = -1)) :
    (a / b).toInt = a.toInt.tdiv b.toInt := by
  by_cases smallest : a = Int64.minValue
  · exact Int64.toInt_div_of_ne_right a b fun minusOne => fits ⟨smallest, minusOne⟩
  · exact Int64.toInt_div_of_ne_left a b smallest

theorem natAbs_toInt_mod_lt (nonzero : b ≠ 0) : (a % b).toInt.natAbs < b.toInt.natAbs := by
  rw [Int64.toInt_mod, Int.natAbs_tmod]
  exact Nat.mod_lt _ (Int.natAbs_pos.mpr (toInt_ne_zero nonzero))

/-- A remainder is zero or has the sign of the dividend. -/
theorem sign_toInt_mod : a % b = 0 ∨ (a % b).toInt.sign = a.toInt.sign := by
  have sign : (a % b).toInt.sign = if b.toInt ∣ a.toInt then 0 else a.toInt.sign := by
    rw [Int64.toInt_mod, Int.sign_tmod]
  split_ifs at sign
  · exact .inl (Int64.toInt_inj.mp (Int.sign_eq_zero_iff_zero.mp sign))
  · exact .inr sign

end Word

namespace Operator

/-- An outcome is the only word that is congruent to an integer modulo `2 ^ 64`. -/
def Wraps (outcome : Except EvalError Literal) (integer : Int) : Prop :=
  ∃ word : Int64, outcome = .ok (.int word) ∧
    ∀ other : Int64, other.toInt ≡ integer [ZMOD 2 ^ 64] ↔ other = word

/-- What relates a quotient and a remainder to a dividend and a divisor.

* The product of quotient and divisor and the remainder add up to the dividend, as words.
* The remainder is smaller than the divisor, and zero or of the sign of the dividend.
* The quotient is the exact one, truncated toward zero, unless the smallest word is divided by `-1`:
  then it is the smallest word. -/
structure Divides (dividend divisor quotient remainder : Int64) : Prop where
  whole : ∃ product, evaluate .mul [.int quotient, .int divisor] = .ok (.int product) ∧
    evaluate .add [.int product, .int remainder] = .ok (.int dividend)
  smaller : remainder.toInt.natAbs < divisor.toInt.natAbs
  sign : remainder = 0 ∨ remainder.toInt.sign = dividend.toInt.sign
  truncated : ¬(dividend = Int64.minValue ∧ divisor = -1) →
    quotient.toInt = dividend.toInt.tdiv divisor.toInt
  overflowing : dividend = Int64.minValue ∧ divisor = -1 → quotient = Int64.minValue

variable (a b : Int64)

theorem divides_div_mod (nonzero : b ≠ 0) : Divides a b (a / b) (a % b) where
  whole := ⟨a / b * b, rfl, congrArg (Except.ok ∘ Literal.int) (Word.div_mul_add_mod a b)⟩
  smaller := Word.natAbs_toInt_mod_lt nonzero
  sign := Word.sign_toInt_mod
  truncated := Word.toInt_div_of_fits
  overflowing := by
    rintro ⟨rfl, rfl⟩
    decide

/-- On integers, sums, differences and products are exact modulo `2 ^ 64`, division truncates and
fails only for a zero divisor, and comparisons are those of the exact integers. -/
theorem evaluate_integers :
    Wraps (evaluate .add [.int a, .int b]) (a.toInt + b.toInt) ∧
    Wraps (evaluate .sub [.int a, .int b]) (a.toInt - b.toInt) ∧
    Wraps (evaluate .mul [.int a, .int b]) (a.toInt * b.toInt) ∧
    (b ≠ 0 → ∃ quotient remainder, evaluate .div [.int a, .int b] = .ok (.int quotient) ∧
      evaluate .mod [.int a, .int b] = .ok (.int remainder) ∧ Divides a b quotient remainder) ∧
    (b = 0 → evaluate .div [.int a, .int b] = .error .divisionByZero ∧
      evaluate .mod [.int a, .int b] = .error .divisionByZero) ∧
    evaluate .less [.int a, .int b] = .ok (.bool (a.toInt < b.toInt)) ∧
    evaluate .lessEq [.int a, .int b] = .ok (.bool (a.toInt ≤ b.toInt)) ∧
    evaluate .equal [.int a, .int b] = .ok (.bool (a.toInt = b.toInt)) := by
  have wraps {word : Int64} {integer : Int} (same : word = .ofInt integer) :
      Wraps (.ok (.int word)) integer := by
    subst same
    exact ⟨_, rfl, fun other => Word.modEq_iff_eq_ofInt⟩
  refine ⟨wraps (Word.add_eq_ofInt a b), wraps (Word.sub_eq_ofInt a b), wraps (Word.mul_eq_ofInt a b),
    fun nonzero => ?_, fun zero => ?_, ?_, ?_, ?_⟩
  · exact ⟨a / b, a % b, if_neg nonzero, if_neg nonzero, divides_div_mod a b nonzero⟩
  · exact ⟨if_pos zero, if_pos zero⟩
  · exact congrArg (Except.ok ∘ Literal.bool) (decide_eq_decide.mpr Int64.lt_iff_toInt_lt)
  · exact congrArg (Except.ok ∘ Literal.bool) (decide_eq_decide.mpr Int64.le_iff_toInt_le)
  · exact congrArg (Except.ok ∘ Literal.bool) (decide_eq_decide.mpr Int64.toInt_inj.symm)

/-- The smallest word divided by `-1` is the smallest word with no remainder, divided by zero it is an
error, and less one it wraps. -/
theorem evaluate_integers_smallest :
    let smallest := Int64.minValue
    evaluate .div [.int smallest, .int (-1)] = .ok (.int smallest) ∧
    evaluate .mod [.int smallest, .int (-1)] = .ok (.int 0) ∧ Divides smallest (-1) smallest 0 ∧
    evaluate .div [.int smallest, .int 0] = .error .divisionByZero ∧
    Wraps (evaluate .sub [.int smallest, .int 1]) (-2 ^ 63 - 1) := by
  intro smallest
  obtain ⟨-, -, -, divisible, -⟩ := evaluate_integers smallest (-1)
  obtain ⟨-, -, -, -, fails, -⟩ := evaluate_integers smallest 0
  obtain ⟨-, wraps, -⟩ := evaluate_integers smallest 1
  have difference : smallest.toInt - Int64.toInt 1 = -2 ^ 63 - 1 := by decide
  rw [difference] at wraps
  obtain ⟨quotient, remainder, divided, reduced, divides⟩ := divisible (by decide)
  obtain rfl : quotient = smallest := divides.overflowing ⟨rfl, rfl⟩
  obtain rfl : remainder = 0 := by
    have small : remainder.toInt.natAbs < 1 := divides.smaller
    exact Int64.toInt_inj.mp (Int.natAbs_eq_zero.mp (Nat.lt_one_iff.mp small))
  exact ⟨divided, reduced, divides, (fails rfl).1, wraps⟩

end Operator

end CpsGraph
