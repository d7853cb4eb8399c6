import CpsGraph.Proofs.ImportLedger
import CpsGraph.Proofs.SimplifiedRuns

/-! # What identities leave of operators

An identity is applied when only one operand is known, so the other one stands for any value. What it
leaves has the value of the operator in every environment in which the operator has one. The
remainder by one is the exception: it is replaced by its dividend, although it is zero.
-/

namespace CpsGraph

namespace Simplify

variable {op : Operator} {operands : List Handle} {state later : State} {new : Handle}

/-- An identity that is applied holds for two operands, and leaves what it says of them. -/
theorem applyIdentity?_eq_some (ran : (applyIdentity? op operands).run state = .ok (some new) later) :
    ∃ left right reduction, operands = [left, right] ∧
      op.identity? (state.program.table.known? left) (state.program.table.known? right) =
        some reduction ∧
      later.program.table.Extends state.program.table ∧
      Leaves later.program.table left right new reduction := by
  rcases operands with _ | ⟨left, _ | ⟨right, _ | ⟨third, rest⟩⟩⟩
  · cases ran
  · cases ran
  · rw [applyIdentity?_run_two] at ran
    cases identity : op.identity? (state.program.table.known? left)
        (state.program.table.known? right) with
    | none =>
      rw [identity] at ran
      cases ran
    | some reduction =>
      rw [identity] at ran
      refine ⟨left, right, reduction, rfl, identity, ?_⟩
      cases reduction with
      | left | right =>
        cases ran
        exact ⟨Table.extends_refl _, rfl⟩
      | constant literal =>
        cases ran
        exact ⟨Table.extends_intern _ _, Table.get?_intern _ _⟩
  · cases ran

section Values

variable {program : Program} {env : Env} {handle : Handle}
  (wellFormed : program.table.WellFormed)

include wellFormed

/-- A literal that was known when the table was smaller is the value of its handle. -/
theorem eq_of_known {table : Table} {literal : Literal} (growth : program.table.Extends table)
    (value : program.value env handle = .ok (.literal literal)) :
    ∀ found, table.known? handle = some found → literal = found := by
  intro found known
  have present := growth (Table.known?_eq_some_iff.mp known).1
  rw [Program.value_quote wellFormed present] at value
  cases value
  rfl

/-- What is left of two operands has the literal that the reduction says. -/
theorem value_of_leaves {left right : Handle} {leftLiteral rightLiteral : Literal}
    {reduction : Reduction} (leaves : Leaves program.table left right new reduction)
    (leftValue : program.value env left = .ok (.literal leftLiteral))
    (rightValue : program.value env right = .ok (.literal rightLiteral)) :
    program.value env new = .ok (.literal (reduction.literal leftLiteral rightLiteral)) := by
  cases reduction with
  | left =>
    cases leaves
    exact leftValue
  | right =>
    cases leaves
    exact rightValue
  | constant literal => exact Program.value_quote wellFormed leaves

end Values

end Simplify

/-- A remainder is reduced only if the divisor is one, to its dividend. It is zero then. -/
theorem Operator.identity?_remainder {knownLeft knownRight : Option Literal} {reduction : Reduction}
    {left right result : Literal} (identity : Operator.mod.identity? knownLeft knownRight = some reduction)
    (atRight : ∀ literal, knownRight = some literal → right = literal)
    (evaluated : Operator.mod.evaluate [left, right] = .ok result) :
    reduction = .left ∧ knownRight = some (.int 1) ∧ result = .int 0 ∧
      ∃ dividend, left = .int dividend := by
  simp only [Operator.identity?] at identity
  split_ifs at identity with one
  cases identity
  obtain rfl := atRight _ one
  simp only [Operator.evaluate, Results.bind_eq_ok_iff, Program.asInt_eq_ok_iff] at evaluated
  obtain ⟨dividend, rfl, divisor, isOne, evaluated⟩ := evaluated
  cases isOne
  cases evaluated
  exact ⟨rfl, one, congrArg Literal.int Int64.mod_one, dividend, rfl⟩

namespace Simplify

/-- What an identity leaves has the value of the operator, in every program in which the nodes are and
in every environment in which the operator has a value. Only a remainder by one is not kept: it is
zero, and what is left of it is the dividend. -/
theorem applyIdentity?_value {op : Operator} {operands : List Handle} {state later : State}
    {new : Handle} (ran : (applyIdentity? op operands).run state = .ok (some new) later)
    {program : Program} (wellFormed : program.table.WellFormed)
    (growth : program.table.Extends later.program.table) {handle : Handle}
    (present : program.table.get? handle = some (.primitive op operands)) {env : Env} {value : Value}
    (success : program.evaluate env handle = .ok value) :
    (op ≠ .mod → program.evaluate env new = .ok value) ∧
    (op = .mod → ∃ divisor dividend, operands = [new, divisor] ∧
      program.table.get? divisor = some (.quote (.int 1)) ∧ value = .literal (.int 0) ∧
      program.evaluate env new = .ok (.literal (.int dividend))) := by
  obtain ⟨left, right, reduction, rfl, identity, grown, leaves⟩ := applyIdentity?_eq_some ran
  rw [Program.evaluate_eq_value wellFormed] at success ⊢
  obtain ⟨literals, result, values, evaluated, rfl⟩ :=
    (Program.value_primitive_iff wellFormed present).mp success
  obtain _ | ⟨leftValue, _ | ⟨rightValue, _ | _⟩⟩ := values
  rename_i leftLiteral rightLiteral
  have grown := growth.trans grown
  have knownLeft := eq_of_known wellFormed grown leftValue
  have knownRight := eq_of_known wellFormed grown rightValue
  have leaves := leaves.mono growth
  constructor
  · intro notRemainder
    rw [Operator.identity?_sound identity notRemainder knownLeft knownRight evaluated]
    exact value_of_leaves wellFormed leaves leftValue rightValue
  · rintro rfl
    obtain ⟨rfl, one, rfl, dividend, rfl⟩ :=
      Operator.identity?_remainder identity knownRight evaluated
    cases leaves
    exact ⟨right, dividend, rfl, grown (Table.known?_eq_some_iff.mp one).1, rfl, leftValue⟩

end Simplify

namespace Samples

open Build

/-- The label `f(x, k)` calls `k` with `x * 1 + x % 1`. -/
def units : Program :=
  let steps : BuildM Unit := do
    let x ← parameter "f" 0
    let one ← int 1
    let product ← primitive .mul [x, one]
    let remainder ← primitive .mod [x, one]
    let k ← parameter "f" 1
    let _ ← define "f" [.int, .fn [.int]] (← call k [← primitive .add [product, remainder]]) true
  (Build.run steps).toOption.getD {}

end Samples

namespace Simplify

theorem applyIdentity?_run_left {op : Operator} {left right : Handle} {state : State}
    (identity : op.identity? (state.program.table.known? left) (state.program.table.known? right) =
      some .left) :
    (applyIdentity? op [left, right]).run state =
      .ok (some left) { state with folded := state.folded + 1 } := by
  rw [applyIdentity?_run_two, identity]
  rfl

/-- The product of a parameter and one is replaced by the parameter, which has its value. -/
theorem applyIdentity?_value_product :
    let program := Samples.units
    let env : Env := [("f", [.literal (.int 5)])]
    (∃ later : State, (applyIdentity? .mul [0, 1]).run { program } = .ok (some 0) later ∧
      program.table.Extends later.program.table) ∧ program.table.WellFormed ∧
    program.table.get? 2 = some (.primitive .mul [0, 1]) ∧
    program.evaluate env 2 = .ok (.literal (.int 5)) ∧
    program.evaluate env 0 = .ok (.literal (.int 5)) := by
  intro program env
  obtain ⟨identity, wellFormed, present, success⟩ :
      Operator.mul.identity? (program.table.known? 0) (program.table.known? 1) = some .left ∧
      program.table.WellFormed ∧ program.table.get? 2 = some (.primitive .mul [0, 1]) ∧
      program.evaluate env 2 = .ok (.literal (.int 5)) := by decide +kernel
  have ran : (applyIdentity? .mul [0, 1]).run { program } = _ := applyIdentity?_run_left identity
  have growth := Table.extends_refl program.table
  exact ⟨⟨_, ran, growth⟩, wellFormed, present, success,
    (applyIdentity?_value ran wellFormed growth present success).1 (by decide)⟩

/-- The remainder of a parameter by one is replaced by the parameter, which has another value. -/
theorem applyIdentity?_changes_remainder :
    ¬ ∀ (op : Operator) (operands : List Handle) (state later : State) (new : Handle)
      (program : Program) (handle : Handle) (env : Env) (value : Value),
      (applyIdentity? op operands).run state = .ok (some new) later → program.WellFormed →
      program.table.Extends later.program.table →
      program.table.get? handle = some (.primitive op operands) →
      program.evaluate env handle = .ok value → program.evaluate env new = .ok value := by
  intro kept
  let program := Samples.units
  let env : Env := [("f", [.literal (.int 5)])]
  obtain ⟨identity, wellFormed, present, success, changed⟩ :
      Operator.mod.identity? (program.table.known? 0) (program.table.known? 1) = some .left ∧
      program.WellFormed ∧
      program.table.get? 3 = some (.primitive .mod [0, 1]) ∧
      program.evaluate env 3 = .ok (.literal (.int 0)) ∧
      program.evaluate env 0 ≠ .ok (.literal (.int 0)) := by decide +kernel
  exact changed (kept .mod [0, 1] { program } _ 0 program 3 env _ (applyIdentity?_run_left identity)
    wellFormed (Table.extends_refl _) present success)

end Simplify

end CpsGraph
