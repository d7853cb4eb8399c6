import CpsGraph.Proofs.Results
import CpsGraph.Run

/-! # Runs of two programs side by side

Two programs whose configurations are related step by step have related outcomes, for every limit on
the number of steps. A failure on one side ends both runs, so it has to be related to whatever the
other side would have given.
-/

namespace CpsGraph.Program

/-- The number of steps that a run may take. -/
def allowance (limit : Option UInt64) : Nat := limit.elim stepCeiling UInt64.toNat

/-- What is seen of an outcome. Without a limit a run whose steps cannot be counted is not seen. -/
def observed : (limit : Option UInt64) → Except EvalError Halt → Option (Except EvalError Halt)
  | none, outcome => counted? outcome
  | some _, outcome => some outcome

section Runs

variable {program : Program} {halts : List Name} {halt : Halt} {config : Configuration}
  {remaining steps : Nat}

theorem run_eq_observed (program : Program) (entry : Name) (arguments : List Value)
    (halts : List Name) (limit : Option UInt64) : program.run entry arguments halts limit =
      observed limit (program.runWithin entry arguments halts (allowance limit)) := by
  cases limit <;> rfl

/-- What is seen is the outcome, unless the steps of a run without a limit cannot be counted. -/
theorem observed_cases (limit : Option UInt64) (outcome : Except EvalError Halt) :
    observed limit outcome = some outcome ∨ observed limit outcome = none ∧ limit = none ∧
      ((∃ steps, outcome = .error (.stepLimitExceeded steps)) ∨
        ∃ halt, outcome = .ok halt ∧ stepCeiling ≤ halt.steps) := by
  cases limit with
  | some limit => exact .inl rfl
  | none =>
    cases outcome with
    | ok halt =>
      rw [observed, counted?]
      split
      next => exact .inl rfl
      next uncounted => exact .inr ⟨rfl, rfl, .inr ⟨halt, rfl, Nat.le_of_not_lt uncounted⟩⟩
    | error error =>
      cases error with
      | stepLimitExceeded steps => exact .inr ⟨rfl, rfl, .inl ⟨steps, rfl⟩⟩
      | _ => exact .inl rfl

theorem observed_ok (limit : Option UInt64) (counted : halt.steps < stepCeiling) :
    observed limit (.ok halt) = some (.ok halt) := by
  cases limit with
  | some limit => rfl
  | none => rw [observed, counted?, if_pos counted]

theorem runFor_of_halts (stops : config.name ∈ halts) :
    program.runFor halts remaining steps config = .ok (config.halt steps) := by
  unfold runFor
  exact if_pos stops

theorem runFor_zero (goesOn : config.name ∉ halts) :
    program.runFor halts 0 steps config = .error (.stepLimitExceeded steps) := by
  unfold runFor
  exact if_neg goesOn

theorem runFor_succ (goesOn : config.name ∉ halts) :
    program.runFor halts (remaining + 1) steps config =
      program.step config >>= program.runFor halts remaining (steps + 1) := by
  rw [runFor, if_neg goesOn]
  cases program.step config <;> rfl

end Runs

/-- Two steps keep configurations related, or end both runs with related outcomes. -/
inductive Advances (Related : Configuration → Configuration → Prop)
    (Result : Except EvalError Halt → Except EvalError Halt → Prop) :
    Except EvalError Configuration → Except EvalError Configuration → Prop
  | both {left right : Configuration} (related : Related left right) :
      Advances Related Result (.ok left) (.ok right)
  | leftFails {error : EvalError} {right : Except EvalError Configuration}
      (fails : ∀ outcome, Result (.error error) outcome) :
      Advances Related Result (.error error) right
  | rightFails {left : Except EvalError Configuration} {error : EvalError}
      (fails : ∀ outcome, Result outcome (.error error)) :
      Advances Related Result left (.error error)
  | bothFail {leftError rightError : EvalError} (fails : Result (.error leftError) (.error rightError)) :
      Advances Related Result (.error leftError) (.error rightError)

/-- Runs from related configurations have related outcomes if steps keep configurations related. -/
theorem runFor_related (first second : Program) {halts : List Name}
    (Related : Configuration → Configuration → Prop)
    (Result : Except EvalError Halt → Except EvalError Halt → Prop)
    (step : ∀ left right, Related left right → left.name ∉ halts →
      Advances Related Result (first.step left) (second.step right))
    (stopTogether : ∀ left right, Related left right → (left.name ∈ halts ↔ right.name ∈ halts))
    (stopped : ∀ left right steps, Related left right → left.name ∈ halts →
      Result (.ok (left.halt steps)) (.ok (right.halt steps)))
    (exceeded : ∀ steps, Result (.error (.stepLimitExceeded steps)) (.error (.stepLimitExceeded steps)))
    {left right : Configuration} (related : Related left right) (remaining steps : Nat) :
    Result (first.runFor halts remaining steps left) (second.runFor halts remaining steps right) := by
  induction remaining generalizing steps left right with
  | zero =>
    by_cases stops : left.name ∈ halts
    · rw [runFor_of_halts stops, runFor_of_halts ((stopTogether left right related).mp stops)]
      exact stopped left right steps related stops
    · rw [runFor_zero stops, runFor_zero (mt (stopTogether left right related).mpr stops)]
      exact exceeded steps
  | succ remaining ih =>
    by_cases stops : left.name ∈ halts
    · rw [runFor_of_halts stops, runFor_of_halts ((stopTogether left right related).mp stops)]
      exact stopped left right steps related stops
    · rw [runFor_succ stops, runFor_succ (mt (stopTogether left right related).mpr stops)]
      have advances := step left right related stops
      generalize first.step left = leftNext at advances
      generalize second.step right = rightNext at advances
      cases advances with
      | both related => exact ih related (steps + 1)
      | leftFails fails => exact fails _
      | rightFails fails => exact fails _
      | bothFail fails => exact fails

end CpsGraph.Program
