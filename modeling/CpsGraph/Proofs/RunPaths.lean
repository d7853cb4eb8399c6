import CpsGraph.Proofs.Simulation

/-! # Paths of runs

A run goes from configuration to configuration until it is about to execute a halting label. The
steps taken up to there form a path, and a path determines what the run does with every limit on the
number of steps: with fewer steps than the path has, the limit is exceeded, and with at least as many
the run goes on from the end of the path with those that are left. So a run that halts took no more
steps than it was allowed, and these can be counted if it had a limit.
-/

namespace CpsGraph.Program

/-- So many steps lead from one configuration to another, none of them from a halting label. -/
inductive Path (program : Program) (halts : List Name) : Nat → Configuration → Configuration → Prop
  | nil (config : Configuration) : Path program halts 0 config config
  | cons {count : Nat} {config next later : Configuration} (goesOn : config.name ∉ halts)
      (stepped : program.step config = .ok next) (rest : Path program halts count next later) :
      Path program halts (count + 1) config later

variable {program : Program} {halts : List Name} {config middle later : Configuration}
  {count more remaining : Nat}

namespace Path

/-- Paths compose where one ends and the other begins. -/
theorem append (first : program.Path halts count config middle)
    (second : program.Path halts more middle later) :
    program.Path halts (count + more) config later := by
  induction first with
  | nil => rwa [Nat.zero_add]
  | cons goesOn stepped _ ih =>
    rw [Nat.add_right_comm]
    exact .cons goesOn stepped (ih second)

/-- A run goes on from the end of a path with the steps that are left. -/
theorem runFor_add (path : program.Path halts count config later) (remaining steps : Nat) :
    program.runFor halts (count + remaining) steps config =
      program.runFor halts remaining (steps + count) later := by
  induction path generalizing steps with
  | nil => rw [Nat.zero_add, Nat.add_zero]
  | @cons count _ _ _ goesOn stepped _ ih =>
    have counted : steps + (count + 1) = steps + 1 + count := by omega
    rw [Nat.add_right_comm, runFor_succ goesOn, stepped, counted]
    exact ih (steps + 1)

/-- With fewer steps than a path has, a run exceeds its limit. -/
theorem runFor_of_lt (path : program.Path halts count config later) (short : remaining < count)
    (steps : Nat) : program.runFor halts remaining steps config =
      .error (.stepLimitExceeded (steps + remaining)) := by
  induction path generalizing remaining steps with
  | nil => exact absurd short (Nat.not_lt_zero remaining)
  | cons goesOn stepped _ ih =>
    cases remaining with
    | zero => exact runFor_zero goesOn
    | succ remaining =>
      have counted : steps + (remaining + 1) = steps + 1 + remaining := by omega
      rw [runFor_succ goesOn, stepped, counted]
      exact ih (Nat.lt_of_succ_lt_succ short) (steps + 1)

end Path

/-- How a run ends that has taken some steps before: it halts at the end of a path, fails there, or
has taken all steps that were left. -/
inductive Ends (program : Program) (halts : List Name) (remaining steps : Nat)
    (config : Configuration) : Except EvalError Halt → Prop
  | halts {count : Nat} {later : Configuration} (path : program.Path halts count config later)
      (inTime : count ≤ remaining) (stops : later.name ∈ halts) :
      Ends program halts remaining steps config (.ok (later.halt (steps + count)))
  | fails {count : Nat} {later : Configuration} {error : EvalError}
      (path : program.Path halts count config later) (inTime : count < remaining)
      (goesOn : later.name ∉ halts) (failed : program.step later = .error error) :
      Ends program halts remaining steps config (.error error)
  | exceeds {later : Configuration} (path : program.Path halts remaining config later)
      (goesOn : later.name ∉ halts) :
      Ends program halts remaining steps config (.error (.stepLimitExceeded (steps + remaining)))

/-- A run that takes a step ends as the run from there. -/
theorem Ends.cons {steps : Nat} {next : Configuration} {outcome : Except EvalError Halt}
    (goesOn : config.name ∉ halts) (stepped : program.step config = .ok next)
    (ends : program.Ends halts remaining (steps + 1) next outcome) :
    program.Ends halts (remaining + 1) steps config outcome := by
  cases ends with
  | @halts count later path inTime stops =>
    have counted : steps + 1 + count = steps + (count + 1) := by omega
    rw [counted]
    exact .halts (.cons goesOn stepped path) (Nat.succ_le_succ inTime) stops
  | fails path inTime goesOnLater failed =>
    exact .fails (.cons goesOn stepped path) (Nat.succ_lt_succ inTime) goesOnLater failed
  | exceeds path goesOnLater =>
    have counted : steps + 1 + remaining = steps + (remaining + 1) := by omega
    rw [counted]
    exact .exceeds (.cons goesOn stepped path) goesOnLater

/-- Every run ends in one of the three ways. -/
theorem runFor_ends (program : Program) (halts : List Name) (remaining steps : Nat)
    (config : Configuration) :
    program.Ends halts remaining steps config (program.runFor halts remaining steps config) := by
  induction remaining generalizing steps config with
  | zero =>
    by_cases stops : config.name ∈ halts
    · rw [runFor_of_halts stops]
      exact .halts (.nil config) (Nat.le_refl 0) stops
    · rw [runFor_zero stops]
      exact .exceeds (.nil config) stops
  | succ remaining ih =>
    by_cases stops : config.name ∈ halts
    · rw [runFor_of_halts stops]
      exact .halts (.nil config) (Nat.zero_le _) stops
    · rw [runFor_succ stops]
      cases stepped : program.step config with
      | error error => exact .fails (.nil config) (Nat.succ_pos remaining) stops stepped
      | ok next => exact .cons stops stepped (ih (steps + 1) next)

variable {entry : Name} {arguments : List Value} {limit : Option UInt64} {halt : Halt}

/-- A run that halts took no more steps than it was allowed. -/
theorem steps_le_of_runWithin {limit : Nat}
    (ran : program.runWithin entry arguments halts limit = .ok halt) : halt.steps ≤ limit := by
  obtain ⟨config, -, ran⟩ := Results.bind_eq_ok_iff.mp ran
  have ends := program.runFor_ends halts limit 0 config
  rw [ran] at ends
  cases ends with
  | @halts count _ _ inTime =>
    change 0 + count ≤ limit
    rwa [Nat.zero_add]

/-- A run halts if it halts within its allowance and its steps can be counted. -/
theorem run_eq_halt_iff : program.run entry arguments halts limit = some (.ok halt) ↔
    program.runWithin entry arguments halts (allowance limit) = .ok halt ∧
      halt.steps < stepCeiling := by
  constructor
  · intro ran
    cases limit with
    | some limit =>
      have ran := Option.some.inj ran
      exact ⟨ran, Nat.lt_of_le_of_lt (steps_le_of_runWithin ran) limit.toNat_lt_size⟩
    | none =>
      rw [run_eq_observed, observed] at ran
      generalize program.runWithin entry arguments halts (allowance none) = outcome at ran
      cases outcome with
      | ok found =>
        rw [counted?] at ran
        split_ifs at ran with counted
        cases ran
        exact ⟨rfl, counted⟩
      | error error => cases error <;> cases ran
  · rintro ⟨ran, counted⟩
    rw [run_eq_observed, ran]
    exact observed_ok limit counted

end CpsGraph.Program
