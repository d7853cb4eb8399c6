import CpsGraph.Proofs.KnownHandles
import CpsGraph.Proofs.RunPaths
import CpsGraph.Samples

/-! # Limits on the number of steps

A limit only cuts a run off. If a run halts, it does so with every limit that is not below the number
of its steps, and every limit below is exceeded. A failure for another reason shows with every larger
limit and without a limit, and a limit that is exceeded shows that every smaller one is. The error
names the limit that was set, since no step fails for a limit.
-/

namespace CpsGraph.Program

variable {program : Program} {entry : Name} {arguments : List Value} {halts : List Name}
  {config : Configuration} {limit : Nat} {halt : Halt} {error : EvalError}

theorem step_ne_exceeded (wellFormed : program.WellFormed) (config : Configuration) (steps : Nat) :
    program.step config ≠ .error (.stepLimitExceeded steps) := by
  intro failed
  cases evaluates_step wellFormed config _ failed

theorem start_ne_exceeded (program : Program) (entry : Name) (arguments : List Value) (steps : Nat) :
    program.start entry arguments ≠ .error (.stepLimitExceeded steps) := by
  intro failed
  cases evaluates_start program entry arguments _ failed

/-! ## From a configuration -/

/-- A run that halts takes the same steps with every limit that allows them. -/
theorem Ends.of_ok (ends : program.Ends halts limit 0 config (.ok halt)) :
    (∀ larger, halt.steps ≤ larger → program.runFor halts larger 0 config = .ok halt) ∧
    ∀ smaller < halt.steps,
      program.runFor halts smaller 0 config = .error (.stepLimitExceeded smaller) := by
  cases ends with
  | @halts count later path inTime stops =>
    rw [Nat.zero_add]
    refine ⟨fun larger allowed => ?_, fun smaller short => ?_⟩
    · obtain ⟨rest, rfl⟩ := Nat.exists_eq_add_of_le allowed
      change program.runFor halts (count + rest) 0 config = _
      rw [path.runFor_add, runFor_of_halts stops, Nat.zero_add]
    · rw [path.runFor_of_lt short, Nat.zero_add]

/-- A run that fails at a step does so with every limit that allows the step. -/
theorem Ends.of_error (ends : program.Ends halts limit 0 config (.error error))
    (notExceeded : ∀ steps, error ≠ .stepLimitExceeded steps) (larger : Nat) (grown : limit ≤ larger) :
    program.runFor halts larger 0 config = .error error := by
  cases ends with
  | @fails count later _ path inTime goesOn failed =>
    obtain ⟨rest, rfl⟩ : ∃ rest, larger = count + (rest + 1) := ⟨larger - count - 1, by omega⟩
    rw [path.runFor_add, runFor_succ goesOn, failed]
    rfl
  | exceeds => exact absurd rfl (notExceeded _)

/-- A run that exceeds its limit exceeds every smaller limit. -/
theorem Ends.of_exceeded (wellFormed : program.WellFormed) {steps : Nat}
    (ends : program.Ends halts limit 0 config (.error (.stepLimitExceeded steps))) :
    steps = limit ∧ ∀ smaller ≤ limit,
      program.runFor halts smaller 0 config = .error (.stepLimitExceeded smaller) := by
  cases ends with
  | fails path inTime goesOn failed => exact absurd failed (step_ne_exceeded wellFormed _ _)
  | exceeds path goesOn =>
    refine ⟨Nat.zero_add limit, fun smaller shrunk => ?_⟩
    rcases Nat.lt_or_eq_of_le shrunk with short | rfl
    · rw [path.runFor_of_lt short, Nat.zero_add]
    · have ran := path.runFor_add 0 0
      rwa [runFor_zero goesOn, Nat.zero_add, Nat.add_zero] at ran

/-! ## From the call of a label -/

/-- A run fails before its first step, whatever its limit is, or it begins at a configuration. -/
theorem runWithin_cases (program : Program) (entry : Name) (arguments : List Value)
    (halts : List Name) :
    (∃ error, program.start entry arguments = .error error ∧
      ∀ limit, program.runWithin entry arguments halts limit = .error error) ∨
    ∃ config, ∀ limit,
      program.runWithin entry arguments halts limit = program.runFor halts limit 0 config := by
  unfold runWithin
  cases started : program.start entry arguments with
  | error error => exact .inl ⟨error, rfl, fun _ => rfl⟩
  | ok config => exact .inr ⟨config, fun _ => rfl⟩

theorem runWithin_of_ok (ran : program.runWithin entry arguments halts limit = .ok halt) :
    (∀ larger, halt.steps ≤ larger →
      program.runWithin entry arguments halts larger = .ok halt) ∧
    ∀ smaller < halt.steps, program.runWithin entry arguments halts smaller =
      .error (.stepLimitExceeded smaller) := by
  rcases program.runWithin_cases entry arguments halts with ⟨error, -, fails⟩ | ⟨config, runs⟩
  · rw [fails limit] at ran
    cases ran
  · simp only [runs] at ran ⊢
    exact (ran ▸ program.runFor_ends halts limit 0 config).of_ok

theorem runWithin_of_error (ran : program.runWithin entry arguments halts limit = .error error)
    (notExceeded : ∀ steps, error ≠ .stepLimitExceeded steps) (larger : Nat) (grown : limit ≤ larger) :
    program.runWithin entry arguments halts larger = .error error := by
  rcases program.runWithin_cases entry arguments halts with ⟨cause, -, fails⟩ | ⟨config, runs⟩
  · rw [fails larger, ← ran, fails limit]
  · rw [runs] at ran ⊢
    exact (ran ▸ program.runFor_ends halts limit 0 config).of_error notExceeded larger grown

theorem runWithin_of_exceeded (wellFormed : program.WellFormed) {steps : Nat}
    (ran : program.runWithin entry arguments halts limit = .error (.stepLimitExceeded steps)) :
    steps = limit ∧ ∀ smaller ≤ limit, program.runWithin entry arguments halts smaller =
      .error (.stepLimitExceeded smaller) := by
  rcases program.runWithin_cases entry arguments halts with ⟨error, failed, fails⟩ | ⟨config, runs⟩
  · rw [fails limit] at ran
    cases ran
    exact absurd failed (start_ne_exceeded program entry arguments steps)
  · simp only [runs] at ran ⊢
    exact (ran ▸ program.runFor_ends halts limit 0 config).of_exceeded wellFormed

/-- A failure is seen, unless it is that of the limit. -/
theorem observed_error (limit : Option UInt64) (notExceeded : ∀ steps, error ≠ .stepLimitExceeded steps) :
    observed limit (.error error) = some (.error error) := by
  rcases observed_cases limit (.error error) with seen | ⟨-, -, ⟨steps, exceeded⟩ | ⟨_, halted, -⟩⟩
  · exact seen
  · exact absurd (Except.error.inj exceeded) (notExceeded steps)
  · cases halted

/-- The limit on the number of steps only cuts runs off: whether and how a run halts or fails does not
depend on it, as long as it is not exceeded, and it is exceeded exactly if it is too small. The number
of steps of a run that halts is always a possible limit. -/
theorem run_limit (wellFormed : program.WellFormed) (entry : Name) (arguments : List Value)
    (halts : List Name) :
    (∀ limit halt, program.run entry arguments halts limit = some (.ok halt) →
      halt.steps < UInt64.size ∧
      (∀ bound : UInt64, limit = some bound → halt.steps ≤ bound.toNat) ∧
      (∀ larger : UInt64, halt.steps ≤ larger.toNat →
        program.run entry arguments halts (some larger) = some (.ok halt)) ∧
      program.run entry arguments halts none = some (.ok halt) ∧
      ∀ smaller : UInt64, smaller.toNat < halt.steps →
        program.run entry arguments halts (some smaller) =
          some (.error (.stepLimitExceeded smaller.toNat))) ∧
    (∀ (limit : UInt64) error,
      program.run entry arguments halts (some limit) = some (.error error) →
      (∀ steps, error ≠ .stepLimitExceeded steps) →
      (∀ larger, limit ≤ larger →
        program.run entry arguments halts (some larger) = some (.error error)) ∧
      program.run entry arguments halts none = some (.error error)) ∧
    ∀ (limit : UInt64) steps,
      program.run entry arguments halts (some limit) = some (.error (.stepLimitExceeded steps)) →
      steps = limit.toNat ∧ ∀ smaller ≤ limit, program.run entry arguments halts (some smaller) =
        some (.error (.stepLimitExceeded smaller.toNat)) := by
  refine ⟨fun limit halt ran => ?_, fun limit error ran notExceeded => ?_, fun limit steps ran => ?_⟩
  · obtain ⟨halted, counted⟩ := run_eq_halt_iff.mp ran
    obtain ⟨larger, smaller⟩ := runWithin_of_ok halted
    refine ⟨counted, ?_, fun grown allowed => ?_, ?_, fun shrunk short => ?_⟩
    · rintro bound rfl
      exact steps_le_of_runWithin halted
    · exact congrArg some (larger grown.toNat allowed)
    · exact run_eq_halt_iff.mpr ⟨larger stepCeiling (Nat.le_of_lt counted), counted⟩
    · exact congrArg some (smaller shrunk.toNat short)
  · have larger := runWithin_of_error (Option.some.inj ran) notExceeded
    refine ⟨fun grown le => congrArg some (larger grown.toNat (UInt64.le_iff_toNat_le.mp le)), ?_⟩
    rw [run_eq_observed, larger (allowance none) (Nat.le_of_lt limit.toNat_lt_size)]
    exact observed_error none notExceeded
  · obtain ⟨same, smaller⟩ := runWithin_of_exceeded wellFormed (Option.some.inj ran)
    exact ⟨same, fun shrunk le => congrArg some (smaller _ (UInt64.le_iff_toNat_le.mp le))⟩

/-- The factorial of five takes twelve steps. A call of its loop without the number fails at the
first step, and seven takes more than three steps. -/
theorem run_limit_factorial :
    let program := Samples.factorialWithReturn.toOption.getD {}
    let five := [.literal (.int 5), .closure "ret" []]
    let halt : Halt := ⟨"ret", [.literal (.int 120)], 12⟩
    program.WellFormed ∧
    program.run "fac" five ["ret"] none = some (.ok halt) ∧
    program.run "fac" five ["ret"] (some 12) = some (.ok halt) ∧
    program.run "fac" five ["ret"] (some 11) = some (.error (.stepLimitExceeded 11)) ∧
    program.run "head" [.literal (.int 2), .literal (.int 1)] ["ret"] none =
      some (.error (.unboundParameter "fac" 0)) ∧
    program.run "fac" [.literal (.int 7), .closure "ret" []] ["ret"] (some 2) =
      some (.error (.stepLimitExceeded 2)) := by
  intro program five halt
  obtain ⟨wellFormed, halted, failed, exceeded⟩ :
      program.WellFormed ∧
      program.run "fac" five ["ret"] (some 20) = some (.ok halt) ∧
      program.run "head" [.literal (.int 2), .literal (.int 1)] ["ret"] (some 1) =
        some (.error (.unboundParameter "fac" 0)) ∧
      program.run "fac" [.literal (.int 7), .closure "ret" []] ["ret"] (some 3) =
        some (.error (.stepLimitExceeded 3)) := by decide +kernel
  obtain ⟨-, -, larger, unlimited, smaller⟩ :=
    (run_limit wellFormed "fac" five ["ret"]).1 (some 20) halt halted
  obtain ⟨-, failsToo⟩ := (run_limit wellFormed "head" _ ["ret"]).2.1 1 _ failed (by simp)
  obtain ⟨-, exceedsToo⟩ := (run_limit wellFormed "fac" _ ["ret"]).2.2 3 _ exceeded
  exact ⟨wellFormed, unlimited, larger 12 (by decide), smaller 11 (by decide), failsToo,
    exceedsToo 2 (by decide)⟩

end CpsGraph.Program
