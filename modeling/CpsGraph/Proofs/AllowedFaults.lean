import CpsGraph.Proofs.Results

/-! # Allowed faults

Computations that can fail, but only for some reasons. A computation made of steps that fail only for
allowed reasons does so too, also if it carries a state and the steps keep a condition on the state.
-/

namespace CpsGraph

namespace Results

variable {ε δ α β : Type} {Allowed : ε → Prop}

/-- A step that fails does so for an allowed reason. -/
def FailsOnly (Allowed : ε → Prop) (step : Except ε α) : Prop :=
  ∀ error, step = .error error → Allowed error

namespace FailsOnly

theorem ok (value : α) : FailsOnly Allowed (.ok value : Except ε α) := nofun

theorem error {error : ε} (allowed : Allowed error) : FailsOnly Allowed (.error error : Except ε α) := by
  intro other same
  cases same
  exact allowed

theorem bind {step : Except ε α} {next : α → Except ε β} (first : FailsOnly Allowed step)
    (second : ∀ value, step = .ok value → FailsOnly Allowed (next value)) :
    FailsOnly Allowed (step >>= next) := by
  cases step with
  | error fault => exact error (first fault rfl)
  | ok value => exact second value rfl

theorem mapM {act : α → Except ε β} {elements : List α}
    (each : ∀ element ∈ elements, FailsOnly Allowed (act element)) :
    FailsOnly Allowed (elements.mapM act) := by
  induction elements with
  | nil => exact ok []
  | cons element elements ih =>
    rw [List.mapM_cons]
    refine (each element List.mem_cons_self).bind fun first _ => ?_
    refine (ih fun other member => each other (List.mem_cons_of_mem _ member)).bind fun rest _ => ?_
    exact ok (first :: rest)

theorem mapError {Limit : δ → Prop} {step : Except δ α} {wrap : δ → ε} (limited : FailsOnly Limit step)
    (wrapped : ∀ fault, Limit fault → Allowed (wrap fault)) : FailsOnly Allowed (step.mapError wrap) := by
  cases step with
  | error fault => exact error (wrapped fault (limited fault rfl))
  | ok value => exact ok value

theorem ofSuccess {result : Except ε (α × Event)} (limited : FailsOnly Allowed result) :
    FailsOnly Allowed (Report.ofSuccess result).outcome := by
  cases result with
  | error fault => exact error (limited fault rfl)
  | ok pair => exact ok pair.1

theorem elim {option : Option α} {fault : ε} (allowed : Allowed fault) :
    FailsOnly Allowed (option.elim (.error fault) .ok) := by
  cases option with
  | none => exact error allowed
  | some value => exact ok value

end FailsOnly

end Results

open Results

/-- From every sound state a computation leaves a sound state, or fails for an allowed reason. -/
def Keeps {σ ε α : Type} (Sound : σ → Prop) (Allowed : ε → Prop) (computation : StateT σ (Except ε) α) :
    Prop :=
  ∀ state, Sound state → FailsOnly Allowed (computation.run state) ∧
    ∀ result later, computation.run state = .ok (result, later) → Sound later

namespace Keeps

variable {σ ε α β : Type} {Sound : σ → Prop} {Allowed : ε → Prop}

theorem pure (value : α) : Keeps Sound Allowed (Pure.pure value : StateT σ (Except ε) α) := by
  refine fun state sound => ⟨.ok (value, state), fun result later ran => ?_⟩
  cases ran
  exact sound

theorem throw {error : ε} (allowed : Allowed error) :
    Keeps Sound Allowed (MonadExcept.throw error : StateT σ (Except ε) α) :=
  fun _ _ => ⟨.error allowed, nofun⟩

theorem bind {first : StateT σ (Except ε) α} {second : α → StateT σ (Except ε) β}
    (keeps : Keeps Sound Allowed first) (next : ∀ value, Keeps Sound Allowed (second value)) :
    Keeps Sound Allowed (first >>= second) := by
  intro state sound
  obtain ⟨limited, kept⟩ := keeps state sound
  rw [StateT.run_bind]
  refine ⟨limited.bind fun pair ran => (next pair.1 pair.2 (kept _ _ ran)).1, fun result later ran => ?_⟩
  obtain ⟨⟨value, middle⟩, ranFirst, ranSecond⟩ := bind_eq_ok_iff.mp ran
  exact (next value middle (kept _ _ ranFirst)).2 result later ranSecond

theorem mapM {act : α → StateT σ (Except ε) β} {elements : List α}
    (each : ∀ element ∈ elements, Keeps Sound Allowed (act element)) :
    Keeps Sound Allowed (elements.mapM act) := by
  induction elements with
  | nil => exact pure []
  | cons element elements ih =>
    rw [List.mapM_cons]
    refine (each element List.mem_cons_self).bind fun first => ?_
    refine (ih fun other member => each other (List.mem_cons_of_mem _ member)).bind fun rest => ?_
    exact pure (first :: rest)

theorem forM {act : α → StateT σ (Except ε) Unit} {elements : List α}
    (each : ∀ element ∈ elements, Keeps Sound Allowed (act element)) :
    Keeps Sound Allowed (elements.forM act) := by
  induction elements with
  | nil => exact pure ()
  | cons element elements ih =>
    change Keeps Sound Allowed (act element >>= fun _ => elements.forM act)
    refine (each element List.mem_cons_self).bind fun _ => ?_
    exact ih fun other member => each other (List.mem_cons_of_mem _ member)

end Keeps

end CpsGraph
