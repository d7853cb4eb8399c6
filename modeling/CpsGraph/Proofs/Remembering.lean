import CpsGraph.Node.Basic
import CpsGraph.Proofs.Results

/-! # Remembered results

The evaluator and the type checker remember what they found for a node. A computation with such a
memory follows a plain one if, from every memory that only holds right results, it gives the plain
result and again leaves such a memory, or fails with the plain error. This is kept by sequencing,
so a computation follows its plain version as soon as each of its steps does.
-/

namespace CpsGraph

/-- From every sound memory, the computation gives the plain result and leaves a sound memory, or
fails with the plain error. -/
def Follows {σ ε α : Type} (Sound : σ → Prop) (computation : StateT σ (Except ε) α)
    (plain : Except ε α) : Prop :=
  ∀ memory, Sound memory →
    match plain with
    | .ok value => ∃ later, Sound later ∧ computation.run memory = .ok (value, later)
    | .error error => computation.run memory = .error error

namespace Follows

variable {σ ε α β : Type} {Sound : σ → Prop}

theorem pure (value : α) : Follows Sound (Pure.pure value) (.ok value : Except ε α) :=
  fun memory sound => ⟨memory, sound, rfl⟩

theorem throw (error : ε) :
    Follows Sound (MonadExcept.throw error) (.error error : Except ε α) :=
  fun _ _ => rfl

/-- A step that does not use the memory follows itself. -/
theorem lift (plain : Except ε α) : Follows Sound (liftM plain) plain := by
  intro memory sound
  cases plain with
  | error error => rfl
  | ok value => exact ⟨memory, sound, rfl⟩

/-- Following is kept by sequencing. The second step only has to follow for results of the first. -/
theorem bind {first : StateT σ (Except ε) α} {plain : Except ε α}
    {second : α → StateT σ (Except ε) β} {next : α → Except ε β} (follows : Follows Sound first plain)
    (later : ∀ value, plain = .ok value → Follows Sound (second value) (next value)) :
    Follows Sound (first >>= second) (plain >>= next) := by
  intro memory sound
  have ran := follows memory sound
  cases plain with
  | error error =>
    simp only [StateT.run_bind] at ran ⊢
    rw [ran]
    rfl
  | ok value =>
    obtain ⟨middle, soundMiddle, ran⟩ := ran
    have rest := later value rfl middle soundMiddle
    simp only [StateT.run_bind, ran]
    exact rest

/-- Treating the elements of a list one after the other follows if treating each of them does. -/
theorem mapM {act : α → StateT σ (Except ε) β} {plain : α → Except ε β} {elements : List α}
    (each : ∀ element ∈ elements, Follows Sound (act element) (plain element)) :
    Follows Sound (elements.mapM act) (elements.mapM plain) := by
  induction elements with
  | nil => exact pure []
  | cons element elements ih =>
    simp only [List.mapM_cons]
    refine (each element List.mem_cons_self).bind fun first _ => ?_
    refine (ih fun other member => each other (List.mem_cons_of_mem _ member)).bind fun rest _ => ?_
    exact pure (first :: rest)

/-- Checking the elements of a list one after the other follows if checking each of them does. -/
theorem forM {act : α → StateT σ (Except ε) Unit} {plain : α → Except ε Unit} {elements : List α}
    (each : ∀ element ∈ elements, Follows Sound (act element) (plain element)) :
    Follows Sound (elements.forM act) (elements.forM plain) := by
  induction elements with
  | nil => exact pure ()
  | cons element elements ih =>
    simp only [List.forM_eq_forM, List.forM_cons] at ih ⊢
    refine (each element List.mem_cons_self).bind fun _ _ => ?_
    exact ih fun other member => each other (List.mem_cons_of_mem _ member)

/-- Without anything remembered beforehand, the result is the plain one. -/
theorem run_eq {computation : StateT σ (Except ε) α} {plain : Except ε α}
    (follows : Follows Sound computation plain) {memory : σ} (sound : Sound memory) :
    computation.run' memory = plain := by
  have ran := follows memory sound
  cases plain with
  | error error =>
    simp only [StateT.run'_eq] at ran ⊢
    rw [ran]
    rfl
  | ok value =>
    obtain ⟨later, -, ran⟩ := ran
    simp only [StateT.run'_eq, ran]
    rfl

end Follows

/-- Everything that is remembered for a node is its plain result. -/
def Remembers {ε α : Type} (plain : Handle → Except ε α) (memory : List (Handle × α)) : Prop :=
  ∀ handle value, memory.lookup handle = some value → plain handle = .ok value

namespace Remembers

variable {ε α : Type} {plain : Handle → Except ε α} {handle : Handle}

theorem nil : Remembers plain [] := by
  intro handle value present
  cases present

theorem cons {memory : List (Handle × α)} {value : α} (sound : Remembers plain memory)
    (right : plain handle = .ok value) : Remembers plain ((handle, value) :: memory) :=
  Results.forall_lookup_cons sound right

/-- Remembering the result for a node leaves the memory sound. -/
theorem follows_store {computation : StateT (List (Handle × α)) (Except ε) α}
    (follows : Follows (Remembers plain) computation (plain handle)) :
    Follows (Remembers plain)
      (do let value ← computation; modify ((handle, value) :: ·); return value) (plain handle) := by
  intro memory sound
  have ran := follows memory sound
  rw [StateT.run_bind]
  cases right : plain handle with
  | error error =>
    rw [right] at ran
    rw [show computation.run memory = .error error from ran]
    rfl
  | ok value =>
    rw [right] at ran
    obtain ⟨later, soundLater, ran⟩ := ran
    rw [ran]
    exact ⟨(handle, value) :: later, soundLater.cons right, rfl⟩

/-- Looking for a node in the memory first does not change the result. -/
theorem follows_recall {computation search : StateT (List (Handle × α)) (Except ε) α}
    (recalls : ∀ memory, computation.run memory =
      (memory.lookup handle).elim (search.run memory) fun value => .ok (value, memory))
    (follows : Follows (Remembers plain) search (plain handle)) :
    Follows (Remembers plain) computation (plain handle) := by
  intro memory sound
  have ran := follows memory sound
  rw [recalls memory]
  cases remembered : memory.lookup handle with
  | none => exact ran
  | some known =>
    rw [sound handle known remembered]
    exact ⟨memory, sound, rfl⟩

end Remembers

end CpsGraph
