import CpsGraph.Event
import Mathlib.Data.List.Forall2
import Mathlib.Data.List.Nodup
import Mathlib.Data.List.Perm.Basic
import Mathlib.Data.List.TakeWhile
import Mathlib.Tactic.Common

/-! # Results that may fail

How a sequence of steps that may fail succeeds: each step does. Lists of steps succeed pointwise, so
their results are described by `List.Forall₂`, and what is related pointwise can be looked up on
either side.
-/

namespace CpsGraph.Results

variable {ε α β γ : Type}

/-- Two steps succeed if the first does and then the second. -/
theorem bind_eq_ok_iff {first : Except ε α} {second : α → Except ε β} {result : β} :
    first >>= second = .ok result ↔ ∃ value, first = .ok value ∧ second value = .ok result := by
  cases first with
  | error error => simp [bind, Except.bind]
  | ok value => simp [bind, Except.bind]

/-- Two steps that begin alike go on alike if they do so after the same result. -/
theorem bind_eq_of_ok {first second : Except ε α} {next otherNext : α → Except ε β}
    (same : first = second) (rest : ∀ value, first = .ok value → next value = otherNext value) :
    first >>= next = second >>= otherNext := by
  subst same
  cases first with
  | error error => rfl
  | ok value => exact rest value rfl

theorem toOption_eq_some_iff {step : Except ε α} {result : α} :
    step.toOption = some result ↔ step = .ok result := by
  cases step <;> simp [Except.toOption]

/-- An option with an error for its absence succeeds if it is there. -/
theorem elim_eq_ok_iff {option : Option α} {error : ε} {value : α} :
    (option.elim (.error error) .ok : Except ε α) = .ok value ↔ option = some value := by
  cases option <;> simp

theorem elim_eq_error_iff {option : Option α} {error other : ε} :
    (option.elim (.error error) .ok : Except ε α) = .error other ↔ other = error ∧ option = none := by
  cases option <;> simp [eq_comm]

/-- Wording an error differently does not change whether a step succeeds. -/
theorem mapError_eq_ok_iff {δ : Type} {step : Except δ α} {wrap : δ → ε} {result : α} :
    step.mapError wrap = .ok result ↔ step = .ok result := by
  cases step <;> simp [Except.mapError]

/-- An operation that reports one event succeeds if it gives a result with an event. -/
theorem ofSuccess_outcome_eq_ok_iff {result : Except ε (α × Event)} {value : α} :
    (Report.ofSuccess result).outcome = .ok value ↔ ∃ event, result = .ok (value, event) := by
  cases result with
  | error error => simp [Report.ofSuccess]
  | ok pair => simp [Report.ofSuccess, Prod.ext_iff]

/-- Two steps with a state succeed if the first does and then the second. -/
theorem run_bind_eq_ok_iff {σ : Type} {first : EStateM ε σ α} {second : α → EStateM ε σ β}
    {state later : σ} {result : β} :
    (first >>= second).run state = .ok result later ↔
      ∃ value middle, first.run state = .ok value middle ∧
        (second value).run middle = .ok result later := by
  rw [EStateM.run_bind]
  cases first.run state with
  | error error middle => simp
  | ok value middle => simp

theorem run_pure_eq_ok_iff {σ : Type} {value result : α} {state later : σ} :
    (pure value : EStateM ε σ α).run state = .ok result later ↔ result = value ∧ later = state := by
  rw [EStateM.run_pure, EStateM.Result.ok.injEq, eq_comm, @eq_comm σ]

theorem run_modify_eq_ok_iff {σ : Type} {change : σ → σ} {result : PUnit} {state later : σ} :
    (modify change : EStateM ε σ PUnit).run state = .ok result later ↔ later = change state := by
  rw [EStateM.run_modify, EStateM.Result.ok.injEq, @eq_comm σ]
  exact and_iff_right rfl

/-- Treating the elements of a list succeeds if treating each of them does. -/
theorem mapM_eq_ok_iff {act : α → Except ε β} {elements : List α} {results : List β} :
    elements.mapM act = .ok results ↔
      List.Forall₂ (fun element result => act element = .ok result) elements results := by
  induction elements generalizing results with
  | nil => simp [pure, Except.pure, eq_comm]
  | cons element elements ih =>
    simp only [List.mapM_cons, bind_eq_ok_iff, ih, List.forall₂_cons_left_iff]
    constructor
    · rintro ⟨first, atFirst, rest, atRest, same⟩
      cases same
      exact ⟨first, rest, atFirst, atRest, rfl⟩
    · rintro ⟨first, rest, atFirst, atRest, rfl⟩
      exact ⟨first, atFirst, rest, atRest, rfl⟩

/-- If every element has a result, the list has a list of results. -/
theorem exists_forall₂ {Related : α → β → Prop} {elements : List α}
    (each : ∀ element ∈ elements, ∃ result, Related element result) :
    ∃ results, List.Forall₂ Related elements results := by
  induction elements with
  | nil => exact ⟨[], .nil⟩
  | cons element elements ih =>
    obtain ⟨first, atFirst⟩ := each element List.mem_cons_self
    obtain ⟨rest, atRest⟩ := ih fun other member => each other (List.mem_cons_of_mem _ member)
    exact ⟨first :: rest, .cons atFirst atRest⟩

theorem exists_mapM_eq_ok {act : α → Except ε β} {elements : List α}
    (each : ∀ element ∈ elements, ∃ result, act element = .ok result) :
    ∃ results, elements.mapM act = .ok results := by
  obtain ⟨results, related⟩ := exists_forall₂ each
  exact ⟨results, mapM_eq_ok_iff.mpr related⟩

theorem mapM_eq_some_iff {act : α → Option β} {elements : List α} {results : List β} :
    elements.mapM act = some results ↔
      List.Forall₂ (fun element result => act element = some result) elements results := by
  induction elements generalizing results with
  | nil => simp [eq_comm]
  | cons element elements ih =>
    simp only [List.mapM_cons, Option.bind_eq_bind, Option.bind_eq_some_iff, ih,
      List.forall₂_cons_left_iff]
    constructor
    · rintro ⟨first, atFirst, rest, atRest, same⟩
      cases same
      exact ⟨first, rest, atFirst, atRest, rfl⟩
    · rintro ⟨first, rest, atFirst, atRest, rfl⟩
      exact ⟨first, atFirst, rest, atRest, rfl⟩

theorem exists_mapM_eq_some {act : α → Option β} {elements : List α}
    (each : ∀ element ∈ elements, ∃ result, act element = some result) :
    ∃ results, elements.mapM act = some results := by
  obtain ⟨results, related⟩ := exists_forall₂ each
  exact ⟨results, mapM_eq_some_iff.mpr related⟩

theorem mapM_congr {m : Type → Type} [Monad m] [LawfulMonad m] {first second : α → m β}
    {elements : List α} (same : ∀ element ∈ elements, first element = second element) :
    elements.mapM first = elements.mapM second := by
  induction elements with
  | nil => simp
  | cons element elements ih =>
    have atRest := ih fun other member => same other (List.mem_cons_of_mem _ member)
    simp only [List.mapM_cons, same element List.mem_cons_self, atRest]

theorem forM_congr {m : Type → Type} [Monad m] {first second : α → m PUnit} {elements : List α}
    (same : ∀ element ∈ elements, first element = second element) :
    elements.forM first = elements.forM second := by
  induction elements with
  | nil => rfl
  | cons element elements ih =>
    have atRest := ih fun other member => same other (List.mem_cons_of_mem _ member)
    simp only [List.forM_eq_forM, List.forM_cons] at atRest ⊢
    rw [same element List.mem_cons_self, atRest]

/-- A list of optional elements has all of them if it is a list of elements. -/
theorem mapM_id_eq_some_iff {options : List (Option α)} {elements : List α} :
    options.mapM id = some elements ↔ options = elements.map some := by
  rw [mapM_eq_some_iff, ← List.forall₂_eq_eq_eq, List.forall₂_map_right_iff]
  rfl

/-- Going through a list succeeds if every step does, whatever came before it. -/
theorem exists_foldlM_eq_some {step : β → α → Option β} {elements : List α}
    (each : ∀ element ∈ elements, ∀ value, ∃ next, step value element = some next) (start : β) :
    ∃ last, elements.foldlM step start = some last := by
  induction elements generalizing start with
  | nil => exact ⟨start, rfl⟩
  | cons element elements ih =>
    obtain ⟨next, first⟩ := each element List.mem_cons_self start
    obtain ⟨last, rest⟩ := ih (fun other member => each other (List.mem_cons_of_mem _ member)) next
    exact ⟨last, by rw [List.foldlM_cons, first]; exact rest⟩

/-- What every step keeps holds at the end, and what every step makes sure of holds of all elements. -/
theorem foldlM_invariant {step : β → α → Option β} {Keeps : β → Prop} {Holds : α → Prop}
    {elements : List α} (each : ∀ element ∈ elements, ∀ value next, Keeps value →
      step value element = some next → Keeps next ∧ Holds element) {start last : β}
    (begins : Keeps start) (success : elements.foldlM step start = some last) :
    Keeps last ∧ ∀ element ∈ elements, Holds element := by
  induction elements generalizing start with
  | nil =>
    cases success
    exact ⟨begins, nofun⟩
  | cons element elements ih =>
    rw [List.foldlM_cons] at success
    obtain ⟨next, first, rest⟩ := Option.bind_eq_some_iff.mp success
    obtain ⟨kept, holds⟩ := each element List.mem_cons_self start next begins first
    obtain ⟨keptLast, holdsRest⟩ :=
      ih (fun other member => each other (List.mem_cons_of_mem _ member)) kept rest
    exact ⟨keptLast, List.forall_mem_cons.mpr ⟨holds, holdsRest⟩⟩

/-- What is not dropped from the front of a list is left of it. -/
theorem mem_dropWhile_or [BEq α] [LawfulBEq α] (done : List α) {elements : List α} {element : α}
    (member : element ∈ elements) :
    element ∈ elements.dropWhile (· ∈ done) ∨ element ∈ done := by
  rw [← List.takeWhile_append_dropWhile (p := (· ∈ done)) (l := elements), List.mem_append] at member
  rcases member with skipped | kept
  · exact .inr (by simpa using List.mem_takeWhile_imp skipped)
  · exact .inl kept

theorem mem_of_lookup [BEq α] [LawfulBEq α] {pairs : List (α × β)} {key : α} {value : β}
    (found : pairs.lookup key = some value) : (key, value) ∈ pairs := by
  obtain ⟨earlier, later, rfl, -⟩ := List.lookup_eq_some_iff.mp found
  exact List.mem_append_right earlier List.mem_cons_self

/-- Putting a right pair first leaves all that is found right. -/
theorem forall_lookup_cons [BEq α] [LawfulBEq α] {Right : α → β → Prop} {pairs : List (α × β)}
    {key : α} {value : β} (right : ∀ key value, pairs.lookup key = some value → Right key value)
    (first : Right key value) :
    ∀ other found, ((key, value) :: pairs).lookup other = some found → Right other found := by
  intro other found present
  rw [List.lookup_cons] at present
  split at present
  next same =>
    cases present
    rwa [eq_of_beq same]
  next => exact right other found present

section Pointwise

variable {Related : α → β → Prop} {lefts : List α} {rights : List β}

/-- The same choice between related elements gives related elements. -/
theorem related_ite (choice : Bool) {left otherLeft : α} {right otherRight : β}
    (onTrue : Related left right) (onFalse : Related otherLeft otherRight) :
    Related (if choice then left else otherLeft) (if choice then right else otherRight) := by
  cases choice with
  | true => exact onTrue
  | false => exact onFalse

theorem exists_right_of_mem (related : List.Forall₂ Related lefts rights) {left : α}
    (member : left ∈ lefts) : ∃ right ∈ rights, Related left right := by
  induction related with
  | nil => cases member
  | cons first _ ih =>
    rcases List.mem_cons.mp member with rfl | later
    · exact ⟨_, List.mem_cons_self, first⟩
    · obtain ⟨right, inside, here⟩ := ih later
      exact ⟨right, List.mem_cons_of_mem _ inside, here⟩

theorem filterMap_eq_of_related (related : List.Forall₂ Related lefts rights) {ofLeft : α → Option γ}
    {ofRight : β → Option γ} (same : ∀ left right, Related left right → ofLeft left = ofRight right) :
    lefts.filterMap ofLeft = rights.filterMap ofRight := by
  induction related with
  | nil => rfl
  | cons first _ ih => simp only [List.filterMap_cons, same _ _ first, ih]

/-- Treating related elements alike gives the same results. -/
theorem mapM_eq_of_related {m : Type → Type} [Monad m] [LawfulMonad m] {ofLeft : α → m γ}
    {ofRight : β → m γ} (related : List.Forall₂ Related lefts rights)
    (same : ∀ left right, left ∈ lefts → Related left right → ofLeft left = ofRight right) :
    lefts.mapM ofLeft = rights.mapM ofRight := by
  induction related with
  | nil => simp
  | cons first _ ih =>
    have atRest := ih fun left right member => same left right (List.mem_cons_of_mem _ member)
    simp only [List.mapM_cons, same _ _ List.mem_cons_self first, atRest]

theorem exists_left_of_mem (related : List.Forall₂ Related lefts rights) {right : β}
    (member : right ∈ rights) : ∃ left ∈ lefts, Related left right :=
  exists_right_of_mem related.flip member

theorem related_of_lookup_zip [BEq α] [LawfulBEq α] (related : List.Forall₂ Related lefts rights)
    {left : α} {right : β} (found : (lefts.zip rights).lookup left = some right) :
    Related left right :=
  (List.forall₂_iff_zip.mp related).2 (mem_of_lookup found)

theorem not_mem_of_lookup_zip [BEq α] [LawfulBEq α] (related : List.Forall₂ Related lefts rights)
    {left : α} (missing : (lefts.zip rights).lookup left = none) : left ∉ lefts := by
  intro member
  rw [← List.map_fst_zip (Nat.le_of_eq related.length_eq), List.mem_map] at member
  obtain ⟨pair, isPair, rfl⟩ := member
  simpa using List.lookup_eq_none_iff.mp missing pair isPair

theorem exists_right_of_getElem? (related : List.Forall₂ Related lefts rights) {index : Nat} {left : α}
    (atIndex : lefts[index]? = some left) :
    ∃ right, rights[index]? = some right ∧ Related left right := by
  induction related generalizing index with
  | nil => cases atIndex
  | cons first _ ih =>
    cases index with
    | zero =>
      cases atIndex
      exact ⟨_, rfl, first⟩
    | succ index => exact ih atIndex

theorem exists_left_of_getElem? (related : List.Forall₂ Related lefts rights) {index : Nat} {right : β}
    (atIndex : rights[index]? = some right) :
    ∃ left, lefts[index]? = some left ∧ Related left right :=
  exists_right_of_getElem? related.flip atIndex

theorem forall₂_of_getElem? (same : lefts.length = rights.length)
    (related : ∀ (index : Nat) left right, lefts[index]? = some left → rights[index]? = some right →
      Related left right) : List.Forall₂ Related lefts rights := by
  refine List.forall₂_iff_get.mpr ⟨same, fun index inLefts inRights => ?_⟩
  exact related index _ _ (List.getElem?_eq_getElem inLefts) (List.getElem?_eq_getElem inRights)

/-- Two lists that are related to a third are related to each other. -/
theorem forall₂_of_common {Between : α → γ → Prop} {Result : β → γ → Prop} {results : List γ}
    (related : List.Forall₂ Related lefts rights) (others : List.Forall₂ Between lefts results)
    (step : ∀ left right result, left ∈ lefts → right ∈ rights → Related left right →
      Between left result → Result right result) : List.Forall₂ Result rights results := by
  induction related generalizing results with
  | nil =>
    cases others
    exact .nil
  | cons first _ ih =>
    cases others with
    | cons second rest =>
      refine .cons (step _ _ _ List.mem_cons_self List.mem_cons_self first second) (ih rest ?_)
      intro left right result inLefts inRights
      exact step left right result (List.mem_cons_of_mem _ inLefts) (List.mem_cons_of_mem _ inRights)

end Pointwise

/-- Two lists without repetitions whose elements are related one to one can be matched up. -/
theorem exists_perm_of_oneToOne (distinct : lefts.Nodup) (otherDistinct : rights.Nodup)
    (toRight : ∀ left ∈ lefts, ∃ right ∈ rights, Related left right)
    (toLeft : ∀ right ∈ rights, ∃ left ∈ lefts, Related left right)
    (leftUnique : ∀ left ∈ lefts, ∀ other ∈ lefts, ∀ right,
      Related left right → Related other right → left = other)
    (rightUnique : ∀ left, ∀ right ∈ rights, ∀ other ∈ rights,
      Related left right → Related left other → right = other) :
    ∃ matching, List.Perm matching rights ∧ List.Forall₂ Related lefts matching := by
  induction lefts generalizing rights with
  | nil =>
    cases rights with
    | nil => exact ⟨[], .nil, .nil⟩
    | cons right rights =>
      obtain ⟨_, member, -⟩ := toLeft right List.mem_cons_self
      cases member
  | cons left lefts ih =>
    obtain ⟨fresh, distinct⟩ := List.nodup_cons.mp distinct
    obtain ⟨right, isRight, related⟩ := toRight left List.mem_cons_self
    obtain ⟨before, after, rfl⟩ := List.append_of_mem isRight
    have moved := @List.perm_middle _ right before after
    obtain ⟨otherFresh, otherDistinct⟩ := List.nodup_cons.mp (moved.nodup_iff.mp otherDistinct)
    obtain ⟨matching, perm, matched⟩ := ih distinct otherDistinct
      (fun other member => by
        obtain ⟨otherRight, isOther, relatedOther⟩ := toRight other (List.mem_cons_of_mem _ member)
        rcases List.mem_cons.mp (moved.mem_iff.mp isOther) with rfl | elsewhere
        · have same := leftUnique left List.mem_cons_self other (List.mem_cons_of_mem _ member) _
            related relatedOther
          exact absurd (same ▸ member) fresh
        · exact ⟨otherRight, elsewhere, relatedOther⟩)
      (fun other member => by
        obtain ⟨otherLeft, isOther, relatedOther⟩ :=
          toLeft other (moved.mem_iff.mpr (List.mem_cons_of_mem _ member))
        rcases List.mem_cons.mp isOther with rfl | elsewhere
        · have same := rightUnique otherLeft right isRight other
            (moved.mem_iff.mpr (List.mem_cons_of_mem _ member)) related relatedOther
          exact absurd (same ▸ member) otherFresh
        · exact ⟨otherLeft, elsewhere, relatedOther⟩)
      (fun one isOne two isTwo =>
        leftUnique one (List.mem_cons_of_mem _ isOne) two (List.mem_cons_of_mem _ isTwo))
      (fun one right isRight other isOther =>
        rightUnique one right (moved.mem_iff.mpr (List.mem_cons_of_mem _ isRight)) other
          (moved.mem_iff.mpr (List.mem_cons_of_mem _ isOther)))
    exact ⟨right :: matching, (perm.cons right).trans moved.symm, .cons related matched⟩

/-- Treating the elements of a list in another order gives the results in another order. -/
theorem mapM_perm {act : α → Except ε β} {elements others : List α} {results : List β}
    (perm : List.Perm others elements) (success : elements.mapM act = .ok results) :
    ∃ reordered, others.mapM act = .ok reordered ∧ List.Perm reordered results := by
  obtain ⟨reordered, related, permuted⟩ := List.perm_comp_forall₂ perm (mapM_eq_ok_iff.mp success)
  exact ⟨reordered, mapM_eq_ok_iff.mpr related, permuted⟩

end CpsGraph.Results
