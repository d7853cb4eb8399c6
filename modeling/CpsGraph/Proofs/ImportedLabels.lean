import CpsGraph.Proofs.ImportedNodes
import CpsGraph.Proofs.SearchResults
import Mathlib.Data.List.Perm.Subperm

/-! # What importing labels gives

Labels are imported until no imported body mentions a name that is still to be imported. The result
is closed: whatever name a body mentions is a label of the new program, and each of these labels
has its signature from the old program and a body that was imported from the old one.
-/

namespace CpsGraph.Simplify

variable {old : Program} {table grown : Table} {state later : State} {handle : Handle} {name : Name}

/-- Listing the names that a node mentions misses none. -/
theorem mem_mentions {found : List Name} (success : mentions table handle = .ok found)
    (wellFormed : table.WellFormed) (mentioned : table.Mentions handle name) : name ∈ found := by
  obtain ⟨order, walked, result⟩ := Results.bind_eq_ok_iff.mp success
  cases result
  obtain ⟨faultless, rfl⟩ := Walk.result_eq_ok_iff.mp walked
  obtain ⟨part, inside, named⟩ := mentioned
  refine List.mem_filterMap.mpr ⟨part, ?_, by rcases named with here | ⟨_, here⟩ <;> rw [mentioned?, here]⟩
  -- With a node all its children are visited, hence all its parts.
  refine Table.parts_induction (· ∈ Walk.order _) wellFormed ?_ ?_ part inside
  · exact (Search.mem_order_of_mem_frontier faultless (List.mem_singleton_self handle)).resolve_left
      List.not_mem_nil
  · intro parent node child present visited member
    obtain ⟨edges, success, closed⟩ := Search.mem_order_of_mem_edges faultless visited
    obtain ⟨stored, get, result⟩ := Results.bind_eq_ok_iff.mp (Search.edgesBelow_eq_ok_iff.mp success).2
    cases result
    rw [Table.get_eq_ok_iff, present] at get
    cases get
    exact (closed child (List.mem_reverse.mpr member)).resolve_left List.not_mem_nil

/-- A label has its name, signature and mark from the old program, and its body is imported from
there. -/
def ImportedFrom (old : Program) (imported : Pairs) (label : Label) : Prop :=
  ∃ original, old.find? label.name = some original ∧ label.signature = original.signature ∧
    label.external = original.external ∧ (original.body, label.body) ∈ imported

/-- Some labels are imported, and those that their bodies mention are imported or in the queue. -/
structure Importing (old : Program) (queue done : List Name) (state : State) : Prop where
  wellFormed : state.program.WellFormed
  faithful : Faithful old state.program.table state.imported
  names : state.program.names = done.reverse
  kept : state.kept = done.length
  labels : ∀ label ∈ state.program.labels, ImportedFrom old state.imported label
  pending : ∀ label ∈ state.program.labels, ∀ name,
    state.program.table.Mentions label.body name → name ∈ queue ∨ name ∈ done

variable {queue done : List Name}

theorem ImportedFrom.mono {imported more : Pairs} {label : Label}
    (isImported : ImportedFrom old imported label) (growth : imported ⊆ more) :
    ImportedFrom old more label := by
  obtain ⟨original, found, signature, external, atBody⟩ := isImported
  exact ⟨original, found, signature, external, growth atBody⟩

theorem importing_empty (old : Program) (queue : List Name) : Importing old queue [] {} where
  wellFormed := by decide
  faithful := ⟨by decide, nofun, nofun⟩
  names := rfl
  kept := rfl
  labels := nofun
  pending := nofun

/-- A queue may be replaced by one that still has all that is not done. -/
theorem Importing.requeue {other : List Name} (importing : Importing old queue done state)
    (kept : ∀ name ∈ queue, name ∈ other ∨ name ∈ done) : Importing old other done state :=
  { importing with
    pending := fun label member name mentioned =>
      (importing.pending label member name mentioned).elim (kept name) .inr }

/-- Importing the first label of the queue does it and queues the names that it mentions. -/
theorem importLabel_run {label : Label} {mentioned : List Name}
    (importing : Importing old (name :: queue) done state) (found : old.find? name = some label)
    (ran : (importLabel old label).run state = .ok mentioned later) :
    Importing old (queue ++ mentioned) (name :: done) later := by
  obtain ⟨body, middle, ranBody, ranRest⟩ := Results.run_bind_eq_ok_iff.mp ran
  obtain ⟨grown, faithful, atBody⟩ :=
    gives_importBelow old (label.body + 1) label.body state body middle importing.faithful ranBody
  obtain ⟨_, _, ranGet, ranRest⟩ := Results.run_bind_eq_ok_iff.mp ranRest
  cases ranGet
  obtain ⟨program, _, ranDefine, ranSet⟩ := Results.run_bind_eq_ok_iff.mp ranRest
  obtain ⟨defined, rfl⟩ := liftExcept_run.mp ranDefine
  obtain ⟨_, _, ranSet, ranMentions⟩ := Results.run_bind_eq_ok_iff.mp ranSet
  cases ranSet
  obtain ⟨listed, rfl⟩ := liftExcept_run.mp ranMentions
  have wellFormed := importing.wellFormed.grow grown.table faithful.wellFormed grown.labels
  have definedWellFormed := wellFormed.define defined
  obtain ⟨-, newLabel, table, registered, rfl⟩ := Program.define_eq_ok defined
  obtain ⟨growth, closed, denoted, hasName, hasSignature, hasBody, hasMark⟩ :=
    wellFormed.table.register registered
  have isName := Program.name_of_find? found
  refine ⟨definedWellFormed, faithful.grow growth closed, ?_, ?_, ?_, ?_⟩
  · simp only [Program.names, List.map_append, List.map_singleton, grown.labels, List.reverse_cons,
      ← importing.names, hasName, isName]
  · rw [List.length_cons, ← importing.kept, ← grown.kept]
  · intro other member
    rcases List.mem_append.mp member with before | new
    · rw [grown.labels] at before
      exact (importing.labels other before).mono grown.imported
    · obtain rfl := List.mem_singleton.mp new
      refine ⟨label, ?_, hasSignature, hasMark, hasBody ▸ atBody⟩
      rwa [hasName, isName]
  · intro other member mentionedName mentions
    rcases List.mem_append.mp member with before | new
    · rw [grown.labels] at before
      obtain ⟨node, present, -⟩ := (importing.wellFormed.labels other before).body
      have mentions := Table.mentions_of_extends (growth.trans grown.table) importing.faithful.wellFormed
        closed (Table.lt_size_of_get? present) mentions
      have := importing.pending other before mentionedName mentions
      grind
    · obtain rfl := List.mem_singleton.mp new
      rw [hasBody] at mentions
      exact .inl (List.mem_append_right _ (mem_mentions listed closed mentions))

/-- The labels are counted. -/
theorem Importing.kept_eq (importing : Importing old queue done state) :
    state.kept = state.program.labels.length := by
  have listed : state.program.labels.length = done.length := by
    simpa [Program.names] using congrArg List.length importing.names
  rw [importing.kept, listed]

/-- What is done are different labels of the old program, so there are not more of them. -/
theorem Importing.length_done_le (importing : Importing old queue done state) :
    done.length ≤ old.labels.length := by
  have distinct : done.Nodup := by
    rw [← List.nodup_reverse, ← importing.names]
    exact importing.wellFormed.names
  have known : done ⊆ old.names := by
    intro name member
    rw [← List.mem_reverse, ← importing.names, Program.names] at member
    obtain ⟨label, inside, rfl⟩ := List.mem_map.mp member
    obtain ⟨original, found, -⟩ := importing.labels label inside
    exact Program.mem_names_iff.mpr ⟨original, found⟩
  simpa [Program.names] using (List.subperm_of_subset distinct known).length_le

/-- Induction along the import of labels, for enough rounds: it ends when the queue has nothing new, and
otherwise imports the first label that is not done. -/
theorem importLabels_induction {motive : (queue done : List Name) → State → Prop}
    (finished : ∀ queue done, queue.dropWhile (· ∈ done) = [] → Importing old queue done later →
      motive queue done later)
    (visited : ∀ queue done state name rest label mentioned middle,
      queue.dropWhile (· ∈ done) = name :: rest → Importing old (name :: rest) done state →
      old.find? name = some label → (importLabel old label).run state = .ok mentioned middle →
      motive (rest ++ mentioned) (name :: done) middle → motive queue done state)
    {rounds : Nat} (importing : Importing old queue done state)
    (enough : old.labels.length < rounds + done.length)
    (ran : (importLabels old rounds queue done).run state = .ok () later) :
    motive queue done state := by
  induction rounds generalizing queue done state with
  | zero =>
    have := importing.length_done_le
    omega
  | succ rounds ih =>
    rw [importLabels] at ran
    have kept := importing.requeue fun name => Results.mem_dropWhile_or done
    cases left : queue.dropWhile (· ∈ done) with
    | nil =>
      rw [left] at ran
      cases ran
      exact finished queue done left importing
    | cons name rest =>
      rw [left] at ran kept
      obtain ⟨label, _, ranResolve, ranImport⟩ := Results.run_bind_eq_ok_iff.mp ran
      obtain ⟨resolved, rfl⟩ := liftExcept_run.mp ranResolve
      obtain ⟨mentioned, middle, ranLabel, ranRest⟩ := Results.run_bind_eq_ok_iff.mp ranImport
      have found := Program.resolve_eq_ok_iff.mp resolved
      have step := importLabel_run kept found ranLabel
      exact visited queue done _ name rest label mentioned middle left kept found ranLabel
        (ih step (by simp; omega) ranRest)

/-- Importing labels for enough rounds ends with all of them done. -/
theorem importLabels_run {rounds : Nat} (importing : Importing old queue done state)
    (enough : old.labels.length < rounds + done.length)
    (ran : (importLabels old rounds queue done).run state = .ok () later) :
    ∃ all, Importing old [] all later ∧ queue ⊆ all ∧ done ⊆ all := by
  refine importLabels_induction (motive := fun queue done _ =>
    ∃ all, Importing old [] all later ∧ queue ⊆ all ∧ done ⊆ all) ?_ ?_ importing enough ran
  · intro queue done left importing
    have kept := importing.requeue fun name => Results.mem_dropWhile_or done
    rw [left] at kept
    refine ⟨done, kept, fun name member => ?_, List.Subset.refl done⟩
    simpa [left] using Results.mem_dropWhile_or done member
  · rintro queue done _ name rest _ mentioned _ left - - - ⟨all, finished, queued, before⟩
    have done_subset : done ⊆ all := List.Subset.trans (List.subset_cons_self name done) before
    refine ⟨all, finished, fun other member => ?_, done_subset⟩
    rcases Results.mem_dropWhile_or done member with waiting | isDone
    · rw [left] at waiting
      rcases List.mem_cons.mp waiting with rfl | waiting
      · exact before List.mem_cons_self
      · exact queued (List.mem_append_left _ waiting)
    · exact done_subset isDone

/-- Simplification ends with a closed program, which has the external labels. -/
theorem importProgram_run (ran : (importProgram old).run {} = .ok () later) :
    ∃ all, Importing old [] all later ∧ old.externals.map (·.name) ⊆ all := by
  obtain ⟨all, finished, queued, -⟩ :=
    importLabels_run (importing_empty old _) (Nat.lt_succ_self _) ran
  exact ⟨all, finished, queued⟩

/-- At the end a body mentions labels only. -/
theorem Importing.mem_names {all : List Name} (finished : Importing old [] all state) {label : Label}
    (member : label ∈ state.program.labels)
    (mentions : state.program.table.Mentions label.body name) : name ∈ state.program.names := by
  rw [finished.names, List.mem_reverse]
  exact (finished.pending label member name mentions).resolve_left List.not_mem_nil

/-- At the end every label has its signature from the old program and an imported body, and mentions
labels only. -/
theorem Importing.find? {all : List Name} (finished : Importing old [] all state)
    (member : name ∈ state.program.names) :
    ∃ label original, state.program.find? name = some label ∧ old.find? name = some original ∧
      label.signature = original.signature ∧ (original.body, label.body) ∈ state.imported ∧
        ∀ other, state.program.table.Mentions label.body other → other ∈ state.program.names := by
  obtain ⟨label, found⟩ := Program.mem_names_iff.mp member
  have inside := Program.mem_of_find? found
  obtain ⟨original, foundOld, signature, -, atBody⟩ := finished.labels label inside
  rw [Program.name_of_find? found] at foundOld
  exact ⟨label, original, found, foundOld, signature, atBody, fun other => finished.mem_names inside⟩

/-- A kept label has the signature that it had. -/
theorem Importing.exists_find? {all : List Name} {original : Label}
    (finished : Importing old [] all state) (foundOld : old.find? name = some original)
    (kept : name ∈ state.program.names) :
    ∃ label, state.program.find? name = some label ∧ label.signature = original.signature := by
  obtain ⟨label, _, found, foundAgain, signature, -⟩ := finished.find? kept
  rw [foundOld] at foundAgain
  cases foundAgain
  exact ⟨label, found, signature⟩

end CpsGraph.Simplify
