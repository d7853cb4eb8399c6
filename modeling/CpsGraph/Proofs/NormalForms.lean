import CpsGraph.Proofs.EqualPrograms
import CpsGraph.Proofs.ImportLedger
import CpsGraph.Proofs.ImportedParts

/-! # Importing normal forms

A node in normal form, with all its parts, is imported as it is: the new handle denotes an equal
structure. The plan for such a node is to rebuild it, so the node costs visits of its children only, and
nothing is counted as folded or collapsed if all bodies are in normal form.
-/

namespace CpsGraph.Simplify

variable {old : Program} {table : Table} {imported : Pairs} {handle new : Handle} {node : Node}

/-- A node and all its parts are in normal form. -/
def NormalForm (table : Table) (handle : Handle) : Prop := table.Throughout (Normal table) handle

/-- A node in normal form is rebuilt. -/
theorem Normal.plan (normal : Normal table node) : node.plan table.known? = .rebuild := by
  cases node with
  | primitive op operands =>
    rw [Node.plan, plan_of_unfoldable normal.1, identityPlan_of_irreducible normal.2]
  | cast source ty => rw [Node.plan, bind_cast_eq_none normal, Option.elim_none]
  | branch arguments =>
    rcases arguments with _ | ⟨condition, _ | ⟨onTrue, _ | ⟨onFalse, _ | ⟨more, rest⟩⟩⟩⟩
    · rfl
    · rfl
    · rfl
    · rw [Node.plan, normal condition onTrue onFalse rfl, Option.elim_none]
    · rfl
  | _ => rfl

/-- What is imported from a normal form denotes an equal structure. -/
theorem alike_of_normalForm (wellFormed : old.table.WellFormed)
    (faithful : Faithful old table imported) (normalForm : NormalForm old.table handle)
    (pair : (handle, new) ∈ imported) : old.table.Alike table handle new := by
  induction handle using Nat.strongRecOn generalizing new with
  | ind handle ih =>
    obtain ⟨node, present, translates⟩ := faithful.translates handle new pair
    obtain ⟨normal, children⟩ := (Table.throughout_iff wellFormed present).mp normalForm
    have alike (child : Handle) (isChild : child ∈ node.children) (newChild : Handle)
        (atChild : (child, newChild) ∈ imported) : old.table.Alike table child newChild :=
      ih child (wellFormed.child_lt present isChild) (children child isChild) atChild
    have carried := (translates.carried fun child isChild newChild atChild =>
      (alike child isChild newChild atChild).known?_eq.symm).1
    rw [normal.plan] at carried
    obtain ⟨newNode, atNew, parallel⟩ := carried
    refine .node present atNew parallel.shape_eq ?_
    refine ((List.forall₂_and_left _ _).mpr ⟨fun _ isChild => isChild, parallel.children⟩).imp ?_
    exact fun child newChild both => alike child both.1 newChild both.2

/-! ## What is counted -/

/-- A node in normal form is rebuilt by whatever says of its children what the table does. -/
theorem Normal.plan_of_known (normal : Normal table node) {known : Handle → Option Literal}
    (same : ∀ child ∈ node.children, known child = table.known? child) :
    node.plan known = .rebuild := by
  have parallel : node.Parallel (fun child image => known child = table.known? image) node :=
    Node.parallel_of_shape rfl (List.forall₂_same.mpr same)
  have plans := parallel.plan fun _ _ agree => agree
  rw [normal.plan] at plans
  exact plans.eq_rebuild

/-- What a normal form stands for is what it is. -/
theorem NormalForm.constant?_eq (normalForm : NormalForm table handle) (wellFormed : table.WellFormed) :
    table.constant? handle = table.known? handle := by
  induction handle using Nat.strongRecOn with
  | ind handle ih =>
    obtain ⟨node, present, normal⟩ := normalForm handle (table.mem_parts_self handle)
    have children := ((Table.throughout_iff wellFormed present).mp normalForm).2
    have rebuilt := normal.plan_of_known fun child isChild =>
      ih child (wellFormed.child_lt present isChild) (children child isChild)
    rw [Table.constant?_of_get? wellFormed present, Node.constant?, rebuilt, Table.known?, present]
    rfl

/-- A normal form costs no folds and no collapses. -/
theorem NormalForm.expense_snd (normalForm : NormalForm table handle) (wellFormed : table.WellFormed) :
    (table.expense handle).2 = 0 := by
  obtain ⟨node, present, normal⟩ := normalForm handle (table.mem_parts_self handle)
  have children := ((Table.throughout_iff wellFormed present).mp normalForm).2
  have rebuilt := normal.plan_of_known fun child isChild =>
    NormalForm.constant?_eq (children child isChild) wellFormed
  rw [Table.expense, present, Option.elim_some, Node.expense, rebuilt]
  simp [Plan.tally, Tally.visit]

/-- Nothing is folded or collapsed if only normal forms are imported. -/
theorem Accounted.counts_of_normalForms {Holds : Handle → Prop} {state : State}
    (accounted : Accounted old Holds state) (wellFormed : old.table.WellFormed)
    (normalForms : ∀ handle, Holds handle → NormalForm old.table handle) :
    state.folded = 0 ∧ state.collapsed = 0 := by
  have expenses : (state.keys.map old.table.expense).sum.2 = 0 := by
    refine List.sum_induction (fun expense : Tally => expense.2 = 0) ?_ rfl fun expense isExpense => ?_
    · intro first second noFirst noSecond
      rw [Prod.snd_add, noFirst, noSecond, add_zero]
    · obtain ⟨handle, isKey, rfl⟩ := List.mem_map.mp isExpense
      exact (normalForms handle (accounted.inside handle isKey)).expense_snd wellFormed
  have counted : state.tally =
      state.program.labels.length • Tally.visit + (state.keys.map old.table.expense).sum := by
    rw [← accounted.surplus, State.surplus, sub_add_cancel]
  have counts := congrArg Prod.snd counted
  rw [Prod.snd_add, expenses] at counts
  simpa [State.tally, Tally.visit] using counts

/-- A program whose bodies have no fault, are in normal form and mention only labels can be imported as a
whole. -/
theorem viable_of_normalForms (wellFormed : old.WellFormed) (faultless : old.Faultless)
    (normalForms : ∀ label ∈ old.labels, NormalForm old.table label.body)
    (closed : ∀ label ∈ old.labels, ∀ name, old.table.Mentions label.body name → name ∈ old.names) :
    Viable old (· ∈ old.names) fun handle =>
      old.table.Throughout old.Unfaulty handle ∧ NormalForm old.table handle where
  sustains := by
    rintro handle ⟨unfaulty, normalForm⟩
    obtain ⟨node, present, here⟩ := unfaulty handle (old.table.mem_parts_self handle)
    refine ⟨node, present, here, fun child isDemanded => ?_⟩
    have isChild := node.demands_subset _ isDemanded
    exact ⟨((Table.throughout_iff wellFormed.table present).mp unfaulty).2 child isChild,
      ((Table.throughout_iff wellFormed.table present).mp normalForm).2 child isChild⟩
  externals label isExternal := List.mem_map_of_mem (List.mem_of_mem_filter isExternal)
  bodies name isName := by
    obtain ⟨label, found⟩ := Program.mem_names_iff.mp isName
    have member := Program.mem_of_find? found
    exact ⟨label, found, faultless label member, normalForms label member⟩
  mentions := by
    intro name label new other state _ found faithful pair mentions
    have member := Program.mem_of_find? found
    have alike := alike_of_normalForm wellFormed.table faithful (normalForms label member) pair
    exact closed label member other
      ((alike.symm wellFormed.table).mentions faithful.wellFormed wellFormed.table mentions)

end CpsGraph.Simplify
