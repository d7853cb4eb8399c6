import CpsGraph.Proofs.FaultlessPrograms
import CpsGraph.Scope
import Mathlib.Data.Set.Defs

/-! # What a scope contains

The scope of a label is closed: a label whose body uses a parameter of the entry, or mentions a
continuation of the scope, is the entry itself or in the scope. So code outside can get into the
scope only through the entry. Every label of a program that passes validation has a scope.
-/

namespace CpsGraph

theorem nodup_eraseDups {α : Type} [DecidableEq α] (elements : List α) :
    elements.eraseDups.Nodup := by
  induction count : elements.length using Nat.strongRecOn generalizing elements with
  | ind count ih =>
    cases elements with
    | nil => exact List.nodup_nil
    | cons first rest =>
      rw [List.eraseDups_cons, List.nodup_cons, List.mem_eraseDups]
      refine ⟨by simp, ih _ ?_ _ rfl⟩
      rw [← count]
      exact Nat.lt_succ_of_le (List.length_filter_le _ rest)

namespace Program

variable {program : Program} {name : Name} {entry label : Label} {handle : Handle} {scope : Scope}

/-- What the search for the scope of a label visits: the parameters of the label, with a node its
users, and with a continuation its parameters. It does not go on from the label itself. -/
structure ScopeWalk (program : Program) (entry : Label) (order : List Handle) : Prop where
  reached : ∀ handle ∈ order, program.Reached handle
  start : ∀ handle ∈ entry.parameters, handle ∈ order
  users : ∀ handle ∈ order, handle ≠ entry.node → ∀ user found, program.Reached user →
    program.successors user = .ok found → handle ∈ found → user ∈ order
  parameters : ∀ label ∈ program.labels, label.node ∈ order → label.node ≠ entry.node →
    ∀ handle ∈ label.parameters, handle ∈ order

/-- A set of nodes that holds the parameters of a label, with a node other than the label its users,
and with a continuation other than the label its parameters. -/
structure ClosedUnderUses (program : Program) (entry : Label) (nodes : Set Handle) : Prop where
  start : ∀ handle ∈ entry.parameters, handle ∈ nodes
  users : ∀ handle ∈ nodes, handle ≠ entry.node → ∀ user found, program.Reachable user →
    program.successors user = .ok found → handle ∈ found → user ∈ nodes
  parameters : ∀ handle ∈ nodes, handle ≠ entry.node → ∀ name signature body label,
    program.table.get? handle = some (.continuation name signature body) →
      program.find? name = some label → ∀ parameter ∈ label.parameters, parameter ∈ nodes

/-- The search for the scope of a label, given the users of every node. -/
abbrev scopeSearch (program : Program) (uses : Uses) (entry : Label) : Walk :=
  Search.walk .breadthFirst program.size (program.scopeEdges uses entry) entry.parameters []

theorem scopeEdges_entry (uses : Uses) : program.scopeEdges uses entry entry.node = .ok [] := by
  unfold scopeEdges
  rw [if_pos rfl]
  rfl

/-- Where the search for a scope goes from a node. -/
theorem mem_scopeEdges_iff {uses : Uses} {next : Handle} {found : List Handle}
    (success : program.scopeEdges uses entry handle = .ok found) :
    next ∈ found ↔ handle ≠ entry.node ∧ (next ∈ uses.of handle ∨
      ∃ name signature body label, program.table.get? handle = some (.continuation name signature body) ∧
        program.find? name = some label ∧ next ∈ label.parameters) := by
  unfold scopeEdges at success
  by_cases isEntry : handle = entry.node
  · rw [if_pos isEntry] at success
    cases success
    simp [isEntry]
  · rw [if_neg isEntry] at success
    obtain ⟨node, present, success⟩ := Results.bind_eq_ok_iff.mp success
    have present := Table.get_eq_ok_iff.mp present
    split at success
    next name signature body =>
      obtain ⟨label, resolves, same⟩ := Results.bind_eq_ok_iff.mp success
      cases same
      simp [isEntry, present, resolve_eq_ok_iff.mp resolves]
    next noContinuation =>
      cases success
      simp only [ne_eq, isEntry, not_false_eq_true, present, Option.some.injEq, true_and]
      refine ⟨.inl, fun either => either.resolve_right ?_⟩
      rintro ⟨name, signature, body, -, rfl, -⟩
      exact noContinuation name signature body rfl

theorem continuationName?_eq_some_iff : program.continuationName? handle = some name ↔
    ∃ signature body, program.table.get? handle = some (.continuation name signature body) := by
  unfold continuationName?
  split
  next other signature body present => simp [present]
  next noContinuation =>
    refine ⟨nofun, ?_⟩
    rintro ⟨signature, body, present⟩
    exact absurd present (noContinuation name signature body)

/-- How a scope is found: a search from the parameters of the label meets the continuations. -/
theorem scope_eq_ok (success : program.scope name = .ok scope) :
    ∃ uses entry, program.uses = .ok uses ∧ program.find? name = some entry ∧
      (Search.walk .breadthFirst program.size (program.scopeEdges uses entry)
        entry.parameters []).fault = none ∧
      ∀ continuation, continuation ∈ scope.continuations ↔
        ∃ handle ∈ (Search.walk .breadthFirst program.size (program.scopeEdges uses entry)
            entry.parameters []).order,
          handle ≠ entry.node ∧ program.continuationName? handle = some continuation := by
  obtain ⟨uses, used, success⟩ := Results.bind_eq_ok_iff.mp success
  obtain ⟨entry, resolves, success⟩ := Results.bind_eq_ok_iff.mp success
  obtain ⟨found, walked, same⟩ := Results.bind_eq_ok_iff.mp success
  obtain ⟨faultless, rfl⟩ := Walk.result_eq_ok_iff.mp walked
  cases same
  refine ⟨uses, entry, used, resolve_eq_ok_iff.mp resolves, faultless, fun continuation => ?_⟩
  simp [List.mem_eraseDups, List.mem_filterMap, List.mem_filter, and_assoc]

/-- What has users can be traversed. -/
theorem validate_of_uses {uses : Uses} (used : program.uses = .ok uses) :
    program.validate = .ok () := by
  obtain ⟨order, visited, -⟩ := Results.bind_eq_ok_iff.mp used
  rw [validate, visited]
  rfl

/-- A scope carries the name of its label. -/
theorem entry_of_scopeOf {uses : Uses} (success : program.scopeOf uses entry = .ok scope) :
    scope.entry = entry.name := by
  obtain ⟨found, -, same⟩ := Results.bind_eq_ok_iff.mp success
  cases same
  rfl

section Walking

variable (wellFormed : program.WellFormed)

include wellFormed

omit wellFormed in
/-- A reached node other than the entry leads to its users, and a continuation also to parameters. -/
theorem Reached.exists_scopeEdges (reached : program.Reached handle) (resolved : program.Resolved)
    (other : handle ≠ entry.node) (uses : Uses) : ∃ parameters,
      program.scopeEdges uses entry handle = .ok (uses.of handle ++ parameters) ∧
        ∀ next ∈ parameters, program.Reached next := by
  obtain ⟨found, edges⟩ := resolved handle reached
  obtain ⟨node, present, leads⟩ := successors_eq_ok_iff.mp edges
  unfold scopeEdges
  rw [if_neg other, Table.get_eq_ok_iff.mpr present]
  cases leads with
  | continuation found =>
    refine ⟨_, Results.bind_eq_ok_iff.mpr ⟨_, rfl, Results.bind_eq_ok_iff.mpr
      ⟨_, resolve_eq_ok_iff.mpr found, rfl⟩⟩, fun next isParameter => ?_⟩
    exact ⟨_, mem_of_find? found, .inr (.inl isParameter)⟩
  | _ => exact ⟨[], by rw [List.append_nil]; rfl, nofun⟩

/-- The search for a scope meets no fault in a resolved program, and stays with reached nodes. -/
theorem Reached.exists_scopeEdgesBelow (reached : program.Reached handle)
    (resolved : program.Resolved) {uses : Uses}
    (users : ∀ handle user, user ∈ uses.of handle → program.Reached user) :
    ∃ next, Search.edgesBelow program.size (program.scopeEdges uses entry) handle = .ok next ∧
      ∀ other ∈ next, program.Reached other := by
  by_cases isEntry : handle = entry.node
  · subst isEntry
    exact ⟨[], Search.edgesBelow_eq_ok_iff.mpr ⟨reached.lt_size wellFormed, scopeEdges_entry uses⟩,
      nofun⟩
  · obtain ⟨parameters, success, reachedParameters⟩ :=
      reached.exists_scopeEdges resolved isEntry uses
    refine ⟨_, Search.edgesBelow_eq_ok_iff.mpr ⟨reached.lt_size wellFormed, success⟩, ?_⟩
    intro other member
    rcases List.mem_append.mp member with isUser | isParameter
    · exact users handle other isUser
    · exact reachedParameters other isParameter

/-- What a search for a scope visits without a fault is closed. -/
theorem closedUnderUses_order {uses : Uses} (users : program.ListsUsers uses)
    (faultless : (program.scopeSearch uses entry).fault = none) :
    program.ClosedUnderUses entry {handle | handle ∈ (program.scopeSearch uses entry).order} := by
  -- The edges of a visited node were followed, so they exist.
  have closed (handle : Handle) (inside : handle ∈ (program.scopeSearch uses entry).order) :
      ∃ found, program.scopeEdges uses entry handle = .ok found ∧ handle < program.size ∧
        ∀ next ∈ found, next ∈ (program.scopeSearch uses entry).order := by
    obtain ⟨found, below, -⟩ := Search.mem_order_of_mem_edges faultless inside
    obtain ⟨inRange, edges⟩ := Search.edgesBelow_eq_ok_iff.mp below
    exact ⟨found, edges, inRange, Search.mem_order_of_successors faultless inside edges⟩
  refine ⟨?_, ?_, ?_⟩
  · intro handle isParameter
    exact (Search.mem_order_of_mem_frontier faultless isParameter).resolve_left List.not_mem_nil
  · intro handle inside other user next reachable edgesOfUser leads
    obtain ⟨found, edges, inRange, followed⟩ := closed handle inside
    have isUser := (users handle user).mpr
      ⟨inRange, reachable.reached wellFormed, next, edgesOfUser, leads⟩
    exact followed user ((mem_scopeEdges_iff edges).mpr ⟨other, .inl isUser⟩)
  · intro handle inside other name signature body label present found parameter isParameter
    obtain ⟨next, edges, -, followed⟩ := closed handle inside
    exact followed parameter ((mem_scopeEdges_iff edges).mpr
      ⟨other, .inr ⟨name, signature, body, label, present, found, isParameter⟩⟩)

/-- The search for the scope of a label of a resolved program meets no fault, and gives the scope. -/
theorem exists_scopeSearch (resolved : program.Resolved) (found : program.find? name = some entry) :
    ∃ uses, program.ListsUsers uses ∧ (program.scopeSearch uses entry).fault = none ∧
      (∀ handle ∈ (program.scopeSearch uses entry).order, program.Reached handle) ∧
      program.scope name = .ok
        { entry := entry.name
          nodes := (program.scopeSearch uses entry).order.filter (· ≠ entry.node)
          continuations := (((program.scopeSearch uses entry).order.filter (· ≠ entry.node)).filterMap
            program.continuationName?).eraseDups } := by
  obtain ⟨uses, used, users⟩ := resolved.exists_uses wellFormed
  have usersReached (handle user : Handle) (isUser : user ∈ uses.of handle) :
      program.Reached user := ((users handle user).mp isUser).2.1
  have start : ∀ handle ∈ entry.parameters, program.Reached handle :=
    fun handle isParameter => ⟨entry, mem_of_find? found, .inr (.inl isParameter)⟩
  have faultless : (program.scopeSearch uses entry).fault = none :=
    Search.fault_eq_none start fun _ reached =>
      reached.exists_scopeEdgesBelow wellFormed resolved usersReached
  have visited := Walk.result_eq_ok_iff.mpr ⟨faultless, rfl⟩
  refine ⟨uses, users, faultless, ?_, Results.bind_eq_ok_iff.mpr ⟨uses, used,
    Results.bind_eq_ok_iff.mpr ⟨entry, resolve_eq_ok_iff.mpr found,
      Results.bind_eq_ok_iff.mpr ⟨_, visited, rfl⟩⟩⟩⟩
  refine Search.forall_mem_order start fun handle next atHandle success => ?_
  obtain ⟨again, successAgain, allReached⟩ :=
    atHandle.exists_scopeEdgesBelow wellFormed resolved usersReached
  rw [success] at successAgain
  cases successAgain
  exact allReached

/-- Every label of a resolved program has a scope, which is found by a search from its parameters. -/
theorem exists_scopeWalk (resolved : program.Resolved) (found : program.find? name = some entry) :
    ∃ order, program.ScopeWalk entry order ∧ program.scope name = .ok
      { entry := entry.name
        nodes := order.filter (· ≠ entry.node)
        continuations :=
          ((order.filter (· ≠ entry.node)).filterMap program.continuationName?).eraseDups } := by
  obtain ⟨uses, users, faultless, reached, success⟩ := exists_scopeSearch wellFormed resolved found
  have closed := closedUnderUses_order wellFormed users faultless
  refine ⟨_, ⟨reached, closed.start, ?_, ?_⟩, success⟩
  · intro handle inside other user next userReached edges leads
    exact closed.users handle inside other user next (userReached.reachable wellFormed resolved) edges
      leads
  · intro label member inside other handle isParameter
    exact closed.parameters label.node inside other _ _ _ label (wellFormed.labels label member).node
      (find?_of_mem wellFormed.names member) handle isParameter

variable (faultless : program.Faultless)

include faultless

/-- The continuations of a scope are the labels that were visited, other than the entry. -/
theorem ScopeWalk.mem_continuations_iff {order : List Handle} (walk : program.ScopeWalk entry order) :
    name ∈ ((order.filter (· ≠ entry.node)).filterMap program.continuationName?).eraseDups ↔
      ∃ label ∈ program.labels, label.name = name ∧ label.node ∈ order ∧
        label.node ≠ entry.node := by
  rw [List.mem_eraseDups, List.mem_filterMap]
  constructor
  · rintro ⟨handle, inside, named⟩
    obtain ⟨visited, other⟩ := List.mem_filter.mp inside
    obtain ⟨signature, body, present⟩ := continuationName?_eq_some_iff.mp named
    obtain ⟨label, member, rfl, rfl⟩ :=
      faultless.exists_label_of_reached wellFormed (walk.reached handle visited) present
    exact ⟨label, member, rfl, visited, of_decide_eq_true other⟩
  · rintro ⟨label, member, rfl, visited, other⟩
    exact ⟨label.node, List.mem_filter.mpr ⟨visited, decide_eq_true other⟩,
      continuationName?_eq_some_iff.mpr ⟨_, _, (wellFormed.labels label member).node⟩⟩

/-- The parts of a body are not the continuation of a label. -/
theorem ne_node_of_mem_parts (member : label ∈ program.labels) (isLabel : entry ∈ program.labels)
    (inside : handle ∈ program.table.parts label.body) : handle ≠ entry.node := by
  rintro rfl
  exact faultless.ne_continuation member inside (wellFormed.labels entry isLabel).node

/-- A label is visited if a part of its body is. -/
theorem ScopeWalk.node_mem {order : List Handle} (walk : program.ScopeWalk entry order)
    (isLabel : entry ∈ program.labels) (member : label ∈ program.labels) {part : Handle}
    (inside : part ∈ program.table.parts label.body) (visited : part ∈ order) :
    label.node ∈ order := by
  -- From a visited part the search goes up to the body, since each node is a user of its children.
  have upwards : ∀ handle ∈ program.table.parts label.body,
      part ∈ program.table.parts handle → handle ∈ order := by
    intro handle within deeper
    induction handle using Nat.strongRecOn with
    | ind handle ih =>
      have reached : program.Reached handle := ⟨label, member, .inr (.inr within)⟩
      obtain ⟨node, present⟩ := Table.exists_get?_of_lt (reached.lt_size wellFormed)
      rcases (Table.mem_parts_iff wellFormed.table present).mp deeper with
        rfl | ⟨child, isChild, deeper⟩
      · exact visited
      · have childWithin := Table.child_mem_parts wellFormed.table within present isChild
        obtain ⟨found, edges⟩ := faultless.resolved wellFormed handle reached
        obtain ⟨_, presentAgain, leads⟩ := successors_eq_ok_iff.mp edges
        rw [present] at presentAgain
        cases presentAgain
        exact walk.users child
          (ih child (wellFormed.table.child_lt present isChild) childWithin deeper)
          (ne_node_of_mem_parts wellFormed faultless member isLabel childWithin) handle found reached
          edges (leads.child child isChild)
  have atBody := upwards label.body (Table.mem_parts_self _ _) inside
  exact walk.users label.body atBody
    (ne_node_of_mem_parts wellFormed faultless member isLabel (Table.mem_parts_self _ _)) label.node _
    ⟨label, member, .inl rfl⟩ (successors_node wellFormed member) List.mem_cons_self

end Walking

/-- The continuations of a scope are labels other than the entry, and whatever label uses a
parameter of the entry or mentions a continuation of the scope is the entry or in the scope. -/
structure Encloses (program : Program) (entry : Label) (continuations : List Name) : Prop where
  known : ∀ name ∈ continuations, name ∈ program.names
  distinct : continuations.Nodup
  excludes : entry.name ∉ continuations
  uses : ∀ label ∈ program.labels, ∀ part ∈ program.table.parts label.body, ∀ index,
    program.table.get? part = some (.parameter entry.name index) →
      label.name = entry.name ∨ label.name ∈ continuations
  mentions : ∀ label ∈ program.labels, ∀ name ∈ continuations,
    program.table.Mentions label.body name → label.name = entry.name ∨ label.name ∈ continuations

/-- Every label of a faultless program has a scope, and the scope is closed. -/
theorem exists_scope (wellFormed : program.WellFormed) (faultless : program.Faultless)
    (found : program.find? name = some entry) :
    ∃ scope, program.scope name = .ok scope ∧ program.Encloses entry scope.continuations := by
  obtain ⟨order, walk, success⟩ := exists_scopeWalk wellFormed (faultless.resolved wellFormed) found
  have enclosed {label : Label} (member : label ∈ program.labels) {part : Handle}
      (inside : part ∈ program.table.parts label.body) (visited : part ∈ order) :
      label.name = entry.name ∨ label.name ∈
        ((order.filter (· ≠ entry.node)).filterMap program.continuationName?).eraseDups := by
    by_cases isEntry : label.node = entry.node
    · have present := (wellFormed.labels label member).node
      rw [isEntry, (wellFormed.registered found).node, Option.some_inj] at present
      exact .inl (Node.continuation.inj present).1.symm
    · have visited :=
        walk.node_mem wellFormed faultless (mem_of_find? found) member inside visited
      exact .inr ((walk.mem_continuations_iff wellFormed faultless).mpr
        ⟨label, member, rfl, visited, isEntry⟩)
  refine ⟨_, success, ?_, nodup_eraseDups _, ?_, ?_, ?_⟩
  · intro other inside
    obtain ⟨label, member, rfl, -⟩ := (walk.mem_continuations_iff wellFormed faultless).mp inside
    exact List.mem_map_of_mem member
  · intro inside
    obtain ⟨label, member, named, -, other⟩ :=
      (walk.mem_continuations_iff wellFormed faultless).mp inside
    have same := List.inj_on_of_nodup_map wellFormed.names member (mem_of_find? found) named
    exact other (congrArg Label.node same)
  · intro label member part inside index present
    obtain ⟨target, foundTarget, isParameter⟩ :=
      faultless.exists_parameter wellFormed member inside present
    rw [name_of_find? found, found] at foundTarget
    cases foundTarget
    exact enclosed member inside (walk.start part isParameter)
  · rintro label member other isContinuation ⟨part, inside, here⟩
    obtain ⟨target, isLabel, rfl, visited, other⟩ :=
      (walk.mem_continuations_iff wellFormed faultless).mp isContinuation
    have foundTarget := find?_of_mem wellFormed.names isLabel
    rcases here with present | ⟨index, present⟩
    · refine enclosed member inside (walk.users target.node visited other part _
        ⟨label, member, .inr (.inr inside)⟩ (successors_abstraction present foundTarget)
        List.mem_cons_self)
    · obtain ⟨again, foundAgain, isParameter⟩ :=
        faultless.exists_parameter wellFormed member inside present
      rw [foundTarget] at foundAgain
      cases foundAgain
      exact enclosed member inside (walk.parameters target isLabel visited other part isParameter)

end Program

end CpsGraph
