import CpsGraph.Proofs.Scopes
import CpsGraph.Samples

/-! # Scopes are contained

The scope of a label is found by going backwards, from nodes to their users. Going forwards, a search
that does not pass through the label cannot get into its scope: the node from which it would enter is
a user of a node of the scope, and so it is in the scope itself. If moreover the bodies contain no
continuations, then only the label and the labels of its scope refer to its parameters or to labels
of the scope.
-/

namespace CpsGraph.Program

variable {program : Program} {name : Name} {entry label : Label} {scope : Scope}

section Containment

variable (wellFormed : program.WellFormed) (found : program.find? name = some entry)
  (success : program.scope name = .ok scope)

include wellFormed found success

/-- The nodes of a scope are what the search for it visits, without the label. -/
theorem exists_scopeWalk_of_scope : program.Resolved ∧ ∃ order, program.ScopeWalk entry order ∧
    (∀ handle, handle ∈ scope.nodes ↔ handle ∈ order ∧ handle ≠ entry.node) ∧
    scope.continuations =
      ((order.filter (· ≠ entry.node)).filterMap program.continuationName?).eraseDups := by
  obtain ⟨uses, _, used, -⟩ := scope_eq_ok success
  have resolved := (validate_eq_ok_iff wellFormed).mp (validate_of_uses used)
  obtain ⟨order, walk, successAgain⟩ := exists_scopeWalk wellFormed resolved found
  rw [success] at successAgain
  cases successAgain
  exact ⟨resolved, order, walk, by simp, rfl⟩

/-- A search from outside the scope that has to avoid the label visits no node of the scope. -/
theorem not_mem_nodes_of_visited {starts marked : List Handle} (avoided : entry.node ∈ marked)
    (outside : ∀ start ∈ starts, program.Reached start ∧ start ∉ scope.nodes) :
    let search := Search.walk .depthFirst program.size program.successors starts marked
    search.fault = none ∧ ∀ handle ∈ search.order, handle ∉ scope.nodes := by
  intro search
  obtain ⟨resolved, order, walk, nodes, -⟩ := exists_scopeWalk_of_scope wellFormed found success
  constructor
  · exact Search.fault_eq_none (fun start isStart => (outside start isStart).1)
      fun _ reached => reached.exists_edges wellFormed resolved
  · have stays : ∀ handle ∈ search.order, program.Reached handle ∧ handle ∉ scope.nodes := by
      refine Search.forall_mem_order_of_unmarked (fun start isStart _ => outside start isStart) ?_
      rintro user next unmarked ⟨reached, outsideUser⟩ edges used isNext -
      have edges := (Search.edgesBelow_eq_ok_iff.mp edges).2
      refine ⟨reached.of_successors wellFormed edges used isNext, fun inside => outsideUser ?_⟩
      -- The user is not the label, which is marked. So it is in the scope with what it uses.
      obtain ⟨visited, other⟩ := (nodes used).mp inside
      refine (nodes user).mpr ⟨walk.users used visited other user next reached edges isNext, ?_⟩
      rintro rfl
      exact unmarked avoided
    exact fun handle visited => (stays handle visited).2

/-- Nothing escapes from a scope. -/
theorem scopeEscapes_eq_nil : program.scopeEscapes name = .ok [] := by
  have outside : ∀ start ∈ (program.labels.filter fun other =>
      other.node ≠ entry.node ∧ other.node ∉ scope.nodes).map (·.node),
      program.Reached start ∧ start ∉ scope.nodes := by
    simp only [List.forall_mem_map, List.mem_filter, decide_eq_true_eq]
    exact fun label outside => ⟨⟨label, outside.1, .inl rfl⟩, outside.2.2⟩
  obtain ⟨faultless, avoids⟩ := not_mem_nodes_of_visited wellFormed found success
    (@List.mem_cons_self _ entry.node entry.parameters) outside
  rw [scopeEscapes, success, resolve_eq_ok_iff.mpr found]
  refine Results.bind_eq_ok_iff.mpr ⟨scope, rfl, Results.bind_eq_ok_iff.mpr ⟨entry, rfl,
    Results.bind_eq_ok_iff.mpr ⟨_, Walk.result_eq_ok_iff.mpr ⟨faultless, rfl⟩, ?_⟩⟩⟩
  exact congrArg Except.ok (List.filter_eq_nil_iff.mpr fun handle visited => by
    simpa using avoids handle visited)

/-- The labels in a scope are its continuations if bodies contain no continuations. -/
theorem node_mem_nodes_iff (faultless : program.Faultless) (member : label ∈ program.labels) :
    label.node ∈ scope.nodes ↔ label.name ∈ scope.continuations := by
  obtain ⟨-, order, walk, nodes, continuations⟩ := exists_scopeWalk_of_scope wellFormed found success
  rw [nodes, continuations, walk.mem_continuations_iff wellFormed faultless]
  constructor
  · exact fun inside => ⟨label, member, rfl, inside⟩
  · rintro ⟨other, isLabel, named, inside⟩
    rwa [← List.inj_on_of_nodup_map wellFormed.names isLabel member named]

end Containment

/-- A scope does not contain its own label, and from outside it is entered only through the label:
no search from a label outside gets to a node of it while the label is marked. Labels outside refer
neither to the parameters of the label nor to the labels of the scope, as long as bodies contain no
continuations. -/
theorem scope_contained (wellFormed : program.WellFormed) (found : program.find? name = some entry)
    (success : program.scope name = .ok scope) :
    entry.node ∉ scope.nodes ∧
    program.scopeEscapes name = .ok [] ∧
    (∀ label ∈ program.labels, label.node ∉ scope.nodes → ∀ marked, entry.node ∈ marked →
      (program.visitFrom label.node marked).fault = none ∧
        ∀ handle ∈ (program.visitFrom label.node marked).order, handle ∉ scope.nodes) ∧
    (program.Unnested →
      name ∉ scope.continuations ∧
      (∀ label ∈ program.labels, label.node ∈ scope.nodes ↔ label.name ∈ scope.continuations) ∧
      ∀ label ∈ program.labels, label.node ∉ scope.nodes → label.name ≠ name →
        (∀ part ∈ program.table.parts label.body, ∀ index,
          program.table.get? part ≠ some (.parameter name index)) ∧
        ∀ other ∈ scope.continuations, ¬ program.table.Mentions label.body other) := by
  obtain ⟨resolved, order, walk, nodes, -⟩ := exists_scopeWalk_of_scope wellFormed found success
  refine ⟨fun inside => ((nodes _).mp inside).2 rfl, scopeEscapes_eq_nil wellFormed found success,
    ?_, ?_⟩
  · intro label member outside marked avoided
    exact not_mem_nodes_of_visited wellFormed found success avoided
      (List.forall_mem_singleton.mpr ⟨⟨label, member, .inl rfl⟩, outside⟩)
  · intro unnested
    have faultless := resolved.faultless unnested
    have inScope {label : Label} (member : label ∈ program.labels) :=
      node_mem_nodes_iff wellFormed found success faultless member
    obtain ⟨_, successAgain, encloses⟩ := exists_scope wellFormed faultless found
    rw [success] at successAgain
    cases successAgain
    have named := name_of_find? found
    refine ⟨named ▸ encloses.excludes, fun label member => inScope member, ?_⟩
    intro label member outside other
    have outside : ¬ (label.name = entry.name ∨ label.name ∈ scope.continuations) := by
      rw [named, ← inScope member]
      exact not_or.mpr ⟨other, outside⟩
    refine ⟨fun part inside index present => outside ?_, fun continuation inside mentions => outside ?_⟩
    · exact encloses.uses label member part inside index (named ▸ present)
    · exact encloses.mentions label member continuation inside mentions

/-- In the factorial, the scope of the loop head holds the body of the loop and its exit. The label
from which the loop is entered is outside, and refers to none of this. -/
theorem scope_contained_factorial :
    let program := Samples.factorial.toOption.getD {}
    let head := (program.find? "head").getD default
    let start := (program.find? "else").getD default
    ∃ scope, program.WellFormed ∧ program.find? "head" = some head ∧
      program.scope "head" = .ok scope ∧ scope.continuations = ["next", "body"] ∧ program.Unnested ∧
      start ∈ program.labels ∧ start.node ∉ scope.nodes ∧
      head.node ∉ scope.nodes ∧ program.scopeEscapes "head" = .ok [] ∧
      (∀ handle ∈ (program.visitFrom start.node [head.node]).order, handle ∉ scope.nodes) ∧
      "head" ∉ scope.continuations ∧ ¬ program.table.Mentions start.body "body" := by
  intro program head start
  obtain ⟨scope, success, wellFormed, found, continuations, unnested, member, outside, other⟩ :
      ∃ scope, program.scope "head" = .ok scope ∧ program.WellFormed ∧
        program.find? "head" = some head ∧ scope.continuations = ["next", "body"] ∧
        program.Unnested ∧ start ∈ program.labels ∧ start.node ∉ scope.nodes ∧
        start.name ≠ "head" :=
    ⟨(program.scope "head").toOption.getD ⟨"", [], []⟩, by decide +kernel⟩
  obtain ⟨excludes, escapes, avoids, refers⟩ := scope_contained wellFormed found success
  obtain ⟨unnamed, -, outsiders⟩ := refers unnested
  exact ⟨scope, wellFormed, found, success, continuations, unnested, member, outside, excludes,
    escapes, (avoids start member outside _ List.mem_cons_self).2, unnamed,
    (outsiders start member outside other).2 "body" (by simp [continuations])⟩

end CpsGraph.Program
