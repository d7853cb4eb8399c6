import CpsGraph.Proofs.ScopeFixedPoints

/-! # Scopes nest

A label in the scope of another one has a scope of its own, found by a search that stops somewhere
else. If this search comes back to the outer label, the two labels are in the scopes of each other.
If it does not, then it never leaves the outer scope: the parameters with which it starts are there, and
the outer scope is closed at every node but the outer label.
-/

namespace CpsGraph.Program

variable {program : Program} {outer inner : Label}

/-- Two labels with the same continuation are one label. -/
theorem WellFormed.eq_of_node (wellFormed : program.WellFormed) (isOuter : outer ∈ program.labels)
    (isInner : inner ∈ program.labels) (same : outer.node = inner.node) : outer = inner := by
  have present := (wellFormed.labels outer isOuter).node
  rw [same, (wellFormed.labels inner isInner).node, Option.some_inj] at present
  have named : outer.name = inner.name := (Node.continuation.inj present).1.symm
  exact List.inj_on_of_nodup_map wellFormed.names isOuter isInner named

/-- A set that is closed for an inner label and avoids the outer label stays closed when it is cut
down to a set that is closed for the outer label. -/
theorem ClosedUnderUses.inter {nodes others : Set Handle} (wellFormed : program.WellFormed)
    (isInner : inner ∈ program.labels) (closed : program.ClosedUnderUses outer nodes)
    (innerClosed : program.ClosedUnderUses inner others) (inside : inner.node ∈ nodes)
    (apart : inner.node ≠ outer.node) (avoids : outer.node ∉ others) :
    program.ClosedUnderUses inner (nodes ∩ others) := by
  -- The outer set may fail to be closed at the outer label only, and this is not in the other set.
  have elsewhere (handle : Handle) (member : handle ∈ others) : handle ≠ outer.node := by
    rintro rfl
    exact avoids member
  refine ⟨?_, ?_, ?_⟩
  · intro parameter isParameter
    have fromOuter : parameter ∈ nodes :=
      closed.parameters inner.node inside apart _ _ _ inner (wellFormed.labels inner isInner).node
        (find?_of_mem wellFormed.names isInner) parameter isParameter
    exact ⟨fromOuter, innerClosed.start parameter isParameter⟩
  · rintro handle ⟨inOuter, inInner⟩ other user found reachable edges leads
    constructor
    · exact closed.users handle inOuter (elsewhere handle inInner) user found reachable edges leads
    · exact innerClosed.users handle inInner other user found reachable edges leads
  · rintro handle ⟨inOuter, inInner⟩ other name signature body label present found parameter
      isParameter
    constructor
    · exact closed.parameters handle inOuter (elsewhere handle inInner) name signature body label
        present found parameter isParameter
    · exact innerClosed.parameters handle inInner other name signature body label present found
        parameter isParameter

/-- The scope of a label is the least closed set without the label. -/
theorem exists_scope_isLeast (wellFormed : program.WellFormed) (resolved : program.Resolved)
    (isLabel : inner ∈ program.labels) : ∃ scope nodes, program.scope inner.name = .ok scope ∧
      IsLeast {closed : Set Handle | program.ClosedUnderUses inner closed} nodes ∧
      ∀ handle, handle ∈ scope.nodes ↔ handle ∈ nodes ∧ handle ≠ inner.node := by
  obtain ⟨uses, users, faultless, -, success⟩ :=
    exists_scopeSearch wellFormed resolved (find?_of_mem wellFormed.names isLabel)
  have closed := closedUnderUses_order wellFormed users faultless
  refine ⟨_, _, success, ⟨closed, fun nodes isClosed => ?_⟩, fun handle => ?_⟩
  · exact isClosed.mem_of_visited wellFormed resolved users
  · simp [List.mem_filter]

/-- A label in the scope of another one either has that other label in its own scope, or its whole
scope, which leaves out the label itself, is inside the scope of the other. It is never both. -/
theorem scope_nested (wellFormed : program.WellFormed) (validated : program.validate = .ok ())
    (isOuter : outer ∈ program.labels) (isInner : inner ∈ program.labels) (different : outer ≠ inner) :
    ∃ outerScope innerScope, program.scope outer.name = .ok outerScope ∧
      program.scope inner.name = .ok innerScope ∧
      (inner.node ∈ outerScope.nodes →
        outer.node ∈ innerScope.nodes ∧ ¬ innerScope.nodes ⊆ outerScope.nodes ∨
        outer.node ∉ innerScope.nodes ∧ innerScope.nodes ⊆ outerScope.nodes ∧
          inner.node ∉ innerScope.nodes) := by
  have resolved := (validate_eq_ok_iff wellFormed).mp validated
  obtain ⟨outerScope, outerNodes, outerSuccess, outerLeast, inOuter⟩ :=
    exists_scope_isLeast wellFormed resolved isOuter
  obtain ⟨innerScope, innerNodes, innerSuccess, innerLeast, inInner⟩ :=
    exists_scope_isLeast wellFormed resolved isInner
  have apart : inner.node ≠ outer.node :=
    fun same => different (wellFormed.eq_of_node isInner isOuter same).symm
  refine ⟨outerScope, innerScope, outerSuccess, innerSuccess, fun member => ?_⟩
  by_cases back : outer.node ∈ innerScope.nodes
  · refine .inl ⟨back, fun included => ?_⟩
    exact ((inOuter outer.node).mp (included back)).2 rfl
  · have avoids : outer.node ∉ innerNodes :=
      fun visited => back ((inInner outer.node).mpr ⟨visited, apart.symm⟩)
    have closed := ClosedUnderUses.inter wellFormed isInner outerLeast.1 innerLeast.1
      ((inOuter inner.node).mp member).1 apart avoids
    refine .inr ⟨back, fun handle inside => ?_, fun inside => ((inInner inner.node).mp inside).2 rfl⟩
    have visited : handle ∈ innerNodes := ((inInner handle).mp inside).1
    refine (inOuter handle).mpr ⟨(innerLeast.2 closed visited).1, ?_⟩
    rintro rfl
    exact avoids visited

/-- In the factorial, the loop head is in the scope of the whole function and does not lead back to it, so
the scope of the loop is inside that of the function. -/
theorem scope_nested_factorial :
    let program := Samples.factorial.toOption.getD {}
    let fac := (program.find? "fac").getD default
    let head := (program.find? "head").getD default
    ∃ facScope headScope, program.WellFormed ∧ program.validate = .ok () ∧ fac ∈ program.labels ∧
      head ∈ program.labels ∧ fac ≠ head ∧ program.scope "fac" = .ok facScope ∧
      program.scope "head" = .ok headScope ∧ head.node ∈ facScope.nodes ∧
      headScope.continuations = ["next", "body"] ∧ fac.node ∉ headScope.nodes ∧
      headScope.nodes ⊆ facScope.nodes ∧ head.node ∉ headScope.nodes := by
  intro program fac head
  obtain ⟨facScope, headScope, facSuccess, headSuccess, member, continuations, outside⟩ :
      ∃ facScope headScope, program.scope "fac" = .ok facScope ∧
        program.scope "head" = .ok headScope ∧ head.node ∈ facScope.nodes ∧
        headScope.continuations = ["next", "body"] ∧ fac.node ∉ headScope.nodes :=
    ⟨(program.scope "fac").toOption.getD ⟨"", [], []⟩,
      (program.scope "head").toOption.getD ⟨"", [], []⟩, by decide +kernel⟩
  obtain ⟨wellFormed, validated, isFac, isHead, different, facNamed, headNamed⟩ :
      program.WellFormed ∧ program.validate = .ok () ∧ fac ∈ program.labels ∧
        head ∈ program.labels ∧ fac ≠ head ∧ fac.name = "fac" ∧ head.name = "head" := by
    decide +kernel
  obtain ⟨_, _, facAgain, headAgain, nested⟩ :=
    scope_nested wellFormed validated isFac isHead different
  rw [facNamed, facSuccess] at facAgain
  rw [headNamed, headSuccess] at headAgain
  cases facAgain
  cases headAgain
  rcases nested member with ⟨back, -⟩ | ⟨-, included, excludes⟩
  · exact absurd back outside
  · exact ⟨facScope, headScope, wellFormed, validated, isFac, isHead, different, facSuccess,
      headSuccess, member, continuations, outside, included, excludes⟩

end CpsGraph.Program
