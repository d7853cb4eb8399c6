import CpsGraph.Proofs.CallGraphs
import CpsGraph.Samples
import Mathlib.Order.Bounds.Basic

/-! # Scopes are least fixed points

The search for the scope of a label begins with the parameters of the label, and goes from a node to
its users and from a continuation to its parameters, but not on from the label itself. What it visits
is the least set of nodes that is closed in this way: closed since the search meets no fault, and
least since every closed set holds the parameters and is kept along the edges of the search. A scope
that is remembered is the scope that would be found again, whatever was asked for before.
-/

namespace CpsGraph

namespace Program

variable {program : Program} {entry : Label} {uses : Uses}

/-- A search for a scope visits only what is in every closed set. -/
theorem ClosedUnderUses.mem_of_visited {nodes : Set Handle}
    (closed : program.ClosedUnderUses entry nodes) (wellFormed : program.WellFormed)
    (resolved : program.Resolved) (users : program.ListsUsers uses) :
    ∀ handle ∈ (program.scopeSearch uses entry).order, handle ∈ nodes := by
  refine Search.forall_mem_order closed.start fun handle found inside below next isNext => ?_
  obtain ⟨-, edges⟩ := Search.edgesBelow_eq_ok_iff.mp below
  obtain ⟨other, isUser | ⟨name, signature, body, label, present, resolves, isParameter⟩⟩ :=
    (mem_scopeEdges_iff edges).mp isNext
  · obtain ⟨-, reached, found, edgesOfUser, leads⟩ := (users handle next).mp isUser
    exact closed.users handle inside other next found (reached.reachable wellFormed resolved)
      edgesOfUser leads
  · exact closed.parameters handle inside other name signature body label present resolves next
      isParameter

end Program

namespace ScopeCache

variable {program : Program}

/-- A cache that was just prepared remembers nothing wrong. -/
theorem right_ofProgram {cache : ScopeCache} (prepared : ofProgram program = .ok cache) :
    Right program cache := by
  obtain ⟨uses, used, same⟩ := Results.bind_eq_ok_iff.mp prepared
  cases same
  exact ⟨rfl, used, nofun⟩

/-- Each of several scopes is the one that is found without remembering the others. -/
theorem scopeEach_eq_map {cache : ScopeCache} (right : Right program cache) (entries : List Name) :
    (scopeEach entries cache).1 = entries.map program.scope := by
  induction entries generalizing cache with
  | nil => rfl
  | cons entry entries ih =>
    obtain ⟨later, rightLater, ran⟩ := computes_scope entry cache right
    rw [scopeEach, ran, List.map_cons]
    cases program.scope entry with
    | error fault => exact congrArg _ (ih rightLater)
    | ok scope => exact congrArg _ (ih rightLater)

end ScopeCache

namespace Program

variable {program : Program}

/-- Every label of a program that passes validation has a scope. Up to the label itself, its nodes
are the least set that holds the parameters of the label and is closed under users and the parameters
of continuations, each listed once, and its continuations are those among these nodes. Scopes that
are asked for one after the other, with earlier ones remembered, are the same scopes. -/
theorem scope_isLeast_closedUnderUses (wellFormed : program.WellFormed)
    (validated : program.validate = .ok ()) :
    (∀ name entry, program.find? name = some entry →
      ∃ scope nodes, program.scope name = .ok scope ∧ scope.entry = name ∧
        IsLeast {closed : Set Handle | program.ClosedUnderUses entry closed} nodes ∧
        scope.nodes.Nodup ∧ (∀ handle, handle ∈ scope.nodes ↔ handle ∈ nodes ∧ handle ≠ entry.node) ∧
        scope.continuations.Nodup ∧ ∀ continuation, continuation ∈ scope.continuations ↔
          ∃ handle ∈ nodes, handle ≠ entry.node ∧ ∃ signature body,
            program.table.get? handle = some (.continuation continuation signature body)) ∧
    ∃ cache, ScopeCache.ofProgram program = .ok cache ∧
      ∀ entries, (ScopeCache.scopeEach entries cache).1 = entries.map program.scope := by
  have resolved := (validate_eq_ok_iff wellFormed).mp validated
  constructor
  · intro name entry found
    obtain ⟨uses, users, faultless, -, success⟩ := exists_scopeSearch wellFormed resolved found
    have distinct := (Search.nodup_order .breadthFirst program.size (program.scopeEdges uses entry)
      entry.parameters []).1
    refine ⟨_, _, success, name_of_find? found,
      ⟨closedUnderUses_order wellFormed users faultless, fun nodes closed => ?_⟩, distinct.filter _,
      fun handle => ?_, nodup_eraseDups _, fun continuation => ?_⟩
    · exact closed.mem_of_visited wellFormed resolved users
    · simp [List.mem_filter]
    · simp [List.mem_eraseDups, List.mem_filterMap, List.mem_filter, continuationName?_eq_some_iff,
        and_assoc]
  · obtain ⟨uses, used, -⟩ := resolved.exists_uses wellFormed
    have prepared : ScopeCache.ofProgram program = .ok { program, uses } := by
      rw [ScopeCache.ofProgram, used]
      rfl
    exact ⟨_, prepared, ScopeCache.scopeEach_eq_map (ScopeCache.right_ofProgram prepared)⟩

/-- In the factorial, the loop calls its head again, so the node of the head is in the closed set from
which it is taken out. Asked for again after another scope, the scope of the head is the same. -/
theorem scope_isLeast_closedUnderUses_factorial :
    let program := Samples.factorial.toOption.getD {}
    let head := (program.find? "head").getD default
    ∃ scope nodes, program.WellFormed ∧ program.validate = .ok () ∧
      program.find? "head" = some head ∧ program.scope "head" = .ok scope ∧
      scope.continuations = ["next", "body"] ∧ head.body ∈ scope.nodes ∧ scope.nodes.Nodup ∧
      IsLeast {closed : Set Handle | program.ClosedUnderUses head closed} nodes ∧
      head.node ∈ nodes ∧ (∀ handle, handle ∈ scope.nodes ↔ handle ∈ nodes ∧ handle ≠ head.node) ∧
      ∃ cache, ScopeCache.ofProgram program = .ok cache ∧
        (ScopeCache.scopeEach ["head", "fac", "missing", "head"] cache).1 =
          [.ok scope, program.scope "fac", program.scope "missing", .ok scope] := by
  intro program head
  obtain ⟨wellFormed, validated, found, isLabel, edges⟩ : program.WellFormed ∧
      program.validate = .ok () ∧ program.find? "head" = some head ∧ head ∈ program.labels ∧
      program.successors head.node = .ok (head.body :: head.parameters) := by decide +kernel
  obtain ⟨scopes, cache, prepared, remembered⟩ := scope_isLeast_closedUnderUses wellFormed validated
  obtain ⟨scope, nodes, success, -, least, distinct, members, -⟩ := scopes "head" head found
  obtain ⟨continuations, atBody⟩ : scope.continuations = ["next", "body"] ∧ head.body ∈ scope.nodes := by
    have evaluated : ∃ scope, program.scope "head" = .ok scope ∧
        scope.continuations = ["next", "body"] ∧ head.body ∈ scope.nodes :=
      ⟨(program.scope "head").toOption.getD ⟨"", [], []⟩, by decide +kernel⟩
    obtain ⟨again, successAgain, evaluated⟩ := evaluated
    rw [success] at successAgain
    cases successAgain
    exact evaluated
  obtain ⟨inside, other⟩ := (members head.body).mp atBody
  have atHead : head.node ∈ nodes := least.1.users head.body inside other head.node _
    (.label isLabel) edges List.mem_cons_self
  refine ⟨scope, nodes, wellFormed, validated, found, success, continuations, atBody, distinct, least,
    atHead, members, cache, prepared, ?_⟩
  rw [remembered]
  simp only [List.map_cons, List.map_nil, success]

end Program

end CpsGraph
