import CpsGraph.CallGraph
import CpsGraph.Proofs.Scopes

/-! # Call graphs without a cache

The scopes that a call graph needs are found once and then remembered. A remembered scope is the
scope that would be found again, so the graph is the one that is built without remembering. Every
program that passes validation has a call graph.
-/

namespace CpsGraph

/-- An outcome together with the state in which it was reached. -/
def Results.withState {ε σ α : Type} (state : σ) : Except ε α → EStateM.Result ε σ α
  | .ok value => .ok value state
  | .error fault => .error fault state

namespace ScopeCache

/-- The remembered scopes are scopes of the program. -/
structure Right (program : Program) (cache : ScopeCache) : Prop where
  same : cache.program = program
  uses : program.uses = .ok cache.uses
  scopes : ∀ scope ∈ cache.scopes, program.scope scope.entry = .ok scope

/-- A computation that remembers scopes gives what a computation without memory gives. -/
def Computes {α : Type} (program : Program) (computation : EStateM GraphError ScopeCache α)
    (direct : Except GraphError α) : Prop :=
  ∀ cache, Right program cache → ∃ later, Right program later ∧
    computation.run cache = Results.withState later direct

variable {program : Program} {α β : Type}

theorem Computes.pure (value : α) : Computes program (Pure.pure value) (Pure.pure value) :=
  fun cache right => ⟨cache, right, rfl⟩

theorem Computes.liftExcept (step : Except GraphError α) :
    Computes program (liftExcept step) step := by
  intro cache right
  refine ⟨cache, right, ?_⟩
  cases step <;> rfl

theorem Computes.bind {first : EStateM GraphError ScopeCache α} {directFirst : Except GraphError α}
    {second : α → EStateM GraphError ScopeCache β} {directSecond : α → Except GraphError β}
    (computes : Computes program first directFirst)
    (next : ∀ value, Computes program (second value) (directSecond value)) :
    Computes program (first >>= second) (directFirst >>= directSecond) := by
  intro cache right
  obtain ⟨middle, rightMiddle, ran⟩ := computes cache right
  rw [EStateM.run_bind, ran]
  cases directFirst with
  | error fault => exact ⟨middle, rightMiddle, rfl⟩
  | ok value => exact next value middle rightMiddle

theorem Computes.mapM {act : α → EStateM GraphError ScopeCache β} {direct : α → Except GraphError β}
    (each : ∀ element, Computes program (act element) (direct element)) (elements : List α) :
    Computes program (elements.mapM act) (elements.mapM direct) := by
  induction elements with
  | nil => exact .pure []
  | cons element elements ih =>
    rw [List.mapM_cons, List.mapM_cons]
    exact (each element).bind fun first => ih.bind fun rest => .pure (first :: rest)

/-- The scope of a label is the same whether it is remembered or found. -/
theorem computes_scope (entry : Name) : Computes program (scope entry) (program.scope entry) := by
  intro cache right
  obtain ⟨rfl, used, known⟩ := right
  have direct : cache.program.scope entry =
      cache.program.resolve entry >>= cache.program.scopeOf cache.uses := by
    rw [Program.scope, used]
    rfl
  change ∃ later, _ ∧ scope entry cache = _
  unfold scope
  cases resolves : cache.program.resolve entry with
  | error fault =>
    rw [direct, resolves]
    exact ⟨cache, ⟨rfl, used, known⟩, rfl⟩
  | ok label =>
    have named := Program.name_of_find? (Program.resolve_eq_ok_iff.mp resolves)
    simp only
    cases remembered : cache.scopes.find? (·.entry == label.name) with
    | some scope =>
      have isEntry : scope.entry = entry := (eq_of_beq (List.find?_some remembered :)).trans named
      refine ⟨cache, ⟨rfl, used, known⟩, ?_⟩
      rw [← isEntry, known scope (List.mem_of_find?_eq_some remembered)]
      rfl
    | none =>
      have found : cache.program.scope entry = cache.program.scopeOf cache.uses label := by
        rw [direct, resolves]
        rfl
      rw [found]
      cases atLabel : cache.program.scopeOf cache.uses label with
      | error fault => exact ⟨cache, ⟨rfl, used, known⟩, rfl⟩
      | ok scope =>
        have isEntry : scope.entry = entry := (Program.entry_of_scopeOf atLabel).trans named
        have atEntry : cache.program.scope scope.entry = .ok scope := by rw [isEntry, found, atLabel]
        exact ⟨{ cache with scopes := scope :: cache.scopes },
          ⟨rfl, used, List.forall_mem_cons.mpr ⟨atEntry, known⟩⟩, rfl⟩

end ScopeCache

namespace Program

variable {program : Program} {label : Label} {handle : Handle}

/-- The edge from a label to one of its callees, found directly. -/
def directCallEdge (program : Program) (caller : Label) (target : Name) :
    Except GraphError CallEdge := do
  let callee ← program.resolve target
  let scope ← program.scope target
  return { caller := caller.name
           callee := callee.name
           order := callee.signature.order
           simple := scope.continuations.contains caller.name }

/-- The edges that leave a label, found directly. -/
def directCallEdges (program : Program) (caller : Label) : Except GraphError (List CallEdge) := do
  let targets ← program.callees caller.body
  targets.mapM (program.directCallEdge caller)

/-- The call graph, found without remembering scopes. -/
def directCallGraph (program : Program) : Except GraphError CallGraph := do
  let _ ← program.uses
  let edges ← program.labels.mapM program.directCallEdges
  return { nodes := program.callNodes, edges := edges.flatten }

theorem computes_callEdges (caller : Label) :
    ScopeCache.Computes program (program.callEdges caller) (program.directCallEdges caller) :=
  (ScopeCache.Computes.liftExcept _).bind fun _ => .mapM (fun target =>
    (ScopeCache.Computes.liftExcept _).bind fun _ =>
      (ScopeCache.computes_scope target).bind fun _ => .pure _) _

/-- Remembering scopes does not change the call graph. -/
theorem callGraph_eq_direct (program : Program) : program.callGraph = program.directCallGraph := by
  unfold callGraph callGraphReport ScopeCache.ofProgram directCallGraph
  cases used : program.uses with
  | error fault => rfl
  | ok uses =>
    obtain ⟨later, -, ran⟩ := ScopeCache.Computes.mapM computes_callEdges program.labels
      { program, uses } ⟨rfl, used, nofun⟩
    dsimp only [bind, Except.bind, pure, Except.pure]
    rw [ran]
    cases program.labels.mapM program.directCallEdges <;> rfl

/-! ## Programs that have a call graph -/

theorem abstractionTarget?_eq_some_iff {target : Name} :
    program.abstractionTarget? handle = some target ↔
      program.table.get? handle = some (.abstraction target) := by
  unfold abstractionTarget?
  split
  next present => simp [present]
  next other => exact ⟨nofun, fun present => absurd present (other target)⟩

/-- The search through a body goes from a node to its children, unless it is a continuation. -/
theorem bodyEdges_of_leads {node : Node} {found : List Handle}
    (present : program.table.get? handle = some node) (leads : program.Leads node found) :
    program.bodyEdges handle = .ok (if node.kind = .continuation then [] else node.children) := by
  unfold bodyEdges
  rw [Table.get_eq_ok_iff.mpr present]
  cases leads with
  | abstraction found =>
    exact Results.bind_eq_ok_iff.mpr ⟨_, rfl, Results.bind_eq_ok_iff.mpr
      ⟨_, resolve_eq_ok_iff.mpr found, rfl⟩⟩
  | _ => rfl

section Building

variable (wellFormed : program.WellFormed) (resolved : program.Resolved)

include wellFormed resolved

theorem Reached.exists_bodyEdges (reached : program.Reached handle) :
    ∃ found, Search.edgesBelow program.size program.bodyEdges handle = .ok found ∧
      ∀ next ∈ found, program.Reached next := by
  obtain ⟨found, edges⟩ := resolved handle reached
  obtain ⟨node, present, leads⟩ := successors_eq_ok_iff.mp edges
  refine ⟨_, Search.edgesBelow_eq_ok_iff.mpr
    ⟨reached.lt_size wellFormed, bodyEdges_of_leads present leads⟩, fun next isNext => ?_⟩
  split_ifs at isNext
  · cases isNext
  · exact reached.child wellFormed present isNext

/-- The callees of a label of a resolved program are labels. -/
theorem exists_callees (member : label ∈ program.labels) :
    ∃ targets, program.callees label.body = .ok targets ∧ ∀ target ∈ targets, target ∈ program.names := by
  have start : ∀ handle ∈ [label.body], program.Reached handle := List.forall_mem_singleton.mpr
    ⟨label, member, .inr (.inr (Table.mem_parts_self _ _))⟩
  have faultless :
      (Search.walk .depthFirst program.size program.bodyEdges [label.body] []).fault = none :=
    Search.fault_eq_none start fun _ reached => reached.exists_bodyEdges wellFormed resolved
  refine ⟨_, Results.bind_eq_ok_iff.mpr ⟨_, Walk.result_eq_ok_iff.mpr ⟨faultless, rfl⟩, rfl⟩, ?_⟩
  intro target isTarget
  obtain ⟨handle, visited, named⟩ := List.mem_filterMap.mp (List.mem_eraseDups.mp isTarget)
  obtain ⟨found, edges, -⟩ := Search.mem_order_of_mem_edges faultless visited
  have atHandle := (Search.edgesBelow_eq_ok_iff.mp edges).2
  unfold bodyEdges at atHandle
  rw [Table.get_eq_ok_iff.mpr (abstractionTarget?_eq_some_iff.mp named)] at atHandle
  change (program.resolve target >>= _) = _ at atHandle
  obtain ⟨callee, resolves, -⟩ := Results.bind_eq_ok_iff.mp atHandle
  exact mem_names_iff.mpr ⟨callee, resolve_eq_ok_iff.mp resolves⟩

/-- Every resolved program has a call graph. -/
theorem exists_callGraph : ∃ graph, program.callGraph = .ok graph := by
  obtain ⟨uses, used, -⟩ := resolved.exists_uses wellFormed
  have eachTarget (caller : Label) (target : Name) (known : target ∈ program.names) :
      ∃ edge, program.directCallEdge caller target = .ok edge := by
    obtain ⟨callee, found⟩ := mem_names_iff.mp known
    obtain ⟨order, -, success⟩ := exists_scopeWalk wellFormed resolved found
    exact ⟨_, Results.bind_eq_ok_iff.mpr ⟨callee, resolve_eq_ok_iff.mpr found,
      Results.bind_eq_ok_iff.mpr ⟨_, success, rfl⟩⟩⟩
  have eachLabel (caller : Label) (member : caller ∈ program.labels) :
      ∃ edges, program.directCallEdges caller = .ok edges := by
    obtain ⟨targets, listed, known⟩ := exists_callees wellFormed resolved member
    obtain ⟨edges, success⟩ := Results.exists_mapM_eq_ok fun target isTarget =>
      eachTarget caller target (known target isTarget)
    exact ⟨edges, Results.bind_eq_ok_iff.mpr ⟨targets, listed, success⟩⟩
  obtain ⟨edges, success⟩ := Results.exists_mapM_eq_ok eachLabel
  rw [callGraph_eq_direct]
  exact ⟨_, Results.bind_eq_ok_iff.mpr ⟨uses, used, Results.bind_eq_ok_iff.mpr ⟨edges, success, rfl⟩⟩⟩

end Building

end Program

end CpsGraph
