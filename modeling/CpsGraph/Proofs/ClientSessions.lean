import CpsGraph.Proofs.CheckedRequests

/-! # Sessions of clients

A client holds any number of programs, some of them under construction, and makes calls in any order
with any handles, texts and numbers. Whatever it does, the programs that it holds are guarded: children
come before their parents, a refused call leaves a program as it was, and everything that is looked up
is there, be it a node, a parameter, a label of a call graph or a remembered scope.
-/

namespace CpsGraph

/-! ## Lookups that cannot fail -/

namespace Simplify

/-- The states in which nodes are imported: after any number of nodes and labels. Literals are looked up
in such states, at handles that were imported. -/
inductive Stage (old : Program) : State → Prop
  | start : Stage old {}
  | node {state later : State} {bound : Nat} {handle new : Handle} (stage : Stage old state)
      (ran : (importBelow old bound handle).run state = .ok new later) : Stage old later
  | label {state later : State} {label : Label} {mentioned : List Name} (stage : Stage old state)
      (ran : (importLabel old label).run state = .ok mentioned later) : Stage old later

theorem Stage.faithful {old : Program} {state : State} (stage : Stage old state) :
    Faithful old state.program.table state.imported := by
  induction stage with
  | start => exact ⟨by decide, nofun, nofun⟩
  | node _ ran ih => exact (gives_importBelow old _ _ _ _ _ ih ran).2.1
  | label _ ran ih =>
    obtain ⟨body, middle, program, ranBody, defined, -, rfl⟩ := importLabel_eq_ok ran
    obtain ⟨-, faithful, -⟩ := gives_importBelow old _ _ _ _ _ ih ranBody
    obtain ⟨-, label, table, registered, rfl⟩ := Program.define_eq_ok defined
    obtain ⟨growth, closed, -⟩ := faithful.wellFormed.register registered
    exact faithful.grow growth closed

end Simplify

theorem ScopeCache.find?_of_scope {cache later : ScopeCache} {entry : Name} {found : Scope}
    (ran : (scope entry).run cache = .ok found later) :
    later.scopes.find? (·.entry == entry) = some found := by
  change scope entry cache = _ at ran
  unfold scope at ran
  cases resolved : cache.program.resolve entry with
  | error fault =>
    rw [resolved] at ran
    cases ran
  | ok label =>
    obtain rfl := Program.name_of_find? (Program.resolve_eq_ok_iff.mp resolved)
    rw [resolved] at ran
    cases remembered : cache.scopes.find? (·.entry == label.name) with
    | some known =>
      simp only [remembered] at ran
      cases ran
      exact remembered
    | none =>
      simp only [remembered] at ran
      cases atLabel : cache.program.scopeOf cache.uses label with
      | error fault =>
        rw [atLabel] at ran
        cases ran
      | ok new =>
        rw [atLabel] at ran
        cases ran
        exact List.find?_cons_of_pos (beq_iff_eq.mpr (Program.entry_of_scopeOf atLabel))

namespace Program

variable {program : Program}

theorem node?_callNodes {label : Label} (member : label ∈ program.labels) (edges : List CallEdge) :
    (CallGraph.node? ⟨program.callNodes, edges⟩ label.name).isSome := by
  refine List.find?_isSome.mpr ⟨_, List.mem_map_of_mem member, ?_⟩
  exact beq_self_eq_true label.name

theorem ends_of_mem_edges {graph : CallGraph} (built : program.callGraph = .ok graph) {edge : CallEdge}
    (member : edge ∈ graph.edges) :
    (graph.node? edge.caller).isSome ∧ (graph.node? edge.callee).isSome := by
  rw [callGraph_eq_direct] at built
  obtain ⟨_, -, built⟩ := Results.bind_eq_ok_iff.mp built
  obtain ⟨lists, found, built⟩ := Results.bind_eq_ok_iff.mp built
  cases built
  obtain ⟨list, isList, isEdge⟩ := List.mem_flatten.mp member
  obtain ⟨caller, isLabel, leaving⟩ :=
    Results.exists_right_of_mem (Results.mapM_eq_ok_iff.mp found).flip isList
  obtain ⟨targets, -, leaving⟩ := Results.bind_eq_ok_iff.mp leaving
  obtain ⟨target, -, made⟩ := Results.exists_right_of_mem (Results.mapM_eq_ok_iff.mp leaving).flip isEdge
  obtain ⟨callee, resolved, made⟩ := Results.bind_eq_ok_iff.mp made
  obtain ⟨_, -, made⟩ := Results.bind_eq_ok_iff.mp made
  cases made
  exact ⟨node?_callNodes isLabel _, node?_callNodes (mem_of_find? (resolve_eq_ok_iff.mp resolved)) _⟩

theorem WellFormed.exists_ty_of_parameter (wellFormed : program.WellFormed) {name : Name} {index : Nat}
    {handle : Handle} (success : program.parameter name index = .ok handle) :
    ∃ label ty, program.find? name = some label ∧ label.signature[index]? = some ty ∧
      program.table.get? handle = some (.parameter name index) := by
  obtain ⟨label, found, atIndex⟩ := parameter_eq_ok_iff.mp success
  have registered := wellFormed.registered found
  have inRange : index < label.arity := by
    rw [← registered.length_parameters]
    exact (List.getElem?_eq_some_iff.mp atIndex).1
  refine ⟨label, _, found, List.getElem?_eq_getElem inRange, ?_⟩
  rw [← name_of_find? found]
  exact registered.get?_parameter atIndex

end Program

namespace Client

/-! ## Guarded programs -/

/-- A program on which no call of a client can go astray.

* Children come before their parents.
* A request served in place does what it should, and leaves the program as it was if it fails.
* Requests check the handles that they pass in, and fail for no other unknown handle.
* A parameter that is found has a type in the signature of its label, and a node.
* Searches visit nodes only. When nodes are imported, what was imported has a node on both sides.
* The ends of every edge are nodes of the call graph, and a scope that was asked for is remembered. -/
structure Guarded (program : Program) : Prop where
  ordered : ∀ handle node, program.table.get? handle = some node → ∀ child ∈ node.children, child < handle
  inPlace : ∀ request : BuildRequest,
    request.perform.run program = Results.inPlace program (request.serve program)
  unchanged : ∀ (request : BuildRequest) error later,
    request.perform.run program = .error error later → later = program
  build : ∀ request : BuildRequest, Checked program request.handles (request.serve program)
  ask : ∀ (request : Request) outcome, request.serve program = some outcome →
    Checked program request.handles outcome
  parameters : ∀ name index handle, program.parameter name index = .ok handle →
    ∃ label ty, program.find? name = some label ∧ label.signature[index]? = some ty ∧
      program.table.get? handle = some (.parameter name index)
  visited : ∀ strategy edges frontier marked,
    ∀ handle ∈ (Search.walk strategy program.size edges frontier marked).order, handle < program.size
  imported : ∀ state, Simplify.Stage program state → ∀ old new, (old, new) ∈ state.imported →
    old < program.size ∧ new < state.program.size
  importing : ∀ state, Simplify.Stage program state → ∀ bound handle new later,
    (Simplify.importBelow program bound handle).run state = .ok new later → (handle, new) ∈ later.imported
  callGraph : ∀ graph, program.callGraph = .ok graph → ∀ edge ∈ graph.edges,
    (graph.node? edge.caller).isSome ∧ (graph.node? edge.callee).isSome
  scopes : ∀ (cache later : ScopeCache) entry scope, cache.program = program →
    (ScopeCache.scope entry).run cache = .ok scope later →
      later.scopes.find? (·.entry == entry) = some scope

/-- A request that fails in place changes nothing. -/
theorem eq_of_perform_eq_error {program later : Program} {request : BuildRequest} {error : ClientError}
    (failed : request.perform.run program = .error error later) : later = program := by
  rw [perform_run] at failed
  cases served : request.serve program with
  | ok _ =>
    rw [served] at failed
    cases failed
  | error other =>
    rw [served] at failed
    cases failed
    rfl

theorem guarded_of_wellFormed {program : Program} (wellFormed : program.WellFormed) : Guarded program where
  ordered _ _ present _ part := wellFormed.table.child_lt present part
  inPlace := perform_run program
  unchanged _ _ _ failed := eq_of_perform_eq_error failed
  build := checked_build program
  ask request _ served := checked_request wellFormed request served
  parameters _ _ _ success := wellFormed.exists_ty_of_parameter success
  visited _ _ _ _ _ member := Search.lt_of_mem_order member
  imported state stage old new member := by
    have faithful := stage.faithful
    obtain ⟨node, present, -⟩ := faithful.translates old new member
    exact ⟨Table.lt_size_of_get? present, faithful.inRange old new member⟩
  importing state stage bound handle new later ran :=
    (Simplify.gives_importBelow program bound handle state new later stage.faithful ran).2.2
  callGraph _ built _ member := Program.ends_of_mem_edges built member
  scopes _ _ _ _ _ ran := ScopeCache.find?_of_scope ran

/-! ## What a client holds -/

/-- The programs under construction and the finished ones that a client holds. -/
structure Holdings where
  builders : List Program := []
  programs : List Program := []
deriving DecidableEq

/-- A call of a client. The objects that it holds are numbered. -/
inductive Call where
  | newBuilder
  | build (builder : Nat) (request : BuildRequest)
  | snapshot (builder : Nat)
  | ask (program : Nat) (request : Request)
deriving DecidableEq

namespace Holdings

/-- Receive an answer: the program that was asked may have grown, and the programs in the answer are new.
A failure brings nothing. -/
def receive (held : Holdings) (index : Nat) : Option (Except ClientError (Answer × Program)) → Holdings
  | some (.ok (answer, later)) =>
    { held with programs := held.programs.set index later ++ answer.programs }
  | _ => held

/-- What a client holds after a call. Programs under construction are changed in place, and a snapshot is
a copy. -/
def after (held : Holdings) : Call → Holdings
  | .newBuilder => { held with builders := held.builders ++ [{}] }
  | .build builder request =>
    { held with
      builders := held.builders.modify builder fun program => Results.left (request.perform.run program) }
  | .snapshot builder => { held with programs := held.programs ++ held.builders[builder]?.toList }
  | .ask index request => held.receive index (held.programs[index]?.bind request.serve)

/-- What a client holds after some calls. -/
def afterAll (held : Holdings) (calls : List Call) : Holdings := calls.foldl after held

/-- All programs that a client holds. -/
def all (held : Holdings) : List Program := held.builders ++ held.programs

theorem wellFormed_left {program : Program} (wellFormed : program.WellFormed) (request : BuildRequest) :
    (Results.left (request.perform.run program)).WellFormed := by
  rw [perform_run]
  cases served : request.serve program with
  | ok result => exact wellFormed_build wellFormed served
  | error error => exact wellFormed

/-- A call keeps all programs well formed. -/
theorem wellFormed_after {held : Holdings} (wellFormed : ∀ program ∈ held.all, program.WellFormed)
    (call : Call) : ∀ program ∈ (held.after call).all, program.WellFormed := by
  unfold all at wellFormed ⊢
  rw [List.forall_mem_append] at wellFormed ⊢
  obtain ⟨builders, programs⟩ := wellFormed
  cases call with
  | newBuilder =>
    refine ⟨List.forall_mem_append.mpr ⟨builders, ?_⟩, programs⟩
    exact List.forall_mem_singleton.mpr (by decide)
  | build builder request =>
    refine ⟨fun program member => ?_, programs⟩
    change program ∈ held.builders.modify builder _ at member
    obtain ⟨place, atPlace⟩ := List.mem_iff_getElem?.mp member
    rw [List.getElem?_modify] at atPlace
    obtain ⟨before, wasThere, rfl⟩ := Option.map_eq_some_iff.mp atPlace
    have kept := builders before (List.mem_of_getElem? wasThere)
    split_ifs
    · exact wellFormed_left kept request
    · exact kept
  | snapshot builder =>
    refine ⟨builders, List.forall_mem_append.mpr ⟨programs, fun program member => ?_⟩⟩
    exact builders program (List.mem_of_getElem? (Option.mem_toList.mp member))
  | ask index request =>
    change (∀ program ∈ (held.receive index (held.programs[index]?.bind request.serve)).builders, _) ∧
      ∀ program ∈ (held.receive index (held.programs[index]?.bind request.serve)).programs, _
    cases answered : held.programs[index]?.bind request.serve with
    | none => exact ⟨builders, programs⟩
    | some outcome =>
      cases outcome with
      | error error => exact ⟨builders, programs⟩
      | ok result =>
        obtain ⟨program, found, served⟩ := Option.bind_eq_some_iff.mp answered
        obtain ⟨kept, made⟩ := wellFormed_request (programs program (List.mem_of_getElem? found)) served
        refine ⟨builders, List.forall_mem_append.mpr ⟨fun other member => ?_, made⟩⟩
        rcases List.mem_or_eq_of_mem_set member with old | rfl
        · exact programs other old
        · exact kept

/-- Calls keep all programs well formed. -/
theorem wellFormed_afterAll {held : Holdings} (wellFormed : ∀ program ∈ held.all, program.WellFormed)
    (calls : List Call) : ∀ program ∈ (held.afterAll calls).all, program.WellFormed := by
  induction calls generalizing held with
  | nil => exact wellFormed
  | cons call calls ih => exact ih (wellFormed_after wellFormed call)

/-- All programs that a client can come to hold are guarded. -/
theorem guarded_afterAll (calls : List Call) :
    ∀ program ∈ (Holdings.afterAll {} calls).all, Guarded program := by
  intro program member
  have empty : ∀ program ∈ Holdings.all {}, program.WellFormed := nofun
  exact guarded_of_wellFormed (wellFormed_afterAll empty calls program member)

/-- A client passes handles without nodes, defines a label whose body is no body, and replaces a node by
an unknown one. All this is refused and changes nothing, and the client goes on to simplify a program. -/
theorem guarded_afterAll_refused :
    let accepted : List Call :=
      [.newBuilder, .build 0 (.int 7), .build 0 (.int 8), .build 0 (.parameter "f" 0),
        .build 0 (.call 2 [0]), .build 0 (.define "f" "fn(fn(int))" 3 true), .snapshot 0]
    let refused : List Call :=
      [.build 0 (.primitive "+" [0, 9]), .build 0 (.define "g" "fn()" 0 false),
        .build 0 (.define "g" "fn()" 70 false), .ask 0 (.query (.specialize "f" "g" "fn()" [(2, 99)]))]
    let held := Holdings.afterAll {} (accepted ++ refused ++ [.ask 0 (.query .simplify)])
    held = Holdings.afterAll {} (accepted ++ [.ask 0 (.query .simplify)]) ∧
    ∃ builder ∈ held.all, ∃ simplified ∈ held.all, builder.size = 6 ∧ simplified.size = 5 ∧
      simplified.names = ["f"] ∧ Guarded builder ∧ Guarded simplified := by
  intro accepted refused held
  obtain ⟨same, builder, isBuilder, simplified, isSimplified, larger, smaller, named⟩ :
      held = Holdings.afterAll {} (accepted ++ [.ask 0 (.query .simplify)]) ∧
      ∃ builder ∈ held.all, ∃ simplified ∈ held.all, builder.size = 6 ∧ simplified.size = 5 ∧
        simplified.names = ["f"] := by decide +kernel
  exact ⟨same, builder, isBuilder, simplified, isSimplified, larger, smaller, named,
    guarded_afterAll _ builder isBuilder, guarded_afterAll _ simplified isSimplified⟩

end Holdings

end Client

end CpsGraph
