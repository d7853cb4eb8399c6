import CpsGraph.Proofs.Parts
import CpsGraph.Proofs.SearchResults
import CpsGraph.Traversal

/-! # What traversals reach

From the labels of a well-formed program nothing can be reached but their continuations, their
parameters and the parts of their bodies. A program is resolved if all of these have edges. These are
the programs that pass validation, and on them every traversal succeeds and visits exactly what can
be reached.
-/

namespace CpsGraph

theorem Uses.mem_of_ofEdges {size : Nat} {edges : List (Handle × List Handle)}
    {handle user : Handle} : user ∈ (Uses.ofEdges size edges).of handle ↔
      handle < size ∧ ∃ used, (user, used) ∈ edges ∧ handle ∈ used := by
  unfold Uses.ofEdges Uses.of
  by_cases inRange : handle < size
  · simp only [Array.getElem?_ofFn, inRange, dite_true, Option.getD_some, List.mem_filterMap,
      Prod.exists, true_and]
    constructor
    · rintro ⟨other, used, member, isUser⟩
      split_ifs at isUser with uses
      cases isUser
      exact ⟨used, member, uses⟩
    · rintro ⟨used, member, uses⟩
      exact ⟨user, used, member, if_pos uses⟩
  · simp [inRange]

namespace Program

/-- What a node leads to: a continuation also to its parameters, a closure to its continuation, and
any other node to its children. Names, indices and the length of a branch are checked. -/
inductive Leads (program : Program) : Node → List Handle → Prop
  | continuation {name : Name} {signature : Signature} {body : Handle} {label : Label}
      (found : program.find? name = some label) :
      Leads program (.continuation name signature body) (body :: label.parameters)
  | call (callee : Handle) (arguments : List Handle) :
      Leads program (.call callee arguments) (callee :: arguments)
  | branch {arguments : List Handle} (arity : arguments.length = branchArity) :
      Leads program (.branch arguments) arguments
  | primitive (op : Operator) (operands : List Handle) :
      Leads program (.primitive op operands) operands
  | abstraction {target : Name} {label : Label} (found : program.find? target = some label) :
      Leads program (.abstraction target) [label.node]
  | parameter {target : Name} {index : Nat}
      (known : ∃ handle, program.parameter target index = .ok handle) :
      Leads program (.parameter target index) []
  | quote (literal : Literal) : Leads program (.quote literal) []
  | cast (source : Handle) (ty : Ty) : Leads program (.cast source ty) [source]

/-- A node that can be reached from a label: its continuation, one of its parameters, or a part of
its body. -/
def Reached (program : Program) (handle : Handle) : Prop :=
  ∃ label ∈ program.labels, handle = label.node ∨ handle ∈ label.parameters ∨
    handle ∈ program.table.parts label.body

/-- What can be reached from the continuation of a label by following edges. -/
inductive Reachable (program : Program) : Handle → Prop
  | label {label : Label} (member : label ∈ program.labels) : Reachable program label.node
  | edge {handle next : Handle} {found : List Handle} (reachable : Reachable program handle)
      (edges : program.successors handle = .ok found) (isNext : next ∈ found) :
      Reachable program next

/-- The users that are listed for a node are the reached nodes that lead to it. -/
def ListsUsers (program : Program) (uses : Uses) : Prop :=
  ∀ handle user, user ∈ uses.of handle ↔ handle < program.size ∧ program.Reached user ∧
    ∃ found, program.successors user = .ok found ∧ handle ∈ found

/-- Every node that can be reached has edges. -/
def Resolved (program : Program) : Prop :=
  ∀ handle, program.Reached handle → ∃ found, program.successors handle = .ok found

variable {program : Program} {handle : Handle} {node : Node} {label : Label} {name : Name}
  {found : List Handle}

/-- The edges of a node are what it leads to. -/
theorem successors_eq_ok_iff : program.successors handle = .ok found ↔
    ∃ node, program.table.get? handle = some node ∧ program.Leads node found := by
  constructor
  · intro success
    obtain ⟨node, present, edges⟩ := Results.bind_eq_ok_iff.mp success
    refine ⟨node, Table.get_eq_ok_iff.mp present, ?_⟩
    cases node with
    | continuation name signature body =>
      obtain ⟨label, resolved, same⟩ := Results.bind_eq_ok_iff.mp edges
      cases same
      exact .continuation (resolve_eq_ok_iff.mp resolved)
    | branch arguments =>
      change (if arguments.length = branchArity then pure arguments else throw _) = _ at edges
      split_ifs at edges with arity
      cases edges
      exact .branch arity
    | abstraction target =>
      obtain ⟨label, resolved, same⟩ := Results.bind_eq_ok_iff.mp edges
      cases same
      exact .abstraction (resolve_eq_ok_iff.mp resolved)
    | parameter target index =>
      obtain ⟨other, known, same⟩ := Results.bind_eq_ok_iff.mp edges
      cases same
      exact .parameter ⟨other, known⟩
    | call callee arguments =>
      cases edges
      exact .call callee arguments
    | primitive op operands =>
      cases edges
      exact .primitive op operands
    | quote literal =>
      cases edges
      exact .quote literal
    | cast source ty =>
      cases edges
      exact .cast source ty
  · rintro ⟨node, present, leads⟩
    refine Results.bind_eq_ok_iff.mpr ⟨node, Table.get_eq_ok_iff.mpr present, ?_⟩
    cases leads with
    | continuation found | abstraction found =>
      exact Results.bind_eq_ok_iff.mpr ⟨_, resolve_eq_ok_iff.mpr found, rfl⟩
    | branch arity => exact if_pos arity
    | parameter known =>
      obtain ⟨other, known⟩ := known
      exact Results.bind_eq_ok_iff.mpr ⟨other, known, rfl⟩
    | call | primitive | quote | cast => rfl

theorem successors_parameter {index : Nat}
    (present : program.table.get? handle = some (.parameter name index))
    (known : ∃ handle, program.parameter name index = .ok handle) :
    program.successors handle = .ok [] :=
  successors_eq_ok_iff.mpr ⟨_, present, .parameter known⟩

/-- A closure leads to the continuation that it names. -/
theorem successors_abstraction (present : program.table.get? handle = some (.abstraction name))
    (found : program.find? name = some label) : program.successors handle = .ok [label.node] :=
  successors_eq_ok_iff.mpr ⟨_, present, .abstraction found⟩

/-- A node leads to its children. -/
theorem Leads.child (leads : program.Leads node found) : ∀ child ∈ node.children, child ∈ found := by
  cases leads with
  | continuation => exact fun child isChild => List.mem_singleton.mp isChild ▸ List.mem_cons_self
  | abstraction => exact nofun
  | _ => exact fun _ => id

section Reaching

variable (wellFormed : program.WellFormed)

include wellFormed

/-- A continuation leads to its body and its parameters. -/
theorem successors_node (member : label ∈ program.labels) :
    program.successors label.node = .ok (label.body :: label.parameters) :=
  successors_eq_ok_iff.mpr ⟨_, (wellFormed.labels label member).node,
    .continuation (find?_of_mem wellFormed.names member)⟩

theorem Reached.lt_size (reached : program.Reached handle) : handle < program.size := by
  obtain ⟨label, member, rfl | isParameter | inside⟩ := reached
  · exact Table.lt_size_of_get? (wellFormed.labels label member).node
  · obtain ⟨index, atIndex⟩ := List.mem_iff_getElem?.mp isParameter
    exact Table.lt_size_of_get? ((wellFormed.labels label member).get?_parameter atIndex)
  · obtain ⟨node, present, -⟩ := (wellFormed.labels label member).body
    exact Nat.lt_of_le_of_lt (Table.le_of_mem_parts wellFormed.table inside)
      (Table.lt_size_of_get? present)

/-- The children of a reached node are reached. -/
theorem Reached.child (reached : program.Reached handle)
    (present : program.table.get? handle = some node) {child : Handle}
    (isChild : child ∈ node.children) : program.Reached child := by
  obtain ⟨label, member, rfl | isParameter | inside⟩ := reached
  · rw [(wellFormed.labels label member).node] at present
    cases present
    cases List.mem_singleton.mp isChild
    exact ⟨label, member, .inr (.inr (Table.mem_parts_self _ _))⟩
  · obtain ⟨index, atIndex⟩ := List.mem_iff_getElem?.mp isParameter
    rw [(wellFormed.labels label member).get?_parameter atIndex] at present
    cases present
    cases isChild
  · exact ⟨label, member, .inr (.inr (Table.child_mem_parts wellFormed.table inside present isChild))⟩

/-- Edges lead from reached nodes to reached nodes. -/
theorem Reached.of_successors (reached : program.Reached handle)
    (edges : program.successors handle = .ok found) : ∀ next ∈ found, program.Reached next := by
  intro next isNext
  obtain ⟨node, present, leads⟩ := successors_eq_ok_iff.mp edges
  cases leads with
  | continuation found =>
    rcases List.mem_cons.mp isNext with rfl | isParameter
    · exact reached.child wellFormed present List.mem_cons_self
    · exact ⟨_, mem_of_find? found, .inr (.inl isParameter)⟩
  | abstraction found => exact ⟨_, mem_of_find? found, .inl (List.mem_singleton.mp isNext)⟩
  | parameter | quote => cases isNext
  | _ => exact reached.child wellFormed present isNext

/-- Only the nodes of labels can be reached by following edges. -/
theorem Reachable.reached (reachable : program.Reachable handle) : program.Reached handle := by
  induction reachable with
  | label member => exact ⟨_, member, .inl rfl⟩
  | edge _ edges isNext ih => exact ih.of_successors wellFormed edges _ isNext

/-- All nodes of the labels of a resolved program can be reached by following edges. -/
theorem Reached.reachable (reached : program.Reached handle) (resolved : program.Resolved) :
    program.Reachable handle := by
  obtain ⟨label, member, reached⟩ := reached
  have atNode : program.Reachable label.node := .label member
  have edges := successors_node wellFormed member
  rcases reached with rfl | isParameter | inside
  · exact atNode
  · exact atNode.edge edges (List.mem_cons_of_mem _ isParameter)
  · have atBody : program.Reachable label.body := atNode.edge edges List.mem_cons_self
    refine Table.parts_induction program.Reachable wellFormed.table atBody ?_ handle inside
    intro parent node child present atParent isChild
    obtain ⟨found, edges⟩ := resolved parent (atParent.reached wellFormed)
    obtain ⟨stored, presentAgain, leads⟩ := successors_eq_ok_iff.mp edges
    rw [present] at presentAgain
    cases presentAgain
    exact atParent.edge edges (leads.child child isChild)

/-- A search from the labels that meets no fault visits all that can be reached. -/
theorem Reached.mem_order (reached : program.Reached handle)
    (faultless : (Search.walk .depthFirst program.size program.successors
      (program.labels.map (·.node)) []).fault = none) :
    handle ∈ (Search.walk .depthFirst program.size program.successors
      (program.labels.map (·.node)) []).order := by
  obtain ⟨label, member, reached⟩ := reached
  have atNode := (Search.mem_order_of_mem_frontier faultless
    (List.mem_map_of_mem member)).resolve_left List.not_mem_nil
  have afterNode :=
    Search.mem_order_of_successors faultless atNode (successors_node wellFormed member)
  rcases reached with rfl | isParameter | inside
  · exact atNode
  · exact afterNode handle (List.mem_cons_of_mem _ isParameter)
  · refine Table.parts_induction (fun part => part ∈ _) wellFormed.table
      (afterNode _ List.mem_cons_self) ?_ handle inside
    intro parent node child present visited isChild
    obtain ⟨found, edges, closed⟩ := Search.mem_order_of_mem_edges faultless visited
    obtain ⟨stored, presentAgain, leads⟩ :=
      successors_eq_ok_iff.mp (Search.edgesBelow_eq_ok_iff.mp edges).2
    rw [present] at presentAgain
    cases presentAgain
    exact (closed child (leads.child child isChild)).resolve_left List.not_mem_nil

/-- A reached node of a resolved program has edges, and they lead to reached nodes. -/
theorem Reached.exists_edges (reached : program.Reached handle) (resolved : program.Resolved) :
    ∃ found, Search.edgesBelow program.size program.successors handle = .ok found ∧
      ∀ next ∈ found, program.Reached next := by
  obtain ⟨found, edges⟩ := resolved handle reached
  exact ⟨found, Search.edgesBelow_eq_ok_iff.mpr ⟨reached.lt_size wellFormed, edges⟩,
    reached.of_successors wellFormed edges⟩

/-- The nodes reachable from reached nodes can be listed; the list has these nodes and with a node
all that it leads to. -/
theorem Resolved.exists_reachable (resolved : program.Resolved) {roots : List Handle}
    (reached : ∀ root ∈ roots, program.Reached root) :
    ∃ order, program.reachable roots = .ok order ∧ (∀ root ∈ roots, root ∈ order) ∧
      ∀ handle ∈ order, ∀ found, program.successors handle = .ok found →
        ∀ next ∈ found, next ∈ order := by
  have faultFree :
      (Search.walk .depthFirst program.size program.successors roots []).fault = none :=
    Search.fault_eq_none reached fun _ isReached => isReached.exists_edges wellFormed resolved
  refine ⟨_, Walk.result_eq_ok_iff.mpr ⟨faultFree, rfl⟩, fun root isRoot => ?_, ?_⟩
  · exact (Search.mem_order_of_mem_frontier faultFree isRoot).resolve_left List.not_mem_nil
  · exact fun handle visited found edges => Search.mem_order_of_successors faultFree visited edges

/-- A traversal of a resolved program visits exactly the nodes that can be reached. -/
theorem Resolved.exists_visitAll (resolved : program.Resolved) :
    ∃ order, program.visitAll = .ok order ∧ ∀ handle, handle ∈ order ↔ program.Reached handle := by
  have start : ∀ handle ∈ program.labels.map (·.node), program.Reached handle := by
    intro handle isNode
    obtain ⟨label, member, rfl⟩ := List.mem_map.mp isNode
    exact ⟨label, member, .inl rfl⟩
  have faultless : (Search.walk .depthFirst program.size program.successors
      (program.labels.map (·.node)) []).fault = none :=
    Search.fault_eq_none start fun _ isReached => isReached.exists_edges wellFormed resolved
  refine ⟨_, Walk.result_eq_ok_iff.mpr ⟨faultless, rfl⟩, fun handle => ⟨fun visited => ?_, ?_⟩⟩
  · refine Search.forall_mem_order start (fun handle found reached success => ?_) handle visited
    exact reached.of_successors wellFormed (Search.edgesBelow_eq_ok_iff.mp success).2
  · exact fun reached => reached.mem_order wellFormed faultless

omit wellFormed in
/-- Validation fails as the traversal does. -/
theorem validate_eq_error_iff {fault : GraphError} :
    program.validate = .error fault ↔ program.visitAll = .error fault := by
  unfold validate
  cases program.visitAll with
  | error other => simp [bind, Except.bind]
  | ok order => simp [bind, Except.bind, pure, Except.pure]

/-- The programs that pass validation are the resolved ones. -/
theorem validate_eq_ok_iff : program.validate = .ok () ↔ program.Resolved := by
  constructor
  · intro valid handle reached
    obtain ⟨order, visited, -⟩ := Results.bind_eq_ok_iff.mp valid
    obtain ⟨faultless, rfl⟩ := Walk.result_eq_ok_iff.mp visited
    obtain ⟨found, edges, -⟩ :=
      Search.mem_order_of_mem_edges faultless (reached.mem_order wellFormed faultless)
    exact ⟨found, (Search.edgesBelow_eq_ok_iff.mp edges).2⟩
  · intro resolved
    obtain ⟨order, visited, -⟩ := resolved.exists_visitAll wellFormed
    rw [validate, visited]
    rfl

omit wellFormed in
/-- The bodies of a resolved program mention only labels. -/
theorem Resolved.mem_names_of_mentions (resolved : program.Resolved) (member : label ∈ program.labels)
    (mentions : program.table.Mentions label.body name) : name ∈ program.names := by
  obtain ⟨part, inside, named⟩ := mentions
  obtain ⟨found, edges⟩ := resolved part ⟨label, member, .inr (.inr inside)⟩
  obtain ⟨node, present, leads⟩ := successors_eq_ok_iff.mp edges
  rcases named with here | ⟨index, here⟩
  · rw [here] at present
    cases present
    cases leads with
    | abstraction found => exact mem_names_iff.mpr ⟨_, found⟩
  · rw [here] at present
    cases present
    cases leads with
    | parameter known =>
      obtain ⟨_, known⟩ := known
      obtain ⟨target, found, -⟩ := parameter_eq_ok_iff.mp known
      exact mem_names_iff.mpr ⟨target, found⟩

/-- The users of the nodes of a resolved program can be listed. -/
theorem Resolved.exists_uses (resolved : program.Resolved) :
    ∃ uses, program.uses = .ok uses ∧ program.ListsUsers uses := by
  obtain ⟨order, visited, reached⟩ := resolved.exists_visitAll wellFormed
  have each : ∀ user ∈ order, ∃ pair, (do return (user, ← program.successors user) :
      Except GraphError (Handle × List Handle)) = .ok pair := by
    intro user member
    obtain ⟨found, edges⟩ := resolved user ((reached user).mp member)
    exact ⟨(user, found), by rw [edges]; rfl⟩
  obtain ⟨edges, collected⟩ := Results.exists_mapM_eq_ok each
  refine ⟨Uses.ofEdges program.size edges, ?_, ?_⟩
  · exact Results.bind_eq_ok_iff.mpr
      ⟨order, visited, Results.bind_eq_ok_iff.mpr ⟨edges, collected, rfl⟩⟩
  · intro handle user
    rw [Uses.mem_of_ofEdges]
    refine and_congr_right fun _ => ?_
    have related := Results.mapM_eq_ok_iff.mp collected
    constructor
    · rintro ⟨used, member, leads⟩
      obtain ⟨other, inOrder, edges⟩ := Results.exists_left_of_mem related member
      obtain ⟨found, edges, same⟩ := Results.bind_eq_ok_iff.mp edges
      cases same
      exact ⟨(reached user).mp inOrder, used, edges, leads⟩
    · rintro ⟨isReached, found, edges, leads⟩
      obtain ⟨pair, member, success⟩ :=
        Results.exists_right_of_mem related ((reached user).mpr isReached)
      rw [edges] at success
      cases success
      exact ⟨found, member, leads⟩

end Reaching

end Program

end CpsGraph
