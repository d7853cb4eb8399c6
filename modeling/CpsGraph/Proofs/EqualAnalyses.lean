import CpsGraph.Proofs.CallGraphs
import CpsGraph.Proofs.EqualPrograms
import CpsGraph.Proofs.TypeChecking

/-! # Analyses of equal programs

Equal programs have the same types, the same continuations in each scope and the same call graph, up
to the order of the labels. A scope is found by a search whose course depends on the order of the
nodes; but whatever one search visits has a node of equal structure that the other search visits.
-/

namespace CpsGraph

/-- Whatever a search visits is related to something that another search visits, if this is so for
their frontiers and kept along their edges. -/
theorem Search.exists_related_of_mem_order {strategy : Strategy} {size otherSize : Nat}
    {edges otherEdges : Edges} {frontier otherFrontier : List Handle}
    {Related : Handle → Handle → Prop}
    (faultless : (walk strategy otherSize otherEdges otherFrontier []).fault = none)
    (frontiers : ∀ x ∈ frontier, ∃ y ∈ otherFrontier, Related x y)
    (related : ∀ x y found others, Related x y → edges x = .ok found → otherEdges y = .ok others →
      ∀ next ∈ found, ∃ other ∈ others, Related next other) :
    ∀ x ∈ (walk strategy size edges frontier []).order,
      ∃ y ∈ (walk strategy otherSize otherEdges otherFrontier []).order, Related x y := by
  refine forall_mem_order (fun x isFirst => ?_) fun x found holds success next isNext => ?_
  · obtain ⟨y, isOther, atX⟩ := frontiers x isFirst
    exact ⟨y, (mem_order_of_mem_frontier faultless isOther).resolve_left List.not_mem_nil, atX⟩
  · obtain ⟨y, visitedToo, atX⟩ := holds
    obtain ⟨others, otherSuccess, closed⟩ := mem_order_of_mem_edges faultless visitedToo
    obtain ⟨other, isOther, atNext⟩ := related x y found others atX (edgesBelow_eq_ok_iff.mp success).2
      (edgesBelow_eq_ok_iff.mp otherSuccess).2 next isNext
    exact ⟨other, (closed other isOther).resolve_left List.not_mem_nil, atNext⟩

namespace Program

variable {left right : Program} {name : Name} {label other : Label} {x y : Handle}

namespace Equal

/-! ## Types -/

theorem hasTy (equal : Equal left right) {ty : Ty} (hasTy : left.HasTy x ty)
    (alike : left.table.Alike right.table x y) : right.HasTy y ty := by
  induction hasTy generalizing y with
  | primitive present arity operandTy ih =>
    obtain ⟨_, atY, parallel⟩ := alike.exists_parallel present
    cases parallel with
    | primitive atOperands =>
      refine .primitive atY (atOperands.length_eq ▸ arity) fun operand isOperand => ?_
      obtain ⟨original, isOriginal, alikeOperand⟩ := Results.exists_left_of_mem atOperands isOperand
      exact ih original isOriginal alikeOperand
  | abstraction present found =>
    obtain ⟨_, atY, parallel⟩ := alike.exists_parallel present
    cases parallel
    obtain ⟨other, foundOther, same⟩ := equal.exists_label found
    rw [same.signature]
    exact .abstraction atY foundOther
  | parameter present found atIndex =>
    obtain ⟨_, atY, parallel⟩ := alike.exists_parallel present
    cases parallel
    obtain ⟨other, foundOther, same⟩ := equal.exists_label found
    exact .parameter atY foundOther (same.signature ▸ atIndex)
  | quote present =>
    obtain ⟨_, atY, parallel⟩ := alike.exists_parallel present
    cases parallel
    exact .quote atY
  | cast present _ castable ih =>
    obtain ⟨_, atY, parallel⟩ := alike.exists_parallel present
    cases parallel with
    | cast atSource => exact .cast atY (ih atSource) castable

/-- Equal programs have correct types alike. -/
theorem typed (equal : Equal left right) (typed : left.Typed) : right.Typed := by
  intro other member
  have foundOther := find?_of_mem equal.otherWellFormed.names member
  obtain ⟨label, found, same⟩ := equal.symm.exists_label foundOther
  have alike := same.body.symm equal.otherWellFormed.table
  obtain ⟨body, present, bodyTyped⟩ := typed label (mem_of_find? found)
  obtain ⟨otherBody, otherPresent, parallel⟩ := alike.exists_parallel present
  refine ⟨otherBody, otherPresent, ?_⟩
  cases bodyTyped with
  | call calleeTy argumentTy =>
    cases parallel with
    | call atCallee atArguments =>
      refine .call (equal.hasTy calleeTy atCallee) ?_
      exact Results.forall₂_of_common atArguments argumentTy fun _ _ _ _ _ alikeArgument hasTy =>
        equal.hasTy hasTy alikeArgument
  | branch conditionTy trueTy falseTy =>
    cases parallel with
    | branch atArguments =>
      obtain _ | ⟨atCondition, _ | ⟨atTrue, _ | ⟨atFalse, _ | _⟩⟩⟩ := atArguments
      exact .branch (equal.hasTy conditionTy atCondition) (equal.hasTy trueTy atTrue)
        (equal.hasTy falseTy atFalse)

/-! ## Scopes -/

theorem eq_iff_of_alike (equal : Equal left right) {z w : Handle}
    (alike : left.table.Alike right.table x y) (alikeToo : left.table.Alike right.table z w) :
    x = z ↔ y = w := by
  constructor
  · rintro rfl
    exact alike.right_unique equal.wellFormed.table equal.otherWellFormed.table alikeToo
  · rintro rfl
    exact alike.left_unique equal.wellFormed.table alikeToo

/-- Nodes of equal structure have users of equal structure. -/
theorem exists_user (equal : Equal left right) (resolved : left.Resolved) {uses otherUses : Uses}
    (used : left.uses = .ok uses) (otherUsed : right.uses = .ok otherUses)
    (alike : left.table.Alike right.table x y) {user : Handle} (isUser : user ∈ uses.of x) :
    ∃ other ∈ otherUses.of y, left.table.Alike right.table user other := by
  obtain ⟨_, usedAgain, users⟩ := resolved.exists_uses equal.wellFormed
  rw [used] at usedAgain
  cases usedAgain
  obtain ⟨_, otherUsedAgain, otherUsers⟩ := (equal.resolved resolved).exists_uses equal.otherWellFormed
  rw [otherUsed] at otherUsedAgain
  cases otherUsedAgain
  obtain ⟨-, reached, found, edges, leads⟩ := (users x user).mp isUser
  obtain ⟨other, otherReached, alikeUser⟩ := equal.exists_reached reached
  obtain ⟨others, otherEdges, related⟩ := equal.exists_successors alikeUser edges
  obtain ⟨next, isNext, alikeNext⟩ := Results.exists_right_of_mem related leads
  cases (equal.eq_iff_of_alike alike alikeNext).mp rfl
  refine ⟨other, (otherUsers y other).mpr ⟨?_, otherReached, others, otherEdges, isNext⟩, alikeUser⟩
  obtain ⟨-, atY, -, -⟩ := alike
  exact Table.lt_size_of_get? atY

theorem continuationName?_eq (alike : left.table.Alike right.table x y) :
    left.continuationName? x = right.continuationName? y := by
  obtain ⟨node, otherNode, atX, atY, parallel⟩ := alike.parallel
  unfold continuationName?
  rw [atX, atY]
  cases parallel <;> rfl

/-- The searches for two scopes go from nodes of equal structure to nodes of equal structure. -/
theorem exists_scopeEdge (equal : Equal left right) (resolved : left.Resolved) {uses otherUses : Uses}
    (used : left.uses = .ok uses) (otherUsed : right.uses = .ok otherUses) {entry otherEntry : Label}
    (atEntry : left.table.Alike right.table entry.node otherEntry.node) {found others : List Handle}
    (alike : left.table.Alike right.table x y) (edges : left.scopeEdges uses entry x = .ok found)
    (otherEdges : right.scopeEdges otherUses otherEntry y = .ok others) {next : Handle}
    (isNext : next ∈ found) : ∃ other ∈ others, left.table.Alike right.table next other := by
  have otherEdge (other : Handle) := @mem_scopeEdges_iff _ _ _ _ other _ otherEdges
  obtain ⟨outside, reason⟩ := (mem_scopeEdges_iff edges).mp isNext
  have otherOutside : y ≠ otherEntry.node := mt (equal.eq_iff_of_alike alike atEntry).mpr outside
  rcases reason with isUser | ⟨name, signature, body, label, present, foundLabel, isParameter⟩
  · obtain ⟨user, isOther, alikeUser⟩ := equal.exists_user resolved used otherUsed alike isUser
    exact ⟨user, (otherEdge user).mpr ⟨otherOutside, .inl isOther⟩, alikeUser⟩
  · obtain ⟨_, atY, parallel⟩ := alike.exists_parallel present
    cases parallel
    obtain ⟨otherLabel, foundOther, same⟩ := equal.exists_label foundLabel
    obtain ⟨parameter, isOther, alikeParameter⟩ :=
      Results.exists_right_of_mem (equal.parameters_alike foundLabel foundOther same) isParameter
    exact ⟨parameter, (otherEdge parameter).mpr
      ⟨otherOutside, .inr ⟨_, _, _, otherLabel, atY, foundOther, isOther⟩⟩, alikeParameter⟩

/-- Every label that has a scope has one in the other program, with at least the same
continuations. -/
theorem exists_scope (equal : Equal left right) {scope : Scope} (success : left.scope name = .ok scope) :
    ∃ other, right.scope name = .ok other ∧ scope.continuations ⊆ other.continuations := by
  obtain ⟨uses, entry, used, found, -, inside⟩ := scope_eq_ok success
  have resolved := (validate_eq_ok_iff equal.wellFormed).mp (validate_of_uses used)
  obtain ⟨otherEntry, foundOther, same⟩ := equal.exists_label found
  obtain ⟨order, -, otherSuccess⟩ :=
    exists_scopeWalk equal.otherWellFormed (equal.resolved resolved) foundOther
  refine ⟨_, otherSuccess, fun continuation isInside => ?_⟩
  obtain ⟨otherUses, _, otherUsed, foundAgain, faultless, otherInside⟩ := scope_eq_ok otherSuccess
  rw [foundOther] at foundAgain
  cases foundAgain
  have atEntry := equal.node_alike found foundOther same
  have parameters := equal.parameters_alike found foundOther same
  obtain ⟨x, visited, outside, named⟩ := (inside continuation).mp isInside
  obtain ⟨y, otherVisited, alike⟩ := Search.exists_related_of_mem_order faultless
    (fun _ isParameter => Results.exists_right_of_mem parameters isParameter)
    (fun _ _ _ _ alike edges otherEdges _ =>
      equal.exists_scopeEdge resolved used otherUsed atEntry alike edges otherEdges) x visited
  refine (otherInside continuation).mpr ⟨y, otherVisited,
    mt (equal.eq_iff_of_alike alike atEntry).mpr outside, ?_⟩
  rw [← continuationName?_eq alike, named]

/-- Every label has the same continuations in its scope in both programs. -/
theorem exists_same_scope (equal : Equal left right) {scope : Scope}
    (success : left.scope name = .ok scope) :
    ∃ other, right.scope name = .ok other ∧
      ∀ continuation, continuation ∈ scope.continuations ↔ continuation ∈ other.continuations := by
  obtain ⟨other, otherSuccess, subset⟩ := equal.exists_scope success
  obtain ⟨again, successAgain, otherSubset⟩ := equal.symm.exists_scope otherSuccess
  rw [success] at successAgain
  cases successAgain
  exact ⟨other, otherSuccess, fun continuation => ⟨(subset ·), (otherSubset ·)⟩⟩

/-! ## Call graphs -/

theorem abstractionTarget?_eq (alike : left.table.Alike right.table x y) :
    left.abstractionTarget? x = right.abstractionTarget? y := by
  obtain ⟨node, otherNode, atX, atY, parallel⟩ := alike.parallel
  unfold abstractionTarget?
  rw [atX, atY]
  cases parallel <;> rfl

/-- The searches through two bodies go from nodes of equal structure to nodes of equal structure. -/
theorem exists_bodyEdges (equal : Equal left right) (resolved : left.Resolved)
    (reached : left.Reached x) (alike : left.table.Alike right.table x y) :
    ∃ found others, Search.edgesBelow left.size left.bodyEdges x = .ok found ∧
      Search.edgesBelow right.size right.bodyEdges y = .ok others ∧
      List.Forall₂ (fun x y => left.Reached x ∧ left.table.Alike right.table x y) found others := by
  obtain ⟨found, edges⟩ := resolved x reached
  obtain ⟨node, present, leads⟩ := successors_eq_ok_iff.mp edges
  obtain ⟨otherNode, otherPresent, parallel⟩ := alike.exists_parallel present
  obtain ⟨others, otherLeads, -⟩ := equal.exists_leads parallel leads
  refine ⟨_, _, Search.edgesBelow_eq_ok_iff.mpr ⟨reached.lt_size equal.wellFormed,
    bodyEdges_of_leads present leads⟩, Search.edgesBelow_eq_ok_iff.mpr
      ⟨Table.lt_size_of_get? otherPresent, bodyEdges_of_leads otherPresent otherLeads⟩, ?_⟩
  rw [← parallel.kind_eq]
  split_ifs
  · exact .nil
  · exact (List.forall₂_and_left _ _).mpr
      ⟨fun child isChild => reached.child equal.wellFormed present isChild, parallel.children⟩

/-- Labels of the same name have the same callees, in the same order. -/
theorem callees_eq (equal : Equal left right) (resolved : left.Resolved)
    (member : label ∈ left.labels) (alike : left.table.Alike right.table label.body other.body) :
    left.callees label.body = right.callees other.body := by
  have reached : left.Reached label.body := ⟨label, member, .inr (.inr (Table.mem_parts_self _ _))⟩
  obtain ⟨faultless, otherFaultless, orders⟩ := Search.walk_related .depthFirst
    (fun _ _ _ _ first second => equal.eq_iff_of_alike first.2 second.2)
    (fun _ _ both => equal.exists_bodyEdges resolved both.1 both.2)
    (.cons ⟨reached, alike⟩ .nil) .nil
  unfold callees
  rw [Walk.result_eq_ok_iff.mpr ⟨faultless, rfl⟩, Walk.result_eq_ok_iff.mpr ⟨otherFaultless, rfl⟩]
  change Except.ok (List.eraseDups _) = Except.ok (List.eraseDups _)
  rw [Results.filterMap_eq_of_related orders fun _ _ both => abstractionTarget?_eq both.2]

theorem directCallEdge_eq (equal : Equal left right) (resolved : left.Resolved)
    (named : label.name = other.name) (target : Name) :
    left.directCallEdge label target = right.directCallEdge other target := by
  unfold directCallEdge
  rcases equal.agreeOn.resolve_cases trivial with
    ⟨unbound, otherUnbound⟩ | ⟨callee, otherCallee, found, foundOther, alike⟩
  · rw [unbound, otherUnbound]
    rfl
  · obtain ⟨_, -, success⟩ := exists_scopeWalk equal.wellFormed resolved found
    obtain ⟨otherScope, otherSuccess, same⟩ := equal.exists_same_scope success
    rw [resolve_eq_ok_iff.mpr found, resolve_eq_ok_iff.mpr foundOther, success, otherSuccess]
    change Except.ok _ = Except.ok _
    congr 2
    · rw [name_of_find? found, name_of_find? foundOther]
    · rw [alike.signature]
    · rw [Bool.eq_iff_iff, List.contains_iff_mem, List.contains_iff_mem, ← named]
      exact same label.name

theorem directCallEdges_eq (equal : Equal left right) (resolved : left.Resolved)
    (member : label ∈ left.labels) (named : label.name = other.name)
    (alike : left.table.Alike right.table label.body other.body) :
    left.directCallEdges label = right.directCallEdges other := by
  unfold directCallEdges
  rw [equal.callees_eq resolved member alike]
  exact Results.bind_eq_of_ok rfl fun targets _ =>
    Results.mapM_congr fun target _ => equal.directCallEdge_eq resolved named target

/-- Equal programs have call graphs with the same labels and the same edges. -/
theorem exists_same_callGraph (equal : Equal left right) {graph : CallGraph}
    (success : left.callGraph = .ok graph) :
    ∃ other, right.callGraph = .ok other ∧ graph.nodes.Perm other.nodes ∧
      graph.edges.Perm other.edges := by
  rw [callGraph_eq_direct] at success
  obtain ⟨uses, used, success⟩ := Results.bind_eq_ok_iff.mp success
  obtain ⟨edges, collected, same⟩ := Results.bind_eq_ok_iff.mp success
  cases same
  have resolved := (validate_eq_ok_iff equal.wellFormed).mp (validate_of_uses used)
  obtain ⟨otherUses, otherUsed, -⟩ := (equal.resolved resolved).exists_uses equal.otherWellFormed
  obtain ⟨matching, perm, matched⟩ := equal.exists_matching
  have matchedEdges : matching.mapM right.directCallEdges = .ok edges := by
    rw [← collected]
    exact (Results.mapM_eq_of_related matched fun label other member related =>
      equal.directCallEdges_eq resolved member related.1 related.2.body).symm
  obtain ⟨otherEdges, otherCollected, permEdges⟩ := Results.mapM_perm perm.symm matchedEdges
  refine ⟨⟨right.callNodes, otherEdges.flatten⟩, ?_, ?_, permEdges.symm.flatten⟩
  · rw [callGraph_eq_direct]
    exact Results.bind_eq_ok_iff.mpr
      ⟨otherUses, otherUsed, Results.bind_eq_ok_iff.mpr ⟨otherEdges, otherCollected, rfl⟩⟩
  · have sameNodes : left.callNodes = matching.map fun label : Label =>
        (⟨label.name, label.signature, label.signature.order, label.external⟩ : CallNode) := by
      refine List.forall₂_eq_eq_eq ▸ List.forall₂_map_left_iff.mpr (List.forall₂_map_right_iff.mpr
        (matched.imp fun label other related => ?_))
      rw [related.1, related.2.signature, related.2.external]
    rw [sameNodes]
    exact perm.map _

end Equal

end Program

end CpsGraph
