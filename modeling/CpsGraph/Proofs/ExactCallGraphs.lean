import CpsGraph.Proofs.CallGraphs
import CpsGraph.Proofs.RecursiveTraversal
import CpsGraph.Proofs.UnfoldedTrees
import CpsGraph.Samples

/-! # Call graphs are exact

The callees of a label are found by a search through the shared nodes of its body, which looks at each
node once. They are the labels whose closures occur in the unfolded body, in order of first occurrence:
where the search skips a node, all that is below it was seen before. So a call graph has one edge
for each pair of a label and a callee of it, and whatever is asked of the graph is answered by these edges.
-/

namespace CpsGraph

/-! ## Lists with keys -/

section Lists

variable {α β γ : Type}

/-- What comes later does not matter for what is kept of the elements before it. -/
theorem eraseDups_append_congr [BEq α] [LawfulBEq α] {first second : List α}
    (same : first.eraseDups = second.eraseDups) (rest : List α) :
    (first ++ rest).eraseDups = (second ++ rest).eraseDups := by
  have members (element : α) : element ∈ first ↔ element ∈ second := by
    rw [← List.mem_eraseDups, same, List.mem_eraseDups]
  have removed : rest.removeAll first = rest.removeAll second := by
    refine List.filter_congr fun element _ => ?_
    rw [Bool.not_inj_iff, Bool.eq_iff_iff, List.elem_iff, List.elem_iff, members element]
  rw [List.eraseDups_append, List.eraseDups_append, same, removed]

/-- What was there before is not kept again. -/
theorem eraseDups_append_of_subset [BEq α] [LawfulBEq α] {first second : List α}
    (known : second ⊆ first) : (first ++ second).eraseDups = first.eraseDups := by
  have removed : second.removeAll first = [] := by
    refine List.filter_eq_nil_iff.mpr fun element member => ?_
    simpa using known member
  rw [List.eraseDups_append, removed, List.eraseDups_nil, List.append_nil]

/-- Of elements with different keys at most one has a given key. -/
theorem filter_eq_find?_toList [DecidableEq β] {key : α → β} {elements : List α}
    (distinct : (elements.map key).Nodup) (wanted : β) :
    elements.filter (key · == wanted) = (elements.find? (key · == wanted)).toList := by
  induction elements with
  | nil => rfl
  | cons element elements ih =>
    obtain ⟨fresh, distinct⟩ := List.nodup_cons.mp distinct
    by_cases here : key element = wanted
    · have none : elements.filter (key · == wanted) = [] := by
        refine List.filter_eq_nil_iff.mpr fun other member same => fresh ?_
        rw [here, ← eq_of_beq same]
        exact List.mem_map_of_mem member
      simp [here, none]
    · simp [here, ih distinct]

/-- Of lists whose elements have different keys, the elements with one of these keys are one list. -/
theorem filter_flatMap_of_key [DecidableEq β] {elements : List α} {key : α → β} {lists : α → List γ}
    {keyOf : γ → β} (distinct : (elements.map key).Nodup)
    (keyed : ∀ element ∈ elements, ∀ listed ∈ lists element, keyOf listed = key element)
    {element : α} (member : element ∈ elements) :
    (elements.flatMap lists).filter (keyOf · == key element) = lists element := by
  obtain ⟨before, after, rfl⟩ := List.append_of_mem member
  rw [List.map_append, List.map_cons, List.nodup_middle, ← List.map_append, List.nodup_cons] at distinct
  have elsewhere (others : List α) (outside : others ⊆ before ++ after) :
      (others.flatMap lists).filter (keyOf · == key element) = [] := by
    refine List.filter_eq_nil_iff.mpr fun listed isListed here => distinct.1 ?_
    obtain ⟨other, isOther, isListed⟩ := List.mem_flatMap.mp isListed
    have inside : other ∈ before ++ element :: after :=
      List.mem_append.mpr ((List.mem_append.mp (outside isOther)).imp_right (List.mem_cons_of_mem _))
    rw [keyed other inside listed isListed, beq_iff_eq] at here
    exact here ▸ List.mem_map_of_mem (outside isOther)
  have here : (lists element).filter (keyOf · == key element) = lists element :=
    List.filter_eq_self.mpr fun listed isListed => beq_iff_eq.mpr (keyed element member listed isListed)
  rw [List.flatMap_append, List.flatMap_cons, List.filter_append, List.filter_append, here,
    elsewhere before (List.subset_append_left _ _), elsewhere after (List.subset_append_right _ _),
    List.nil_append, List.append_nil]

/-- Steps that all succeed have their results as a function of the elements. -/
theorem Results.exists_map_of_mapM_eq_ok {ε : Type} [Inhabited β] {act : α → Except ε β} {elements : List α}
    {results : List β} (success : elements.mapM act = .ok results) :
    ∃ result : α → β, results = elements.map result ∧
      ∀ element ∈ elements, act element = .ok (result element) := by
  have related := Results.mapM_eq_ok_iff.mp success
  refine ⟨fun element => (act element).toOption.getD default, ?_, fun element member => ?_⟩
  · rw [← List.forall₂_eq_eq_eq, List.forall₂_map_right_iff]
    refine related.flip.imp fun result element ran => ?_
    rw [ran]
    rfl
  · obtain ⟨result, -, ran⟩ := Results.exists_right_of_mem related member
    simp [ran, Except.toOption]

end Lists

/-! ## Searching a structure -/

namespace Search

/-- A handle that is visited is under way while its edges are gone through, and newer than these. -/
theorem done_or_newer_of_visit {Done : Handle → Prop} {handle : Handle} {found rest marked : List Handle}
    (older : ∀ next ∈ found, next < handle)
    (known : ∀ other ∈ marked, Done other ∨ ∀ next ∈ handle :: rest, next < other) :
    ∀ other ∈ handle :: marked, Done other ∨ ∀ next ∈ found, next < other := by
  intro other isMarked
  rcases List.mem_cons.mp isMarked with rfl | isMarked
  · exact .inr older
  · exact (known other isMarked).imp_right fun newer next isNext =>
      Nat.lt_trans (older next isNext) (newer handle List.mem_cons_self)

end Search

namespace Search.RecursiveWalk

variable {α : Type} [BEq α] [LawfulBEq α] {edges : Edges} {own : Handle → Option α}
  {listing : Handle → List α} {handles marked : List Handle} {walk : Walk}

section Listing

variable (unfolds : ∀ handle found, edges handle = .ok found →
    listing handle = (own handle).toList ++ found.flatMap listing)

include unfolds

omit [BEq α] [LawfulBEq α] in
/-- All that is listed for a handle that a recursion has marked is listed for the handles it goes through. -/
theorem listing_subset (recursive : RecursiveWalk edges handles marked walk)
    (faultless : walk.fault = none) :
    ∀ handle ∈ walk.marked, handle ∈ marked ∨ listing handle ⊆ handles.flatMap listing := by
  induction recursive with
  | done marked => exact fun handle known => .inl known
  | skip _ _ ih =>
    intro handle isMarked
    refine (ih faultless handle isMarked).imp_right fun listed => ?_
    rw [List.flatMap_cons]
    exact List.subset_append_of_subset_right _ listed
  | fail => cases faultless
  | stop _ _ _ faulty => exact absurd faultless (by simp [Walk.visiting, faulty])
  | visit _ success _ noFault _ ihInside ihLater =>
    intro other isMarked
    rw [List.flatMap_cons, unfolds _ _ success]
    rcases ihLater faultless other isMarked with before | listed
    · rcases ihInside noFault other before with known | listed
      · rcases List.mem_cons.mp known with rfl | known
        · rw [unfolds _ _ success]
          exact .inr (List.subset_append_left _ _)
        · exact .inl known
      · exact .inr (List.subset_append_of_subset_left _
          (List.subset_append_of_subset_right _ listed))
    · exact .inr (List.subset_append_of_subset_right _ listed)

/-- A recursion through a graph without cycles finds what is listed for the handles, in order of first
occurrence. A handle that is marked beforehand is under way and so newer than all that is left, or
all that is listed for it was seen before. -/
theorem eraseDups_filterMap (older : ∀ handle found, edges handle = .ok found →
      ∀ next ∈ found, next < handle) (recursive : RecursiveWalk edges handles marked walk)
    (faultless : walk.fault = none) (seen : List α)
    (known : ∀ handle ∈ marked, listing handle ⊆ seen ∨ ∀ other ∈ handles, other < handle) :
    (seen ++ walk.order.filterMap own).eraseDups = (seen ++ handles.flatMap listing).eraseDups := by
  induction recursive generalizing seen with
  | done => rfl
  | @skip handle rest marked walk isMarked _ ih =>
    have listed : listing handle ⊆ seen :=
      (known handle isMarked).resolve_right fun newer =>
        Nat.lt_irrefl handle (newer handle List.mem_cons_self)
    have later := ih faultless seen fun other member => (known other member).imp_right
      fun newer next isNext => newer next (List.mem_cons_of_mem _ isNext)
    rw [later, List.flatMap_cons, ← List.append_assoc]
    exact (eraseDups_append_congr (eraseDups_append_of_subset listed) _).symm
  | fail => cases faultless
  | stop _ _ _ faulty => exact absurd faultless (by simp [Walk.visiting, faulty])
  | @visit handle rest marked found walk last fresh success inside noFault _ ihInside ihLater =>
    have first : (seen ++ (own handle).toList ++ walk.order.filterMap own).eraseDups =
        (seen ++ (own handle).toList ++ found.flatMap listing).eraseDups := by
      have known : ∀ other ∈ marked, listing other ⊆ seen ++ (own handle).toList ∨
          ∀ next ∈ handle :: rest, next < other := fun other before =>
        (known other before).imp_left (List.subset_append_of_subset_left _)
      exact ihInside noFault _ (done_or_newer_of_visit (older _ _ success) known)
    have second : (seen ++ (own handle).toList ++ found.flatMap listing ++
        last.order.filterMap own).eraseDups =
        (seen ++ (own handle).toList ++ found.flatMap listing ++ rest.flatMap listing).eraseDups := by
      refine ihLater faultless _ fun other isMarked => ?_
      rcases inside.listing_subset unfolds noFault other isMarked with before | listed
      · rcases List.mem_cons.mp before with rfl | before
        · rw [unfolds _ _ success, List.append_assoc]
          exact .inl (List.subset_append_right _ _)
        · refine (known other before).imp (fun listed => ?_) fun newer next isNext => ?_
          · exact List.subset_append_of_subset_left _ (List.subset_append_of_subset_left _ listed)
          · exact newer next (List.mem_cons_of_mem _ isNext)
      · exact .inl (List.subset_append_of_subset_right _ listed)
    calc (seen ++ ((walk.visiting handle).followedBy last).order.filterMap own).eraseDups
        = (seen ++ (own handle).toList ++ walk.order.filterMap own ++
            last.order.filterMap own).eraseDups := by
          cases named : own handle <;>
            simp [Walk.followedBy, Walk.visiting, named]
      _ = (seen ++ (own handle).toList ++ found.flatMap listing ++
            last.order.filterMap own).eraseDups := eraseDups_append_congr first _
      _ = (seen ++ (handle :: rest).flatMap listing).eraseDups := by
          rw [second, List.flatMap_cons, unfolds _ _ success]
          simp only [List.append_assoc]

end Listing

end Search.RecursiveWalk

/-! ## Closures in a body -/

namespace Tree

mutual

/-- The labels whose closures occur in a tree, from left to right and as often as they occur. A
continuation in the tree is not entered. -/
def closures : Tree → List Name
  | .continuation .. => []
  | .call callee arguments => callee.closures ++ closuresOfAll arguments
  | .branch arguments => closuresOfAll arguments
  | .primitive _ operands => closuresOfAll operands
  | .abstraction target => [target]
  | .parameter .. => []
  | .quote _ => []
  | .cast source _ => source.closures

/-- The labels whose closures occur in some trees. -/
def closuresOfAll : List Tree → List Name
  | [] => []
  | tree :: trees => tree.closures ++ closuresOfAll trees

end

end Tree

/-- The labels whose closures occur at a node, from those that occur at its children. -/
def Node.closures (below : Handle → List Name) : Node → List Name
  | .abstraction target => [target]
  | .continuation .. => []
  | node => node.children.flatMap below

namespace Table

variable {table : Table} {handle : Handle} {node : Node}

/-- The labels whose closures occur in the tree at a handle. -/
def closures (table : Table) (handle : Handle) : List Name := (table.tree? handle).elim [] Tree.closures

theorem flatMap_closures {handles : List Handle} {trees : List Tree}
    (unfolded : List.Forall₂ (fun handle tree => table.tree? handle = some tree) handles trees) :
    handles.flatMap table.closures = Tree.closuresOfAll trees := by
  induction unfolded with
  | nil => rfl
  | cons first _ ih =>
    rw [List.flatMap_cons, Tree.closuresOfAll, ih, closures, first]
    rfl

/-- The closures in the tree of a node are those at the node. -/
theorem WellFormed.closures_eq (wellFormed : table.WellFormed) (present : table.get? handle = some node) :
    table.closures handle = node.closures table.closures := by
  obtain ⟨tree, unfolded⟩ := wellFormed.exists_tree? (lt_size_of_get? present)
  rw [closures, unfolded]
  rw [wellFormed.tree?_eq present] at unfolded
  have children := flatMap_closures (Node.shape_of_tree? unfolded).2
  cases Node.tree?_eq_some_iff.mp unfolded with
  | call | branch | primitive => exact children.symm
  | cast => exact (children.trans (List.append_nil _)).symm
  | continuation | abstraction | parameter | quote => rfl

end Table

namespace Program

variable {program : Program} {handle : Handle} {found : List Handle} {caller : Label} {target : Name}
  {edge : CallEdge} {graph : CallGraph}

/-- Where the search through a body goes from a node: the closures that occur there are the node itself, if
it is one, and those of the nodes it leads to, and these are older. -/
theorem WellFormed.closures_of_bodyEdges (wellFormed : program.WellFormed)
    (edges : program.bodyEdges handle = .ok found) :
    program.table.closures handle = (program.abstractionTarget? handle).toList ++
        found.flatMap program.table.closures ∧ ∀ next ∈ found, next < handle := by
  obtain ⟨node, present, edges⟩ := Results.bind_eq_ok_iff.mp edges
  have present := Table.get_eq_ok_iff.mp present
  rw [wellFormed.table.closures_eq present, abstractionTarget?, present]
  have older : ∀ child ∈ node.children, child < handle := fun _ => wellFormed.table.child_lt present
  cases node with
  | abstraction name =>
    obtain ⟨_, -, same⟩ := Results.bind_eq_ok_iff.mp edges
    cases same
    exact ⟨rfl, nofun⟩
  | continuation =>
    cases edges
    exact ⟨rfl, nofun⟩
  | call | branch | primitive | parameter | quote | cast =>
    cases edges
    exact ⟨rfl, older⟩

/-- The callees of a body are the labels whose closures occur in its tree, in order of first occurrence. -/
theorem WellFormed.callees_eq (wellFormed : program.WellFormed) {body : Handle} {targets : List Name}
    (listed : program.callees body = .ok targets) : targets = (program.table.closures body).eraseDups := by
  obtain ⟨order, walked, same⟩ := Results.bind_eq_ok_iff.mp listed
  cases same
  obtain ⟨faultless, rfl⟩ := Walk.result_eq_ok_iff.mp walked
  have whole := (Search.recursiveWalk_walk program.size program.bodyEdges [body] []).eraseDups_filterMap
    (fun handle found edges => (wellFormed.closures_of_bodyEdges
      (Search.edgesBelow_eq_ok_iff.mp edges).2).1)
    (fun handle found edges => (wellFormed.closures_of_bodyEdges
      (Search.edgesBelow_eq_ok_iff.mp edges).2).2)
    faultless [] nofun
  simpa using whole

/-- What an edge of a call graph says. -/
theorem directCallEdge_eq_ok (made : program.directCallEdge caller target = .ok edge) :
    ∃ callee scope, program.find? target = some callee ∧ program.scope target = .ok scope ∧
      edge.caller = caller.name ∧ edge.callee = target ∧ edge.order = callee.signature.order ∧
      (edge.simple = true ↔ caller.name ∈ scope.continuations) := by
  obtain ⟨callee, resolves, made⟩ := Results.bind_eq_ok_iff.mp made
  obtain ⟨scope, success, made⟩ := Results.bind_eq_ok_iff.mp made
  cases made
  have found := resolve_eq_ok_iff.mp resolves
  exact ⟨callee, scope, found, success, rfl, name_of_find? found, rfl, List.contains_iff_mem⟩

/-- The edges that leave a label: one for each of its callees, in order of first occurrence. -/
theorem WellFormed.directCallEdges_eq_ok (wellFormed : program.WellFormed) {leaving : List CallEdge}
    (success : program.directCallEdges caller = .ok leaving) :
    leaving.map (·.callee) = (program.table.closures caller.body).eraseDups ∧
      ∀ edge ∈ leaving, program.directCallEdge caller edge.callee = .ok edge := by
  obtain ⟨targets, listed, success⟩ := Results.bind_eq_ok_iff.mp success
  have made : List.Forall₂ (fun target edge => program.directCallEdge caller target = .ok edge ∧
      edge.callee = target) targets leaving := by
    refine (Results.mapM_eq_ok_iff.mp success).imp fun target edge made => ⟨made, ?_⟩
    obtain ⟨_, _, -, -, -, named, -⟩ := directCallEdge_eq_ok made
    exact named
  constructor
  · rw [← wellFormed.callees_eq listed, ← List.forall₂_eq_eq_eq, List.forall₂_map_left_iff]
    exact made.flip.imp fun edge target both => both.2
  · intro edge isEdge
    obtain ⟨target, -, made, rfl⟩ := Results.exists_left_of_mem made isEdge
    exact made

/-- A call graph collects the edges that leave the labels. -/
theorem exists_edges_of_callGraph (built : program.callGraph = .ok graph) :
    ∃ leaving : Label → List CallEdge,
      graph = ⟨program.callNodes, program.labels.flatMap leaving⟩ ∧
      ∀ caller ∈ program.labels, program.directCallEdges caller = .ok (leaving caller) := by
  rw [callGraph_eq_direct] at built
  obtain ⟨_, -, built⟩ := Results.bind_eq_ok_iff.mp built
  obtain ⟨lists, listed, built⟩ := Results.bind_eq_ok_iff.mp built
  cases built
  obtain ⟨leaving, rfl, each⟩ := Results.exists_map_of_mapM_eq_ok listed
  exact ⟨leaving, by rw [List.flatMap_def], each⟩

end Program

namespace CallGraph

variable {graph : CallGraph} {caller : Name}

theorem map_fst_filter_zipIdx (graph : CallGraph) (condition : CallEdge → Bool) :
    (graph.edges.zipIdx.filter (condition ·.1)).map (·.1) = graph.edges.filter condition := by
  have numbered := List.filter_map (f := Prod.fst) (p := condition) (l := graph.edges.zipIdx)
  rw [List.zipIdx_map_fst] at numbered
  exact numbered.symm

/-- Sorted by number, edges are in order of insertion, however the graph enumerates them. -/
theorem byNumber_of_perm {condition : CallEdge → Bool} {numbered : List (CallEdge × Nat)}
    (enumerated : numbered.Perm (graph.edges.zipIdx.filter (condition ·.1))) :
    byNumber numbered = graph.edges.filter condition := by
  have ascending : graph.edges.zipIdx.Pairwise fun first second => first.2 < second.2 := by
    rw [← List.pairwise_map, List.zipIdx_map_snd]
    exact List.pairwise_lt_range'
  have sorted : (numbered.mergeSort fun first second => first.2 ≤ second.2).Pairwise
      fun first second => first.2 ≤ second.2 := by
    refine (List.pairwise_mergeSort (fun _ _ _ => ?_) (fun _ _ => ?_) numbered).imp of_decide_eq_true
    · simpa only [decide_eq_true_eq] using Nat.le_trans
    · simpa only [Bool.or_eq_true, decide_eq_true_eq] using Nat.le_total _ _
  have isPerm := (List.mergeSort_perm numbered fun first second => first.2 ≤ second.2).trans enumerated
  have same : (numbered.mergeSort fun first second => first.2 ≤ second.2) =
      graph.edges.zipIdx.filter (condition ·.1) := by
    refine List.Perm.eq_of_pairwise ?_ sorted ((ascending.filter _).imp Nat.le_of_lt) isPerm
    -- A number belongs to one edge only.
    rintro ⟨edge, number⟩ ⟨other, otherNumber⟩ isEdge isOther le ge
    obtain rfl : number = otherNumber := Nat.le_antisymm le ge
    have atNumber := List.mem_zipIdx_iff_getElem?.mp (List.mem_filter.mp (isPerm.mem_iff.mp isEdge)).1
    have atNumberToo := List.mem_zipIdx_iff_getElem?.mp (List.mem_filter.mp isOther).1
    rw [atNumber] at atNumberToo
    cases atNumberToo
    rfl
  rw [byNumber, same, map_fst_filter_zipIdx]

theorem calls_eq_filter (graph : CallGraph) (name : Name) :
    graph.calls name = graph.edges.filter (·.caller == name) :=
  byNumber_of_perm (List.reverse_perm _)

theorem callers_eq_filter (graph : CallGraph) (name : Name) :
    graph.callers name = graph.edges.filter (·.callee == name) :=
  byNumber_of_perm (List.reverse_perm _)

/-- The edge between two labels is looked for among the edges that leave the first. -/
theorem edge?_eq_find? (graph : CallGraph) (caller callee : Name) :
    graph.edge? caller callee = (graph.calls caller).reverse.find? (·.callee == callee) := by
  rw [calls_eq_filter, ← map_fst_filter_zipIdx, ← List.map_reverse, List.find?_map]
  rfl

theorem mem_calls_iff {edge : CallEdge} :
    edge ∈ graph.calls caller ↔ edge ∈ graph.edges ∧ edge.caller = caller := by
  simp [calls_eq_filter, List.mem_filter]

section Distinct

variable (distinct : ((graph.calls caller).map (·.callee)).Nodup)

include distinct

theorem edge?_eq_some_iff {callee : Name} {edge : CallEdge} : graph.edge? caller callee = some edge ↔
    edge ∈ graph.edges ∧ edge.caller = caller ∧ edge.callee = callee := by
  rw [← List.nodup_reverse, ← List.map_reverse] at distinct
  rw [edge?_eq_find?, ← Option.mem_toList, ← filter_eq_find?_toList distinct, List.mem_filter,
    List.mem_reverse, mem_calls_iff, beq_iff_eq, and_assoc]

/-- If no label is called twice, there is one edge to a callee and none to another label. -/
theorem countP_edges_eq (callee : Name) :
    graph.edges.countP (fun edge => edge.caller = caller ∧ edge.callee = callee) =
      if callee ∈ (graph.calls caller).map (·.callee) then 1 else 0 := by
  rw [← distinct.count, List.count, List.countP_map, calls_eq_filter, List.countP_filter]
  refine List.countP_congr fun edge _ => ?_
  simp [and_comm]

end Distinct

/-- A call graph says of a program all that it should and nothing else.

* Its nodes are the labels, in order.
* An edge joins two labels. It has the order of the callee, and is simple exactly if the caller is in the
  scope of the callee.
* There is one edge from a label to a name whose closure occurs in its body, and none to other names.
* The callees of a label are listed in order of first occurrence.
* The edges that lead to a name are listed in the order of the callers, each as it is listed there.
* The edge between two labels is the one that joins them, and the loops are the simple edges. -/
structure Exact (graph : CallGraph) (program : Program) : Prop where
  nodes : graph.nodes = program.labels.map fun label =>
    ⟨label.name, label.signature, label.signature.order, label.external⟩
  ends : ∀ edge ∈ graph.edges, ∃ caller ∈ program.labels, ∃ callee ∈ program.labels, ∃ scope,
    edge.caller = caller.name ∧ edge.callee = callee.name ∧
      edge.order = callee.signature.order ∧ program.scope callee.name = .ok scope ∧
      (edge.simple = true ↔ caller.name ∈ scope.continuations)
  one : ∀ caller ∈ program.labels, ∀ target,
    graph.edges.countP (fun edge => edge.caller = caller.name ∧ edge.callee = target) =
      if target ∈ program.table.closures caller.body then 1 else 0
  calls : ∀ caller ∈ program.labels,
    (graph.calls caller.name).map (·.callee) = (program.table.closures caller.body).eraseDups
  callers : ∀ name, graph.callers name = program.labels.filterMap fun caller =>
    (graph.calls caller.name).find? (·.callee == name)
  edge : ∀ caller callee edge, graph.edge? caller callee = some edge ↔
    edge ∈ graph.edges ∧ edge.caller = caller ∧ edge.callee = callee
  loops : ∀ edge, edge ∈ graph.loops ↔ edge ∈ graph.edges ∧ edge.simple = true

end CallGraph

namespace Program

variable {program : Program} {graph : CallGraph}

/-- The call graph of a program is exact: nothing is lost, doubled or misplaced in it. -/
theorem callGraph_exact (wellFormed : program.WellFormed) (built : program.callGraph = .ok graph) :
    graph.Exact program := by
  obtain ⟨leaving, rfl, each⟩ := exists_edges_of_callGraph built
  have listed (caller : Label) (member : caller ∈ program.labels) :=
    wellFormed.directCallEdges_eq_ok (each caller member)
  have fromCaller : ∀ caller ∈ program.labels, ∀ edge ∈ leaving caller, edge.caller = caller.name := by
    intro caller member edge isEdge
    obtain ⟨_, _, -, -, named, -⟩ := directCallEdge_eq_ok ((listed caller member).2 edge isEdge)
    exact named
  have calls (caller : Label) (member : caller ∈ program.labels) :
      CallGraph.calls ⟨program.callNodes, program.labels.flatMap leaving⟩ caller.name =
        leaving caller := by
    rw [CallGraph.calls_eq_filter]
    exact filter_flatMap_of_key wellFormed.names fromCaller member
  have callees (caller : Label) (member : caller ∈ program.labels) :
      ((leaving caller).map (·.callee)).Nodup := by
    rw [(listed caller member).1]
    exact nodup_eraseDups _
  constructor
  case nodes => rfl
  case ends =>
    intro edge isEdge
    obtain ⟨caller, member, isEdge⟩ := List.mem_flatMap.mp isEdge
    obtain ⟨callee, scope, found, success, isCaller, -, order, simple⟩ :=
      directCallEdge_eq_ok ((listed caller member).2 edge isEdge)
    have isCallee : edge.callee = callee.name := (name_of_find? found).symm
    rw [isCallee] at success
    exact ⟨caller, member, callee, mem_of_find? found, scope, isCaller, isCallee, order, success, simple⟩
  case one =>
    intro caller member target
    have distinct := callees caller member
    rw [← calls caller member] at distinct
    rw [CallGraph.countP_edges_eq distinct, calls caller member, (listed caller member).1]
    simp only [List.mem_eraseDups]
  case calls =>
    intro caller member
    rw [calls caller member, (listed caller member).1]
  case callers =>
    intro name
    rw [CallGraph.callers_eq_filter, List.filter_flatMap, List.filterMap_eq_flatMap_toList]
    refine List.flatMap_congr fun caller member => ?_
    rw [calls caller member]
    exact filter_eq_find?_toList (callees caller member) name
  case edge =>
    intro name callee edge
    refine CallGraph.edge?_eq_some_iff ?_
    by_cases known : ∃ caller ∈ program.labels, caller.name = name
    · obtain ⟨caller, member, rfl⟩ := known
      rw [calls caller member]
      exact callees caller member
    · -- No edge leaves a name that is not a label.
      have none : CallGraph.calls ⟨program.callNodes, program.labels.flatMap leaving⟩ name = [] := by
        rw [CallGraph.calls_eq_filter]
        refine List.filter_eq_nil_iff.mpr fun edge isEdge here => known ?_
        obtain ⟨caller, member, isEdge⟩ := List.mem_flatMap.mp isEdge
        exact ⟨caller, member, (fromCaller caller member edge isEdge).symm.trans (eq_of_beq here)⟩
      rw [none]
      exact List.nodup_nil
  case loops =>
    intro edge
    simp [CallGraph.loops, List.mem_filter]

/-- In the factorial, the function calls its two cases in the order in which it names them, the loop head
is called when the loop is entered and again from its body, and only the latter call is a loop. -/
theorem callGraph_exact_factorial :
    let program := Samples.factorial.toOption.getD {}
    let fac := (program.find? "fac").getD default
    let head := (program.find? "head").getD default
    ∃ graph, program.WellFormed ∧ program.callGraph = .ok graph ∧ graph.Exact program ∧
      program.table.closures fac.body = ["then", "else"] ∧
      (graph.calls fac.name).map (·.callee) = ["then", "else"] ∧
      (graph.callers head.name).map (·.caller) = ["else", "body"] ∧
      graph.edge? "body" "head" = some ⟨"body", "head", 1, true⟩ ∧
      graph.loops = [⟨"body", "head", 1, true⟩] := by
  intro program fac head
  obtain ⟨graph, built, callers, edge, loops⟩ : ∃ graph, program.callGraph = .ok graph ∧
      (graph.edges.filter (·.callee == head.name)).map (·.caller) = ["else", "body"] ∧
      graph.edge? "body" "head" = some ⟨"body", "head", 1, true⟩ ∧
      graph.loops = [⟨"body", "head", 1, true⟩] :=
    ⟨program.callGraph.toOption.getD ⟨[], []⟩, by decide +kernel⟩
  obtain ⟨wellFormed, member, closures⟩ : program.WellFormed ∧ fac ∈ program.labels ∧
      program.table.closures fac.body = ["then", "else"] := by decide +kernel
  have described := callGraph_exact wellFormed built
  rw [← CallGraph.callers_eq_filter] at callers
  refine ⟨graph, wellFormed, built, described, closures, ?_, callers, edge, loops⟩
  rw [described.calls fac member, closures]
  rfl

end Program

end CpsGraph
