import CpsGraph.Proofs.Traversals

/-! # Traversals are recursive

A search keeps the handles that it still has to look at on one frontier, on which a handle can stand
several times. Going depth first, it does what a recursion does that treats one handle after the other,
and after a new handle all that this leads to: the frontier is always made of the edges that are left of
the handles under way, innermost first. So both mark the same handles, visit the same ones in the same
order and end with the same fault, whatever was marked before. A search from several handles is then the
same as a loop that searches from one after the other.
-/

namespace CpsGraph

/-- What a walk and a later one did together, if the later one began with what the first had marked. -/
def Walk.followedBy (first later : Walk) : Walk := { later with order := first.order ++ later.order }

theorem Walk.followedBy_assoc (first second third : Walk) :
    (first.followedBy second).followedBy third = first.followedBy (second.followedBy third) := by
  simp only [followedBy, List.append_assoc]

/-- What walks did together, each of which began with what the one before had marked, up to the first
fault. -/
def Walk.joined (marked : List Handle) : List Walk → Walk
  | [] => .finished marked
  | walk :: walks => if walk.fault.isSome then walk else walk.followedBy (joined walk.marked walks)

namespace Search

/-- The walk of a recursion over some handles, from left to right. It skips a marked handle. It marks any
other one; if this has no edges, the recursion ends with a fault, and otherwise it visits the handle, goes
through its edges and only then through the handles that are left, unless there was a fault. -/
inductive RecursiveWalk (edges : Edges) : (handles marked : List Handle) → Walk → Prop
  | done (marked : List Handle) : RecursiveWalk edges [] marked (.finished marked)
  | skip {handle : Handle} {rest marked : List Handle} {walk : Walk} (known : handle ∈ marked)
      (later : RecursiveWalk edges rest marked walk) : RecursiveWalk edges (handle :: rest) marked walk
  | fail {handle : Handle} {rest marked : List Handle} {fault : GraphError} (fresh : handle ∉ marked)
      (failure : edges handle = .error fault) :
      RecursiveWalk edges (handle :: rest) marked (.failed marked handle fault)
  | stop {handle : Handle} {rest marked found : List Handle} {walk : Walk} {fault : GraphError}
      (fresh : handle ∉ marked) (success : edges handle = .ok found)
      (inside : RecursiveWalk edges found (handle :: marked) walk) (faulty : walk.fault = some fault) :
      RecursiveWalk edges (handle :: rest) marked (walk.visiting handle)
  | visit {handle : Handle} {rest marked found : List Handle} {walk last : Walk}
      (fresh : handle ∉ marked) (success : edges handle = .ok found)
      (inside : RecursiveWalk edges found (handle :: marked) walk) (faultless : walk.fault = none)
      (later : RecursiveWalk edges rest walk.marked last) :
      RecursiveWalk edges (handle :: rest) marked ((walk.visiting handle).followedBy last)

namespace RecursiveWalk

variable {edges : Edges} {first rest handles marked : List Handle} {walk other : Walk}

/-- A recursion over two lists ends with a fault in the first, or goes through both. -/
theorem of_append (recursive : RecursiveWalk edges (first ++ rest) marked walk) :
    (RecursiveWalk edges first marked walk ∧ ∃ fault, walk.fault = some fault) ∨
      ∃ inner last, RecursiveWalk edges first marked inner ∧ inner.fault = none ∧
        RecursiveWalk edges rest inner.marked last ∧ walk = inner.followedBy last := by
  induction first generalizing marked walk with
  | nil => exact .inr ⟨_, walk, .done marked, rfl, recursive, rfl⟩
  | cons handle first ih =>
    cases recursive with
    | skip known later =>
      rcases ih later with ⟨here, faulty⟩ | ⟨inner, last, here, faultless, after, same⟩
      · exact .inl ⟨.skip known here, faulty⟩
      · exact .inr ⟨inner, last, .skip known here, faultless, after, same⟩
    | fail fresh failure => exact .inl ⟨.fail fresh failure, _, rfl⟩
    | stop fresh success inside faulty =>
      exact .inl ⟨.stop fresh success inside faulty, _, faulty⟩
    | visit fresh success inside faultless later =>
      rcases ih later with ⟨here, faulty⟩ | ⟨inner, last, here, noFault, after, rfl⟩
      · exact .inl ⟨.visit fresh success inside faultless here, faulty⟩
      · refine .inr ⟨_, last, .visit fresh success inside faultless here, noFault, after, ?_⟩
        rw [Walk.followedBy_assoc]

/-- A recursion has one walk only. -/
theorem unique (recursive : RecursiveWalk edges handles marked walk)
    (recursiveToo : RecursiveWalk edges handles marked other) : walk = other := by
  induction recursive generalizing other with
  | done marked =>
    cases recursiveToo
    rfl
  | skip known _ ih =>
    cases recursiveToo with
    | skip _ later => exact ih later
    | fail fresh | stop fresh | visit fresh => exact absurd known fresh
  | fail fresh failure =>
    cases recursiveToo with
    | skip known => exact absurd known fresh
    | fail _ failureToo =>
      rw [failure] at failureToo
      cases failureToo
      rfl
    | stop _ success | visit _ success =>
      rw [failure] at success
      cases success
  | stop fresh success _ faulty ih =>
    cases recursiveToo with
    | skip known => exact absurd known fresh
    | fail _ failure =>
      rw [success] at failure
      cases failure
    | stop _ successToo inside =>
      rw [success] at successToo
      cases successToo
      rw [ih inside]
    | visit _ successToo inside faultless =>
      rw [success] at successToo
      cases successToo
      rw [← ih inside, faulty] at faultless
      cases faultless
  | visit fresh success _ faultless _ ihInside ihLater =>
    cases recursiveToo with
    | skip known => exact absurd known fresh
    | fail _ failure =>
      rw [success] at failure
      cases failure
    | stop _ successToo inside faulty =>
      rw [success] at successToo
      cases successToo
      rw [← ihInside inside, faultless] at faulty
      cases faulty
    | visit _ successToo inside _ later =>
      rw [success] at successToo
      cases successToo
      cases ihInside inside
      rw [ihLater later]

end RecursiveWalk

/-- Depth first, a search with a frontier walks as the recursion over the frontier does. -/
theorem recursiveWalk_walk (size : Nat) (edges : Edges) (frontier marked : List Handle) :
    RecursiveWalk (edgesBelow size edges) frontier marked
      (walk .depthFirst size edges frontier marked) := by
  induction frontier, marked using walk_induction .depthFirst size edges with
  | done marked => exact .done marked
  | skip handle rest marked known ih =>
    rw [walk_cons_marked known]
    exact .skip known ih
  | fail handle rest marked fault fresh failure =>
    rw [walk_cons_fault fresh failure]
    exact .fail fresh failure
  | visit handle rest marked found fresh success ih =>
    rw [walk_cons_fresh fresh success]
    -- The frontier is now made of the edges of the handle and, behind them, of the rest.
    rcases ih.of_append with ⟨inside, fault, faulty⟩ | ⟨inner, last, inside, faultless, later, same⟩
    · exact .stop fresh success inside faulty
    · rw [same]
      exact .visit fresh success inside faultless later

theorem recursiveWalk_iff {size : Nat} {edges : Edges} {frontier marked : List Handle} {result : Walk} :
    RecursiveWalk (edgesBelow size edges) frontier marked result ↔
      result = walk .depthFirst size edges frontier marked := by
  constructor
  · exact fun recursive => recursive.unique (recursiveWalk_walk size edges frontier marked)
  · rintro rfl
    exact recursiveWalk_walk size edges frontier marked

end Search

namespace Program

variable {program : Program} {roots order : List Handle}

/-- Searching from one node after the other, up to the first fault, is one search from all of them. -/
theorem joined_visitEach (program : Program) (starts marked : List Handle) :
    Walk.joined marked (program.visitEach starts marked) =
      Search.walk .depthFirst program.size program.successors starts marked := by
  induction starts generalizing marked with
  | nil => exact (Search.walk_nil ..).symm
  | cons start starts ih =>
    -- The search from all nodes is a recursion, which deals with the first node before the others.
    have recursive : Search.RecursiveWalk _ ([start] ++ starts) marked _ :=
      Search.recursiveWalk_walk program.size program.successors (start :: starts) marked
    rcases recursive.of_append with
      ⟨inside, fault, faulty⟩ | ⟨first, last, inside, faultless, later, same⟩
    · have visited := Search.recursiveWalk_iff.mp inside
      simp only [visitEach, visitFrom, ← visited, faulty, Option.isSome_some, if_true, Walk.joined]
    · obtain rfl := Search.recursiveWalk_iff.mp inside
      rw [same, Search.recursiveWalk_iff.mp later, ← ih]
      simp only [visitEach, visitFrom, faultless, Option.isSome_none, Bool.false_eq_true, if_false,
        Walk.joined]

/-- What is reachable from some roots is found by searching from one root after the other. -/
theorem reachable_eq_visitEach (program : Program) (roots : List Handle) :
    program.reachable roots = (Walk.joined [] (program.visitEach roots [])).result := by
  rw [joined_visitEach, reachable]

/-- What can be reached from some handles by following edges. -/
inductive ReachableFrom (program : Program) (roots : List Handle) : Handle → Prop
  | root {handle : Handle} (isRoot : handle ∈ roots) : ReachableFrom program roots handle
  | edge {handle next : Handle} {found : List Handle} (reachable : ReachableFrom program roots handle)
      (edges : program.successors handle = .ok found) (isNext : next ∈ found) :
      ReachableFrom program roots next

theorem ReachableFrom.mono {others : List Handle} {handle : Handle}
    (reachable : program.ReachableFrom roots handle) (more : roots ⊆ others) :
    program.ReachableFrom others handle := by
  induction reachable with
  | root isRoot => exact .root (more isRoot)
  | edge _ edges isNext ih => exact ih.edge edges isNext

/-- What can be reached from some handles can be reached from one of them. -/
theorem ReachableFrom.exists_root {handle : Handle} (reachable : program.ReachableFrom roots handle) :
    ∃ root ∈ roots, program.ReachableFrom [root] handle := by
  induction reachable with
  | root isRoot => exact ⟨_, isRoot, .root List.mem_cons_self⟩
  | edge _ edges isNext ih =>
    obtain ⟨root, isRoot, fromRoot⟩ := ih
    exact ⟨root, isRoot, fromRoot.edge edges isNext⟩

/-- Looking for the edges of a node already checks that there is one. -/
theorem edgesBelow_of_get (program : Program) (edges : Node → Except GraphError (List Handle)) :
    Search.edgesBelow program.size (fun handle => program.table.get handle >>= edges) =
      fun handle => program.table.get handle >>= edges := by
  funext handle
  unfold Search.edgesBelow
  split_ifs with inRange
  · rfl
  · have missing : program.table.get? handle = none := by
      refine Option.eq_none_iff_forall_ne_some.mpr fun node present => ?_
      exact inRange (Table.lt_size_of_get? present)
    rw [Table.get, missing]
    rfl

theorem edgesBelow_successors (program : Program) :
    Search.edgesBelow program.size program.successors = program.successors :=
  program.edgesBelow_of_get _

/-- What a traversal lists is what can be reached, each handle once. -/
theorem reachable_eq_ok (success : program.reachable roots = .ok order) :
    order.Nodup ∧ ∀ handle, handle ∈ order ↔ program.ReachableFrom roots handle := by
  obtain ⟨faultless, rfl⟩ := Walk.result_eq_ok_iff.mp success
  refine ⟨(Search.nodup_order ..).1, fun handle => ⟨fun visited => ?_, fun reachable => ?_⟩⟩
  · refine Search.forall_mem_order (fun root isRoot => .root isRoot) ?_ handle visited
    exact fun other found reachable edges next isNext =>
      reachable.edge (Search.edgesBelow_eq_ok_iff.mp edges).2 isNext
  · induction reachable with
    | root isRoot =>
      exact (Search.mem_order_of_mem_frontier faultless isRoot).resolve_left List.not_mem_nil
    | edge _ edges isNext visited =>
      exact Search.mem_order_of_successors faultless visited edges _ isNext

/-- A traversal succeeds exactly if all that can be reached has edges. -/
theorem reachable_isOk_iff : (∃ order, program.reachable roots = .ok order) ↔
    ∀ handle, program.ReachableFrom roots handle → ∃ found, program.successors handle = .ok found := by
  constructor
  · rintro ⟨order, success⟩ handle reachable
    have visited := ((reachable_eq_ok success).2 handle).mpr reachable
    obtain ⟨faultless, rfl⟩ := Walk.result_eq_ok_iff.mp success
    obtain ⟨found, edges, -⟩ := Search.mem_order_of_mem_edges faultless visited
    exact ⟨found, (Search.edgesBelow_eq_ok_iff.mp edges).2⟩
  · intro resolved
    have start : ∀ root ∈ roots, program.ReachableFrom roots root := fun root isRoot => .root isRoot
    refine ⟨_, Walk.result_eq_ok_iff.mpr ⟨Search.fault_eq_none start fun handle reachable => ?_, rfl⟩⟩
    obtain ⟨found, edges⟩ := resolved handle reachable
    rw [edgesBelow_successors]
    exact ⟨found, edges, fun next isNext => reachable.edge edges isNext⟩

/-- A program passes validation if the traversal from its labels succeeds. -/
theorem validate_isOk_iff : program.validate = .ok () ↔
    ∃ order, program.reachable (program.labels.map (·.node)) = .ok order := by
  change program.validate = .ok () ↔ ∃ order, program.visitAll = .ok order
  unfold validate
  cases program.visitAll with
  | error fault => simp [bind, Except.bind]
  | ok order => simp [bind, Except.bind, pure, Except.pure]

/-- A traversal is a recursion in preorder, from any handle and whatever is marked beforehand: it marks
and visits the same handles in the same order and ends with the same fault. It ends by itself, since more
rounds than there are nodes change nothing. The nodes reachable from several handles are found by the
recursion over them; if there is no fault, they are what can be reached, each listed once, and there is
none exactly if all that can be reached has edges. This is what validation asks of the labels. -/
theorem visitFrom_recursive (program : Program) :
    (∀ start marked walk, Search.RecursiveWalk program.successors [start] marked walk ↔
      walk = program.visitFrom start marked) ∧
    (∀ start marked rounds, program.size < rounds →
      Search.walkFor .depthFirst program.size program.successors rounds [start] marked =
        program.visitFrom start marked) ∧
    (∀ roots, (∃ walk, Search.RecursiveWalk program.successors roots [] walk ∧
        program.reachable roots = walk.result) ∧
      (∀ order, program.reachable roots = .ok order →
        order.Nodup ∧ ∀ handle, handle ∈ order ↔ program.ReachableFrom roots handle) ∧
      ((∃ order, program.reachable roots = .ok order) ↔
        ∀ handle, program.ReachableFrom roots handle →
          ∃ found, program.successors handle = .ok found)) ∧
    (program.validate = .ok () ↔
      ∀ label ∈ program.labels, ∀ handle, program.ReachableFrom [label.node] handle →
        ∃ found, program.successors handle = .ok found) := by
  have recursive {handles marked : List Handle} {walk : Walk} :
      Search.RecursiveWalk program.successors handles marked walk ↔
        walk = Search.walk .depthFirst program.size program.successors handles marked := by
    rw [← Search.recursiveWalk_iff, edgesBelow_successors]
  refine ⟨fun start marked walk => recursive, fun start marked rounds enough => ?_, fun roots => ?_, ?_⟩
  · have few := Search.unmarked_le program.size marked
    exact Search.walkFor_eq_of_unmarked_lt .depthFirst program.size program.successors
      (Nat.lt_of_le_of_lt few enough) (Nat.lt_succ_of_le few)
  · exact ⟨⟨_, recursive.mpr rfl, rfl⟩, fun order => reachable_eq_ok, reachable_isOk_iff⟩
  · rw [validate_isOk_iff, reachable_isOk_iff]
    constructor
    · intro resolved label member handle reachable
      exact resolved handle (reachable.mono fun root isRoot =>
        List.mem_singleton.mp isRoot ▸ List.mem_map_of_mem member)
    · intro resolved handle reachable
      obtain ⟨root, isRoot, fromRoot⟩ := reachable.exists_root
      obtain ⟨label, member, rfl⟩ := List.mem_map.mp isRoot
      exact resolved label member handle fromRoot

end Program

end CpsGraph
