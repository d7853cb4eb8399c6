import CpsGraph.Program.Equality
import CpsGraph.Proofs.ImportFaults

/-! # Equal structures

Two handles, of two tables, denote equal structures if their nodes agree in all but the handles of
their children, and the children denote equal structures in turn. In a well-formed table a structure
has one handle only, so this is one to one; a search that goes from nodes to their children takes
the same course on both sides, and the same names are found in the same order. Comparing two
programs succeeds if the bodies of their labels are equal in this sense.
-/

namespace CpsGraph

namespace Node

variable {first second : Node}

/-- Two nodes agree in all but the handles of their children, and these are related one by one. -/
inductive Parallel (Related : Handle → Handle → Prop) : Node → Node → Prop
  | continuation {name : Name} {signature : Signature} {body otherBody : Handle}
      (atBody : Related body otherBody) :
      Parallel Related (.continuation name signature body) (.continuation name signature otherBody)
  | call {callee otherCallee : Handle} {arguments others : List Handle}
      (atCallee : Related callee otherCallee) (atArguments : List.Forall₂ Related arguments others) :
      Parallel Related (.call callee arguments) (.call otherCallee others)
  | branch {arguments others : List Handle} (atArguments : List.Forall₂ Related arguments others) :
      Parallel Related (.branch arguments) (.branch others)
  | primitive {op : Operator} {operands others : List Handle}
      (atOperands : List.Forall₂ Related operands others) :
      Parallel Related (.primitive op operands) (.primitive op others)
  | abstraction (target : Name) : Parallel Related (.abstraction target) (.abstraction target)
  | parameter (target : Name) (index : Nat) :
      Parallel Related (.parameter target index) (.parameter target index)
  | quote (literal : Literal) : Parallel Related (.quote literal) (.quote literal)
  | cast {source otherSource : Handle} {ty : Ty} (atSource : Related source otherSource) :
      Parallel Related (.cast source ty) (.cast otherSource ty)

theorem Parallel.children {Related : Handle → Handle → Prop} (parallel : first.Parallel Related second) :
    List.Forall₂ Related first.children second.children := by
  cases parallel with
  | continuation atBody => exact .cons atBody .nil
  | call atCallee atArguments => exact .cons atCallee atArguments
  | branch atArguments => exact atArguments
  | primitive atOperands => exact atOperands
  | cast atSource => exact .cons atSource .nil
  | abstraction | parameter | quote => exact .nil

theorem Parallel.kind_eq {Related : Handle → Handle → Prop} (parallel : first.Parallel Related second) :
    first.kind = second.kind := by
  cases parallel <;> rfl

theorem Parallel.shape_eq {Related : Handle → Handle → Prop} (parallel : first.Parallel Related second) :
    first.shape = second.shape := by
  cases parallel with
  | call _ related | branch related | primitive related =>
    simp [Node.shape, mapChildren, List.map_const', related.length_eq]
  | _ => rfl

theorem Parallel.known?_eq {Related : Handle → Handle → Prop} (parallel : first.Parallel Related second) :
    first.known? = second.known? := by
  cases parallel <;> rfl

/-- Nodes that agree in the handles of their children too are equal. -/
theorem Parallel.eq (parallel : first.Parallel Eq second) : first = second := by
  cases parallel with
  | continuation same | cast same => rw [same]
  | call same sameArguments =>
    rw [List.forall₂_eq_eq_eq] at sameArguments
    rw [same, sameArguments]
  | branch same | primitive same =>
    rw [List.forall₂_eq_eq_eq] at same
    rw [same]
  | abstraction | parameter | quote => rfl

theorem parallel_of_shape {Related : Handle → Handle → Prop} (shape : first.shape = second.shape)
    (children : List.Forall₂ Related first.children second.children) :
    first.Parallel Related second := by
  cases first with
  | call =>
    cases second with
    | call =>
      obtain ⟨atCallee, atArguments⟩ := List.forall₂_cons.mp children
      exact .call atCallee atArguments
    | _ => cases shape
  | branch =>
    cases second with
    | branch => exact .branch children
    | _ => cases shape
  | primitive =>
    cases second with
    | primitive =>
      obtain ⟨rfl, -⟩ := Node.primitive.inj shape
      exact .primitive children
    | _ => cases shape
  | continuation =>
    cases second <;> cases shape
    exact .continuation (List.forall₂_cons.mp children).1
  | cast =>
    cases second <;> cases shape
    exact .cast (List.forall₂_cons.mp children).1
  | abstraction target =>
    cases second <;> cases shape
    exact .abstraction target
  | parameter target index =>
    cases second <;> cases shape
    exact .parameter target index
  | quote literal =>
    cases second <;> cases shape
    exact .quote literal

end Node

namespace Table

/-- Two handles denote equal structures. -/
inductive Alike (left right : Table) : Handle → Handle → Prop
  | node {x y : Handle} {first second : Node} (atLeft : left.get? x = some first)
      (atRight : right.get? y = some second) (shape : first.shape = second.shape)
      (children : List.Forall₂ (Alike left right) first.children second.children) :
      Alike left right x y

variable {left right : Table} {x y other : Handle}

theorem Alike.parallel (alike : left.Alike right x y) : ∃ first second,
    left.get? x = some first ∧ right.get? y = some second ∧
      first.Parallel (left.Alike right) second := by
  obtain ⟨atX, atY, shape, children⟩ := alike
  exact ⟨_, _, atX, atY, Node.parallel_of_shape shape children⟩

theorem Alike.exists_parallel {first : Node} (alike : left.Alike right x y)
    (present : left.get? x = some first) :
    ∃ second, right.get? y = some second ∧ first.Parallel (left.Alike right) second := by
  obtain ⟨_, second, atX, atY, parallel⟩ := alike.parallel
  rw [present] at atX
  cases atX
  exact ⟨second, atY, parallel⟩

/-- A structure has one handle only. -/
theorem Alike.left_unique (wellFormed : left.WellFormed) (alike : left.Alike right x y)
    (alikeToo : left.Alike right other y) : x = other := by
  induction x using Nat.strongRecOn generalizing other y with
  | ind x ih =>
    obtain ⟨atX, atY, shape, children⟩ := alike
    obtain ⟨atOther, atYToo, shapeToo, childrenToo⟩ := alikeToo
    rw [atY] at atYToo
    cases atYToo
    refine wellFormed.get?_inj atX ?_
    rw [atOther]
    congr 1
    refine (Node.parallel_of_shape (shape.trans shapeToo.symm) ?_).eq.symm
    refine Results.forall₂_of_common children.flip childrenToo.flip ?_
    exact fun _ child otherChild _ isChild alikeChild =>
      ih child (wellFormed.child_lt atX isChild) alikeChild

/-- Equality of structures does not depend on the order of the tables. -/
theorem Alike.symm (wellFormed : left.WellFormed) (alike : left.Alike right x y) :
    right.Alike left y x := by
  induction x using Nat.strongRecOn generalizing y with
  | ind x ih =>
    obtain ⟨atX, atY, shape, children⟩ := alike
    refine .node atY atX shape.symm (List.Forall₂.flip ?_)
    refine ((List.forall₂_and_left _ _).mpr ⟨fun _ isChild => isChild, children⟩).imp ?_
    exact fun child _ both => ih child (wellFormed.child_lt atX both.1) both.2

theorem Alike.right_unique (leftWellFormed : left.WellFormed) (wellFormed : right.WellFormed)
    (alike : left.Alike right x y) (alikeToo : left.Alike right x other) : y = other :=
  (alike.symm leftWellFormed).left_unique wellFormed (alikeToo.symm leftWellFormed)

/-- A handle keeps its structure when the table grows. -/
theorem alike_of_extends (growth : right.Extends left) (wellFormed : left.WellFormed)
    (inRange : x < left.size) : left.Alike right x x := by
  induction x using Nat.strongRecOn with
  | ind x ih =>
    obtain ⟨node, present⟩ := exists_get?_of_lt inRange
    refine .node present (growth present) rfl (List.forall₂_same.mpr fun child isChild => ?_)
    have older := wellFormed.child_lt present isChild
    exact ih child older (Nat.lt_trans older inRange)

theorem Alike.known?_eq (alike : left.Alike right x y) : left.known? x = right.known? y := by
  obtain ⟨first, second, atX, atY, parallel⟩ := alike.parallel
  rw [known?, known?, atX, atY, Option.bind_some, Option.bind_some, parallel.known?_eq]

theorem Alike.mentioned?_eq (alike : left.Alike right x y) :
    Simplify.mentioned? left x = Simplify.mentioned? right y := by
  obtain ⟨first, second, atX, atY, parallel⟩ := alike.parallel
  rw [Simplify.mentioned?, Simplify.mentioned?, atX, atY]
  cases parallel <;> rfl

/-! ## Comparing structures -/

/-- Comparing equal structures finds no difference. -/
theorem compareFor_of_alike {stack : SamePairs}
    (alike : ∀ pair ∈ stack, left.Alike right pair.1 pair.2) (rounds : Nat) (seen : SamePairs) :
    ∃ all, left.compareFor right rounds stack seen = some all := by
  induction rounds generalizing stack seen with
  | zero => exact ⟨seen, rfl⟩
  | succ rounds ih =>
    rw [compareFor]
    have alike : ∀ pair ∈ stack.dropWhile (· ∈ seen), left.Alike right pair.1 pair.2 :=
      fun pair isLeft => alike pair ((List.dropWhile_sublist _).subset isLeft)
    cases next : stack.dropWhile (· ∈ seen) with
    | nil => exact ⟨seen, rfl⟩
    | cons pair rest =>
      rw [next] at alike
      obtain ⟨atX, atY, shape, children⟩ := alike pair List.mem_cons_self
      simp only [atX, atY, Node.sameShape, shape, decide_true, if_true]
      refine ih (fun other isNext => ?_) _
      rcases List.mem_append.mp isNext with isChild | isRest
      · exact (List.forall₂_iff_zip.mp children).2 (List.mem_reverse.mp isChild)
      · exact alike other (List.mem_cons_of_mem _ isRest)

end Table

/-- Programs with the same labels and equal bodies have the same structure. -/
theorem Program.same_of_alike {left right : Program}
    (length : left.labels.length = right.labels.length)
    (alike : ∀ label ∈ left.labels, ∃ other, right.find? label.name = some other ∧
      label.signature = other.signature ∧ label.external = other.external ∧
        left.table.Alike right.table label.body other.body) : left.same right = true := by
  have each : ∀ label ∈ left.labels, ∀ seen, ∃ more,
      left.sameLabel right seen label = some more := by
    intro label member seen
    obtain ⟨other, found, signature, external, bodies⟩ := alike label member
    obtain ⟨more, success⟩ : ∃ more, left.table.same right.table label.body other.body seen = some more :=
      Table.compareFor_of_alike (List.forall_mem_singleton.mpr bodies) _ seen
    exact ⟨more, by simp [sameLabel, found, signature, external, success]⟩
  obtain ⟨all, success⟩ := Results.exists_foldlM_eq_some each []
  simp [same, length, success]

/-! ## Searching equal structures -/

namespace Search

variable {size otherSize : Nat} {edges otherEdges : Edges}
  {Related : Handle → Handle → Prop}

theorem Strategy.forall₂_add (strategy : Strategy) {found others rest otherRest : List Handle}
    (atFound : List.Forall₂ Related found others) (atRest : List.Forall₂ Related rest otherRest) :
    List.Forall₂ Related (strategy.add found rest) (strategy.add others otherRest) := by
  cases strategy with
  | depthFirst => exact List.rel_append atFound atRest
  | breadthFirst => exact List.rel_append atRest atFound

/-- Two searches take the same course if their handles are related one to one and related handles
have related edges. -/
theorem walk_related (strategy : Strategy)
    (oneToOne : ∀ x y other otherY, Related x y → Related other otherY → (x = other ↔ y = otherY))
    (related : ∀ x y, Related x y → ∃ found others, edgesBelow size edges x = .ok found ∧
      edgesBelow otherSize otherEdges y = .ok others ∧ List.Forall₂ Related found others)
    {frontier marked otherFrontier otherMarked : List Handle}
    (frontiers : List.Forall₂ Related frontier otherFrontier)
    (marks : List.Forall₂ Related marked otherMarked) :
    (walk strategy size edges frontier marked).fault = none ∧
      (walk strategy otherSize otherEdges otherFrontier otherMarked).fault = none ∧
      List.Forall₂ Related (walk strategy size edges frontier marked).order
        (walk strategy otherSize otherEdges otherFrontier otherMarked).order := by
  have marked_iff {x y : Handle} {marked otherMarked : List Handle} (atX : Related x y)
      (marks : List.Forall₂ Related marked otherMarked) : x ∈ marked ↔ y ∈ otherMarked := by
    constructor
    · intro isMarked
      obtain ⟨other, isMarkedToo, atOther⟩ := Results.exists_right_of_mem marks isMarked
      exact (oneToOne _ _ _ _ atX atOther).mp rfl ▸ isMarkedToo
    · intro isMarked
      obtain ⟨other, isMarkedToo, atOther⟩ := Results.exists_left_of_mem marks isMarked
      exact (oneToOne _ _ _ _ atX atOther).mpr rfl ▸ isMarkedToo
  induction frontier, marked using walk_induction strategy size edges
    generalizing otherFrontier otherMarked with
  | done marked =>
    cases frontiers
    exact ⟨rfl, rfl, .nil⟩
  | skip first rest marked known ih =>
    cases frontiers with
    | cons atFirst atRest =>
      rw [walk_cons_marked known, walk_cons_marked ((marked_iff atFirst marks).mp known)]
      exact ih atRest marks
  | fail first rest marked fault fresh failure =>
    cases frontiers with
    | cons atFirst atRest =>
      obtain ⟨_, _, success, -⟩ := related _ _ atFirst
      rw [success] at failure
      cases failure
  | visit first rest marked found fresh success ih =>
    cases frontiers with
    | cons atFirst atRest =>
      obtain ⟨_, others, successAgain, otherSuccess, edgesRelated⟩ := related _ _ atFirst
      rw [success] at successAgain
      cases successAgain
      rw [walk_cons_fresh fresh success,
        walk_cons_fresh (mt (marked_iff atFirst marks).mpr fresh) otherSuccess]
      obtain ⟨faultless, otherFaultless, orders⟩ :=
        ih (strategy.forall₂_add edgesRelated atRest) (.cons atFirst marks)
      exact ⟨faultless, otherFaultless, .cons atFirst orders⟩

end Search

/-- The same names are found in equal structures, in the same order. -/
theorem Simplify.mentions_eq_of_alike {left right : Table} {x y : Handle}
    (leftWellFormed : left.WellFormed) (rightWellFormed : right.WellFormed)
    (alike : left.Alike right x y) : mentions left x = mentions right y := by
  have edges (x y : Handle) (alike : left.Alike right x y) : ∃ found others,
      Search.edgesBelow left.size (fun handle => do return (← left.get handle).children.reverse) x =
        .ok found ∧
      Search.edgesBelow right.size (fun handle => do return (← right.get handle).children.reverse)
        y = .ok others ∧ List.Forall₂ (left.Alike right) found others := by
    obtain ⟨atX, atY, -, children⟩ := alike
    exact ⟨_, _, edgesBelow_children atX, edgesBelow_children atY, List.rel_reverse children⟩
  have oneToOne (x y other otherY : Handle) (alike : left.Alike right x y)
      (alikeToo : left.Alike right other otherY) : x = other ↔ y = otherY := by
    constructor
    · rintro rfl
      exact alike.right_unique leftWellFormed rightWellFormed alikeToo
    · rintro rfl
      exact alike.left_unique leftWellFormed alikeToo
  obtain ⟨faultless, otherFaultless, orders⟩ :=
    Search.walk_related .depthFirst oneToOne edges (.cons alike .nil) .nil
  have listed : mentions left x = .ok (List.filterMap (mentioned? left) _) :=
    Results.bind_eq_ok_iff.mpr ⟨_, Walk.result_eq_ok_iff.mpr ⟨faultless, rfl⟩, rfl⟩
  have otherListed : mentions right y = .ok (List.filterMap (mentioned? right) _) :=
    Results.bind_eq_ok_iff.mpr ⟨_, Walk.result_eq_ok_iff.mpr ⟨otherFaultless, rfl⟩, rfl⟩
  rw [listed, otherListed, Results.filterMap_eq_of_related orders fun _ _ => Table.Alike.mentioned?_eq]

end CpsGraph
