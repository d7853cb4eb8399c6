import CpsGraph.Proofs.StructuralEquality

/-! # What becomes of a node when it is imported

Importing folds, reduces, converts and collapses by what is known of the imported children. What is
known of them can be computed in the old table, so it is the old table alone that decides what becomes
of a node and which of its children are imported at all. Equal structures have equal plans, and they
are imported as equal structures.
-/

namespace CpsGraph

/-- What becomes of a node: it is rebuilt from its imported children, replaced by a literal or by one
of its children, or it is a branch that becomes a call of the target that is taken. -/
inductive Plan where
  | rebuild
  | literal (literal : Literal)
  | child (handle : Handle)
  | jump (condition target : Handle)

/-- The children that carrying out a plan imports, in the order in which it does. -/
def Plan.visits (children : List Handle) : Plan → List Handle
  | .jump condition target => [condition, target]
  | _ => children

/-- What an identity makes of two operands. -/
def Reduction.plan (left right : Handle) : Reduction → Plan
  | .left => .child left
  | .right => .child right
  | .constant literal => .literal literal

/-- The literal that an operator folds to, if its operands are all known and it does not fail. -/
def Operator.fold? (op : Operator) (operands : List (Option Literal)) : Option Literal :=
  (operands.mapM id).bind fun literals => (op.evaluate literals).toOption

theorem Operator.fold?_eq_some_iff {op : Operator} {operands : List (Option Literal)}
    {literal : Literal} : op.fold? operands = some literal ↔
      ∃ literals, operands = literals.map some ∧ op.evaluate literals = .ok literal := by
  simp only [fold?, Option.bind_eq_some_iff, Results.mapM_id_eq_some_iff,
    Results.toOption_eq_some_iff]

section Plans

variable (known : Handle → Option Literal)

/-- What becomes of an operator that is not folded. -/
def Operator.identityPlan (op : Operator) : List Handle → Plan
  | [left, right] => (op.identity? (known left) (known right)).elim .rebuild (Reduction.plan left right)
  | _ => .rebuild

/-- What becomes of an operator. -/
def Operator.plan (op : Operator) (operands : List Handle) : Plan :=
  (op.fold? (operands.map known)).elim (op.identityPlan known operands) .literal

namespace Node

/-- What becomes of a node, by what is known of its children. -/
def plan : Node → Plan
  | .primitive op operands => op.plan known operands
  | .cast source ty =>
    ((known source).bind fun literal => (literal.cast ty).toOption).elim .rebuild .literal
  | .branch [condition, onTrue, onFalse] =>
    ((known condition).bind Literal.bool?).elim .rebuild fun taken =>
      .jump condition (if taken then onTrue else onFalse)
  | _ => .rebuild

/-- The literal that a node stands for, by what is known of its children. -/
def constant? (node : Node) : Option Literal :=
  match node.plan known with
  | .rebuild => node.known?
  | .literal literal => (Node.quote literal).known?
  | .child handle => known handle
  | .jump .. => none

/-- The children that are imported with a node. -/
def demands (node : Node) : List Handle := (node.plan known).visits node.children

end Node

end Plans

theorem Operator.visits_identityPlan (known : Handle → Option Literal) (op : Operator)
    (operands children : List Handle) :
    (op.identityPlan known operands).visits children = children := by
  unfold Operator.identityPlan
  split
  next left right =>
    cases op.identity? _ _ with
    | none => rfl
    | some reduction => cases reduction <;> rfl
  next => rfl

/-- All operands of an operator are imported. -/
theorem Node.demands_primitive (known : Handle → Option Literal) (op : Operator)
    (operands : List Handle) : (Node.primitive op operands).demands known = operands := by
  rw [demands, plan, Operator.plan]
  cases op.fold? _ with
  | some literal => rfl
  | none => exact op.visits_identityPlan known operands operands

theorem Node.demands_cast (known : Handle → Option Literal) (source : Handle) (ty : Ty) :
    (Node.cast source ty).demands known = [source] := by
  rw [demands, plan]
  cases Option.bind _ _ <;> rfl

theorem Node.demands_subset (known : Handle → Option Literal) (node : Node) :
    node.demands known ⊆ node.children := by
  cases node with
  | primitive op operands => rw [demands_primitive, children]; exact List.Subset.refl _
  | cast source ty => rw [demands_cast, children]; exact List.Subset.refl _
  | branch arguments =>
    rcases arguments with _ | ⟨condition, _ | ⟨onTrue, _ | ⟨onFalse, _ | ⟨more, rest⟩⟩⟩⟩
    · exact List.Subset.refl _
    · exact List.Subset.refl _
    · exact List.Subset.refl _
    · rw [demands, plan]
      cases Option.bind _ _ with
      | none => exact List.Subset.refl _
      | some taken => cases taken <;> simp [Plan.visits, children]
    · exact List.Subset.refl _
  | _ => exact List.Subset.refl _

/-- Two plans do the same with related handles. -/
inductive Plan.Parallel (Related : Handle → Handle → Prop) : Plan → Plan → Prop
  | rebuild : Parallel Related .rebuild .rebuild
  | literal (literal : Literal) : Parallel Related (.literal literal) (.literal literal)
  | child {handle other : Handle} (related : Related handle other) :
      Parallel Related (.child handle) (.child other)
  | jump {condition otherCondition target otherTarget : Handle}
      (atCondition : Related condition otherCondition) (atTarget : Related target otherTarget) :
      Parallel Related (.jump condition target) (.jump otherCondition otherTarget)

namespace Plan.Parallel

variable {Related : Handle → Handle → Prop} {plan : Plan} {literal : Literal} {handle : Handle}

theorem eq_rebuild (parallel : plan.Parallel Related .rebuild) : plan = .rebuild := by
  cases parallel
  rfl

theorem eq_literal (parallel : plan.Parallel Related (.literal literal)) : plan = .literal literal := by
  cases parallel
  rfl

theorem eq_child (parallel : plan.Parallel Related (.child handle)) :
    ∃ child, Related child handle ∧ plan = .child child := by
  cases parallel with
  | child related => exact ⟨_, related, rfl⟩

end Plan.Parallel

section Parallel

variable {Related : Handle → Handle → Prop} {known otherKnown : Handle → Option Literal}
  (agree : ∀ x y, Related x y → known x = otherKnown y)

include agree

theorem Operator.identityPlan_parallel (op : Operator) {operands others : List Handle}
    (related : List.Forall₂ Related operands others) :
    (op.identityPlan known operands).Parallel Related (op.identityPlan otherKnown others) := by
  rcases related with _ | ⟨atLeft, _ | ⟨atRight, _ | _⟩⟩
  · exact .rebuild
  · exact .rebuild
  · rw [identityPlan, identityPlan, agree _ _ atLeft, agree _ _ atRight]
    cases op.identity? _ _ with
    | none => exact .rebuild
    | some reduction =>
      cases reduction with
      | left => exact .child atLeft
      | right => exact .child atRight
      | constant literal => exact .literal literal
  · exact .rebuild

theorem Operator.plan_parallel (op : Operator) {operands others : List Handle}
    (related : List.Forall₂ Related operands others) :
    (op.plan known operands).Parallel Related (op.plan otherKnown others) := by
  have literals : operands.map known = others.map otherKnown := by
    rw [← List.forall₂_eq_eq_eq, List.forall₂_map_left_iff, List.forall₂_map_right_iff]
    exact related.imp agree
  rw [plan, plan, literals]
  cases op.fold? _ with
  | some literal => exact .literal literal
  | none => exact op.identityPlan_parallel agree related

namespace Node.Parallel

variable {first second : Node} (parallel : first.Parallel Related second)

include parallel

/-- Nodes of the same shape have the same plan. -/
theorem plan : (first.plan known).Parallel Related (second.plan otherKnown) := by
  cases parallel with
  | primitive atOperands => exact Operator.plan_parallel agree _ atOperands
  | cast atSource =>
    rw [Node.plan, Node.plan, agree _ _ atSource]
    cases Option.bind _ _ with
    | none => exact .rebuild
    | some literal => exact .literal literal
  | branch atArguments =>
    rcases atArguments with _ | ⟨atCondition, _ | ⟨atTrue, _ | ⟨atFalse, _ | _⟩⟩⟩
    · exact .rebuild
    · exact .rebuild
    · exact .rebuild
    · rw [Node.plan, Node.plan, agree _ _ atCondition]
      cases Option.bind _ _ with
      | none => exact .rebuild
      | some taken => exact .jump atCondition (Results.related_ite taken atTrue atFalse)
    · exact .rebuild
  | _ => exact .rebuild

theorem constant?_eq : first.constant? known = second.constant? otherKnown := by
  have plans := parallel.plan agree
  rw [Node.constant?, Node.constant?]
  generalize first.plan known = plan, second.plan otherKnown = otherPlan at plans
  cases plans with
  | rebuild => exact parallel.known?_eq
  | literal => rfl
  | child related => exact agree _ _ related
  | jump => rfl

theorem demands : List.Forall₂ Related (first.demands known) (second.demands otherKnown) := by
  have plans := parallel.plan agree
  rw [Node.demands, Node.demands]
  generalize first.plan known = plan, second.plan otherKnown = otherPlan at plans
  cases plans with
  | jump atCondition atTarget => exact .cons atCondition (.cons atTarget .nil)
  | _ => exact parallel.children

end Node.Parallel

end Parallel

theorem Node.constant?_congr {known other : Handle → Option Literal} (node : Node)
    (same : ∀ child ∈ node.children, known child = other child) :
    node.constant? known = node.constant? other := by
  have parallel : node.Parallel (fun child image => child ∈ node.children ∧ child = image) node :=
    parallel_of_shape rfl (List.forall₂_same.mpr fun child isChild => ⟨isChild, rfl⟩)
  refine parallel.constant?_eq ?_
  rintro child _ ⟨isChild, rfl⟩
  exact same child isChild

namespace Table

/-- The literal that the node at a handle below `bound` stands for. -/
def constantBelow (table : Table) : (bound : Nat) → Handle → Option Literal
  | 0, _ => none
  | bound + 1, handle => (table.get? handle).bind (Node.constant? (table.constantBelow bound))

/-- The literal that a node stands for once it is simplified, if that is known. -/
def constant? (table : Table) (handle : Handle) : Option Literal :=
  table.constantBelow (handle + 1) handle

variable {table left right : Table} {handle x y : Handle} {node : Node}

theorem constantBelow_eq_constant? (wellFormed : table.WellFormed) {bound : Nat}
    (inRange : handle < bound) : table.constantBelow bound handle = table.constant? handle := by
  induction handle using Nat.strongRecOn generalizing bound with
  | ind handle ih =>
    obtain ⟨bound, rfl⟩ := Nat.exists_eq_succ_of_ne_zero (Nat.ne_zero_of_lt inRange)
    rw [constant?, constantBelow, constantBelow]
    cases present : table.get? handle with
    | none => rfl
    | some node =>
      refine node.constant?_congr fun child isChild => ?_
      have older := wellFormed.child_lt present isChild
      rw [ih child older older,
        ih child older (Nat.lt_of_lt_of_le older (Nat.le_of_lt_succ inRange))]

/-- A node stands for what it is by what its children stand for. -/
theorem constant?_of_get? (wellFormed : table.WellFormed) (present : table.get? handle = some node) :
    table.constant? handle = node.constant? table.constant? := by
  rw [constant?, constantBelow, present, Option.bind_some]
  refine node.constant?_congr fun child isChild => ?_
  exact constantBelow_eq_constant? wellFormed (wellFormed.child_lt present isChild)

/-- Equal structures stand for the same literal. -/
theorem Alike.constant?_eq (wellFormed : left.WellFormed) (otherWellFormed : right.WellFormed)
    (alike : left.Alike right x y) : left.constant? x = right.constant? y := by
  induction x using Nat.strongRecOn generalizing y with
  | ind x ih =>
    obtain ⟨atX, atY, shape, children⟩ := alike
    rw [constant?_of_get? wellFormed atX, constant?_of_get? otherWellFormed atY]
    have parallel := Node.parallel_of_shape shape
      ((List.forall₂_and_left _ _).mpr ⟨fun _ isChild => isChild, children⟩)
    refine parallel.constant?_eq ?_
    rintro child other ⟨isChild, alikeChild⟩
    exact ih child (wellFormed.child_lt atX isChild) alikeChild

end Table

namespace Simplify

/-- The new handle of a node is what the plan for the node says. -/
def Carried (table : Table) (imported : Pairs) (node : Node) (new : Handle) : Plan → Prop
  | .rebuild => ∃ newNode, table.get? new = some newNode ∧
      node.Parallel (fun child newChild => (child, newChild) ∈ imported) newNode
  | .literal literal => table.get? new = some (.quote literal)
  | .child handle => handle ∈ node.children ∧ (handle, new) ∈ imported
  | .jump _ target => target ∈ node.children ∧ ∃ newTarget, (target, newTarget) ∈ imported ∧
      table.get? new = some (.call newTarget [])

variable {old : Program} {table : Table} {imported : Pairs} {node : Node} {handle new : Handle}

theorem fold?_of_unfoldable {op : Operator} {operands : List Handle}
    (unfoldable : Unfoldable table op operands) : op.fold? (operands.map table.known?) = none := by
  rw [Option.eq_none_iff_forall_ne_some]
  intro literal folded
  obtain ⟨literals, allKnown, evaluated⟩ := Operator.fold?_eq_some_iff.mp folded
  exact unfoldable literals allKnown literal evaluated

/-- An operator on known operands on which it does not fail becomes a literal. -/
theorem plan_of_evaluate {op : Operator} {operands : List Handle} {literals : List Literal}
    {literal : Literal} (allKnown : operands.map table.known? = literals.map some)
    (evaluated : op.evaluate literals = .ok literal) :
    op.plan table.known? operands = .literal literal := by
  rw [Operator.plan, Operator.fold?_eq_some_iff.mpr ⟨literals, allKnown, evaluated⟩,
    Option.elim_some]

theorem plan_of_unfoldable {op : Operator} {operands : List Handle}
    (unfoldable : Unfoldable table op operands) :
    op.plan table.known? operands = op.identityPlan table.known? operands := by
  rw [Operator.plan, fold?_of_unfoldable unfoldable, Option.elim_none]

theorem identityPlan_of_irreducible {op : Operator} {operands : List Handle}
    (irreducible : Irreducible table op operands) :
    op.identityPlan table.known? operands = .rebuild := by
  unfold Operator.identityPlan
  split
  next left right => rw [irreducible left right rfl, Option.elim_none]
  next => rfl

theorem bind_cast_eq_none {known : Option Literal} {ty : Ty}
    (unknown : ∀ literal, known = some literal → ∀ result, literal.cast ty ≠ .ok result) :
    (known.bind fun literal => (literal.cast ty).toOption) = none := by
  rw [Option.eq_none_iff_forall_ne_some]
  intro result converted
  obtain ⟨literal, isKnown, cast⟩ := Option.bind_eq_some_iff.mp converted
  exact unknown literal isKnown result (Results.toOption_eq_some_iff.mp cast)

theorem MapsAll.plan_parallel {known : Handle → Option Literal} {operands newOperands : List Handle}
    (maps : MapsAll imported operands newOperands)
    (agree : ∀ child ∈ operands, ∀ newChild, (child, newChild) ∈ imported →
      table.known? newChild = known child) (op : Operator) :
    (op.plan known operands).Parallel (fun child newChild => child ∈ operands ∧
      (child, newChild) ∈ imported) (op.plan table.known? newOperands) := by
  refine op.plan_parallel (fun child newChild related => ?_)
    ((List.forall₂_and_left _ _).mpr ⟨fun _ isChild => isChild, maps⟩)
  exact (agree child related.1 newChild related.2).symm

/-- An operator that follows a rule follows the plan, and its operands are imported. -/
theorem Translates.carried_primitive {op : Operator} {operands : List Handle}
    (translates : Translates table imported (.primitive op operands) new)
    {known : Handle → Option Literal} (agree : ∀ operand ∈ operands, ∀ newOperand,
      (operand, newOperand) ∈ imported → table.known? newOperand = known operand) :
    Carried table imported (.primitive op operands) new (op.plan known operands) ∧
      ∃ newOperands, MapsAll imported operands newOperands := by
  cases translates with
  | folded atOperands allKnown evaluated present =>
    have plans := atOperands.plan_parallel agree op
    rw [plan_of_evaluate allKnown evaluated] at plans
    rw [plans.eq_literal]
    exact ⟨present, _, atOperands⟩
  | reduced atLeft atRight unfoldable identity leaves =>
    rename_i left right newLeft newRight reduction
    have atOperands : MapsAll imported [left, right] [newLeft, newRight] :=
      .cons atLeft (.cons atRight .nil)
    have plans := atOperands.plan_parallel agree op
    rw [plan_of_unfoldable unfoldable, Operator.identityPlan, identity, Option.elim_some] at plans
    cases reduction with
    | left | right =>
      obtain ⟨child, related, planned⟩ := plans.eq_child
      rw [planned]
      exact ⟨leaves ▸ related, _, atOperands⟩
    | constant literal =>
      rw [plans.eq_literal]
      exact ⟨leaves, _, atOperands⟩
  | primitive atOperands unfoldable irreducible present =>
    have plans := atOperands.plan_parallel agree op
    rw [plan_of_unfoldable unfoldable, identityPlan_of_irreducible irreducible] at plans
    rw [plans.eq_rebuild]
    exact ⟨⟨_, present, .primitive atOperands⟩, _, atOperands⟩

/-- Whatever follows a rule follows the plan. -/
theorem Translates.carried (translates : Translates table imported node new)
    {known : Handle → Option Literal} (agree : ∀ child ∈ node.children, ∀ newChild,
      (child, newChild) ∈ imported → table.known? newChild = known child) :
    Carried table imported node new (node.plan known) ∧
      ∀ child ∈ node.demands known, ∃ newChild, (child, newChild) ∈ imported := by
  have images {olds news : List Handle} (maps : MapsAll imported olds news) :
      ∀ child ∈ olds, ∃ newChild, (child, newChild) ∈ imported := by
    intro child isChild
    obtain ⟨newChild, -, pair⟩ := Results.exists_right_of_mem maps isChild
    exact ⟨newChild, pair⟩
  cases node with
  | call callee arguments =>
    cases translates with
    | call atCallee atArguments present =>
      exact ⟨⟨_, present, .call atCallee atArguments⟩, images (.cons atCallee atArguments)⟩
  | branch arguments =>
    cases translates with
    | collapsed atCondition decided atTarget present =>
      rename_i condition onTrue onFalse newCondition newCallee taken
      rw [agree condition (by simp [Node.children]) _ atCondition] at decided
      rw [Node.demands, Node.plan, decided]
      refine ⟨⟨?_, newCallee, atTarget, present⟩, images (.cons atCondition (.cons atTarget .nil))⟩
      cases taken <;> simp [Node.children]
    | branch atCondition undecided atTrue atFalse present =>
      rw [agree _ (by simp [Node.children]) _ atCondition] at undecided
      have atArguments : MapsAll imported _ _ :=
        .cons atCondition (.cons atTrue (.cons atFalse .nil))
      rw [Node.demands, Node.plan, undecided]
      exact ⟨⟨_, present, .branch atArguments⟩, images atArguments⟩
  | primitive op operands =>
    obtain ⟨carried, newOperands, atOperands⟩ := translates.carried_primitive agree
    rw [Node.demands_primitive]
    exact ⟨carried, images atOperands⟩
  | cast source ty =>
    rw [Node.demands_cast, Node.plan]
    cases translates with
    | converted atSource isKnown cast present =>
      rw [agree source (List.mem_singleton_self _) _ atSource] at isKnown
      rw [isKnown, Option.bind_some, Results.toOption_eq_some_iff.mpr cast]
      exact ⟨present, images (.cons atSource .nil)⟩
    | cast atSource unknown present =>
      rw [agree source (List.mem_singleton_self _) _ atSource] at unknown
      rw [bind_cast_eq_none unknown]
      exact ⟨⟨_, present, .cast atSource⟩, images (.cons atSource .nil)⟩
  | abstraction target =>
    cases translates with
    | abstraction present => exact ⟨⟨_, present, .abstraction target⟩, images .nil⟩
  | parameter target index =>
    cases translates with
    | parameter present => exact ⟨⟨_, present, .parameter target index⟩, images .nil⟩
  | quote literal =>
    cases translates with
    | quote present => exact ⟨⟨_, present, .quote literal⟩, images .nil⟩
  | continuation => cases translates

namespace Faithful

/-- What is known of an imported node is what the node stood for. -/
theorem known?_eq (faithful : Faithful old table imported) (wellFormed : old.table.WellFormed)
    (pair : (handle, new) ∈ imported) : table.known? new = old.table.constant? handle := by
  induction handle using Nat.strongRecOn generalizing new with
  | ind handle ih =>
    obtain ⟨node, present, translates⟩ := faithful.translates handle new pair
    have carried := (translates.carried fun child isChild newChild =>
      ih child (wellFormed.child_lt present isChild)).1
    rw [Table.constant?_of_get? wellFormed present, Node.constant?]
    generalize node.plan old.table.constant? = plan at carried ⊢
    cases plan with
    | rebuild =>
      obtain ⟨newNode, atNew, parallel⟩ := carried
      simp only [Table.known?, atNew, Option.bind_some]
      exact parallel.known?_eq.symm
    | literal literal =>
      rw [Table.known?, carried, Option.bind_some]
    | child child => exact ih child (wellFormed.child_lt present carried.1) carried.2
    | jump condition target =>
      obtain ⟨-, newTarget, -, atNew⟩ := carried
      rw [Table.known?, atNew]
      rfl

/-- An imported node is carried out as planned, and whatever it demands is imported. -/
theorem carried (faithful : Faithful old table imported) (wellFormed : old.table.WellFormed)
    (pair : (handle, new) ∈ imported) (present : old.table.get? handle = some node) :
    Carried table imported node new (node.plan old.table.constant?) ∧
      ∀ child ∈ node.demands old.table.constant?, ∃ newChild, (child, newChild) ∈ imported := by
  obtain ⟨_, presentToo, translates⟩ := faithful.translates handle new pair
  rw [present] at presentToo
  cases presentToo
  exact translates.carried fun child _ newChild => faithful.known?_eq wellFormed

/-- Equal structures are imported as equal structures. -/
theorem alike {left right : Program} {table otherTable : Table} {imported others : Pairs}
    {x y newX newY : Handle} (faithful : Faithful left table imported)
    (otherFaithful : Faithful right otherTable others) (wellFormed : left.table.WellFormed)
    (otherWellFormed : right.table.WellFormed) (alike : left.table.Alike right.table x y)
    (pair : (x, newX) ∈ imported) (otherPair : (y, newY) ∈ others) :
    table.Alike otherTable newX newY := by
  induction x using Nat.strongRecOn generalizing y newX newY with
  | ind x ih =>
    obtain ⟨node, otherNode, atX, atY, parallel⟩ := alike.parallel
    have agree (child other : Handle) (alikeChild : left.table.Alike right.table child other) :=
      alikeChild.constant?_eq wellFormed otherWellFormed
    have plans := parallel.plan agree
    have carried := (faithful.carried wellFormed pair atX).1
    have otherCarried := (otherFaithful.carried otherWellFormed otherPair atY).1
    generalize node.plan left.table.constant? = plan at plans carried
    generalize otherNode.plan right.table.constant? = otherPlan at plans otherCarried
    cases plans with
    | rebuild =>
      obtain ⟨newNode, atNewX, images⟩ := carried
      obtain ⟨newOther, atNewY, otherImages⟩ := otherCarried
      have shape := (images.shape_eq.symm.trans parallel.shape_eq).trans otherImages.shape_eq
      refine .node atNewX atNewY shape ?_
      -- The new children come from children of equal structure, one by one.
      have between : List.Forall₂ (fun other newChild => ∃ child ∈ node.children,
          left.table.Alike right.table child other ∧ (child, newChild) ∈ imported)
          otherNode.children newNode.children :=
        Results.forall₂_of_common parallel.children images.children
          fun child _ _ isChild _ alikeChild image => ⟨child, isChild, alikeChild, image⟩
      refine Results.forall₂_of_common between otherImages.children ?_
      rintro _ _ _ _ _ ⟨child, isChild, alikeChild, image⟩ otherImage
      exact ih child (wellFormed.child_lt atX isChild) alikeChild image otherImage
    | literal literal => exact .node carried otherCarried rfl .nil
    | child related => exact ih _ (wellFormed.child_lt atX carried.1) related carried.2 otherCarried.2
    | jump _ atTarget =>
      obtain ⟨isChild, newTarget, image, atNewX⟩ := carried
      obtain ⟨-, otherTarget, otherImage, atNewY⟩ := otherCarried
      refine .node atNewX atNewY rfl (.cons ?_ .nil)
      exact ih _ (wellFormed.child_lt atX isChild) atTarget image otherImage

end Faithful

end Simplify

end CpsGraph
