import CpsGraph.Proofs.WellFormed

/-! # The parts of a node

The parts of a node are the handles of its tree, from the top down and from left to right, as often
as they occur. They stay the same when the table grows.
-/

namespace CpsGraph

namespace Node

/-- Two nodes of the same kind have children that are related one by one. -/
inductive Matches (Related : Handle → Handle → Prop) : Node → Node → Prop
  | call {callee newCallee : Handle} {arguments newArguments : List Handle}
      (atCallee : Related callee newCallee)
      (atArguments : List.Forall₂ Related arguments newArguments) :
      Matches Related (.call callee arguments) (.call newCallee newArguments)
  | branch {arguments newArguments : List Handle}
      (atArguments : List.Forall₂ Related arguments newArguments) :
      Matches Related (.branch arguments) (.branch newArguments)
  | primitive {op : Operator} {operands newOperands : List Handle}
      (atOperands : List.Forall₂ Related operands newOperands) :
      Matches Related (.primitive op operands) (.primitive op newOperands)
  | cast {source newSource : Handle} {ty : Ty} (atSource : Related source newSource) :
      Matches Related (.cast source ty) (.cast newSource ty)

namespace Matches

variable {Related Weaker : Handle → Handle → Prop} {node image : Node}

theorem children (parts : node.Matches Related image) :
    List.Forall₂ Related node.children image.children := by
  cases parts with
  | call atCallee atArguments => exact .cons atCallee atArguments
  | branch atArguments => exact atArguments
  | primitive atOperands => exact atOperands
  | cast atSource => exact .cons atSource .nil

theorem isBody_eq (parts : node.Matches Related image) : image.isBody = node.isBody := by
  cases parts <;> rfl

theorem imp (parts : node.Matches Related image)
    (weaker : ∀ child childImage, child ∈ node.children → Related child childImage →
      Weaker child childImage) : node.Matches Weaker image := by
  have all {lefts rights : List Handle} (related : List.Forall₂ Related lefts rights)
      (inside : ∀ left ∈ lefts, left ∈ node.children) : List.Forall₂ Weaker lefts rights :=
    ((List.forall₂_and_left lefts rights).mpr ⟨inside, related⟩).imp fun left right both =>
      weaker left right both.1 both.2
  cases parts with
  | call atCallee atArguments =>
    exact .call (weaker _ _ List.mem_cons_self atCallee)
      (all atArguments fun _ => List.mem_cons_of_mem _)
  | branch atArguments => exact .branch (all atArguments fun _ => id)
  | primitive atOperands => exact .primitive (all atOperands fun _ => id)
  | cast atSource => exact .cast (weaker _ _ List.mem_cons_self atSource)

/-- Nodes with equal children are equal. -/
theorem eq (parts : node.Matches Eq image) : node = image := by
  cases parts with
  | call atCallee atArguments =>
    rw [List.forall₂_eq_eq_eq] at atArguments
    rw [atCallee, atArguments]
  | branch atArguments =>
    rw [List.forall₂_eq_eq_eq] at atArguments
    rw [atArguments]
  | primitive atOperands =>
    rw [List.forall₂_eq_eq_eq] at atOperands
    rw [atOperands]
  | cast atSource => rw [atSource]

end Matches

end Node

end CpsGraph

namespace CpsGraph.Table

/-- The parts of the node at a handle below `bound`. -/
def partsBelow (table : Table) : (bound : Nat) → Handle → List Handle
  | 0, _ => []
  | bound + 1, handle =>
    handle :: ((table.get? handle).elim [] Node.children).flatMap (table.partsBelow bound)

/-- The parts of a node, itself included. -/
def parts (table : Table) (handle : Handle) : List Handle := table.partsBelow (handle + 1) handle

variable {table : Table} {handle part child : Handle} {node : Node}

theorem partsBelow_eq_parts (wellFormed : table.WellFormed) {bound : Nat} (inRange : handle < bound) :
    table.partsBelow bound handle = table.parts handle := by
  induction handle using Nat.strongRecOn generalizing bound with
  | ind handle ih =>
    obtain ⟨bound, rfl⟩ := Nat.exists_eq_succ_of_ne_zero (Nat.ne_zero_of_lt inRange)
    rw [parts, partsBelow, partsBelow]
    congr 1
    cases present : table.get? handle with
    | none => rfl
    | some node =>
      refine List.flatMap_congr fun child member => ?_
      have older := wellFormed.child_lt present member
      rw [ih child older older,
        ih child older (Nat.lt_of_lt_of_le older (Nat.le_of_lt_succ inRange))]

/-- The parts of a node are itself and the parts of its children. -/
theorem parts_of_get? (wellFormed : table.WellFormed) (present : table.get? handle = some node) :
    table.parts handle = handle :: node.children.flatMap table.parts := by
  rw [parts, partsBelow, present]
  congr 1
  exact List.flatMap_congr fun child member =>
    partsBelow_eq_parts wellFormed (wellFormed.child_lt present member)

theorem mem_parts_self (table : Table) (handle : Handle) : handle ∈ table.parts handle :=
  List.mem_cons_self

theorem mem_parts_of_child (wellFormed : table.WellFormed) (present : table.get? handle = some node)
    (member : child ∈ node.children) (inside : part ∈ table.parts child) :
    part ∈ table.parts handle := by
  rw [parts_of_get? wellFormed present]
  exact List.mem_cons_of_mem _ (List.mem_flatMap_of_mem member inside)

/-- A part of a node is the node or a part of one of its children. -/
theorem mem_parts_iff (wellFormed : table.WellFormed) (present : table.get? handle = some node) :
    part ∈ table.parts handle ↔ part = handle ∨ ∃ child ∈ node.children, part ∈ table.parts child := by
  rw [parts_of_get? wellFormed present, List.mem_cons, List.mem_flatMap]

/-- What holds of a node and is passed on to children holds of all its parts. -/
theorem parts_induction (Holds : Handle → Prop) (wellFormed : table.WellFormed)
    (start : Holds handle) (step : ∀ parent node child, table.get? parent = some node → Holds parent →
      child ∈ node.children → Holds child) : ∀ part ∈ table.parts handle, Holds part := by
  induction handle using Nat.strongRecOn with
  | ind handle ih =>
    intro part inside
    cases present : table.get? handle with
    | none =>
      rw [parts, partsBelow, present] at inside
      exact List.mem_singleton.mp inside ▸ start
    | some node =>
      rcases (mem_parts_iff wellFormed present).mp inside with rfl | ⟨child, member, inside⟩
      · exact start
      · exact ih child (wellFormed.child_lt present member) (step handle node child present start member)
          part inside

/-- A part of a part is a part. -/
theorem mem_parts_trans (wellFormed : table.WellFormed) {middle : Handle}
    (inside : middle ∈ table.parts handle) (deeper : part ∈ table.parts middle) :
    part ∈ table.parts handle := by
  induction handle using Nat.strongRecOn with
  | ind handle ih =>
    cases present : table.get? handle with
    | none =>
      rw [parts, partsBelow, present] at inside
      exact List.mem_singleton.mp inside ▸ deeper
    | some node =>
      rcases (mem_parts_iff wellFormed present).mp inside with rfl | ⟨child, member, inside⟩
      · exact deeper
      · have older := wellFormed.child_lt present member
        exact mem_parts_of_child wellFormed present member (ih child older inside)

/-- The children of a part are parts. -/
theorem child_mem_parts (wellFormed : table.WellFormed) {middle : Handle}
    (inside : middle ∈ table.parts handle) (present : table.get? middle = some node)
    (member : child ∈ node.children) : child ∈ table.parts handle :=
  mem_parts_trans wellFormed inside
    (mem_parts_of_child wellFormed present member (mem_parts_self table child))

theorem le_of_mem_parts (wellFormed : table.WellFormed) (inside : part ∈ table.parts handle) :
    part ≤ handle := by
  refine parts_induction (· ≤ handle) wellFormed (Nat.le_refl handle) ?_ part inside
  intro parent node child present below member
  exact Nat.le_trans (Nat.le_of_lt (wellFormed.child_lt present member)) below

/-- A node keeps its parts when the table grows. -/
theorem parts_of_extends {grown : Table} (growth : grown.Extends table)
    (wellFormed : table.WellFormed) (closed : grown.WellFormed) (inRange : handle < table.size) :
    grown.parts handle = table.parts handle := by
  induction handle using Nat.strongRecOn with
  | ind handle ih =>
    obtain ⟨node, present⟩ := exists_get?_of_lt inRange
    rw [parts_of_get? wellFormed present, parts_of_get? closed (growth present)]
    congr 1
    refine List.flatMap_congr fun child member => ?_
    have older := wellFormed.child_lt present member
    exact ih child older (Nat.lt_trans older inRange)

/-- A part of the node is the closure or a parameter of the name. -/
def Mentions (table : Table) (handle : Handle) (name : Name) : Prop :=
  ∃ part ∈ table.parts handle, table.get? part = some (.abstraction name) ∨
    ∃ index, table.get? part = some (.parameter name index)

variable {name : Name}

theorem Mentions.of_child (mentions : table.Mentions child name) (wellFormed : table.WellFormed)
    (present : table.get? handle = some node) (member : child ∈ node.children) :
    table.Mentions handle name := by
  obtain ⟨part, inside, here⟩ := mentions
  exact ⟨part, mem_parts_of_child wellFormed present member inside, here⟩

theorem mentions_abstraction (present : table.get? handle = some (.abstraction name)) :
    table.Mentions handle name :=
  ⟨handle, table.mem_parts_self handle, .inl present⟩

theorem mentions_parameter {index : Nat} (present : table.get? handle = some (.parameter name index)) :
    table.Mentions handle name :=
  ⟨handle, table.mem_parts_self handle, .inr ⟨index, present⟩⟩

/-- A constant mentions nothing. -/
theorem not_mentions_quote {literal : Literal} (wellFormed : table.WellFormed)
    (present : table.get? handle = some (.quote literal)) : ¬ table.Mentions handle name := by
  rintro ⟨part, inside, here⟩
  rw [parts_of_get? wellFormed present, Node.children, List.flatMap_nil, List.mem_singleton] at inside
  subst inside
  rw [present] at here
  rcases here with here | ⟨_, here⟩ <;> cases here

/-- A node mentions no other names when the table grows. -/
theorem mentions_of_extends {grown : Table} (growth : grown.Extends table)
    (wellFormed : table.WellFormed) (closed : grown.WellFormed) (inRange : handle < table.size)
    (mentions : grown.Mentions handle name) : table.Mentions handle name := by
  obtain ⟨part, inside, here⟩ := mentions
  rw [parts_of_extends growth wellFormed closed inRange] at inside
  obtain ⟨node, present⟩ :=
    exists_get?_of_lt (Nat.lt_of_le_of_lt (le_of_mem_parts wellFormed inside) inRange)
  rw [growth present, ← present] at here
  exact ⟨part, inside, here⟩

end CpsGraph.Table
