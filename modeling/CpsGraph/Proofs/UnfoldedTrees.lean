import CpsGraph.Proofs.EqualResults

/-! # Unfolded trees

Followed from its root to the leaves, with every shared part copied wherever it occurs, a structure
is a tree that has names but no handles. In a well-formed table every node has its own tree, and
comparing two programs compares exactly the names, the signatures, the marks and the trees of their
labels. So it is an equivalence, and neither the order of the labels nor nodes that no label
needs make a difference to it.
-/

namespace CpsGraph

/-- A structure in which the parts of a node stand in its place. -/
inductive Tree where
  | continuation (name : Name) (signature : Signature) (body : Tree)
  | call (callee : Tree) (arguments : List Tree)
  | branch (arguments : List Tree)
  | primitive (op : Operator) (operands : List Tree)
  | abstraction (target : Name)
  | parameter (target : Name) (index : Nat)
  | quote (literal : Literal)
  | cast (source : Tree) (ty : Ty)
deriving Repr

namespace Tree

/-- The subtrees of a tree, from left to right. -/
def children : Tree → List Tree
  | .continuation _ _ body => [body]
  | .call callee arguments => callee :: arguments
  | .branch arguments => arguments
  | .primitive _ operands => operands
  | .abstraction _ => []
  | .parameter _ _ => []
  | .quote _ => []
  | .cast source _ => [source]

/-- The root of a tree, without the identity of its children. -/
def shape : Tree → Node
  | .continuation name signature _ => .continuation name signature 0
  | .call _ arguments => .call 0 (arguments.map fun _ => 0)
  | .branch arguments => .branch (arguments.map fun _ => 0)
  | .primitive op operands => .primitive op (operands.map fun _ => 0)
  | .abstraction target => .abstraction target
  | .parameter target index => .parameter target index
  | .quote literal => .quote literal
  | .cast _ ty => .cast 0 ty

end Tree

namespace Node

variable {first second node : Node} {below otherBelow : Handle → Option Tree}

/-- The tree of a node, from the trees of its children. -/
def tree? (below : Handle → Option Tree) : Node → Option Tree
  | .continuation name signature body => do return .continuation name signature (← below body)
  | .call callee arguments => do return .call (← below callee) (← arguments.mapM below)
  | .branch arguments => do return .branch (← arguments.mapM below)
  | .primitive op operands => do return .primitive op (← operands.mapM below)
  | .abstraction target => some (.abstraction target)
  | .parameter target index => some (.parameter target index)
  | .quote literal => some (.quote literal)
  | .cast source ty => do return .cast (← below source) ty

/-- Nodes whose children have the same trees one by one have the same tree. -/
theorem Parallel.tree?_eq (parallel : first.Parallel (fun x y => below x = otherBelow y) second) :
    first.tree? below = second.tree? otherBelow := by
  have lists {handles others : List Handle}
      (related : List.Forall₂ (fun x y => below x = otherBelow y) handles others) :
      handles.mapM below = others.mapM otherBelow :=
    Results.mapM_eq_of_related related fun _ _ _ same => same
  cases parallel with
  | continuation atBody => simp only [tree?, atBody]
  | call atCallee atArguments => simp only [tree?, atCallee, lists atArguments]
  | branch atArguments => simp only [tree?, lists atArguments]
  | primitive atOperands => simp only [tree?, lists atOperands]
  | cast atSource => simp only [tree?, atSource]
  | abstraction | parameter | quote => rfl

/-- A node has a tree if its children have. -/
theorem exists_tree? (each : ∀ child ∈ node.children, ∃ tree, below child = some tree) :
    ∃ tree, node.tree? below = some tree := by
  cases node with
  | continuation name signature body =>
    obtain ⟨tree, atBody⟩ := each body List.mem_cons_self
    exact ⟨.continuation name signature tree, by simp [tree?, atBody]⟩
  | call callee arguments =>
    obtain ⟨tree, atCallee⟩ := each callee List.mem_cons_self
    obtain ⟨trees, atArguments⟩ := Results.exists_mapM_eq_some fun argument isArgument =>
      each argument (List.mem_cons_of_mem _ isArgument)
    exact ⟨.call tree trees, by simp [tree?, atCallee, atArguments]⟩
  | branch arguments =>
    obtain ⟨trees, atArguments⟩ : ∃ trees, arguments.mapM below = some trees :=
      Results.exists_mapM_eq_some each
    exact ⟨.branch trees, by simp [tree?, atArguments]⟩
  | primitive op operands =>
    obtain ⟨trees, atOperands⟩ : ∃ trees, operands.mapM below = some trees :=
      Results.exists_mapM_eq_some each
    exact ⟨.primitive op trees, by simp [tree?, atOperands]⟩
  | cast source ty =>
    obtain ⟨tree, atSource⟩ := each source List.mem_cons_self
    exact ⟨.cast tree ty, by simp [tree?, atSource]⟩
  | abstraction | parameter | quote => exact ⟨_, rfl⟩

/-- A node and a tree of the same kind, whose subtrees are the trees of the children one by one. -/
inductive Unfolds (below : Handle → Option Tree) : Node → Tree → Prop
  | continuation {name : Name} {signature : Signature} {body : Handle} {tree : Tree}
      (atBody : below body = some tree) :
      Unfolds below (.continuation name signature body) (.continuation name signature tree)
  | call {callee : Handle} {arguments : List Handle} {tree : Tree} {trees : List Tree}
      (atCallee : below callee = some tree)
      (atArguments : List.Forall₂ (fun argument tree => below argument = some tree) arguments trees) :
      Unfolds below (.call callee arguments) (.call tree trees)
  | branch {arguments : List Handle} {trees : List Tree}
      (atArguments : List.Forall₂ (fun argument tree => below argument = some tree) arguments trees) :
      Unfolds below (.branch arguments) (.branch trees)
  | primitive {op : Operator} {operands : List Handle} {trees : List Tree}
      (atOperands : List.Forall₂ (fun operand tree => below operand = some tree) operands trees) :
      Unfolds below (.primitive op operands) (.primitive op trees)
  | abstraction {target : Name} : Unfolds below (.abstraction target) (.abstraction target)
  | parameter {target : Name} {index : Nat} :
      Unfolds below (.parameter target index) (.parameter target index)
  | quote {literal : Literal} : Unfolds below (.quote literal) (.quote literal)
  | cast {source : Handle} {ty : Ty} {tree : Tree} (atSource : below source = some tree) :
      Unfolds below (.cast source ty) (.cast tree ty)

theorem tree?_eq_some_iff {tree : Tree} :
    node.tree? below = some tree ↔ node.Unfolds below tree := by
  constructor
  · intro unfolded
    cases node with
    | continuation name signature body =>
      obtain ⟨subtree, atBody, same⟩ := Option.bind_eq_some_iff.mp unfolded
      cases same
      exact .continuation atBody
    | call callee arguments =>
      obtain ⟨subtree, atCallee, rest⟩ := Option.bind_eq_some_iff.mp unfolded
      obtain ⟨subtrees, atArguments, same⟩ := Option.bind_eq_some_iff.mp rest
      cases same
      exact .call atCallee (Results.mapM_eq_some_iff.mp atArguments)
    | branch arguments =>
      obtain ⟨subtrees, atArguments, same⟩ := Option.bind_eq_some_iff.mp unfolded
      cases same
      exact .branch (Results.mapM_eq_some_iff.mp atArguments)
    | primitive op operands =>
      obtain ⟨subtrees, atOperands, same⟩ := Option.bind_eq_some_iff.mp unfolded
      cases same
      exact .primitive (Results.mapM_eq_some_iff.mp atOperands)
    | cast source ty =>
      obtain ⟨subtree, atSource, same⟩ := Option.bind_eq_some_iff.mp unfolded
      cases same
      exact .cast atSource
    | abstraction =>
      cases unfolded
      exact .abstraction
    | parameter =>
      cases unfolded
      exact .parameter
    | quote =>
      cases unfolded
      exact .quote
  · intro unfolds
    cases unfolds with
    | continuation atBody => simp [tree?, atBody]
    | call atCallee atArguments =>
      simp [tree?, atCallee, Results.mapM_eq_some_iff.mpr atArguments]
    | branch atArguments => simp [tree?, Results.mapM_eq_some_iff.mpr atArguments]
    | primitive atOperands => simp [tree?, Results.mapM_eq_some_iff.mpr atOperands]
    | cast atSource => simp [tree?, atSource]
    | abstraction | parameter | quote => rfl

/-- A tree shows the shape of its node and the trees of the children. -/
theorem shape_of_tree? {tree : Tree} (unfolded : node.tree? below = some tree) :
    node.shape = tree.shape ∧
      List.Forall₂ (fun child subtree => below child = some subtree) node.children tree.children := by
  cases tree?_eq_some_iff.mp unfolded with
  | continuation atBody => exact ⟨rfl, .cons atBody .nil⟩
  | call atCallee atArguments =>
    refine ⟨?_, .cons atCallee atArguments⟩
    simp [Node.shape, mapChildren, Tree.shape, atArguments.length_eq]
  | branch related | primitive related =>
    exact ⟨by simp [Node.shape, mapChildren, Tree.shape, related.length_eq], related⟩
  | cast atSource => exact ⟨rfl, .cons atSource .nil⟩
  | abstraction | parameter | quote => exact ⟨rfl, .nil⟩

end Node

namespace Table

/-- The tree at a handle below `bound`. -/
def treeBelow (table : Table) : (bound : Nat) → Handle → Option Tree
  | 0, _ => none
  | bound + 1, handle => do (← table.get? handle).tree? (treeBelow table bound)

/-- The tree at a handle, unfolded down to the leaves. -/
def tree? (table : Table) (handle : Handle) : Option Tree := table.treeBelow (handle + 1) handle

variable {table left right grown : Table} {handle x y : Handle} {node : Node} {tree : Tree}

/-- How far down the unfolding may go does not matter if it is far enough. -/
theorem WellFormed.treeBelow_eq (wellFormed : table.WellFormed) {bound : Nat} (below : handle < bound) :
    table.treeBelow bound handle = table.tree? handle := by
  induction handle using Nat.strongRecOn generalizing bound with
  | ind handle ih =>
    obtain ⟨bound, rfl⟩ := Nat.exists_eq_add_one_of_ne_zero (Nat.ne_zero_of_lt below)
    rw [tree?, treeBelow, treeBelow]
    cases present : table.get? handle with
    | none => rfl
    | some node =>
      refine (Node.parallel_of_shape rfl (List.forall₂_same.mpr fun child isChild => ?_)).tree?_eq
      have older := wellFormed.child_lt present isChild
      rw [ih child older (Nat.lt_of_lt_of_le older (Nat.le_of_lt_succ below)), ih child older older]

theorem WellFormed.tree?_eq (wellFormed : table.WellFormed) (present : table.get? handle = some node) :
    table.tree? handle = node.tree? table.tree? := by
  rw [tree?, treeBelow, present]
  refine (Node.parallel_of_shape rfl (List.forall₂_same.mpr fun child isChild => ?_)).tree?_eq
  exact wellFormed.treeBelow_eq (wellFormed.child_lt present isChild)

theorem exists_get?_of_tree? (unfolded : table.tree? handle = some tree) :
    ∃ node, table.get? handle = some node := by
  obtain ⟨node, present, -⟩ := Option.bind_eq_some_iff.mp unfolded
  exact ⟨node, present⟩

/-- Every node has a tree. -/
theorem WellFormed.exists_tree? (wellFormed : table.WellFormed) (inRange : handle < table.size) :
    ∃ tree, table.tree? handle = some tree := by
  induction handle using Nat.strongRecOn with
  | ind handle ih =>
    obtain ⟨node, present⟩ := exists_get?_of_lt inRange
    rw [wellFormed.tree?_eq present]
    refine Node.exists_tree? fun child isChild => ?_
    have older := wellFormed.child_lt present isChild
    exact ih child older (Nat.lt_trans older inRange)

/-- Equal structures have the same tree. -/
theorem Alike.tree?_eq (alike : left.Alike right x y) (wellFormed : left.WellFormed)
    (otherWellFormed : right.WellFormed) : left.tree? x = right.tree? y := by
  induction x using Nat.strongRecOn generalizing y with
  | ind x ih =>
    obtain ⟨atX, atY, shape, children⟩ := alike
    rw [wellFormed.tree?_eq atX, otherWellFormed.tree?_eq atY]
    refine (Node.parallel_of_shape shape ?_).tree?_eq
    refine ((List.forall₂_and_left _ _).mpr ⟨fun _ isChild => isChild, children⟩).imp ?_
    exact fun child _ both => ih child (wellFormed.child_lt atX both.1) both.2

/-- Structures with the same tree are equal. -/
theorem alike_of_tree? (wellFormed : left.WellFormed) (otherWellFormed : right.WellFormed)
    (unfolded : left.tree? x = some tree) (otherUnfolded : right.tree? y = some tree) :
    left.Alike right x y := by
  induction x using Nat.strongRecOn generalizing y tree with
  | ind x ih =>
    obtain ⟨first, atX⟩ := exists_get?_of_tree? unfolded
    obtain ⟨second, atY⟩ := exists_get?_of_tree? otherUnfolded
    rw [wellFormed.tree?_eq atX] at unfolded
    rw [otherWellFormed.tree?_eq atY] at otherUnfolded
    obtain ⟨shape, children⟩ := Node.shape_of_tree? unfolded
    obtain ⟨otherShape, otherChildren⟩ := Node.shape_of_tree? otherUnfolded
    refine .node atX atY (shape.trans otherShape.symm) ?_
    refine Results.forall₂_of_common children.flip otherChildren.flip ?_
    exact fun _ child _ _ isChild atChild atOther =>
      ih child (wellFormed.child_lt atX isChild) atChild atOther

/-- A tree belongs to one handle only. -/
theorem WellFormed.tree?_inj (wellFormed : table.WellFormed) (unfolded : table.tree? x = some tree)
    (again : table.tree? y = some tree) : x = y := by
  have alike := alike_of_tree? wellFormed wellFormed unfolded unfolded
  exact alike.right_unique wellFormed wellFormed
    (alike_of_tree? wellFormed wellFormed unfolded again)

/-- A handle keeps its tree when the table grows. -/
theorem WellFormed.tree?_of_extends (wellFormed : table.WellFormed) (grownWellFormed : grown.WellFormed)
    (growth : grown.Extends table) (inRange : handle < table.size) :
    grown.tree? handle = table.tree? handle :=
  ((alike_of_extends growth wellFormed inRange).tree?_eq wellFormed grownWellFormed).symm

end Table

namespace Program

variable {left right third variant : Program}

/-- Two labels, of two programs, have the same signature, the same mark and the same tree. -/
def SameTrees (left right : Program) (label other : Label) : Prop :=
  label.signature = other.signature ∧ label.external = other.external ∧
    ∃ tree, left.table.tree? label.body = some tree ∧ right.table.tree? other.body = some tree

theorem WellFormed.exists_body (wellFormed : left.WellFormed) {label : Label}
    (member : label ∈ left.labels) : ∃ tree, left.table.tree? label.body = some tree := by
  obtain ⟨_, present, -⟩ := (wellFormed.labels label member).body
  exact wellFormed.table.exists_tree? (Table.lt_size_of_get? present)

/-- Two programs have the same structure if they have the same names, and labels of the same name
have the same signature, mark and tree. -/
theorem same_iff (wellFormed : left.WellFormed) (otherWellFormed : right.WellFormed) :
    left.same right = true ↔ (∀ name, name ∈ left.names ↔ name ∈ right.names) ∧
      ∀ label ∈ left.labels, ∀ other ∈ right.labels, label.name = other.name →
        SameTrees left right label other := by
  constructor
  · intro same
    have equal := equal_of_same wellFormed otherWellFormed same
    refine ⟨fun name => ⟨equal.mem_names, equal.symm.mem_names⟩, ?_⟩
    intro label member other otherMember sameName
    obtain ⟨found, foundThere, alike⟩ :=
      equal.exists_label (find?_of_mem wellFormed.names member)
    rw [sameName, find?_of_mem otherWellFormed.names otherMember] at foundThere
    cases foundThere
    obtain ⟨tree, unfolded⟩ := wellFormed.exists_body member
    refine ⟨alike.signature, alike.external, tree, unfolded, ?_⟩
    rw [← alike.body.tree?_eq wellFormed.table otherWellFormed.table, unfolded]
  · rintro ⟨names, trees⟩
    have perm := (List.perm_ext_iff_of_nodup wellFormed.names otherWellFormed.names).mpr names
    have length : left.labels.length = right.labels.length := by
      simpa [Program.names] using perm.length_eq
    refine same_of_alike length fun label member => ?_
    obtain ⟨other, found⟩ :=
      mem_names_iff.mp ((names label.name).mp (List.mem_map_of_mem member))
    obtain ⟨signature, external, tree, unfolded, otherUnfolded⟩ :=
      trees label member other (mem_of_find? found) (name_of_find? found).symm
    exact ⟨other, found, signature, external,
      Table.alike_of_tree? wellFormed.table otherWellFormed.table unfolded otherUnfolded⟩

/-- Neither the order of the labels nor nodes that no label needs make a difference. -/
theorem same_variant (wellFormed : left.WellFormed) (variantWellFormed : variant.WellFormed)
    (reordered : variant.labels.Perm left.labels) (growth : variant.table.Extends left.table) :
    variant.same left = true := by
  refine (same_iff variantWellFormed wellFormed).mpr ⟨fun name => ?_, ?_⟩
  · exact (reordered.map (·.name)).mem_iff
  · intro label member other otherMember sameName
    cases List.inj_on_of_nodup_map wellFormed.names (reordered.mem_iff.mp member) otherMember sameName
    obtain ⟨tree, unfolded⟩ := wellFormed.exists_body otherMember
    obtain ⟨_, present, -⟩ := (wellFormed.labels label otherMember).body
    refine ⟨rfl, rfl, tree, ?_, unfolded⟩
    rw [wellFormed.table.tree?_of_extends variantWellFormed.table growth
      (Table.lt_size_of_get? present), unfolded]

theorem same_refl (wellFormed : left.WellFormed) : left.same left = true :=
  same_variant wellFormed wellFormed (List.Perm.refl _) (Table.extends_refl _)

theorem same_symm (wellFormed : left.WellFormed) (otherWellFormed : right.WellFormed)
    (same : left.same right = true) : right.same left = true := by
  obtain ⟨names, trees⟩ := (same_iff wellFormed otherWellFormed).mp same
  refine (same_iff otherWellFormed wellFormed).mpr ⟨fun name => (names name).symm, ?_⟩
  intro other otherMember label member sameName
  obtain ⟨signature, external, tree, unfolded, otherUnfolded⟩ :=
    trees label member other otherMember sameName.symm
  exact ⟨signature.symm, external.symm, tree, otherUnfolded, unfolded⟩

theorem same_trans (wellFormed : left.WellFormed) (otherWellFormed : right.WellFormed)
    (thirdWellFormed : third.WellFormed) (same : left.same right = true)
    (sameThen : right.same third = true) : left.same third = true := by
  obtain ⟨names, trees⟩ := (same_iff wellFormed otherWellFormed).mp same
  obtain ⟨namesThen, treesThen⟩ := (same_iff otherWellFormed thirdWellFormed).mp sameThen
  refine (same_iff wellFormed thirdWellFormed).mpr
    ⟨fun name => (names name).trans (namesThen name), ?_⟩
  intro label member last lastMember sameName
  obtain ⟨other, found⟩ := mem_names_iff.mp ((names label.name).mp (List.mem_map_of_mem member))
  have otherMember := mem_of_find? found
  have otherName := name_of_find? found
  obtain ⟨signature, external, tree, unfolded, middle⟩ :=
    trees label member other otherMember otherName.symm
  obtain ⟨signatureThen, externalThen, treeThen, middleThen, unfoldedThen⟩ :=
    treesThen other otherMember last lastMember (otherName.trans sameName)
  rw [middle] at middleThen
  cases middleThen
  exact ⟨signature.trans signatureThen, external.trans externalThen, tree, unfolded, unfoldedThen⟩

/-- Comparison is exact. Two programs are found to have the same structure exactly if they have the
same names, and labels of the same name have the same signature, mark and unfolded body. So comparing
well-formed programs is an equivalence; a program with reordered labels and further nodes compares like
the original with whatever else. Within one program, every node has a tree of its own. -/
theorem same_exact (left right : Program) (wellFormed : left.WellFormed)
    (otherWellFormed : right.WellFormed) :
    (left.same right = true ↔ (∀ name, name ∈ left.names ↔ name ∈ right.names) ∧
      ∀ label ∈ left.labels, ∀ other ∈ right.labels, label.name = other.name →
        SameTrees left right label other) ∧
    (Equivalence fun first second : { program : Program // program.WellFormed } =>
      first.val.same second.val = true) ∧
    (∀ variant : Program, variant.WellFormed → variant.labels.Perm left.labels →
      variant.table.Extends left.table →
        variant.same right = left.same right ∧ right.same variant = right.same left) ∧
    ∀ handle < left.size, ∃ tree, left.table.tree? handle = some tree ∧
      ∀ other, left.table.tree? other = some tree ↔ other = handle := by
  refine ⟨same_iff wellFormed otherWellFormed, ⟨fun first => same_refl first.2,
    fun {first second} same => same_symm first.2 second.2 same,
    fun {first second third} same sameThen => same_trans first.2 second.2 third.2 same sameThen⟩,
    ?_, ?_⟩
  · intro variant variantWellFormed reordered growth
    have toLeft := same_variant wellFormed variantWellFormed reordered growth
    have fromLeft := same_symm variantWellFormed wellFormed toLeft
    constructor
    · rw [Bool.eq_iff_iff]
      exact ⟨same_trans wellFormed variantWellFormed otherWellFormed fromLeft,
        same_trans variantWellFormed wellFormed otherWellFormed toLeft⟩
    · rw [Bool.eq_iff_iff]
      exact ⟨fun same => same_trans otherWellFormed variantWellFormed wellFormed same toLeft,
        fun same => same_trans otherWellFormed wellFormed variantWellFormed same fromLeft⟩
  · intro handle inRange
    obtain ⟨tree, unfolded⟩ := wellFormed.table.exists_tree? inRange
    refine ⟨tree, unfolded, fun other => ⟨fun again => ?_, fun same => same ▸ unfolded⟩⟩
    exact wellFormed.table.tree?_inj again unfolded

/-- The reducible program has the same trees in whatever order its labels are defined, although its
nodes are stored elsewhere. -/
theorem same_exact_reordered :
    let left := Samples.reducible
    let right := Samples.reordered
    left.WellFormed ∧ right.WellFormed ∧ left.names ≠ right.names ∧ left.table ≠ right.table ∧
      ∀ label ∈ left.labels, ∀ other ∈ right.labels, label.name = other.name →
        SameTrees left right label other := by
  intro left right
  obtain ⟨wellFormed, otherWellFormed, names, tables, same⟩ : left.WellFormed ∧ right.WellFormed ∧
      left.names ≠ right.names ∧ left.table ≠ right.table ∧ left.same right = true := by
    decide +kernel
  exact ⟨wellFormed, otherWellFormed, names, tables,
    ((same_exact left right wellFormed otherWellFormed).1.mp same).2⟩

end Program

end CpsGraph
