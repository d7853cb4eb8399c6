import CpsGraph.Proofs.SpecializationOutcomes
import CpsGraph.Proofs.UnfoldedTrees
import CpsGraph.Samples

/-! # Substitution on trees

A substitution replaces nodes, and every node stands for a tree. So a substitution says which trees to
replace, and applying it to a node replaces the subtrees of its tree, all at once and from the top down.
What was rebuilt before makes no difference, and neither do the nodes that were added in between. A
node in whose tree nothing is replaced is its own result, and no node is added for it.
-/

namespace CpsGraph

namespace Tree

mutual

/-- The handle of the node with a tree. -/
def handle? (table : Table) : Tree → Option Handle
  | .continuation name signature body => do
    table.find? (.continuation name signature (← body.handle? table))
  | .call callee arguments => do
    table.find? (.call (← callee.handle? table) (← handles? table arguments))
  | .branch arguments => do table.find? (.branch (← handles? table arguments))
  | .primitive op operands => do table.find? (.primitive op (← handles? table operands))
  | .abstraction target => table.find? (.abstraction target)
  | .parameter target index => table.find? (.parameter target index)
  | .quote literal => table.find? (.quote literal)
  | .cast source ty => do table.find? (.cast (← source.handle? table) ty)

/-- The handles of the nodes with some trees. -/
def handles? (table : Table) : List Tree → Option (List Handle)
  | [] => some []
  | tree :: trees => do return (← tree.handle? table) :: (← handles? table trees)

end

mutual

/-- Replace subtrees from the top down. Neither a replacement nor a continuation is looked into. -/
def replace (replacement? : Tree → Option Tree) (tree : Tree) : Tree :=
  (replacement? tree).getD <|
    match tree with
    | .call callee arguments =>
      .call (callee.replace replacement?) (replaceAll replacement? arguments)
    | .branch arguments => .branch (replaceAll replacement? arguments)
    | .primitive op operands => .primitive op (replaceAll replacement? operands)
    | .cast source ty => .cast (source.replace replacement?) ty
    | whole => whole

/-- Replace subtrees in some trees. -/
def replaceAll (replacement? : Tree → Option Tree) : List Tree → List Tree
  | [] => []
  | tree :: trees => tree.replace replacement? :: replaceAll replacement? trees

end

end Tree

namespace Table

variable {table : Table} {handle : Handle} {node : Node} {tree : Tree}

/-- Nodes that are found by their trees one by one are found together. -/
theorem handles?_of_related {handles : List Handle} {trees : List Tree}
    (related : List.Forall₂ (fun handle tree => Tree.handle? table tree = some handle) handles trees) :
    Tree.handles? table trees = some handles := by
  induction related with
  | nil => rfl
  | cons first _ ih =>
    rw [Tree.handles?, first, ih]
    rfl

/-- A node is found by its tree. -/
theorem WellFormed.handle?_of_tree? (wellFormed : table.WellFormed)
    (unfolded : table.tree? handle = some tree) : tree.handle? table = some handle := by
  induction handle using Nat.strongRecOn generalizing tree with
  | ind handle ih =>
    obtain ⟨node, present⟩ := exists_get?_of_tree? unfolded
    have found := wellFormed.find?_of_get? present
    rw [wellFormed.tree?_eq present] at unfolded
    have children : List.Forall₂ (fun child subtree => Tree.handle? table subtree = some child)
        node.children tree.children := by
      refine ((List.forall₂_and_left _ _).mpr ⟨fun _ isChild => isChild,
        (Node.shape_of_tree? unfolded).2⟩).imp fun child subtree both => ?_
      exact ih child (wellFormed.child_lt present both.1) both.2
    cases Node.tree?_eq_some_iff.mp unfolded with
    | call =>
      obtain ⟨atCallee, atArguments⟩ := List.forall₂_cons.mp children
      simpa [Tree.handle?, atCallee, handles?_of_related atArguments] using found
    | @branch arguments trees =>
      have atArguments : Tree.handles? table trees = some arguments := handles?_of_related children
      simpa [Tree.handle?, atArguments] using found
    | @primitive op operands trees =>
      have atOperands : Tree.handles? table trees = some operands := handles?_of_related children
      simpa [Tree.handle?, atOperands] using found
    | continuation | cast =>
      simpa [Tree.handle?, (List.forall₂_cons.mp children).1] using found
    | abstraction | parameter | quote => exact found

mutual

/-- What is found for a tree is the node with this tree. -/
theorem WellFormed.tree?_of_handle? (wellFormed : table.WellFormed) : (tree : Tree) → {handle : Handle} →
    tree.handle? table = some handle → table.tree? handle = some tree
  | .continuation _ _ body, handle, located => by
    obtain ⟨child, atBody, found⟩ := Option.bind_eq_some_iff.mp located
    rw [wellFormed.tree?_eq (get?_of_find? found), Node.tree?_eq_some_iff]
    exact .continuation (wellFormed.tree?_of_handle? body atBody)
  | .call callee arguments, handle, located => by
    obtain ⟨child, atCallee, rest⟩ := Option.bind_eq_some_iff.mp located
    obtain ⟨children, atArguments, found⟩ := Option.bind_eq_some_iff.mp rest
    rw [wellFormed.tree?_eq (get?_of_find? found), Node.tree?_eq_some_iff]
    exact .call (wellFormed.tree?_of_handle? callee atCallee)
      (wellFormed.trees_of_handles? arguments atArguments)
  | .branch arguments, handle, located => by
    obtain ⟨children, atArguments, found⟩ := Option.bind_eq_some_iff.mp located
    rw [wellFormed.tree?_eq (get?_of_find? found), Node.tree?_eq_some_iff]
    exact .branch (wellFormed.trees_of_handles? arguments atArguments)
  | .primitive _ operands, handle, located => by
    obtain ⟨children, atOperands, found⟩ := Option.bind_eq_some_iff.mp located
    rw [wellFormed.tree?_eq (get?_of_find? found), Node.tree?_eq_some_iff]
    exact .primitive (wellFormed.trees_of_handles? operands atOperands)
  | .abstraction _, handle, located | .parameter _ _, handle, located | .quote _, handle, located => by
    rw [wellFormed.tree?_eq (get?_of_find? located)]
    rfl
  | .cast source _, handle, located => by
    obtain ⟨child, atSource, found⟩ := Option.bind_eq_some_iff.mp located
    rw [wellFormed.tree?_eq (get?_of_find? found), Node.tree?_eq_some_iff]
    exact .cast (wellFormed.tree?_of_handle? source atSource)

theorem WellFormed.trees_of_handles? (wellFormed : table.WellFormed) : (trees : List Tree) →
    {handles : List Handle} → Tree.handles? table trees = some handles →
    List.Forall₂ (fun handle tree => table.tree? handle = some tree) handles trees
  | [], handles, located => by
    cases located
    exact .nil
  | tree :: trees, handles, located => by
    obtain ⟨first, atFirst, rest⟩ := Option.bind_eq_some_iff.mp located
    obtain ⟨others, atOthers, same⟩ := Option.bind_eq_some_iff.mp rest
    cases same
    exact .cons (wellFormed.tree?_of_handle? tree atFirst) (wellFormed.trees_of_handles? trees atOthers)

end

/-- The handle of a tree is that of the node with this tree. -/
theorem WellFormed.handle?_eq_some_iff (wellFormed : table.WellFormed) :
    tree.handle? table = some handle ↔ table.tree? handle = some tree :=
  ⟨wellFormed.tree?_of_handle? tree, wellFormed.handle?_of_tree?⟩

end Table

namespace Node

variable {node image : Node} {below imageBelow : Handle → Option Tree} {tree : Tree}
  {replacement? : Tree → Option Tree}

/-- The image of a node has the tree of the node with its subtrees replaced. -/
def Replaces (below imageBelow : Handle → Option Tree) (replacement? : Tree → Option Tree)
    (handle image : Handle) : Prop :=
  ∀ tree, below handle = some tree → imageBelow image = some (tree.replace replacement?)

/-- A node that is not looked into keeps its tree. -/
theorem replace_of_isAtomic (atomic : node.isAtomic = true) (unfolded : node.tree? below = some tree)
    (unreplaced : replacement? tree = none) : tree.replace replacement? = tree := by
  rw [Tree.replace.eq_def, unreplaced]
  cases tree?_eq_some_iff.mp unfolded with
  | continuation | abstraction | parameter | quote => rfl
  | call | branch | primitive | cast => cases atomic

theorem forall₂_replaceAll {handles images : List Handle} {trees : List Tree}
    (related : List.Forall₂ (Replaces below imageBelow replacement?) handles images)
    (unfolded : List.Forall₂ (fun handle tree => below handle = some tree) handles trees) :
    List.Forall₂ (fun image tree => imageBelow image = some tree) images
      (Tree.replaceAll replacement? trees) := by
  induction related generalizing trees with
  | nil =>
    cases unfolded
    exact .nil
  | cons first _ ih =>
    cases unfolded with
    | cons atFirst rest => exact .cons (first _ atFirst) (ih rest)

/-- A node rebuilt from children with replaced subtrees has the tree with replaced subtrees. -/
theorem Matches.tree?_replace (parts : node.Matches (Replaces below imageBelow replacement?) image)
    (unfolded : node.tree? below = some tree) (unreplaced : replacement? tree = none) :
    image.tree? imageBelow = some (tree.replace replacement?) := by
  rw [tree?_eq_some_iff] at unfolded ⊢
  rw [Tree.replace.eq_def, unreplaced, Option.getD_none]
  cases parts with
  | call atCallee atArguments =>
    cases unfolded with
    | call belowCallee belowArguments =>
      exact .call (atCallee _ belowCallee) (forall₂_replaceAll atArguments belowArguments)
  | branch atArguments =>
    cases unfolded with
    | branch belowArguments =>
      exact .branch (forall₂_replaceAll atArguments belowArguments)
  | primitive atOperands =>
    cases unfolded with
    | primitive belowOperands =>
      exact .primitive (forall₂_replaceAll atOperands belowOperands)
  | cast atSource =>
    cases unfolded with
    | cast belowSource =>
      exact .cast (atSource _ belowSource)

end Node

namespace Substitution

variable {substitution : Substitution} {base : Table} {state later : State} {handle image : Handle}
  {tree : Tree}

/-- The replacement of a tree: if its node is replaced, the tree of what it is replaced by. -/
def onTree? (substitution : Substitution) (table : Table) (tree : Tree) : Option Tree := do
  table.tree? (← substitution.lookup (← tree.handle? table))

theorem onTree?_of_tree? (wellFormed : base.WellFormed) (unfolded : base.tree? handle = some tree) :
    substitution.onTree? base tree = (substitution.lookup handle).bind base.tree? := by
  rw [onTree?, wellFormed.handle?_of_tree? unfolded]
  rfl

section Applying

variable (targets : ∀ handle image, substitution.lookup handle = some image → image < base.size)
  (wellFormed : base.WellFormed)

include targets wellFormed

/-- The image of a node has its tree with the subtrees replaced. -/
theorem Sound.tree?_of_maps (sound : Sound substitution base state)
    (maps : substitution.Maps state.rebuilt handle image) :
    Node.Replaces base.tree? state.program.table.tree? (substitution.onTree? base) handle image := by
  induction handle using Nat.strongRecOn generalizing image with
  | ind handle ih =>
    intro tree unfolded
    have grown {part : Handle} (inRange : part < base.size) :
        state.program.table.tree? part = base.tree? part :=
      wellFormed.tree?_of_extends sound.wellFormed.table sound.growth inRange
    have onTree : substitution.onTree? base tree = (substitution.lookup handle).bind base.tree? :=
      onTree?_of_tree? wellFormed unfolded
    rcases maps with replaced | ⟨unreplaced, member⟩
    · -- A replacement is a node of the base table and is taken as it is.
      obtain ⟨replacement, atImage⟩ := wellFormed.exists_tree? (targets handle image replaced)
      rw [replaced, Option.bind_some, atImage] at onTree
      rw [grown (targets handle image replaced), atImage, Tree.replace.eq_def, onTree, Option.getD_some]
    · rw [unreplaced, Option.bind_none] at onTree
      cases sound.rebuilt handle image member with
      | kept present atomic =>
        rw [grown (Table.lt_size_of_get? present), unfolded]
        rw [wellFormed.tree?_eq present] at unfolded
        rw [Node.replace_of_isAtomic atomic unfolded onTree]
      | rebuilt present imagePresent parts =>
        rw [wellFormed.tree?_eq present] at unfolded
        rw [sound.wellFormed.table.tree?_eq imagePresent]
        refine (parts.imp fun child childImage isChild childMaps => ?_).tree?_replace unfolded onTree
        exact ih child (wellFormed.child_lt present isChild) childMaps

end Applying

/-- From every sound state a computation gives the value and adds no node. -/
def Keeps {α : Type} (substitution : Substitution) (base : Table) (computation : RebuildM α)
    (value : α) : Prop :=
  ∀ state, Sound substitution base state → ∃ later, computation.run state = .ok (value, later) ∧
    Sound substitution base later ∧ later.program = state.program

namespace Keeps

variable {α β : Type} {value : α}

theorem pure (value : α) : Keeps substitution base (Pure.pure value : RebuildM α) value :=
  fun state sound => ⟨state, rfl, sound, rfl⟩

theorem bind {first : RebuildM α} {second : α → RebuildM β} {last : β}
    (keeps : Keeps substitution base first value)
    (next : Keeps substitution base (second value) last) :
    Keeps substitution base (first >>= second) last := by
  intro state sound
  obtain ⟨middle, ranFirst, soundMiddle, sameMiddle⟩ := keeps state sound
  obtain ⟨later, ranSecond, soundLater, sameLater⟩ := next middle soundMiddle
  refine ⟨later, ?_, soundLater, sameLater.trans sameMiddle⟩
  rw [StateT.run_bind, ranFirst]
  exact ranSecond

theorem mapM {treat : Handle → RebuildM Handle} {handles : List Handle}
    (each : ∀ handle ∈ handles, Keeps substitution base (treat handle) handle) :
    Keeps substitution base (handles.mapM treat) handles := by
  induction handles with
  | nil => exact pure []
  | cons handle handles ih =>
    rw [List.mapM_cons]
    refine (each handle List.mem_cons_self).bind ?_
    exact (ih fun other member => each other (List.mem_cons_of_mem _ member)).bind (pure _)

/-- Interning a node of the base table adds none. -/
theorem intern {node : Node} (present : base.get? handle = some node) :
    Keeps substitution base (intern node) handle := by
  intro state sound
  have same := sound.wellFormed.table.intern_of_get? (sound.growth present)
  refine ⟨state, ?_, sound, rfl⟩
  change Except.ok ((state.program.intern node).1,
    { state with program := (state.program.intern node).2 }) = _
  simp only [Program.intern, same]

/-- A node is rebuilt as it is if its children are. -/
theorem rebuildNode {treat : Handle → RebuildM Handle} {node : Node}
    (present : base.get? handle = some node)
    (children : ∀ child ∈ node.children, Keeps substitution base (treat child) child) :
    Keeps substitution base (rebuildNode treat handle node) handle := by
  cases node with
  | call callee arguments =>
    refine (children callee List.mem_cons_self).bind ?_
    refine (mapM fun argument member => children argument (List.mem_cons_of_mem _ member)).bind ?_
    exact intern present
  | branch | primitive => exact (mapM children).bind (intern present)
  | cast source => exact (children source List.mem_cons_self).bind (intern present)
  | continuation | abstraction | parameter | quote => exact pure handle

end Keeps

section Keeping

variable (targets : ∀ handle image, substitution.lookup handle = some image → image < base.size)
  (wellFormed : base.WellFormed)

include targets wellFormed

/-- A node none of whose parts is replaced is given back, and no node is added. -/
theorem keeps_applyBelow {bound : Nat} (below : handle < bound) (inRange : handle < base.size)
    (unreplaced : ∀ part ∈ base.parts handle, substitution.lookup part = none) :
    Keeps substitution base (substitution.applyBelow bound handle) handle := by
  induction bound generalizing handle with
  | zero => exact absurd below (Nat.not_lt_zero handle)
  | succ bound ih =>
    intro state sound
    obtain ⟨image, later, ran, soundLater, -, -, maps⟩ :=
      succeeds_applyBelow targets wellFormed below inRange state sound trivial
    cases soundLater.eq_of_unreplaced wellFormed unreplaced maps
    -- The node is its own image; what is left to see is that it is not interned anew.
    refine ⟨later, ran, soundLater, ?_⟩
    have here := unreplaced handle (base.mem_parts_self handle)
    cases known : state.rebuilt.lookup handle with
    | some result =>
      rw [applyBelow_run_of_known here known] at ran
      cases ran
      rfl
    | none =>
      obtain ⟨node, present⟩ := Table.exists_get?_of_lt inRange
      have children : ∀ child ∈ node.children,
          Keeps substitution base (substitution.applyBelow bound child) child := by
        intro child isChild
        have older := wellFormed.child_lt present isChild
        refine ih (Nat.lt_of_lt_of_le older (Nat.le_of_lt_succ below)) (Nat.lt_trans older inRange) ?_
        exact fun part inside =>
          unreplaced part (Table.mem_parts_of_child wellFormed present isChild inside)
      obtain ⟨rebuilt, ranNode, -, same⟩ := Keeps.rebuildNode present children state sound
      rw [applyBelow_run_of_unknown here known (sound.growth present) ranNode] at ran
      cases ran
      exact same

end Keeping

/-- The states of a substitution that is in use on a program: it is applied to whatever nodes, and the
program may grow in between. -/
inductive InUse (substitution : Substitution) (program : Program) : State → Prop
  | start : InUse substitution program { program }
  | apply {state later : State} {handle image : Handle} (used : InUse substitution program state)
      (ran : (substitution.apply handle).run state = .ok (image, later)) :
      InUse substitution program later
  | grow {state : State} {grown : Program} (used : InUse substitution program state)
      (growth : grown.table.Extends state.program.table) (wellFormed : grown.WellFormed) :
      InUse substitution program { state with program := grown }

variable {program : Program}

theorem InRange.target_lt {size : Nat} (inRange : substitution.InRange size)
    (replaced : substitution.lookup handle = some image) : image < size :=
  inRange _ (Results.mem_of_lookup replaced)

/-- A substitution in use stays sound. -/
theorem InUse.sound (used : substitution.InUse program state) (wellFormed : program.WellFormed)
    (inRange : substitution.InRange program.size) :
    Sound substitution state.program.table state ∧ substitution.InRange state.program.size := by
  induction used with
  | start => exact ⟨⟨Table.extends_refl _, wellFormed, nofun⟩, inRange⟩
  | apply _ ran ih =>
    obtain ⟨sound, inRange⟩ := ih
    obtain ⟨soundLater, further⟩ := sound.apply_run (fun _ _ => inRange.target_lt) ran
    exact ⟨soundLater.rebase, fun pair isPair =>
      Nat.lt_of_lt_of_le (inRange pair isPair) further.growth.size_le⟩
  | grow _ growth grownWellFormed ih =>
    exact ⟨(ih.1.grow growth grownWellFormed).rebase, fun pair isPair =>
      Nat.lt_of_lt_of_le (ih.2 pair isPair) growth.size_le⟩

/-- Applying a substitution is simultaneous replacement on trees, however often it was applied before and
however the program has grown. It succeeds on every node, and the result has the tree of the node with
its subtrees replaced. So the result is the node itself exactly if this tree is the same; if no part of
the node is replaced, then moreover no node is added. All handles keep their nodes. With the empty
substitution all nodes are given back and none is added. -/
theorem apply_replaces (wellFormed : program.WellFormed) (inRange : substitution.InRange program.size) :
    (∀ state, substitution.InUse program state → ∀ handle < state.program.size,
      ∃ result later tree, (substitution.apply handle).run state = .ok (result, later) ∧
        state.program.table.tree? handle = some tree ∧
        later.program.table.tree? result =
          some (tree.replace (substitution.onTree? state.program.table)) ∧
        (result = handle ↔ tree.replace (substitution.onTree? state.program.table) = tree) ∧
        ((∀ part ∈ state.program.table.parts handle, substitution.lookup part = none) →
          result = handle ∧ later.program = state.program) ∧
        later.program.table.Extends state.program.table ∧
        later.program.labels = state.program.labels) ∧
    ∀ state, InUse [] program state → ∀ handles : List Handle,
      (∀ handle ∈ handles, handle < state.program.size) →
      ∃ later, (handles.mapM (apply [])).run state = .ok (handles, later) ∧
        later.program = state.program := by
  constructor
  · intro state used handle known
    obtain ⟨sound, inRange⟩ := used.sound wellFormed inRange
    have targets (handle image : Handle) (replaced : substitution.lookup handle = some image) :
        image < state.program.table.size := inRange.target_lt replaced
    have closed := sound.wellFormed.table
    obtain ⟨result, later, ran, soundLater, further, labels, maps⟩ :=
      succeeds_apply targets closed known state sound trivial
    obtain ⟨tree, unfolded⟩ := closed.exists_tree? known
    have replaced := soundLater.tree?_of_maps targets closed maps tree unfolded
    have kept : later.program.table.tree? handle = some tree := by
      rw [closed.tree?_of_extends soundLater.wellFormed.table further.growth known, unfolded]
    refine ⟨result, later, tree, ran, unfolded, replaced, ⟨?_, ?_⟩, ?_, further.growth, labels⟩
    · rintro rfl
      exact Option.some_inj.mp (replaced.symm.trans kept)
    · intro same
      rw [same] at replaced
      exact soundLater.wellFormed.table.tree?_inj replaced kept
    · intro unreplaced
      obtain ⟨_, ranAgain, -, same⟩ :=
        keeps_applyBelow targets closed (Nat.lt_succ_self handle) known unreplaced state sound
      rw [← apply, ran] at ranAgain
      cases ranAgain
      exact ⟨rfl, same⟩
  · intro state used handles known
    obtain ⟨sound, inRange⟩ := used.sound wellFormed (List.forall_mem_nil _)
    obtain ⟨later, ran, -, same⟩ := Keeps.mapM (fun handle isHandle =>
      keeps_applyBelow (fun _ _ => inRange.target_lt) sound.wellFormed.table (Nat.lt_succ_self handle)
        (known handle isHandle) fun _ _ => rfl) state sound
    exact ⟨later, ran, same⟩

/-- In the factorial, the two parameters of the loop are exchanged, first in its head and then in its body
`head(i + 1, i * r)`, which becomes `head(r + 1, r * i)`. -/
theorem apply_replaces_swap :
    let program := Samples.factorial.toOption.getD {}
    let head := (program.find? "head").getD default
    let body := (program.find? "body").getD default
    let swap : Substitution := head.parameters.zip head.parameters.reverse
    let original : Tree := .call (.abstraction "head")
      [.primitive .add [.parameter "head" 0, .quote (.int 1)],
        .primitive .mul [.parameter "head" 0, .parameter "head" 1]]
    let swapped : Tree := .call (.abstraction "head")
      [.primitive .add [.parameter "head" 1, .quote (.int 1)],
        .primitive .mul [.parameter "head" 1, .parameter "head" 0]]
    ∃ first middle result later, program.WellFormed ∧ swap.InRange program.size ∧
      (swap.apply head.body).run { program } = .ok (first, middle) ∧ first ≠ head.body ∧
      (swap.apply body.body).run middle = .ok (result, later) ∧
      middle.program.table.tree? body.body = some original ∧
      later.program.table.tree? result = some swapped ∧
      original.replace (swap.onTree? middle.program.table) = swapped := by
  intro program head body swap original swapped
  let entered := ((swap.apply head.body).run { program }).toOption.getD (0, { program })
  let last := ((swap.apply body.body).run entered.2).toOption.getD (0, { program })
  obtain ⟨wellFormed, inRange, atHead, other, atBody, known, before, wellFormedLast, after⟩ :
      program.WellFormed ∧ swap.InRange program.size ∧ head.body < program.size ∧
        entered.1 ≠ head.body ∧ body.body < entered.2.program.size ∧
        entered.2.program.WellFormed ∧
        original.handle? entered.2.program.table = some body.body ∧
        last.2.program.WellFormed ∧
        swapped.handle? last.2.program.table = some last.1 := by decide +kernel
  rw [known.table.handle?_eq_some_iff] at before
  rw [wellFormedLast.table.handle?_eq_some_iff] at after
  have replaces := (apply_replaces wellFormed inRange).1
  obtain ⟨first, middle, -, ranFirst, -⟩ := replaces { program } .start _ atHead
  have isEntered : entered = (first, middle) := by
    simp only [entered, ranFirst]
    rfl
  rw [isEntered] at other atBody before
  obtain ⟨result, later, tree, ran, unfolded, replaced, -⟩ :=
    replaces middle (.apply .start ranFirst) _ atBody
  have isLast : last = (result, later) := by
    simp only [last, isEntered, ran]
    rfl
  rw [isLast] at after
  rw [before] at unfolded
  cases unfolded
  exact ⟨first, middle, result, later, wellFormed, inRange, ranFirst, other, ran, before, after,
    Option.some_inj.mp (replaced.symm.trans after)⟩

end Substitution

end CpsGraph
