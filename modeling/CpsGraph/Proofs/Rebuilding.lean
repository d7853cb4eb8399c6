import CpsGraph.Proofs.Parts
import CpsGraph.Substitution

/-! # Rebuilt nodes

Applying a substitution to a node of a well-formed table always succeeds. What it gives is the
replacement of the node, or the node itself if it is not looked into, or a node of the same kind
whose children were treated alike. The nodes that were rebuilt earlier can be relied on later,
because the table only grows.
-/

namespace CpsGraph

/-- Whether a substitution does not look into a node. -/
def Node.isAtomic : Node → Bool
  | .continuation .. | .abstraction .. | .parameter .. | .quote .. => true
  | _ => false

namespace Substitution

/-- The image of a node: its replacement, or what it was rebuilt as. -/
def Maps (substitution : Substitution) (rebuilt : List (Handle × Handle)) (handle image : Handle) :
    Prop :=
  substitution.lookup handle = some image ∨
    substitution.lookup handle = none ∧ (handle, image) ∈ rebuilt

/-- An atomic node stays what it is, and another one is rebuilt with related children. -/
inductive Rebuilds (base grown : Table) (Related : Handle → Handle → Prop) (handle : Handle) :
    Handle → Prop
  | kept {node : Node} (present : base.get? handle = some node) (atomic : node.isAtomic = true) :
      Rebuilds base grown Related handle handle
  | rebuilt {node imageNode : Node} {image : Handle} (present : base.get? handle = some node)
      (imagePresent : grown.get? image = some imageNode) (parts : node.Matches Related imageNode) :
      Rebuilds base grown Related handle image

/-- The program has grown from the base table, and all that was rebuilt is right. -/
structure Sound (substitution : Substitution) (base : Table) (state : State) : Prop where
  growth : state.program.table.Extends base
  wellFormed : state.program.WellFormed
  rebuilt : ∀ handle image, (handle, image) ∈ state.rebuilt →
    Rebuilds base state.program.table (substitution.Maps state.rebuilt) handle image

/-- A later state has the nodes of an earlier one, and remembers what was rebuilt. -/
structure Continues (earlier later : State) : Prop where
  growth : later.program.table.Extends earlier.program.table
  rebuilt : earlier.rebuilt ⊆ later.rebuilt

variable {substitution : Substitution} {base : Table} {state earlier later last : State}
  {handle image : Handle}

theorem Continues.refl (state : State) : Continues state state :=
  ⟨Table.extends_refl _, List.Subset.refl _⟩

theorem Continues.trans (first : Continues earlier later) (second : Continues later last) :
    Continues earlier last :=
  ⟨second.growth.trans first.growth, List.Subset.trans first.rebuilt second.rebuilt⟩

theorem Maps.mono {before after : List (Handle × Handle)} (maps : substitution.Maps before handle image)
    (more : before ⊆ after) : substitution.Maps after handle image :=
  maps.imp_right (And.imp_right fun member => more member)

theorem Rebuilds.mono {grown : Table} {Related Weaker : Handle → Handle → Prop} {further : Table}
    (rebuilds : Rebuilds base grown Related handle image) (growth : further.Extends grown)
    (weaker : ∀ child childImage, Related child childImage → Weaker child childImage) :
    Rebuilds base further Weaker handle image := by
  cases rebuilds with
  | kept present atomic => exact .kept present atomic
  | rebuilt present imagePresent parts =>
    exact .rebuilt present (growth imagePresent) (parts.imp fun child childImage _ =>
      weaker child childImage)

/-- What was rebuilt is still right when the program grows. -/
theorem Sound.grow {program : Program} (sound : Sound substitution base state)
    (growth : program.table.Extends state.program.table) (wellFormed : program.WellFormed) :
    Sound substitution base { state with program } where
  growth := growth.trans sound.growth
  wellFormed := wellFormed
  rebuilt _ _ member := (sound.rebuilt _ _ member).mono growth fun _ _ => id

/-- The nodes that a program has by now can serve as the base table from here on. -/
theorem Sound.rebase (sound : Sound substitution base state) :
    Sound substitution state.program.table state where
  growth := Table.extends_refl _
  wellFormed := sound.wellFormed
  rebuilt handle image member := by
    cases sound.rebuilt handle image member with
    | kept present atomic => exact .kept (sound.growth present) atomic
    | rebuilt present imagePresent parts => exact .rebuilt (sound.growth present) imagePresent parts

/-- Remembering a right result keeps a state sound. -/
theorem Sound.remember (sound : Sound substitution base state)
    (rebuilds : Rebuilds base state.program.table (substitution.Maps state.rebuilt) handle image) :
    Sound substitution base { state with rebuilt := (handle, image) :: state.rebuilt } where
  growth := sound.growth
  wellFormed := sound.wellFormed
  rebuilt _ _ member := by
    have weaker (child childImage : Handle) (maps : substitution.Maps state.rebuilt child childImage) :
        substitution.Maps ((handle, image) :: state.rebuilt) child childImage :=
      maps.mono (List.subset_cons_self _ _)
    rcases List.mem_cons.mp member with same | earlier
    · cases same
      exact rebuilds.mono (Table.extends_refl _) weaker
    · exact (sound.rebuilt _ _ earlier).mono (Table.extends_refl _) weaker

/-- From every sound state with `Pre` a computation succeeds, and what it gives holds of the later
state. It does not change the labels. -/
def Succeeds {α : Type} (substitution : Substitution) (base : Table) (Pre : State → Prop)
    (computation : RebuildM α) (Post : State → α → Prop) : Prop :=
  ∀ state, Sound substitution base state → Pre state → ∃ result later,
    computation.run state = .ok (result, later) ∧ Sound substitution base later ∧
      Continues state later ∧ later.program.labels = state.program.labels ∧ Post later result

namespace Succeeds

variable {α β : Type} {Pre : State → Prop} {Post : State → α → Prop}

theorem pure {value : α} (holds : ∀ state, Pre state → Post state value) :
    Succeeds substitution base Pre (Pure.pure value : RebuildM α) Post :=
  fun state sound before => ⟨value, state, rfl, sound, .refl state, rfl, holds state before⟩

theorem weaken {computation : RebuildM α}
    (succeeds : Succeeds substitution base (fun _ => True) computation Post) :
    Succeeds substitution base Pre computation Post :=
  fun state sound _ => succeeds state sound trivial

/-- The second computation can rely on what holds before the first one, if growing keeps it. -/
theorem bind {first : RebuildM α} {second : α → RebuildM β} {Last : State → β → Prop}
    (succeeds : Succeeds substitution base Pre first Post)
    (kept : ∀ earlier later, Continues earlier later → Pre earlier → Pre later)
    (next : ∀ value, Succeeds substitution base (fun state => Pre state ∧ Post state value)
      (second value) Last) : Succeeds substitution base Pre (first >>= second) Last := by
  intro state sound before
  obtain ⟨value, middle, ranFirst, soundMiddle, toMiddle, labelsMiddle, between⟩ :=
    succeeds state sound before
  obtain ⟨result, later, ranSecond, soundLater, toLater, labelsLater, after⟩ :=
    next value middle soundMiddle ⟨kept state middle toMiddle before, between⟩
  refine ⟨result, later, ?_, soundLater, toMiddle.trans toLater, labelsLater.trans labelsMiddle, after⟩
  rw [StateT.run_bind, ranFirst]
  exact ranSecond

/-- Treating some nodes one after the other gives their images if treating each of them does. -/
theorem mapM {treat : Handle → RebuildM Handle} {handles : List Handle}
    (each : ∀ handle ∈ handles, Succeeds substitution base (fun _ => True) (treat handle)
      fun state => substitution.Maps state.rebuilt handle) :
    Succeeds substitution base (fun _ => True) (handles.mapM treat) fun state images =>
      List.Forall₂ (substitution.Maps state.rebuilt) handles images := by
  induction handles with
  | nil => exact pure fun _ _ => .nil
  | cons handle handles ih =>
    rw [List.mapM_cons]
    refine (each handle List.mem_cons_self).bind (fun _ _ _ => id) fun image => ?_
    refine (ih fun other member => each other (List.mem_cons_of_mem _ member)).weaken.bind
      (fun _ _ further => And.imp_right fun maps => maps.mono further.rebuilt) fun images => ?_
    exact pure fun _ ⟨⟨_, maps⟩, mapsRest⟩ => .cons maps mapsRest

end Succeeds

/-- A node that was rebuilt before is not rebuilt again. -/
theorem applyBelow_run_of_known {bound : Nat} {result : Handle}
    (unreplaced : substitution.lookup handle = none)
    (known : state.rebuilt.lookup handle = some result) :
    (substitution.applyBelow (bound + 1) handle).run state = .ok (result, state) := by
  simp only [applyBelow, unreplaced, StateT.run_bind, StateT.run_get, pure_bind, known]
  rfl

/-- A node that was not rebuilt before is rebuilt and remembered. -/
theorem applyBelow_run_of_unknown {bound : Nat} {node : Node}
    (unreplaced : substitution.lookup handle = none)
    (unknown : state.rebuilt.lookup handle = none)
    (present : state.program.table.get? handle = some node)
    (ran : (rebuildNode (substitution.applyBelow bound) handle node).run state = .ok (image, later)) :
    (substitution.applyBelow (bound + 1) handle).run state =
      .ok (image, { later with rebuilt := (handle, image) :: later.rebuilt }) := by
  simp only [applyBelow, unreplaced, StateT.run_bind, StateT.run_get, pure_bind, unknown,
    Table.get_eq_ok_iff.mpr present]
  change ((rebuildNode (substitution.applyBelow bound) handle node).run state >>= _) = _
  rw [ran]
  rfl

section Applying

variable (targets : ∀ handle image, substitution.lookup handle = some image → image < base.size)

include targets

/-- Images are nodes of the program. -/
theorem Sound.lt_size (sound : Sound substitution base state)
    (maps : substitution.Maps state.rebuilt handle image) : image < state.program.size := by
  rcases maps with replaced | ⟨-, member⟩
  · exact Nat.lt_of_lt_of_le (targets handle image replaced) sound.growth.size_le
  · cases sound.rebuilt handle image member with
    | kept present => exact Table.lt_size_of_get? (sound.growth present)
    | rebuilt _ imagePresent => exact Table.lt_size_of_get? imagePresent

/-- A node made of images can be interned. -/
theorem succeeds_intern {Pre : State → Prop} {node imageNode : Node}
    (present : base.get? handle = some node)
    (parts : ∀ state, Pre state → node.Matches (substitution.Maps state.rebuilt) imageNode) :
    Succeeds substitution base Pre (intern imageNode) fun state =>
      Rebuilds base state.program.table (substitution.Maps state.rebuilt) handle := by
  intro state sound before
  have inRange : ∀ child ∈ imageNode.children, child < state.program.table.size := by
    intro child member
    obtain ⟨original, -, maps⟩ := Results.exists_left_of_mem (parts state before).children member
    exact sound.lt_size targets maps
  have growth := Table.extends_intern state.program.table imageNode
  have closed := sound.wellFormed.table.intern inRange
  exact ⟨_, _, rfl, sound.grow growth (sound.wellFormed.grow growth closed rfl),
    ⟨growth, List.Subset.refl _⟩, rfl, .rebuilt present (Table.get?_intern _ _) (parts state before)⟩

/-- A node is rebuilt from the images of its children. -/
theorem succeeds_rebuildNode {treat : Handle → RebuildM Handle} {node : Node}
    (present : base.get? handle = some node)
    (children : ∀ child ∈ node.children, Succeeds substitution base (fun _ => True) (treat child)
      fun state => substitution.Maps state.rebuilt child) :
    Succeeds substitution base (fun _ => True) (rebuildNode treat handle node) fun state =>
      Rebuilds base state.program.table (substitution.Maps state.rebuilt) handle := by
  cases node with
  | call callee arguments =>
    refine (children callee List.mem_cons_self).bind (fun _ _ _ => id) fun newCallee => ?_
    refine (Succeeds.mapM fun argument member =>
      children argument (List.mem_cons_of_mem _ member)).weaken.bind
        (fun _ _ further => And.imp_right fun maps => maps.mono further.rebuilt) fun images => ?_
    exact succeeds_intern targets present fun _ ⟨⟨_, atCallee⟩, atArguments⟩ =>
      .call atCallee atArguments
  | branch arguments =>
    refine (Succeeds.mapM children).bind (fun _ _ _ => id) fun images => ?_
    exact succeeds_intern targets present fun _ ⟨_, atArguments⟩ => .branch atArguments
  | primitive op operands =>
    refine (Succeeds.mapM children).bind (fun _ _ _ => id) fun images => ?_
    exact succeeds_intern targets present fun _ ⟨_, atOperands⟩ => .primitive atOperands
  | cast source ty =>
    refine (children source List.mem_cons_self).bind (fun _ _ _ => id) fun newSource => ?_
    exact succeeds_intern targets present fun _ ⟨_, atSource⟩ => .cast atSource
  | continuation | abstraction | parameter | quote =>
    exact .pure fun _ _ => .kept present rfl

/-- Applying a substitution to a node of the base table gives its image. -/
theorem succeeds_applyBelow (wellFormed : base.WellFormed) {bound : Nat} (below : handle < bound)
    (inRange : handle < base.size) :
    Succeeds substitution base (fun _ => True) (substitution.applyBelow bound handle) fun state =>
      substitution.Maps state.rebuilt handle := by
  induction bound generalizing handle with
  | zero => exact absurd below (Nat.not_lt_zero handle)
  | succ bound ih =>
    intro state sound _
    cases replaced : substitution.lookup handle with
    | some replacement =>
      rw [applyBelow, replaced]
      exact ⟨replacement, state, rfl, sound, .refl state, rfl, .inl replaced⟩
    | none =>
      cases known : state.rebuilt.lookup handle with
      | some result =>
        exact ⟨result, state, applyBelow_run_of_known replaced known, sound, .refl state, rfl,
          .inr ⟨replaced, Results.mem_of_lookup known⟩⟩
      | none =>
        obtain ⟨node, present⟩ := Table.exists_get?_of_lt inRange
        have children : ∀ child ∈ node.children, Succeeds substitution base (fun _ => True)
            (substitution.applyBelow bound child) fun state =>
              substitution.Maps state.rebuilt child := by
          intro child member
          have older := wellFormed.child_lt present member
          exact ih (Nat.lt_of_lt_of_le older (Nat.le_of_lt_succ below)) (Nat.lt_trans older inRange)
        obtain ⟨image, later, ran, soundLater, toLater, labelsLater, rebuilds⟩ :=
          succeeds_rebuildNode targets present children state sound trivial
        refine ⟨image, { later with rebuilt := (handle, image) :: later.rebuilt },
          applyBelow_run_of_unknown replaced known (sound.growth present) ran,
          soundLater.remember rebuilds, ?_, labelsLater, .inr ⟨replaced, List.mem_cons_self⟩⟩
        exact toLater.trans ⟨Table.extends_refl _, List.subset_cons_self _ _⟩

theorem succeeds_apply (wellFormed : base.WellFormed) (inRange : handle < base.size) :
    Succeeds substitution base (fun _ => True) (substitution.apply handle) fun state =>
      substitution.Maps state.rebuilt handle :=
  succeeds_applyBelow targets wellFormed (Nat.lt_succ_self handle) inRange

theorem Sound.apply_run_below (sound : Sound substitution base state) (wellFormed : base.WellFormed)
    (inRange : handle < base.size)
    (ran : (substitution.apply handle).run state = .ok (image, later)) :
    Sound substitution base later ∧ Continues state later ∧
      later.program.labels = state.program.labels := by
  obtain ⟨_, _, succeeds, soundLater, toLater, labels, -⟩ :=
    succeeds_apply targets wellFormed inRange state sound trivial
  rw [ran] at succeeds
  cases succeeds
  exact ⟨soundLater, toLater, labels⟩

end Applying

/-- Whatever handle a substitution is applied to, the state stays sound. A handle without a node is
replaced or refused. -/
theorem Sound.apply_run (sound : Sound substitution state.program.table state)
    (targets : ∀ handle image, substitution.lookup handle = some image →
      image < state.program.table.size)
    (ran : (substitution.apply handle).run state = .ok (image, later)) :
    Sound substitution state.program.table later ∧ Continues state later := by
  by_cases inRange : handle < state.program.table.size
  · obtain ⟨soundLater, toLater, -⟩ := sound.apply_run_below targets sound.wellFormed.table inRange ran
    exact ⟨soundLater, toLater⟩
  · rw [apply, applyBelow] at ran
    cases replaced : substitution.lookup handle with
    | some replacement =>
      rw [replaced] at ran
      cases ran
      exact ⟨sound, .refl state⟩
    | none =>
      have missing : state.program.table.get? handle = none := by
        refine Option.eq_none_iff_forall_ne_some.mpr fun node present => ?_
        exact inRange (Table.lt_size_of_get? present)
      have unknown : state.rebuilt.lookup handle = none := by
        refine Option.eq_none_iff_forall_ne_some.mpr fun result known => ?_
        cases sound.rebuilt _ _ (Results.mem_of_lookup known) with
        | kept present | rebuilt present =>
          rw [missing] at present
          cases present
      simp only [replaced, StateT.run_bind, StateT.run_get, pure_bind, unknown, Table.get, missing]
        at ran
      cases ran

/-- The image of a body that is not replaced is a body. -/
theorem Sound.exists_body (sound : Sound substitution base state) {node : Node}
    (present : base.get? handle = some node) (isBody : node.isBody = true)
    (unreplaced : substitution.lookup handle = none)
    (maps : substitution.Maps state.rebuilt handle image) :
    ∃ imageNode, state.program.table.get? image = some imageNode ∧ imageNode.isBody = true := by
  rcases maps with replaced | ⟨-, member⟩
  · rw [unreplaced] at replaced
    cases replaced
  · cases sound.rebuilt handle image member with
    | kept => exact ⟨node, sound.growth present, isBody⟩
    | rebuilt presentAgain imagePresent parts =>
      rw [present] at presentAgain
      cases presentAgain
      exact ⟨_, imagePresent, parts.isBody_eq.trans isBody⟩

/-- A node none of whose parts is replaced is its own image. -/
theorem Sound.eq_of_unreplaced (sound : Sound substitution base state) (wellFormed : base.WellFormed)
    (unreplaced : ∀ part ∈ base.parts handle, substitution.lookup part = none)
    (maps : substitution.Maps state.rebuilt handle image) : handle = image := by
  induction handle using Nat.strongRecOn generalizing image with
  | ind handle ih =>
    rcases maps with replaced | ⟨-, member⟩
    · rw [unreplaced handle (base.mem_parts_self handle)] at replaced
      cases replaced
    · cases sound.rebuilt handle image member with
      | kept => rfl
      | rebuilt present imagePresent parts =>
        have same : _ = _ := (parts.imp fun child childImage isChild maps =>
          ih child (wellFormed.child_lt present isChild) (fun part inside =>
            unreplaced part (Table.mem_parts_of_child wellFormed present isChild inside)) maps).eq
        subst same
        exact sound.wellFormed.table.get?_inj (sound.growth present) imagePresent

end Substitution

end CpsGraph
