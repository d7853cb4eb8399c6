import CpsGraph.Proofs.TypedPrograms

/-! # What the checker accepts

The checker accepts every program that follows the typing rules, and it infers the types that the
rules give: an expression has one type only, so remembering types cannot mislead it.
-/

namespace CpsGraph

/-- From every sound memory the computation gives the value, and the memory that is left is sound. -/
def Returns {σ ε α : Type} (Sound : σ → Prop) (computation : StateT σ (Except ε) α) (value : α) :
    Prop :=
  ∀ memory, Sound memory → ∃ later, computation.run memory = .ok (value, later) ∧ Sound later

namespace Returns

variable {σ ε α β : Type} {Sound : σ → Prop} {value : α}

theorem pure (value : α) : Returns Sound (Pure.pure value : StateT σ (Except ε) α) value :=
  fun memory sound => ⟨memory, rfl, sound⟩

theorem bind {first : StateT σ (Except ε) α} {second : α → StateT σ (Except ε) β} {last : β}
    (returns : Returns Sound first value) (next : Returns Sound (second value) last) :
    Returns Sound (first >>= second) last := by
  intro memory sound
  obtain ⟨middle, ranFirst, soundMiddle⟩ := returns memory sound
  obtain ⟨later, ranSecond, soundLater⟩ := next middle soundMiddle
  refine ⟨later, ?_, soundLater⟩
  rw [StateT.run_bind, ranFirst]
  exact ranSecond

/-- Checking the elements of a list succeeds if checking each of them does. -/
theorem forM {act : α → StateT σ (Except ε) Unit} {elements : List α}
    (each : ∀ element ∈ elements, Returns Sound (act element) ()) :
    Returns Sound (elements.forM act) () := by
  induction elements with
  | nil => exact .pure ()
  | cons element elements ih =>
    change Returns Sound (act element >>= fun _ => elements.forM act) ()
    apply (each element List.mem_cons_self).bind
    exact ih fun other member => each other (List.mem_cons_of_mem _ member)

end Returns

namespace Program

variable {program : Program} {continuation : Name} {infer : Handle → TypingM Ty} {handle : Handle}
  {ty other : Ty} {node : Node}

/-- An expression has one type only. -/
theorem HasTy.unique (hasTy : program.HasTy handle ty) (hasOther : program.HasTy handle other) :
    ty = other := by
  cases hasTy <;> cases hasOther <;> simp_all

section Growing

variable {grown : Program} (growth : grown.table.Extends program.table)
  (signatures : ∀ name label, program.find? name = some label →
    ∃ image, grown.find? name = some image ∧ image.signature = label.signature)

include growth signatures

/-- Expressions keep their types when a program grows and its labels keep their signatures. -/
theorem HasTy.grow (hasTy : program.HasTy handle ty) : grown.HasTy handle ty := by
  induction hasTy with
  | primitive present arity _ ih => exact .primitive (growth present) arity ih
  | abstraction present found =>
    obtain ⟨image, foundImage, signed⟩ := signatures _ _ found
    exact signed ▸ .abstraction (growth present) foundImage
  | parameter present found atIndex =>
    obtain ⟨image, foundImage, signed⟩ := signatures _ _ found
    exact .parameter (growth present) foundImage (signed ▸ atIndex)
  | quote present => exact .quote (growth present)
  | cast present _ castable ih => exact .cast (growth present) ih castable

/-- Bodies stay well typed when a program grows and its labels keep their signatures. -/
theorem BodyTyped.grow (bodyTyped : program.BodyTyped node) : grown.BodyTyped node := by
  have kept {handle : Handle} {ty : Ty} (hasTy : program.HasTy handle ty) : grown.HasTy handle ty :=
    hasTy.grow growth signatures
  cases bodyTyped with
  | call calleeTy argumentTy =>
    exact .call (kept calleeTy) (argumentTy.imp fun _ _ hasTy => kept hasTy)
  | branch conditionTy trueTy falseTy =>
    exact .branch (kept conditionTy) (kept trueTy) (kept falseTy)

end Growing

/-- A structural step of the checker does not use its memory. -/
theorem returns_graph {α : Type} {Sound : KnownTypes → Prop} {step : Except GraphError α} {value : α}
    (success : step = .ok value) : Returns Sound (liftM step : TypingM α) value := by
  subst success
  exact fun memory sound => ⟨memory, rfl, sound⟩

theorem returns_expectTy (continuation : Name)
    (infers : Returns program.RightTypes (infer handle) ty) :
    Returns program.RightTypes (expectTy infer continuation ty handle) () := by
  apply infers.bind
  simp only [ne_eq, not_true, if_false]
  exact .pure ()

/-- The type of a parameter is the one that its label has for it. -/
theorem parameterTy_eq_ok (wellFormed : program.WellFormed) {name : Name} {index : Nat} {label : Label}
    (found : program.find? name = some label) (atIndex : label.signature[index]? = some ty) :
    program.parameterTy name index = .ok ty := by
  have inRange : index < label.arity := (List.getElem?_eq_some_iff.mp atIndex).1
  obtain ⟨parameter, known⟩ := wellFormed.exists_parameter_iff.mpr ⟨label, found, inRange⟩
  refine Results.bind_eq_ok_iff.mpr ⟨parameter, known, Results.bind_eq_ok_iff.mpr ⟨label, ?_, ?_⟩⟩
  · exact resolve_eq_ok_iff.mpr found
  · rw [atIndex]
    rfl

/-- Inferring the type of a node gives the type that the rules give, if this is so for its children. -/
theorem returns_inferNode (wellFormed : program.WellFormed) (continuation : Name)
    (present : program.table.get? handle = some node) (hasTy : program.HasTy handle ty)
    (infers : ∀ child ∈ node.children, ∀ childTy, program.HasTy child childTy →
      Returns program.RightTypes (infer child) childTy) :
    Returns program.RightTypes (program.inferNode continuation infer node) ty := by
  cases hasTy with
  | primitive here arity operandTy =>
    rw [here] at present
    cases present
    simp only [inferNode, arity, ne_eq, not_true, if_false]
    refine Returns.bind (.forM fun operand member => ?_) (.pure _)
    exact returns_expectTy continuation (infers operand member _ (operandTy operand member))
  | abstraction here found =>
    rw [here] at present
    cases present
    exact (returns_graph (resolve_eq_ok_iff.mpr found)).bind (.pure _)
  | parameter here found atIndex =>
    rw [here] at present
    cases present
    exact returns_graph (parameterTy_eq_ok wellFormed found atIndex)
  | quote here =>
    rw [here] at present
    cases present
    exact .pure _
  | cast here sourceTy castable =>
    rw [here] at present
    cases present
    apply (infers _ (List.mem_singleton_self _) _ sourceTy).bind
    simp only [castable, if_true]
    exact .pure _

theorem HasTy.exists_get? (hasTy : program.HasTy handle ty) :
    ∃ node, program.table.get? handle = some node := by
  cases hasTy <;> exact ⟨_, ‹_›⟩

/-- Inferring the type of an expression gives the type that the rules give. -/
theorem returns_inferBelow (wellFormed : program.WellFormed) (continuation : Name) {bound : Nat}
    (inRange : handle < bound) (hasTy : program.HasTy handle ty) :
    Returns program.RightTypes (program.inferBelow continuation bound handle) ty := by
  induction bound generalizing handle ty with
  | zero => exact absurd inRange (Nat.not_lt_zero handle)
  | succ bound ih =>
    intro known right
    simp only [inferBelow, StateT.run_bind, StateT.run_get, pure_bind]
    cases remembered : known.lookup handle with
    | some found =>
      obtain rfl := (right handle found remembered).unique hasTy
      exact ⟨known, rfl, right⟩
    | none =>
      obtain ⟨node, present⟩ := hasTy.exists_get?
      refine Returns.bind (returns_graph (Table.get_eq_ok_iff.mpr present)) ?_ known right
      refine Returns.bind (returns_inferNode wellFormed continuation present hasTy ?_) ?_
      · intro child isChild childTy
        have older := wellFormed.table.child_lt present isChild
        exact ih (Nat.lt_of_lt_of_le older (Nat.le_of_lt_succ inRange))
      · exact fun known right => ⟨_, rfl, Results.forall_lookup_cons right hasTy⟩

theorem returns_typeOf (wellFormed : program.WellFormed) (continuation : Name)
    (hasTy : program.HasTy handle ty) :
    Returns program.RightTypes (program.typeOf continuation handle) ty :=
  returns_inferBelow wellFormed continuation (Nat.lt_succ_self handle) hasTy

/-- The type that is inferred for an expression is the type that the rules give. -/
theorem typeOf_eq_ok_iff (wellFormed : program.WellFormed) :
    (program.typeOf continuation handle).run' [] = .ok ty ↔ program.HasTy handle ty := by
  constructor
  · intro success
    obtain ⟨⟨_, known⟩, ran, same⟩ := Results.bind_eq_ok_iff.mp success
    cases same
    exact (ensures_typeOf program continuation handle [] _ known nofun ran).1
  · intro hasTy
    obtain ⟨known, ran, -⟩ := returns_typeOf wellFormed continuation hasTy [] nofun
    exact Results.bind_eq_ok_iff.mpr ⟨_, ran, rfl⟩

/-- A well-typed body passes the check. -/
theorem returns_checkBody (wellFormed : program.WellFormed) (continuation : Name)
    (bodyTyped : program.BodyTyped node) :
    Returns program.RightTypes (program.checkBody continuation node) () := by
  have expects {expected : Ty} {handle : Handle} (hasTy : program.HasTy handle expected) :=
    returns_expectTy continuation (returns_typeOf wellFormed continuation hasTy)
  cases bodyTyped with
  | call calleeTy argumentTy =>
    apply (returns_typeOf wellFormed continuation calleeTy).bind
    simp only [argumentTy.length_eq, ne_eq, not_true, if_false]
    refine .forM fun pair isPair => expects ?_
    exact (List.forall₂_iff_zip.mp argumentTy.flip).2 isPair
  | branch conditionTy trueTy falseTy =>
    exact (expects conditionTy).bind ((expects trueTy).bind (expects falseTy))

/-- The checker accepts exactly the programs that follow the rules. -/
theorem typeCheck_eq_ok_iff (wellFormed : program.WellFormed) :
    program.typeCheck = .ok () ↔ program.Typed := by
  refine ⟨typed_of_typeCheck, fun typed => ?_⟩
  have checked : Returns program.RightTypes (program.labels.forM program.checkLabel) () := by
    refine .forM fun label member => ?_
    obtain ⟨body, present, bodyTyped⟩ := typed label member
    apply (returns_graph (Table.get_eq_ok_iff.mpr present)).bind
    exact returns_checkBody wellFormed label.name bodyTyped
  obtain ⟨known, ran, -⟩ := checked [] nofun
  exact Results.ofSuccess_outcome_eq_ok_iff.mpr
    ⟨_, Results.bind_eq_ok_iff.mpr ⟨_, ran, rfl⟩⟩

end Program

end CpsGraph
