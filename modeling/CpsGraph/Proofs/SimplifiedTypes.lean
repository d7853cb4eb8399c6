import CpsGraph.Proofs.SurvivingLabels
import CpsGraph.Proofs.TypeChecking
import CpsGraph.Proofs.TypeSoundness

/-! # The types of a simplified program

Every rule by which a node is imported keeps its type: folding and conversion give literals of the
type that the operator or the cast has, an identity leaves an operand only where operands and result
have one type, and a branch collapses to a call of a target without parameters. So the simplified
form of a well-typed program is well typed.
-/

namespace CpsGraph

/-- What is left of an operator has the type of its result. -/
def Reduction.KeepsTy (op : Operator) : Reduction → Prop
  | .left | .right => op.operandTy = op.resultTy
  | .constant literal => literal.ty = op.resultTy

/-- An identity leaves an operand only if operands and result have one type. -/
theorem Operator.keepsTy_of_identity? {op : Operator} {left right : Option Literal}
    {reduction : Reduction} (identity : op.identity? left right = some reduction) :
    reduction.KeepsTy op := by
  cases op with
  | mul =>
    simp only [identity?] at identity
    split_ifs at identity
    all_goals
      cases identity
      rfl
  | div | mod | and | or =>
    simp only [identity?] at identity
    split_ifs at identity
    cases identity
    rfl
  | _ => cases identity

/-- A known literal has the type that the rules give. -/
theorem Program.HasTy.of_known {program : Program} {handle : Handle} {ty : Ty} {literal : Literal}
    (hasTy : program.HasTy handle ty) (known : program.table.known? handle = some literal) :
    literal.HasTy ty := by
  obtain ⟨present, isKnown⟩ := Table.known?_eq_some_iff.mp known
  exact ⟨isKnown, (HasTy.quote present).unique hasTy⟩

/-- Folding an operator on known operands of the right type gives a literal of its result type. -/
theorem Program.HasTy.ty_of_evaluate {program : Program} {op : Operator} {operands : List Handle}
    {literals : List Literal} {literal : Literal} (arity : operands.length = op.arity)
    (operandTy : ∀ operand ∈ operands, program.HasTy operand op.operandTy)
    (known : operands.map program.table.known? = literals.map some)
    (evaluated : op.evaluate literals = .ok literal) : literal.ty = op.resultTy := by
  have count : literals.length = op.arity := by
    rw [← arity]
    simpa using (congrArg List.length known).symm
  have typed : ∀ literal ∈ literals, literal.HasTy op.operandTy := by
    intro literal member
    have isKnown : some literal ∈ operands.map program.table.known? := by simp [known, member]
    obtain ⟨operand, isOperand, here⟩ := List.mem_map.mp isKnown
    exact (operandTy operand isOperand).of_known here
  have safe := op.evaluate_safe count typed
  rw [evaluated] at safe
  exact safe.ty

namespace Simplify

variable {old : Program} {state : State} {all : List Name} {handle new : Handle} {ty : Ty}
  {node : Node}

/-- The names that a node mentions are labels of the new program. -/
def Keeps (program : Program) (handle : Handle) : Prop :=
  ∀ name, program.table.Mentions handle name → name ∈ program.names

/-- A known literal mentions no name. -/
theorem keeps_of_known {program : Program} {literal : Literal} (wellFormed : program.table.WellFormed)
    (known : program.table.known? handle = some literal) : Keeps program handle :=
  fun _ mentions => absurd mentions
    (Table.not_mentions_quote wellFormed (Table.known?_eq_some_iff.mp known).1)

theorem Keeps.child {program : Program} {child : Handle} (keeps : Keeps program handle)
    (wellFormed : program.table.WellFormed) (present : program.table.get? handle = some node)
    (isChild : child ∈ node.children) : Keeps program child :=
  fun name mentions => keeps name (mentions.of_child wellFormed present isChild)

section Rules

variable (closed : state.program.table.WellFormed) (keeps : Keeps state.program new)

include closed keeps

/-- Folding, reducing or keeping an operator gives its result type, if the imported operands have the
type that it takes. -/
theorem hasTy_of_translates_primitive {op : Operator} {operands : List Handle}
    (arity : operands.length = op.arity)
    (translates : Translates state.program.table state.imported (.primitive op operands) new)
    (typed : ∀ operand ∈ operands, ∀ newOperand, (operand, newOperand) ∈ state.imported →
      Keeps state.program newOperand → state.program.HasTy newOperand op.operandTy) :
    state.program.HasTy new op.resultTy := by
  have newOperandTy {newOperands : List Handle} (maps : MapsAll state.imported operands newOperands)
      (kept : ∀ newOperand ∈ newOperands, Keeps state.program newOperand) :
      ∀ newOperand ∈ newOperands, state.program.HasTy newOperand op.operandTy := by
    intro newOperand member
    obtain ⟨operand, isOperand, atOperand⟩ := Results.exists_left_of_mem maps member
    exact typed operand isOperand newOperand atOperand (kept newOperand member)
  cases translates with
  | folded atOperands known evaluated atNew =>
    rename_i newOperands literals literal
    have kept : ∀ newOperand ∈ newOperands, Keeps state.program newOperand := by
      intro newOperand member
      have isKnown : state.program.table.known? newOperand ∈ literals.map some :=
        known ▸ List.mem_map_of_mem member
      obtain ⟨literal, -, here⟩ := List.mem_map.mp isKnown
      exact keeps_of_known closed here.symm
    have count : newOperands.length = op.arity := atOperands.length_eq ▸ arity
    rw [← Program.HasTy.ty_of_evaluate count (newOperandTy atOperands kept) known evaluated]
    exact .quote atNew
  | reduced atLeft atRight unfoldable identity leaves =>
    rename_i left right newLeft newRight reduction
    have keepsTy := Operator.keepsTy_of_identity? identity
    cases reduction with
    | left =>
      rw [← show op.operandTy = op.resultTy from keepsTy]
      exact typed left (by simp) new (leaves ▸ atLeft) keeps
    | right =>
      rw [← show op.operandTy = op.resultTy from keepsTy]
      exact typed right (by simp) new (leaves ▸ atRight) keeps
    | constant literal =>
      rw [← show literal.ty = op.resultTy from keepsTy]
      exact .quote leaves
  | primitive atOperands unfoldable irreducible atNew =>
    refine .primitive atNew (atOperands.length_eq ▸ arity) (newOperandTy atOperands ?_)
    exact fun newOperand member => keeps.child closed atNew member

/-- Converting a literal or keeping a cast gives the type of the cast, if the imported source has a
type that can be cast. -/
theorem hasTy_of_translates_cast {source : Handle} {actual : Ty}
    (castable : actual.castable ty = true)
    (translates : Translates state.program.table state.imported (.cast source ty) new)
    (typed : ∀ newSource, (source, newSource) ∈ state.imported → Keeps state.program newSource →
      state.program.HasTy newSource actual) : state.program.HasTy new ty := by
  cases translates with
  | converted atSource known cast atNew =>
    have newSourceTy := typed _ atSource (keeps_of_known closed known)
    have safe := Literal.cast_safe (newSourceTy.of_known known) castable
    rw [cast] at safe
    rw [← safe.ty]
    exact .quote atNew
  | cast atSource unknown atNew =>
    refine .cast atNew (typed _ atSource ?_) castable
    exact keeps.child closed atNew (List.mem_singleton_self _)

end Rules

section Types

variable (finished : Importing old [] all state)

include finished

/-- A rule keeps the type of a node if the imported children have the types of the old ones. -/
theorem hasTy_of_translates (hasTy : old.HasTy handle ty)
    (present : old.table.get? handle = some node)
    (translates : Translates state.program.table state.imported node new)
    (keeps : Keeps state.program new)
    (children : ∀ child ∈ node.children, ∀ newChild childTy, (child, newChild) ∈ state.imported →
      Keeps state.program newChild → old.HasTy child childTy → state.program.HasTy newChild childTy) :
    state.program.HasTy new ty := by
  have closed := finished.wellFormed.table
  cases hasTy with
  | primitive here arity operandTy =>
    rw [here] at present
    cases present
    refine hasTy_of_translates_primitive closed keeps arity translates ?_
    intro operand isOperand newOperand atOperand kept
    exact children operand isOperand newOperand _ atOperand kept (operandTy operand isOperand)
  | abstraction here found =>
    rw [here] at present
    cases present
    cases translates with
    | abstraction atNew =>
      obtain ⟨label, foundNew, signature⟩ :=
        finished.exists_find? found (keeps _ (Table.mentions_abstraction atNew))
      rw [← signature]
      exact .abstraction atNew foundNew
  | parameter here found atIndex =>
    rw [here] at present
    cases present
    cases translates with
    | parameter atNew =>
      obtain ⟨label, foundNew, signature⟩ :=
        finished.exists_find? found (keeps _ (Table.mentions_parameter atNew))
      rw [← signature] at atIndex
      exact .parameter atNew foundNew atIndex
  | quote here =>
    rw [here] at present
    cases present
    cases translates with
    | quote atNew => exact .quote atNew
  | cast here sourceTy castable =>
    rw [here] at present
    cases present
    refine hasTy_of_translates_cast closed keeps castable translates ?_
    intro newSource atSource kept
    exact children _ (List.mem_singleton_self _) newSource _ atSource kept sourceTy

/-- An imported expression keeps its type if the names that it still mentions are labels. -/
theorem hasTy_of_old (wellFormed : old.table.WellFormed) (hasTy : old.HasTy handle ty)
    (pair : (handle, new) ∈ state.imported) (keeps : Keeps state.program new) :
    state.program.HasTy new ty := by
  induction handle using Nat.strongRecOn generalizing new ty with
  | ind handle ih =>
    obtain ⟨node, present, translates⟩ := finished.faithful.translates handle new pair
    apply hasTy_of_translates finished hasTy present translates keeps
    intro child isChild newChild childTy atChild keepsChild childHasTy
    exact ih child (wellFormed.child_lt present isChild) childHasTy atChild keepsChild

/-- An imported body is well typed if the old one is. -/
theorem bodyTyped_of_old (wellFormed : old.table.WellFormed) (bodyTyped : old.BodyTyped node)
    (translates : Translates state.program.table state.imported node new)
    (keeps : Keeps state.program new) :
    ∃ newNode, state.program.table.get? new = some newNode ∧ state.program.BodyTyped newNode := by
  have closed := finished.wellFormed.table
  cases bodyTyped with
  | call calleeTy argumentTy =>
    cases translates with
    | call atCallee atArguments atNew =>
      have newCalleeTy := hasTy_of_old finished wellFormed calleeTy atCallee
        (keeps.child closed atNew List.mem_cons_self)
      refine ⟨_, atNew, .call newCalleeTy (Results.forall₂_of_common atArguments argumentTy ?_)⟩
      intro argument newArgument argumentTy _ isNew atArgument typed
      exact hasTy_of_old finished wellFormed typed atArgument
        (keeps.child closed atNew (List.mem_cons_of_mem _ isNew))
  | branch conditionTy trueTy falseTy =>
    cases translates with
    | collapsed atCondition decided atTarget atNew =>
      rename_i onTrue onFalse newCondition newCallee taken
      have targetTy : old.HasTy (if taken then onTrue else onFalse) (.fn []) := by
        cases taken with
        | true => exact trueTy
        | false => exact falseTy
      have newTargetTy := hasTy_of_old finished wellFormed targetTy atTarget
        (keeps.child closed atNew List.mem_cons_self)
      exact ⟨_, atNew, .call newTargetTy .nil⟩
    | branch atCondition undecided atTrue atFalse atNew =>
      have typed {child newChild : Handle} {childTy : Ty} (childHasTy : old.HasTy child childTy)
          (atChild : (child, newChild) ∈ state.imported) (isChild : newChild ∈ _) :=
        hasTy_of_old finished wellFormed childHasTy atChild (keeps.child closed atNew isChild)
      refine ⟨_, atNew, .branch (typed conditionTy atCondition ?_) (typed trueTy atTrue ?_)
        (typed falseTy atFalse ?_)⟩
      all_goals simp [Node.children]

/-- The simplified form of a well-typed program is well typed. -/
theorem typed_of_old (wellFormed : old.table.WellFormed) (typed : old.Typed) :
    state.program.Typed := by
  intro label member
  obtain ⟨original, found, -, -, pair⟩ := finished.labels label member
  obtain ⟨node, present, translates⟩ := finished.faithful.translates _ _ pair
  obtain ⟨_, presentToo, bodyTyped⟩ := typed original (Program.mem_of_find? found)
  rw [present] at presentToo
  cases presentToo
  exact bodyTyped_of_old finished wellFormed bodyTyped translates fun _ => finished.mem_names member

end Types

end Simplify

namespace Program

/-- A well-typed program can be simplified, and the result is well typed. It has all external labels,
and every label has the signature and the mark that it had. -/
theorem simplify_typeCheck {program : Program} (wellFormed : program.WellFormed)
    (checked : program.typeCheck = .ok ()) :
    ∃ simplified, program.simplify = .ok simplified ∧ simplified.typeCheck = .ok () ∧
      (∀ external ∈ program.externals, external.name ∈ simplified.names) ∧
      ∀ label ∈ simplified.labels, ∃ original, program.find? label.name = some original ∧
        label.signature = original.signature ∧ label.external = original.external := by
  have typed := (typeCheck_eq_ok_iff wellFormed).mp checked
  have faultless := Valid.faultless wellFormed (typed.valid wellFormed)
  obtain ⟨later, ran⟩ := Simplify.exists_importProgram wellFormed faultless
  obtain ⟨all, finished, -⟩ := Simplify.importProgram_run ran
  refine ⟨later.program, simplify_of_run ran, ?_, fun _ => Simplify.mem_names_of_external ran, ?_⟩
  · apply (typeCheck_eq_ok_iff finished.wellFormed).mpr
    exact Simplify.typed_of_old finished wellFormed.table typed
  · intro label member
    obtain ⟨original, found, signature, external, -⟩ := finished.labels label member
    exact ⟨original, found, signature, external⟩

/-- The reducible program is well typed, and so is what is left of it. -/
theorem simplify_typeCheck_reducible :
    let program := Samples.reducible
    program.WellFormed ∧ program.typeCheck = .ok () ∧
    ∃ simplified, program.simplify = .ok simplified ∧ simplified.typeCheck = .ok () ∧
      (∀ external ∈ program.externals, external.name ∈ simplified.names) ∧
      ∀ label ∈ simplified.labels, ∃ original, program.find? label.name = some original ∧
        label.signature = original.signature ∧ label.external = original.external := by
  intro program
  obtain ⟨wellFormed, checked⟩ : program.WellFormed ∧ program.typeCheck = .ok () := by
    decide +kernel
  exact ⟨wellFormed, checked, simplify_typeCheck wellFormed checked⟩

end Program

end CpsGraph
