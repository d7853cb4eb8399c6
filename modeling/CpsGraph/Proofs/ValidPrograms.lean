import CpsGraph.Proofs.Traversals
import CpsGraph.Proofs.TypedPrograms

/-! # Valid programs

A program is valid if its bodies are made of expressions all of whose names are labels. Well-typed
programs are valid. In a valid program no other part of a body than the body itself is a continuation
or a body.
-/

namespace CpsGraph.Program

/-- An expression all of whose names are labels and whose parameters are theirs. -/
inductive Expression (program : Program) : Handle → Prop
  | primitive {handle : Handle} {op : Operator} {operands : List Handle}
      (present : program.table.get? handle = some (.primitive op operands))
      (atOperands : ∀ operand ∈ operands, Expression program operand) : Expression program handle
  | cast {handle source : Handle} {ty : Ty}
      (present : program.table.get? handle = some (.cast source ty))
      (atSource : Expression program source) : Expression program handle
  | abstraction {handle : Handle} {target : Name}
      (present : program.table.get? handle = some (.abstraction target))
      (known : target ∈ program.names) : Expression program handle
  | parameter {handle : Handle} {target : Name} {index : Nat}
      (present : program.table.get? handle = some (.parameter target index))
      (known : ∃ handle, program.parameter target index = .ok handle) : Expression program handle
  | quote {handle : Handle} {literal : Literal}
      (present : program.table.get? handle = some (.quote literal)) : Expression program handle

/-- A call or a branch made of expressions. -/
inductive ValidBody (program : Program) : Node → Prop
  | call {callee : Handle} {arguments : List Handle} (atCallee : program.Expression callee)
      (atArguments : ∀ argument ∈ arguments, program.Expression argument) :
      ValidBody program (.call callee arguments)
  | branch {condition onTrue onFalse : Handle} (atCondition : program.Expression condition)
      (atTrue : program.Expression onTrue) (atFalse : program.Expression onFalse) :
      ValidBody program (.branch [condition, onTrue, onFalse])

/-- All bodies are calls or branches made of expressions. -/
def Valid (program : Program) : Prop :=
  ∀ label ∈ program.labels, ∃ node, program.table.get? label.body = some node ∧
    program.ValidBody node

variable {program : Program} {handle : Handle} {node : Node} {label : Label} {name : Name}

/-- A typed expression is an expression. -/
theorem HasTy.expression (wellFormed : program.WellFormed) {ty : Ty} (typed : program.HasTy handle ty) :
    program.Expression handle := by
  induction typed with
  | primitive present _ _ ih => exact .primitive present ih
  | abstraction present found => exact .abstraction present (mem_names_iff.mpr ⟨_, found⟩)
  | parameter present found atIndex =>
    have inRange := (List.getElem?_eq_some_iff.mp atIndex).1
    exact .parameter present (wellFormed.exists_parameter_iff.mpr ⟨_, found, inRange⟩)
  | quote present => exact .quote present
  | cast present _ _ ih => exact .cast present ih

/-- A well-typed body is made of expressions. -/
theorem BodyTyped.validBody (wellFormed : program.WellFormed) (bodyTyped : program.BodyTyped node) :
    program.ValidBody node := by
  cases bodyTyped with
  | call calleeTy argumentTy =>
    refine .call (calleeTy.expression wellFormed) fun argument inside => ?_
    obtain ⟨ty, -, typed⟩ := Results.exists_right_of_mem argumentTy inside
    exact typed.expression wellFormed
  | branch conditionTy trueTy falseTy =>
    exact .branch (conditionTy.expression wellFormed) (trueTy.expression wellFormed)
      (falseTy.expression wellFormed)

/-- A well-typed program is valid. -/
theorem Typed.valid (wellFormed : program.WellFormed) (typed : program.Typed) : program.Valid := by
  intro label member
  obtain ⟨node, present, bodyTyped⟩ := typed label member
  exact ⟨node, present, bodyTyped.validBody wellFormed⟩

/-- The closure of a label has the type of the label. -/
theorem HasTy.ty_abstraction (wellFormed : program.WellFormed)
    (found : program.find? name = some label) {ty : Ty}
    (typed : program.HasTy label.abstraction ty) : ty = .fn label.signature := by
  have present := (wellFormed.registered found).abstraction
  rw [name_of_find? found] at present
  cases typed with
  | abstraction here foundAgain =>
    rw [present] at here
    cases here
    rw [found] at foundAgain
    cases foundAgain
    rfl
  | primitive here | parameter here | quote here | cast here =>
    rw [present] at here
    cases here

section Calling

variable (wellFormed : program.WellFormed) (typed : program.Typed) {callee : Label}
  (found : program.find? name = some callee) (member : label ∈ program.labels)
  {arguments : List Handle}
  (present : program.table.get? label.body = some (.call callee.abstraction arguments))

include wellFormed typed found member present

/-- A well-typed program calls a label with arguments of the types of its parameters. -/
theorem Typed.arguments_hasTy : List.Forall₂ program.HasTy arguments callee.signature := by
  obtain ⟨body, presentAgain, bodyTyped⟩ := typed label member
  rw [present] at presentAgain
  cases presentAgain
  cases bodyTyped with
  | call calleeTy argumentTy => exact Ty.fn.inj (calleeTy.ty_abstraction wellFormed found) ▸ argumentTy

/-- A well-typed program calls a label with one argument for each of its parameters. -/
theorem Typed.length_arguments : arguments.length = callee.arity :=
  (typed.arguments_hasTy wellFormed found member present).length_eq

end Calling

theorem Expression.exists_get? (expression : program.Expression handle) :
    ∃ node, program.table.get? handle = some node := by
  cases expression with
  | primitive here | cast here | abstraction here | parameter here | quote here => exact ⟨_, here⟩

/-- The children of an expression are expressions. -/
theorem Expression.child (expression : program.Expression handle)
    (present : program.table.get? handle = some node) {child : Handle}
    (member : child ∈ node.children) : program.Expression child := by
  cases expression with
  | primitive here operand =>
    rw [here] at present
    cases present
    exact operand child member
  | cast here source =>
    rw [here] at present
    cases present
    exact List.mem_singleton.mp member ▸ source
  | abstraction here =>
    rw [here] at present
    cases present
    cases member
  | parameter here =>
    rw [here] at present
    cases present
    cases member
  | quote here =>
    rw [here] at present
    cases present
    cases member

/-- All parts of an expression are expressions. -/
theorem Expression.of_mem_parts (expression : program.Expression handle) (wellFormed : program.table.WellFormed)
    {part : Handle} (inside : part ∈ program.table.parts handle) : program.Expression part :=
  Table.parts_induction program.Expression wellFormed expression
    (fun _ _ _ present parent member => parent.child present member) part inside

theorem Expression.isExpression (expression : program.Expression handle)
    (present : program.table.get? handle = some node) : node.isExpression = true := by
  cases expression with
  | primitive here | cast here | abstraction here | parameter here | quote here =>
    rw [here] at present
    cases present
    rfl

theorem Expression.mem_names (expression : program.Expression handle)
    (present : program.table.get? handle = some (.abstraction name)) : name ∈ program.names := by
  cases expression with
  | abstraction here known =>
    rw [present] at here
    cases here
    exact known
  | primitive here | cast here | parameter here | quote here =>
    rw [present] at here
    cases here

/-- A parameter in an expression is a parameter of a label. -/
theorem Expression.mem_parameters (expression : program.Expression handle)
    (wellFormed : program.WellFormed) {index : Nat}
    (present : program.table.get? handle = some (.parameter name index)) :
    ∃ label, program.find? name = some label ∧ label.parameters[index]? = some handle := by
  cases expression with
  | parameter here known =>
    rw [present] at here
    cases here
    obtain ⟨label, found, inRange⟩ := wellFormed.exists_parameter_iff.mp known
    have named := name_of_find? found
    subst named
    exact ⟨label, found,
      (wellFormed.registered found).parameters_getElem? wellFormed.table inRange present⟩
  | primitive here | cast here | abstraction here | quote here =>
    rw [present] at here
    cases here

theorem ValidBody.child (valid : program.ValidBody node) {child : Handle}
    (member : child ∈ node.children) : program.Expression child := by
  cases valid with
  | call callee argument => exact List.forall_mem_cons.mpr ⟨callee, argument⟩ child member
  | branch condition onTrue onFalse =>
    simp only [Node.children, List.mem_cons, List.not_mem_nil, or_false] at member
    rcases member with rfl | rfl | rfl
    · exact condition
    · exact onTrue
    · exact onFalse

/-- A body matches itself if its parts are related to themselves. -/
theorem ValidBody.matches_self (valid : program.ValidBody node) {Related : Handle → Handle → Prop}
    (related : ∀ child, program.Expression child → Related child child) :
    node.Matches Related node := by
  cases valid with
  | call callee argument =>
    exact .call (related _ callee) (List.forall₂_same.mpr fun child member =>
      related child (argument child member))
  | branch condition onTrue onFalse =>
    exact .branch (.cons (related _ condition) (.cons (related _ onTrue)
      (.cons (related _ onFalse) .nil)))

/-- A body that matches a valid one in expressions is valid. -/
theorem ValidBody.of_matches {image : Program} {imageNode : Node} {Related : Handle → Handle → Prop}
    (valid : program.ValidBody node) (parts : node.Matches Related imageNode)
    (expression : ∀ child childImage, Related child childImage → image.Expression childImage) :
    image.ValidBody imageNode := by
  cases valid with
  | call =>
    obtain ⟨atCallee, atArguments⟩ := parts
    refine .call (expression _ _ atCallee) fun argument member => ?_
    obtain ⟨original, -, related⟩ := Results.exists_left_of_mem atArguments member
    exact expression original argument related
  | branch =>
    rcases parts with _ | ⟨_ | ⟨atCondition, _ | ⟨atTrue, _ | ⟨atFalse, _ | _⟩⟩⟩⟩
    exact .branch (expression _ _ atCondition) (expression _ _ atTrue) (expression _ _ atFalse)

theorem ValidBody.isBody (valid : program.ValidBody node) : node.isBody = true := by
  cases valid <;> rfl

section Parts

variable (wellFormed : program.WellFormed) (valid : program.Valid)

include wellFormed valid

/-- A part of a body is the body or an expression. -/
theorem eq_or_expression_of_mem_parts (member : label ∈ program.labels)
    (inside : handle ∈ program.table.parts label.body) :
    handle = label.body ∨ program.Expression handle := by
  obtain ⟨body, present, validBody⟩ := valid label member
  rcases (Table.mem_parts_iff wellFormed.table present).mp inside with same | ⟨child, part, inside⟩
  · exact .inl same
  · exact .inr ((validBody.child part).of_mem_parts wellFormed.table inside)

end Parts

end CpsGraph.Program
