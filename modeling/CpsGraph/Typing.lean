import CpsGraph.Event
import CpsGraph.Program.Basic

/-! # Type checking

The checker infers the type of every expression from its parts and compares it with what the place
expects. The type of an expression does not depend on where it occurs, so it is remembered and
inferred once; the continuation is only named in errors.
-/

namespace CpsGraph

/-- A structural fault makes a program ill typed. -/
instance : MonadLift (Except GraphError) (Except TypingError) where
  monadLift result := result.mapError .graph

/-- The types inferred so far. -/
abbrev KnownTypes := List (Handle × Ty)

/-- Type checking with the types inferred so far. -/
abbrev TypingM := StateT KnownTypes (Except TypingError)

/-- Whether values of one type can be converted to another. -/
def Ty.castable : Ty → Ty → Bool
  | .int, .bool => true
  | .bool, .int => true
  | _, _ => false

namespace Program

/-- The type of a parameter of a label. -/
def parameterTy (program : Program) (name : Name) (index : Nat) : Except GraphError Ty := do
  let _ ← program.parameter name index
  let label ← program.resolve name
  match label.signature[index]? with
  | some ty => return ty
  | none => throw (.parameterOutOfRange name index label.arity)

/-- Check that an expression has the expected type, given how to infer types. -/
def expectTy (infer : Handle → TypingM Ty) (continuation : Name) (expected : Ty) (handle : Handle) :
    TypingM Unit := do
  let actual ← infer handle
  if actual ≠ expected then throw (.mismatch continuation expected actual)

/-- The type of a node, given how to infer the types of its children. -/
def inferNode (program : Program) (continuation : Name) (infer : Handle → TypingM Ty) :
    Node → TypingM Ty
  | .primitive op operands => do
    if operands.length ≠ op.arity then
      throw (.arity continuation op op.arity operands.length)
    operands.forM (expectTy infer continuation op.operandTy)
    return op.resultTy
  | .abstraction target => do return .fn (← program.resolve target).signature
  | .parameter target index => program.parameterTy target index
  | .quote literal => return literal.ty
  | .cast source ty => do
    let actual ← infer source
    if actual.castable ty then return ty
    else throw (.unsupportedCast continuation actual ty)
  | node => throw (.graph (.notAnExpression node.kind))

/-- Infer the type of the node at a handle below `bound`, unless it is remembered. -/
def inferBelow (program : Program) (continuation : Name) : (bound : Nat) → Handle → TypingM Ty
  | 0, handle => throw (.graph (.unknownHandle handle))
  | bound + 1, handle => do
    match (← get).lookup handle with
    | some ty => return ty
    | none =>
      let node ← program.table.get handle
      let ty ← program.inferNode continuation (program.inferBelow continuation bound) node
      modify ((handle, ty) :: ·)
      return ty

/-- The type of an expression that occurs in the body of a continuation. -/
def typeOf (program : Program) (continuation : Name) (handle : Handle) : TypingM Ty :=
  program.inferBelow continuation (handle + 1) handle

/-- Check a body. A call needs a callee of function type and one argument of the right type for each
parameter, a branch a boolean condition and two targets without parameters. -/
def checkBody (program : Program) (continuation : Name) : Node → TypingM Unit
  | .call callee arguments => do
    match ← program.typeOf continuation callee with
    | .fn params =>
      if params.length ≠ arguments.length then
        throw (.argumentCount continuation params.length arguments.length)
      (params.zip arguments).forM fun (expected, argument) =>
        expectTy (program.typeOf continuation) continuation expected argument
    | actual => throw (.notCallable continuation actual)
  | .branch [condition, onTrue, onFalse] => do
    expectTy (program.typeOf continuation) continuation .bool condition
    expectTy (program.typeOf continuation) continuation (.fn []) onTrue
    expectTy (program.typeOf continuation) continuation (.fn []) onFalse
  | .branch arguments => throw (.graph (.malformedBranch arguments.length))
  | node => throw (.graph (.notABody continuation node.kind))

/-- Check the body of a label. -/
def checkLabel (program : Program) (label : Label) : TypingM Unit := do
  let body ← program.table.get label.body
  program.checkBody label.name body

/-- Check the labels in order of definition, reporting how many expressions got a type. -/
def typeCheckReport (program : Program) : Report TypingError Unit :=
  .ofSuccess do
    let ((), known) ← (program.labels.forM program.checkLabel).run []
    return ((), .typesChecked program.labels.length known.length)

/-- Check every label of a program. -/
def typeCheck (program : Program) : Except TypingError Unit := program.typeCheckReport.outcome

end Program

end CpsGraph
