import CpsGraph.Program.Basic
import CpsGraph.Value

/-! # Evaluation

Expressions are evaluated in an environment. A node that occurs several times in the expressions of
one step is evaluated once, and its value is remembered for the rest of the step.
-/

namespace CpsGraph

/-- A structural fault fails an evaluation. -/
instance : MonadLift (Except GraphError) (Except EvalError) where
  monadLift result := result.mapError .graph

/-- Evaluation with the values of the nodes that were already evaluated. -/
abbrev EvalM := StateT (List (Handle × Value)) (Except EvalError)

namespace Program

/-- The value of a parameter. A name that is no label or an index out of range is a structural
fault, also if the environment has a value there. -/
def parameterValue (program : Program) (env : Env) (name : Name) (index : Nat) :
    Except EvalError Value := do
  let _ ← program.parameter name index
  match (env.get? name).bind (·[index]?) with
  | some value => return value
  | none => throw (.unboundParameter name index)

/-- The value of a node, given how to evaluate its children. Operands are evaluated from left to
right, and a closure captures the whole environment. -/
def evalNode (program : Program) (env : Env) (eval : Handle → EvalM Value) : Node → EvalM Value
  | .primitive op operands => do
    let literals ← operands.mapM fun operand => do (← eval operand).asLiteral
    return .literal (← op.evaluate literals)
  | .abstraction target => do
    let label ← program.resolve target
    return .closure label.name env
  | .parameter target index => program.parameterValue env target index
  | .quote literal => return .literal literal
  | .cast source ty => do
    let literal ← (← eval source).asLiteral
    return .literal (← literal.cast ty)
  | node => throw (.graph (.notAnExpression node.kind))

/-- Evaluate the node at a handle below `bound`, unless its value is remembered. -/
def evalBelow (program : Program) (env : Env) : (bound : Nat) → Handle → EvalM Value
  | 0, handle => throw (.graph (.unknownHandle handle))
  | bound + 1, handle => do
    match (← get).lookup handle with
    | some value => return value
    | none =>
      let node ← program.table.get handle
      let value ← program.evalNode env (program.evalBelow env bound) node
      modify ((handle, value) :: ·)
      return value

/-- Evaluate a node, remembering the values of its parts. -/
def eval (program : Program) (env : Env) (handle : Handle) : EvalM Value :=
  program.evalBelow env (handle + 1) handle

/-- The value of a node in an environment. -/
def evaluate (program : Program) (env : Env) (handle : Handle) : Except EvalError Value :=
  (program.eval env handle).run' []

end Program

end CpsGraph
