import CpsGraph.Value

/-! # Errors of the client interface

A client gets every failure as one text.
-/

namespace CpsGraph

/-- Why a request of a client fails. -/
inductive ClientError where
  | graph (cause : GraphError)
  | eval (cause : EvalError)
  | typing (cause : TypingError)
  | dot (cause : DotError)
  | unknownOperator (text : String)
  | nonIntegerResult (value : Value)
deriving Repr, DecidableEq

/-- The wording of a failed request. -/
def ClientError.message : ClientError → String
  | .graph cause => cause.message
  | .eval cause => cause.message
  | .typing cause => cause.message
  | .dot cause => cause.message
  | .unknownOperator text => s!"unknown operator `{text}`"
  | .nonIntegerResult value => s!"non-integer result {value.render}"

/-- A structural fault fails a request. -/
instance : MonadLift (Except GraphError) (Except ClientError) where
  monadLift result := result.mapError .graph

/-- A failed evaluation fails a request. -/
instance : MonadLift (Except EvalError) (Except ClientError) where
  monadLift result := result.mapError .eval

/-- A typing error fails a request. -/
instance : MonadLift (Except TypingError) (Except ClientError) where
  monadLift result := result.mapError .typing

/-- A failed export fails a request. -/
instance : MonadLift (Except DotError) (Except ClientError) where
  monadLift result := result.mapError .dot

end CpsGraph
