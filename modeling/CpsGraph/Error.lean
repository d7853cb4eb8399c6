import CpsGraph.Node.Basic

/-! # Errors

What can go wrong, as causes. Each family of errors has one function that words its messages.
-/

namespace CpsGraph

/-- A fault in the structure of a program or in a request about it. -/
inductive GraphError where
  | unboundName (name : Name)
  | parameterOutOfRange (name : Name) (index arity : Nat)
  | malformedBranch (actual : Nat)
  | duplicateLabel (name : Name)
  | notABody (name : Name) (kind : NodeKind)
  | notAnExpression (kind : NodeKind)
  | argumentMapping (index arity : Nat)
  | invalidType (text : String)
  | unknownHandle (handle : Handle)
deriving Repr, DecidableEq, Inhabited

/-- The wording of a structural fault. -/
def GraphError.message : GraphError → String
  | .unboundName name => s!"unbound continuation name `{name}`"
  | .parameterOutOfRange name index arity =>
    s!"parameter index {index} out of range for `{name}` (arity {arity})"
  | .malformedBranch actual => s!"BRANCH expects 3 arguments, got {actual}"
  | .duplicateLabel name => s!"duplicate label `{name}`"
  | .notABody name kind =>
    s!"body of `{name}` must be a Call or Intrinsic, got {kind.render}"
  | .notAnExpression kind => s!"expected an expression, got {kind.render}"
  | .argumentMapping index arity =>
    s!"argument mapping index {index} out of range (arity {arity})"
  | .invalidType text => s!"invalid type `{text}`"
  | .unknownHandle handle => s!"unknown node handle {handle}"

/-- Why an evaluation or a run fails. -/
inductive EvalError where
  | graph (cause : GraphError)
  | divisionByZero
  | arity (op : Operator) (expected actual : Nat)
  | expectedInt (actual : Literal)
  | expectedBool (actual : Literal)
  | invalidCast (value : Literal) (target : Ty)
  | notAClosure (actual : Literal)
  | notALiteral
  | unboundParameter (name : Name) (index : Nat)
  | argumentCount (name : Name) (expected actual : Nat)
  | stepLimitExceeded (limit : Nat)
deriving Repr, DecidableEq, Inhabited

/-- The wording of a failed evaluation. -/
def EvalError.message : EvalError → String
  | .graph cause => cause.message
  | .divisionByZero => "division by zero"
  | .arity op expected actual => s!"{op.name} expects {expected} operands, got {actual}"
  | .expectedInt actual => s!"expected an int, got {actual.render}"
  | .expectedBool actual => s!"expected a bool, got {actual.render}"
  | .invalidCast value target => s!"cannot cast {value.render} to {target.render}"
  | .notAClosure actual => s!"callee is not a closure: {actual.render}"
  | .notALiteral => "expected a literal, got a closure"
  | .unboundParameter name index => s!"parameter {index} of `{name}` is not bound"
  | .argumentCount name expected actual =>
    s!"`{name}` expects {expected} arguments, got {actual}"
  | .stepLimitExceeded limit => s!"step limit of {limit} exceeded"

/-- Why a program is ill typed. Each cause but a structural fault names the continuation in whose
body it was found. -/
inductive TypingError where
  | graph (cause : GraphError)
  | mismatch (continuation : Name) (expected actual : Ty)
  | arity (continuation : Name) (op : Operator) (expected actual : Nat)
  | unsupportedCast (continuation : Name) (source target : Ty)
  | notCallable (continuation : Name) (actual : Ty)
  | argumentCount (continuation : Name) (expected actual : Nat)
deriving Repr, DecidableEq, Inhabited

/-- The wording of a typing error. -/
def TypingError.message : TypingError → String
  | .graph cause => cause.message
  | .mismatch continuation expected actual =>
    s!"in `{continuation}`: expected {expected.render}, got {actual.render}"
  | .arity continuation op expected actual =>
    s!"in `{continuation}`: {op.name} expects {expected} operands, got {actual}"
  | .unsupportedCast continuation source target =>
    s!"in `{continuation}`: unsupported cast from {source.render} to {target.render}"
  | .notCallable continuation actual =>
    s!"in `{continuation}`: callee of type {actual.render} is not callable"
  | .argumentCount continuation expected actual =>
    s!"in `{continuation}`: callee expects {expected} arguments, got {actual}"

/-- Why an export as DOT text fails: the sink is full, or the program has a fault. -/
inductive DotError where
  | sinkFull
  | graph (cause : GraphError)
deriving Repr, DecidableEq, Inhabited

/-- The wording of a failed export. -/
def DotError.message : DotError → String
  | .sinkFull => "failed to write dot output"
  | .graph cause => cause.message

end CpsGraph

namespace CpsGraph.Ty

/-- Read a type, naming the whole text in the error. -/
def parse (text : String) : Except GraphError Ty :=
  (parse? text).elim (.error (.invalidType text)) .ok

end CpsGraph.Ty

namespace CpsGraph.Signature

/-- Read a signature, naming the whole text in the error. -/
def parse (text : String) : Except GraphError Signature :=
  (parse? text).elim (.error (.invalidType text)) .ok

end CpsGraph.Signature
