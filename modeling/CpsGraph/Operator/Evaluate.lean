import CpsGraph.Error

/-! # The operator table

Operators and casts on literals. Integer arithmetic wraps at 64 bits, and division truncates
toward zero. The evaluator and the simplifier share this table.
-/

namespace CpsGraph.Literal

/-- The value of an integer literal, or the error that one was expected. -/
def asInt (literal : Literal) : Except EvalError Int64 :=
  literal.int?.elim (.error (.expectedInt literal)) .ok

/-- The value of a boolean literal, or the error that one was expected. -/
def asBool (literal : Literal) : Except EvalError Bool :=
  literal.bool?.elim (.error (.expectedBool literal)) .ok

/-- Convert between integers and booleans: an integer is true if it is positive, and a boolean
counts as one or zero. Nothing else can be converted, not even to its own type. -/
def cast : Literal → Ty → Except EvalError Literal
  | .int value, .bool => .ok (.bool (0 < value))
  | .bool value, .int => .ok (.int (if value then 1 else 0))
  | literal, target => .error (.invalidCast literal target)

end CpsGraph.Literal

namespace CpsGraph.Operator

/-- Apply an operator to literals. Operands are inspected from left to right, and the second
operand of `and` and `or` only if the first one leaves the result open. -/
def evaluate : Operator → List Literal → Except EvalError Literal
  | .add, [a, b] => do return .int ((← a.asInt) + (← b.asInt))
  | .sub, [a, b] => do return .int ((← a.asInt) - (← b.asInt))
  | .mul, [a, b] => do return .int ((← a.asInt) * (← b.asInt))
  | .div, [a, b] => do
    let dividend ← a.asInt
    let divisor ← b.asInt
    if divisor = 0 then throw .divisionByZero else return .int (dividend / divisor)
  | .mod, [a, b] => do
    let dividend ← a.asInt
    let divisor ← b.asInt
    if divisor = 0 then throw .divisionByZero else return .int (dividend % divisor)
  | .and, [a, b] => do if ← a.asBool then return .bool (← b.asBool) else return .bool false
  | .or, [a, b] => do if ← a.asBool then return .bool true else return .bool (← b.asBool)
  | .not, [a] => do return .bool (!(← a.asBool))
  | .less, [a, b] => do return .bool ((← a.asInt) < (← b.asInt))
  | .lessEq, [a, b] => do return .bool ((← a.asInt) ≤ (← b.asInt))
  | .equal, [a, b] => do return .bool ((← a.asInt) = (← b.asInt))
  | op, operands => .error (.arity op op.arity operands.length)

end CpsGraph.Operator
