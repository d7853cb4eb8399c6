import CpsGraph.Ty.Basic

/-! # Operators

The eleven primitive operators. Each one has a fixed number of operands, all of one type, and can
be written with a symbol or with a name.
-/

namespace CpsGraph

/-- A primitive operator on integers or booleans. -/
inductive Operator where
  | add
  | sub
  | mul
  | div
  | mod
  | and
  | or
  | not
  | less
  | lessEq
  | equal
deriving Repr, DecidableEq, Inhabited

namespace Operator

/-- All operators, in the order of their numbering. -/
def all : List Operator :=
  [.add, .sub, .mul, .div, .mod, .and, .or, .not, .less, .lessEq, .equal]

/-- The word for an operator. -/
def name : Operator → String
  | .add => "ADD"
  | .sub => "SUB"
  | .mul => "MUL"
  | .div => "DIV"
  | .mod => "MOD"
  | .and => "AND"
  | .or => "OR"
  | .not => "NOT"
  | .less => "INF"
  | .lessEq => "INFEQ"
  | .equal => "EQ"

/-- The symbol for an operator. -/
def symbol : Operator → String
  | .add => "+"
  | .sub => "-"
  | .mul => "*"
  | .div => "/"
  | .mod => "%"
  | .and => "&&"
  | .or => "||"
  | .not => "!"
  | .less => "<"
  | .lessEq => "<="
  | .equal => "=="

/-- The operator that a text stands for, by symbol or by name. -/
def parse? (text : String) : Option Operator :=
  all.find? fun op => op.symbol == text || op.name == text

/-- The number of operands. -/
def arity : Operator → Nat
  | .not => 1
  | _ => 2

/-- The type of every operand. -/
def operandTy : Operator → Ty
  | .and | .or | .not => .bool
  | _ => .int

/-- The type of the result. -/
def resultTy : Operator → Ty
  | .add | .sub | .mul | .div | .mod => .int
  | _ => .bool

/-- The place of an operator in `all`. -/
def number (op : Operator) : Nat := all.idxOf op

theorem parse?_symbol (op : Operator) : parse? op.symbol = some op := by cases op <;> decide

theorem parse?_name (op : Operator) : parse? op.name = some op := by cases op <;> decide

end Operator

end CpsGraph
