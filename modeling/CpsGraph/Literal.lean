import CpsGraph.Ty.Text

/-! # Literals

The constants that a program can mention: 64-bit integers, booleans, and for each type a
placeholder whose value is not known.
-/

namespace CpsGraph

/-- A constant. `bottom ty` stands for an unknown value of type `ty`. -/
inductive Literal where
  | bottom (ty : Ty)
  | int (value : Int64)
  | bool (value : Bool)
deriving Repr, DecidableEq, Inhabited

namespace Literal

/-- The type of a literal. -/
def ty : Literal → Ty
  | .bottom ty => ty
  | .int _ => .int
  | .bool _ => .bool

/-- Whether the value of a literal is known. -/
def isKnown : Literal → Bool
  | .bottom _ => false
  | _ => true

/-- The value of an integer literal. -/
def int? : Literal → Option Int64
  | .int value => some value
  | _ => none

/-- The value of a boolean literal. -/
def bool? : Literal → Option Bool
  | .bool value => some value
  | _ => none

/-- The printed form of a literal. A placeholder does not show its type. -/
def render : Literal → String
  | .bottom _ => "⊥"
  | .int value => toString value.toInt
  | .bool true => "true"
  | .bool false => "false"

end Literal

end CpsGraph
