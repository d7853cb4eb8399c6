/-! # Types

The static types of the language: integers, booleans and functions. Functions only take
parameters, since control never returns to a caller. Types have no identity beyond their
structure, so equality is structural and decidable.
-/

namespace CpsGraph

/-- A type: an integer, a boolean, or a function with the given parameter types. -/
inductive Ty where
  | int
  | bool
  | fn (params : List Ty)
deriving Repr, Inhabited

/-- The parameter types of a continuation. -/
abbrev Signature := List Ty

namespace Ty

mutual

/-- Structural equality of types is decidable. -/
protected def decEq : (a b : Ty) → Decidable (a = b)
  | .int, .int => isTrue rfl
  | .bool, .bool => isTrue rfl
  | .fn as, .fn bs =>
    match Ty.decEqParams as bs with
    | isTrue same => isTrue (by rw [same])
    | isFalse differ => isFalse (by simpa using differ)
  | .int, .bool => isFalse nofun
  | .int, .fn _ => isFalse nofun
  | .bool, .int => isFalse nofun
  | .bool, .fn _ => isFalse nofun
  | .fn _, .int => isFalse nofun
  | .fn _, .bool => isFalse nofun

/-- Structural equality of parameter lists is decidable. -/
protected def decEqParams : (as bs : List Ty) → Decidable (as = bs)
  | [], [] => isTrue rfl
  | [], _ :: _ => isFalse nofun
  | _ :: _, [] => isFalse nofun
  | a :: as, b :: bs =>
    match Ty.decEq a b with
    | isFalse differ => isFalse (by simp [differ])
    | isTrue sameHead =>
      match Ty.decEqParams as bs with
      | isTrue sameTail => isTrue (by rw [sameHead, sameTail])
      | isFalse differ => isFalse (by simp [differ])

end

instance : DecidableEq Ty := Ty.decEq

mutual

/-- How deeply functions are nested as parameters: a primitive type has order zero. -/
def order : Ty → Nat
  | .int => 0
  | .bool => 0
  | .fn params => orderOf params

/-- The order of a function with these parameters: zero without parameters, and otherwise one
more than the largest order of a parameter. -/
def orderOf : List Ty → Nat
  | [] => 0
  | param :: params => max (order param + 1) (orderOf params)

end

/-- The parameter types of a function type. -/
def params? : Ty → Option Signature
  | .fn params => some params
  | _ => none

end Ty

namespace Signature

/-- The number of parameters. -/
def arity (signature : Signature) : Nat := signature.length

/-- The order of a function with this signature. -/
def order (signature : Signature) : Nat := Ty.orderOf signature

end Signature

end CpsGraph
