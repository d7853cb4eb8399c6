import CpsGraph.Ty.Token

/-! # Written types

Types are printed as `int`, `bool` and `fn(int, fn(bool))`, and read back from any text with the
same tokens.
-/

namespace CpsGraph.Ty

/-- The printed form of a type. -/
def render (ty : Ty) : String :=
  String.ofList (ty.tokens.flatMap Token.spell)

mutual

/-- Read a type from the front of a text, with at most `fuel` nested calls. -/
def readType : (fuel : Nat) → List Char → Option (Ty × List Char)
  | 0, _ => none
  | fuel + 1, input =>
    match Token.int.eat input with
    | some rest => some (.int, rest)
    | none =>
      match Token.bool.eat input with
      | some rest => some (.bool, rest)
      | none => do
        let (params, rest) ← readSignature fuel (← Token.fn.eat input)
        return (.fn params, rest)

/-- Read a list of parameters in parentheses. -/
def readSignature : (fuel : Nat) → List Char → Option (List Ty × List Char)
  | 0, _ => none
  | fuel + 1, input => do
    let rest ← Token.openParen.eat input
    match Token.closeParen.eat rest with
    | some rest => return ([], rest)
    | none => readParams fuel rest

/-- Read parameters, of which there is one at least, and the closing parenthesis. -/
def readParams : (fuel : Nat) → List Char → Option (List Ty × List Char)
  | 0, _ => none
  | fuel + 1, input => do
    let (param, rest) ← readType fuel input
    match Token.comma.eat rest with
    | some rest =>
      let (params, rest) ← readParams fuel rest
      return (param :: params, rest)
    | none => return ([param], ← Token.closeParen.eat rest)

end

/-- Read a type that takes up the whole text, but for blanks after it. To read a type takes at most as many
nested calls as it has tokens, and a text has at least as many characters. -/
def parse? (text : String) : Option Ty := do
  let (ty, rest) ← readType text.toList.length text.toList
  if (rest.dropWhile Text.isBlank).isEmpty then return ty else none

end CpsGraph.Ty

namespace CpsGraph.Signature

/-- The printed form of the function type with this signature. -/
def render (signature : Signature) : String := (Ty.fn signature).render

/-- Read a signature, written as a function type. -/
def parse? (text : String) : Option Signature := (Ty.parse? text).bind Ty.params?

end CpsGraph.Signature
