import CpsGraph.Text.Blank
import CpsGraph.Ty.Basic

/-! # Tokens of written types

A type is written with six tokens, with blanks before them where one likes. The tokens begin with
different characters, so at most one of them can be taken from the front of a text.
-/

namespace CpsGraph.Ty

/-- A token of a written type. -/
inductive Token where
  | int
  | bool
  | fn
  | openParen
  | closeParen
  | comma
deriving Repr, DecidableEq

namespace Token

/-- The characters of a token. -/
def text : Token → List Char
  | .int => ['i', 'n', 't']
  | .bool => ['b', 'o', 'o', 'l']
  | .fn => ['f', 'n']
  | .openParen => ['(']
  | .closeParen => [')']
  | .comma => [',']

/-- The characters that a printed type shows for a token: a comma is followed by one space. -/
def spell : Token → List Char
  | .comma => [',', ' ']
  | token => token.text

/-- Take a token from the front of a text, with the blanks before it. -/
def eat (token : Token) (input : List Char) : Option (List Char) :=
  let rest := input.dropWhile Text.isBlank
  if token.text.isPrefixOf rest then some (rest.drop token.text.length) else none

end Token

mutual

/-- The token sequence of a type. -/
def tokens : Ty → List Token
  | .int => [.int]
  | .bool => [.bool]
  | .fn params => .fn :: .openParen :: (paramTokens params ++ [.closeParen])

/-- The token sequence between the parentheses of a function type. -/
def paramTokens : List Ty → List Token
  | [] => []
  | [param] => tokens param
  | param :: next :: params => tokens param ++ .comma :: paramTokens (next :: params)

end

end CpsGraph.Ty
