import CpsGraph.Text.Extender
import CpsGraph.Text.Hidden

/-! # Quoted text

Two ways to put a text between double quotes: `escape` only protects quotes and backslashes, which
is all that a DOT identifier needs, while `quote` also spells out every character that a reader
could not tell on sight, as in a message that must stay on one line.
-/

namespace CpsGraph.Text

/-- Put a backslash before every quote and every backslash. -/
def escapeChars : List Char → List Char
  | [] => []
  | c :: rest => if c = '"' ∨ c = '\\' then '\\' :: c :: escapeChars rest else c :: escapeChars rest

/-- Protect a text for use between double quotes. -/
def escape (text : String) : String := String.ofList (escapeChars text.toList)

/-- The characters that stand for one character of a quoted text. A hidden character or an extending
mark without a short form is spelled by its code point. -/
def quoteChar (c : Char) : List Char :=
  if c = '"' ∨ c = '\\' then ['\\', c]
  else if c = '\n' then ['\\', 'n']
  else if c = '\r' then ['\\', 'r']
  else if c = '\t' then ['\\', 't']
  else if c = '\x00' then ['\\', '0']
  else if isHidden c || isExtender c then ['\\', 'u', '\x7b'] ++ Nat.toDigits 16 c.toNat ++ ['\x7d']
  else [c]

/-- A text between double quotes, on one line. -/
def quote (text : String) : String :=
  String.ofList ('"' :: (text.toList.flatMap quoteChar ++ ['"']))

/-- Texts separated by commas. -/
def commaSeparated (texts : List String) : String := ", ".intercalate texts

end CpsGraph.Text
