import Workflow.Json
import Workflow.Double.Shortest

/-!
# The text of a JSON document

A document is written without any white space. In a string the quote, the backslash and the control
characters are escaped, those with a letter of their own by it and the others by four hexadecimal
digits; everything else stands for itself.

* `Json.escape`, `Json.quoted`: one character of a string, and a whole string.
* `Json.chars`, `Json.text`: a document.
-/

namespace Workflow

/-- A number as it is written. -/
def Number.text : Number → String
  | .int value => Text.intText value
  | .double value => value.text

namespace Json

/-- A hexadecimal digit, in lower case. -/
def hexDigit (n : Nat) : Char := Nat.digitChar (n % 16)

/-- A character as it stands in a string. -/
def escape (c : Char) : List Char :=
  if c = '"' then ['\\', '"']
  else if c = '\\' then ['\\', '\\']
  else if c = '\x08' then ['\\', 'b']
  else if c = '\x0c' then ['\\', 'f']
  else if c = '\n' then ['\\', 'n']
  else if c = '\r' then ['\\', 'r']
  else if c = '\t' then ['\\', 't']
  else if c.toNat < 0x20 then ['\\', 'u', '0', '0', hexDigit (c.toNat / 16), hexDigit c.toNat]
  else [c]

/-- A string between its quotes. -/
def quoted (s : String) : List Char := '"' :: s.toList.flatMap escape ++ ['"']

mutual

/-- The characters of a document. -/
def chars : Json → List Char
  | .null => ['n', 'u', 'l', 'l']
  | .bool true => ['t', 'r', 'u', 'e']
  | .bool false => ['f', 'a', 'l', 's', 'e']
  | .number n => n.text.toList
  | .string s => quoted s
  | .array [] => ['[', ']']
  | .array (x :: xs) => '[' :: chars x ++ moreItems xs
  | .object [] => ['{', '}']
  | .object ((name, x) :: xs) => '{' :: quoted name ++ ':' :: chars x ++ moreFields xs

/-- The items after the first, each after a comma, and the closing bracket. -/
def moreItems : List Json → List Char
  | [] => [']']
  | x :: xs => ',' :: chars x ++ moreItems xs

/-- The fields after the first, each after a comma, and the closing brace. -/
def moreFields : List (String × Json) → List Char
  | [] => ['}']
  | (name, x) :: xs => ',' :: quoted name ++ ':' :: chars x ++ moreFields xs

end

/-- The text of a document. -/
def text (v : Json) : String := String.ofList v.chars

end Json

end Workflow
