import Workflow.Text.Digits

/-!
# The texts of a TOML document

Spaces, ends of lines, strings and keys. A reader takes something off the head of a text and gives
it with the rest, or refuses; fuel is the number of characters that it may look at.

* `endLine?`: the end of a line, before which a comment may stand.
* `skipLines?`: spaces, ends of lines and comments between the items of an array.
* `string?`: a string of one of four forms.
* `keyPath?`: a key, or several with dots between.
-/

namespace Workflow.Toml

/-! ## Between things -/

/-- Spaces and tabs. -/
def isSpace (c : Char) : Bool := c == ' ' || c == '\t'

/-- The text after its leading spaces. -/
def skipSpace (cs : List Char) : List Char := cs.dropWhile isSpace

/-- A character that may stand for itself: a tab, or one that is no control character of ASCII. -/
def isPlain (c : Char) : Bool := c == '\t' || (0x20 ≤ c.toNat && c.toNat != 0x7F)

/-- The text after a newline, before which a carriage return may stand. -/
def newline? : List Char → Option (List Char)
  | '\n' :: rest => some rest
  | '\r' :: '\n' :: rest => some rest
  | _ => none

/-- The text after a comment, if one stands here. -/
def skipComment : List Char → List Char
  | '#' :: rest => rest.dropWhile isPlain
  | cs => cs

/-- The text after the end of a line: spaces, perhaps a comment, and a newline unless the text
ends. -/
def endLine? (cs : List Char) : Option (List Char) :=
  match skipComment (skipSpace cs) with
  | [] => some []
  | rest => newline? rest

/-- The text after spaces and newlines. -/
def skipFolded : List Char → List Char
  | [] => []
  | '\n' :: rest => skipFolded rest
  | '\r' :: '\n' :: rest => skipFolded rest
  | c :: rest => if isSpace c then skipFolded rest else c :: rest

/-- The text after spaces, newlines and comments; a comment has to end with a newline. -/
def skipLines? : (inComment : Bool) → List Char → Option (List Char)
  | inComment, [] => if inComment then none else some []
  | _, '\n' :: rest => skipLines? false rest
  | _, '\r' :: '\n' :: rest => skipLines? false rest
  | true, c :: rest => if isPlain c then skipLines? true rest else none
  | false, '#' :: rest => skipLines? true rest
  | false, c :: rest => if isSpace c then skipLines? false rest else some (c :: rest)

/-! ## Strings -/

/-- The character of a number of hexadecimal digits; a surrogate is none. -/
def codePoint? (digits : List Char) : Option Char := do
  let values ← digits.mapM Text.hexValue?
  let n := values.foldl (fun n d => 16 * n + d) 0
  if n.isValidChar then some (Char.ofNat n) else none

/-- Reads a character of so many hexadecimal digits. -/
def codePointOf? (count : Nat) (cs : List Char) : Option (Char × List Char) :=
  if cs.length < count then none
  else (codePoint? (cs.take count)).map fun c => (c, cs.drop count)

/-- Reads what stands after a backslash. -/
def escaped? : List Char → Option (Char × List Char)
  | 'b' :: rest => some ('\x08', rest)
  | 't' :: rest => some ('\t', rest)
  | 'n' :: rest => some ('\n', rest)
  | 'f' :: rest => some ('\x0c', rest)
  | 'r' :: rest => some ('\r', rest)
  | '"' :: rest => some ('"', rest)
  | '\\' :: rest => some ('\\', rest)
  | 'u' :: rest => codePointOf? 4 rest
  | 'U' :: rest => codePointOf? 8 rest
  | _ => none

/-- Reads a string with escapes up to its closing quote. -/
def basic? : (fuel : Nat) → List Char → Option (List Char × List Char)
  | 0, _ => none
  | fuel + 1, cs =>
    match cs with
    | [] => none
    | '"' :: rest => some ([], rest)
    | '\\' :: rest => do
      let (c, rest) ← escaped? rest
      let (text, rest) ← basic? fuel rest
      return (c :: text, rest)
    | c :: rest =>
      if isPlain c then (basic? fuel rest).map fun (text, rest) => (c :: text, rest) else none

/-- Reads a string without escapes up to its closing quote. -/
def literal? (cs : List Char) : Option (List Char × List Char) :=
  let isInside := fun c => isPlain c && c != '\x27'
  match cs.dropWhile isInside with
  | '\x27' :: rest => some (cs.takeWhile isInside, rest)
  | _ => none

/-- Reads a string of several lines up to its three closing quotes, before which up to two more
belong to the string. Only between double quotes there are escapes; a backslash at the end of a line
takes up all spaces and newlines that follow. -/
def lines? (quote : Char) : (fuel : Nat) → List Char → Option (List Char × List Char)
  | 0, _ => none
  | fuel + 1, cs =>
    if cs.take 3 = [quote, quote, quote] then
      let rest := cs.drop 3
      let more := (rest.takeWhile (· == quote)).take 2
      some (more, rest.drop more.length)
    else match newline? cs with
      | some rest => (lines? quote fuel rest).map fun (text, rest) => ('\n' :: text, rest)
      | none =>
        match cs with
        | [] => none
        | c :: rest =>
          if c = '\\' ∧ quote = '"' then
            match newline? (skipSpace rest) with
            | some rest => lines? quote fuel (skipFolded rest)
            | none => do
              let (c, rest) ← escaped? rest
              let (text, rest) ← lines? quote fuel rest
              return (c :: text, rest)
          else if isPlain c then
            (lines? quote fuel rest).map fun (text, rest) => (c :: text, rest)
          else none

/-- Reads a string of several lines after its three opening quotes; a newline right behind them does
not belong to the string. -/
def openLines? (quote : Char) (cs : List Char) : Option (List Char × List Char) :=
  let cs := (newline? cs).getD cs
  lines? quote (cs.length + 1) cs

/-- Reads a string. -/
def string? : List Char → Option (List Char × List Char)
  | '"' :: '"' :: '"' :: rest => openLines? '"' rest
  | '\x27' :: '\x27' :: '\x27' :: rest => openLines? '\x27' rest
  | '"' :: rest => basic? (rest.length + 1) rest
  | '\x27' :: rest => literal? rest
  | _ => none

/-! ## Keys -/

/-- A character of a key without quotes. -/
def isBare (c : Char) : Bool := c.isAlphanum || c == '_' || c == '-'

/-- Reads a key. -/
def key? : List Char → Option (String × List Char)
  | '"' :: rest => (basic? (rest.length + 1) rest).map fun (text, rest) => (.ofList text, rest)
  | '\x27' :: rest => (literal? rest).map fun (text, rest) => (.ofList text, rest)
  | cs =>
    match cs.takeWhile isBare with
    | [] => none
    | bare => some (.ofList bare, cs.dropWhile isBare)

/-- Reads keys with dots between; spaces may stand around each. -/
def keys? : (fuel : Nat) → List Char → Option (List String × List Char)
  | 0, _ => none
  | fuel + 1, cs => do
    let (key, rest) ← key? (skipSpace cs)
    match skipSpace rest with
    | '.' :: rest =>
      let (path, rest) ← keys? fuel rest
      return (key :: path, rest)
    | rest => return ([key], rest)

/-- How deeply tables and arrays may be nested, less one. -/
def maxDepth : Nat := 79

/-- Reads a path of keys, which gives the keys before the last and the last. -/
def keyPath? (cs : List Char) : Option ((List String × String) × List Char) := do
  let (path, rest) ← keys? (cs.length + 1) cs
  if maxDepth < path.length then none
  let key ← path.getLast?
  return ((path.dropLast, key), rest)

end Workflow.Toml
