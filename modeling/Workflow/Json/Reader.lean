import Workflow.Json
import Workflow.Text.Digits

/-!
# Reading a JSON document

A reader takes something off the head of a text and gives it with the rest, or refuses. Objects and
arrays may be nested to a given depth.

* `Json.Reader.number`: a literal without fraction and exponent is an integer if a word of 64 bits
  holds it, and so is any other number a double.
* `Json.Reader.scale`: the double of such a literal. Of its digits those count that fit a word of 64
  bits; the word is rounded to a double, which is then multiplied or divided by a power of ten and
  rounded again. A literal past the largest double is refused.
* `Json.Reader.stringBody`: a string; an escaped surrogate must be one of a pair.
* `Json.document?`: a whole text as a document, its fields as they stand.
* `Json.ofText?`: a whole text as a value.
-/

namespace Workflow.Json

/-- How deeply the arrays and objects of a text may be nested. -/
def maxDepth : Nat := 127

namespace Reader

/-- The text after its leading white space. -/
def skipSpace (cs : List Char) : List Char :=
  cs.dropWhile fun c => c == ' ' || c == '\n' || c == '\r' || c == '\t'

/-! ## Numbers -/

/-- Appends digits to a number while a word of 64 bits holds it; gives the number and how many
digits were left over. -/
def gather : Nat → List Char → Nat × Nat
  | word, [] => (word, 0)
  | word, c :: cs =>
    let next := 10 * word + Text.digitValue c
    if next < Word.count64 then gather next cs else (word, cs.length + 1)

/-- Divides by a power of ten, by `10 ^ 308` at a time. Once zero is reached it stays. -/
def scaleDown (x : Double) (places : Nat) : Double :=
  if places ≤ 308 then x.div (.tenTo places)
  else if x.isZero then x
  else scaleDown (x.div (.tenTo 308)) (places - 308)
termination_by places
decreasing_by omega

/-- The double of `word * 10 ^ exponent`, unless it is too large. -/
def scale (word : Nat) (exponent : Int) : Option Double :=
  let x := Double.ofNat word
  if exponent < 0 then some (scaleDown x (-exponent).toNat)
  else if x.isZero then some x
  else if 308 < exponent then none
  else match x.mul (.tenTo exponent.toNat) with
    | .infinite _ => none
    | product => some product

/-- The number whose literal has neither fraction nor exponent. Negative zero is a double. -/
def whole (negative : Bool) (word leftOver : Nat) : Option Number :=
  if 0 < leftOver then (scale word leftOver).map fun x => .double (if negative then x.neg else x)
  else if !negative then some (.int word)
  else if 0 < word ∧ word ≤ Word.count64 / 2 then some (.int (-(word : Int)))
  else some (.double (Double.ofNat word).neg)

/-- Reads an exponent after its letter: an optional sign and at least one digit. -/
def exponent (cs : List Char) : Option (Int × List Char) :=
  let (negative, cs) := match cs with
    | '-' :: rest => (true, rest)
    | '+' :: rest => (false, rest)
    | rest => (false, rest)
  let (digits, rest) := Text.spanDigits cs
  if digits.isEmpty then none
  else
    let n : Int := Text.digitsValue digits
    some (if negative then -n else n, rest)

/-- Reads the exponent, if there is one, of a literal that is not whole. -/
def scaled (negative : Bool) (word : Nat) (places : Int) (cs : List Char) :
    Option (Number × List Char) := do
  let (shift, rest) ← match cs with
    | 'e' :: rest | 'E' :: rest => exponent rest
    | rest => some (0, rest)
  let x ← scale word (places + shift)
  return (.double (if negative then x.neg else x), rest)

/-- Reads what follows the whole part of a literal. -/
def afterWhole (negative : Bool) (word leftOver : Nat) (cs : List Char) :
    Option (Number × List Char) :=
  match cs with
  | '.' :: rest =>
    let (digits, rest) := Text.spanDigits rest
    if digits.isEmpty then none
    else
      let (word, unused) := gather word digits
      scaled negative word (leftOver - (digits.length - unused : Nat)) rest
  | 'e' :: _ | 'E' :: _ => scaled negative word leftOver cs
  | rest => (whole negative word leftOver).map fun n => (n, rest)

/-- Reads a number. A whole part of several digits does not begin with zero. -/
def number (cs : List Char) : Option (Number × List Char) :=
  let (negative, cs) := match cs with
    | '-' :: rest => (true, rest)
    | rest => (false, rest)
  let (digits, rest) := Text.spanDigits cs
  match digits with
  | [] => none
  | '0' :: _ :: _ => none
  | digits =>
    let (word, leftOver) := gather 0 digits
    afterWhole negative word leftOver rest

/-! ## Strings -/

/-- The value of four hexadecimal digits. -/
def hexUnit? (a b c d : Char) : Option Nat := do
  let a ← Text.hexValue? a
  let b ← Text.hexValue? b
  let c ← Text.hexValue? c
  let d ← Text.hexValue? d
  return ((a * 16 + b) * 16 + c) * 16 + d

/-- The character that a letter after a backslash stands for. -/
def escaped? : Char → Option Char
  | '"' => some '"'
  | '\\' => some '\\'
  | '/' => some '/'
  | 'b' => some '\x08'
  | 'f' => some '\x0c'
  | 'n' => some '\n'
  | 'r' => some '\r'
  | 't' => some '\t'
  | _ => none

/-- Reads a string after its opening quote. The characters read so far are `acc`, the last one
first. -/
def stringBody (acc : List Char) : List Char → Option (String × List Char)
  | [] => none
  | '"' :: rest => some (String.ofList acc.reverse, rest)
  | '\\' :: 'u' :: a :: b :: c :: d :: rest =>
    match hexUnit? a b c d with
    | none => none
    | some unit =>
      if unit < 0xD800 ∨ 0xE000 ≤ unit then stringBody (Char.ofNat unit :: acc) rest
      else if 0xDC00 ≤ unit then none
      else match rest with
        | '\\' :: 'u' :: e :: f :: g :: h :: rest =>
          match hexUnit? e f g h with
          | none => none
          | some low =>
            if 0xDC00 ≤ low ∧ low < 0xE000 then
              let code := 0x10000 + (unit - 0xD800) * 0x400 + (low - 0xDC00)
              stringBody (Char.ofNat code :: acc) rest
            else none
        | _ => none
  | '\\' :: c :: rest =>
    match escaped? c with
    | none => none
    | some c => stringBody (c :: acc) rest
  | c :: rest => if c.toNat < 0x20 then none else stringBody (c :: acc) rest

/-! ## Documents -/

mutual

/-- Reads a value, with `depth` levels of nesting left. Every step uses up one of `fuel`. -/
def value : (fuel : Nat) → (depth : Nat) → List Char → Option (Json × List Char)
  | 0, _, _ => none
  | fuel + 1, depth, cs =>
    match skipSpace cs with
    | 'n' :: 'u' :: 'l' :: 'l' :: rest => some (.null, rest)
    | 't' :: 'r' :: 'u' :: 'e' :: rest => some (.bool true, rest)
    | 'f' :: 'a' :: 'l' :: 's' :: 'e' :: rest => some (.bool false, rest)
    | '"' :: rest => (stringBody [] rest).map fun (s, rest) => (.string s, rest)
    | '[' :: rest =>
      if depth = 0 then none
      else match skipSpace rest with
        | ']' :: rest => some (.array [], rest)
        | rest => (items fuel (depth - 1) rest).map fun (xs, rest) => (.array xs, rest)
    | '{' :: rest =>
      if depth = 0 then none
      else match skipSpace rest with
        | '}' :: rest => some (.object [], rest)
        | rest => (fields fuel (depth - 1) rest).map fun (xs, rest) => (.object xs, rest)
    | rest => (number rest).map fun (n, rest) => (.number n, rest)

/-- Reads the items of an array, at least one, up to its closing bracket. -/
def items : (fuel : Nat) → (depth : Nat) → List Char → Option (List Json × List Char)
  | 0, _, _ => none
  | fuel + 1, depth, cs =>
    match value fuel depth cs with
    | none => none
    | some (x, rest) =>
      match skipSpace rest with
      | ']' :: rest => some ([x], rest)
      | ',' :: rest => (items fuel depth rest).map fun (xs, rest) => (x :: xs, rest)
      | _ => none

/-- Reads the fields of an object, at least one, up to its closing brace. -/
def fields : (fuel : Nat) → (depth : Nat) → List Char → Option (List (String × Json) × List Char)
  | 0, _, _ => none
  | fuel + 1, depth, cs =>
    match skipSpace cs with
    | '"' :: rest =>
      match stringBody [] rest with
      | none => none
      | some (name, rest) =>
        match skipSpace rest with
        | ':' :: rest =>
          match value fuel depth rest with
          | none => none
          | some (x, rest) =>
            match skipSpace rest with
            | '}' :: rest => some ([(name, x)], rest)
            | ',' :: rest =>
              (fields fuel depth rest).map fun (xs, rest) => ((name, x) :: xs, rest)
            | _ => none
        | _ => none
    | _ => none

end

end Reader

/-- Reads a whole text as a document, nested at most `depth` deep. Two steps per character are more
than any text needs. -/
def document? (depth : Nat) (cs : List Char) : Option Json :=
  match Reader.value (2 * cs.length + 2) depth cs with
  | some (v, rest) => if (Reader.skipSpace rest).isEmpty then some v else none
  | none => none

/-- Reads a whole text as a value, nested at most `maxDepth` deep. -/
def ofText? (text : String) : Option Json := (document? maxDepth text.toList).map canonical

end Workflow.Json
