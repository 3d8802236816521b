import Workflow.Json.Reader

/-!
# Reading only what is known

Of an object whose fields are known by name, the values of other fields are read over. They have to
be well formed, but as nothing is made of them they may be nested as deeply as they like, their
numbers may be of any size, and their escaped surrogates need no partner.

* `Json.Reader.skipString`, `skipNumber`, `skipValue`: the text behind a string, a number, a value.
* `Json.Reader.knownFields`: the fields of an object that have one of the given names.
* `Json.recordDocument?`: a whole text as a record of the given fields.
-/

namespace Workflow.Json

namespace Reader

/-! ## Reading over a value -/

/-- The text behind a string, after its opening quote. -/
def skipString : List Char → Option (List Char)
  | [] => none
  | '"' :: rest => some rest
  | '\\' :: 'u' :: a :: b :: c :: d :: rest =>
    if (hexUnit? a b c d).isSome then skipString rest else none
  | '\\' :: c :: rest => if (escaped? c).isSome then skipString rest else none
  | c :: rest => if c.toNat < 0x20 then none else skipString rest

/-- The text behind the exponent of a number, if it has one. -/
def skipExponent (cs : List Char) : Option (List Char) :=
  match cs with
  | 'e' :: rest | 'E' :: rest => (exponent rest).map (·.2)
  | rest => some rest

/-- The text behind a number. -/
def skipNumber (cs : List Char) : Option (List Char) :=
  let (digits, rest) := Text.spanDigits (if cs.head? = some '-' then cs.drop 1 else cs)
  match digits with
  | [] => none
  | '0' :: _ :: _ => none
  | _ =>
    match rest with
    | '.' :: rest =>
      let (places, rest) := Text.spanDigits rest
      if places.isEmpty then none else skipExponent rest
    | rest => skipExponent rest

mutual

/-- The text behind a value. Every step uses up one of `fuel`. -/
def skipValue : (fuel : Nat) → List Char → Option (List Char)
  | 0, _ => none
  | fuel + 1, cs =>
    match skipSpace cs with
    | 'n' :: 'u' :: 'l' :: 'l' :: rest => some rest
    | 't' :: 'r' :: 'u' :: 'e' :: rest => some rest
    | 'f' :: 'a' :: 'l' :: 's' :: 'e' :: rest => some rest
    | '"' :: rest => skipString rest
    | '[' :: rest =>
      match skipSpace rest with
      | ']' :: rest => some rest
      | rest => skipItems fuel rest
    | '{' :: rest =>
      match skipSpace rest with
      | '}' :: rest => some rest
      | rest => skipFields fuel rest
    | rest => skipNumber rest

/-- The text behind the items of an array, at least one, and its closing bracket. -/
def skipItems : (fuel : Nat) → List Char → Option (List Char)
  | 0, _ => none
  | fuel + 1, cs =>
    match (skipValue fuel cs).map skipSpace with
    | some (']' :: rest) => some rest
    | some (',' :: rest) => skipItems fuel rest
    | _ => none

/-- The text behind the fields of an object, at least one, and its closing brace. -/
def skipFields : (fuel : Nat) → List Char → Option (List Char)
  | 0, _ => none
  | fuel + 1, cs =>
    match skipSpace cs with
    | '"' :: rest =>
      match (skipString rest).map skipSpace with
      | some (':' :: rest) =>
        match (skipValue fuel rest).map skipSpace with
        | some ('}' :: rest) => some rest
        | some (',' :: rest) => skipFields fuel rest
        | _ => none
      | _ => none
    | _ => none

end

/-! ## Reading the known fields -/

/-- Reads the value of a field, with `depth` levels of nesting left, if its name is known, and reads
over it otherwise. -/
def knownField (names : List String) (fuel depth : Nat) (name : String) (cs : List Char) :
    Option (List (String × Json) × List Char) :=
  if name ∈ names then (value fuel depth cs).map fun (x, rest) => ([(name, x)], rest)
  else (skipValue fuel cs).map fun rest => ([], rest)

/-- Reads the known fields of an object that has at least one field, up to its closing brace. -/
def knownFields (names : List String) : (fuel : Nat) → (depth : Nat) → List Char →
    Option (List (String × Json) × List Char)
  | 0, _, _ => none
  | fuel + 1, depth, cs =>
    match skipSpace cs with
    | '"' :: rest =>
      match (stringBody [] rest).map fun (name, rest) => (name, skipSpace rest) with
      | some (name, ':' :: rest) =>
        match (knownField names fuel depth name rest).map fun (x, rest) => (x, skipSpace rest) with
        | some (x, '}' :: rest) => some (x, rest)
        | some (x, ',' :: rest) =>
          (knownFields names fuel depth rest).map fun (xs, rest) => (x ++ xs, rest)
        | _ => none
      | _ => none
    | _ => none

end Reader

/-- Reads a whole text, nested at most `depth` deep, as a record of the given fields. The other
fields of an object do not count and are not read. -/
def recordDocument? (names : List String) (depth : Nat) (cs : List Char) : Option Json :=
  match Reader.skipSpace cs with
  | '{' :: rest =>
    match Reader.skipSpace rest with
    | '}' :: _ => document? depth cs
    | rest =>
      match Reader.knownFields names (2 * cs.length + 2) (depth - 1) rest with
      | some (fields, rest) =>
        if (Reader.skipSpace rest).isEmpty then some (.object fields) else none
      | none => none
  | _ => document? depth cs

end Workflow.Json
