import Workflow.Toml.Node
import Workflow.Toml.Scalar
import Workflow.Toml.Text

/-!
# Reading a TOML document

* `value?`: a value; arrays and inline tables may be nested as deeply as `maxDepth` allows.
* `Statement`, `statements?`: the lines of a document.
* `document?`: the document as one object.
-/

namespace Workflow.Toml

/-! ## Values -/

/-- The object of the pairs of an inline table. -/
def inlineTable? (pairs : List ((List String × String) × Json)) : Option Json := do
  let fields ← pairs.foldlM
    (fun fields ((path, key), v) => assign? path key v .declared fields) ([] : Fields)
  return .object (fieldsToJson fields)

mutual

/-- Reads a value nested at most `depth` deep. -/
def value? : (fuel depth : Nat) → List Char → Option (Json × List Char)
  | 0, _, _ => none
  | fuel + 1, depth, cs =>
    match cs with
    | '[' :: rest =>
      if depth = 0 then none
      else (items? fuel (depth - 1) rest).map fun (items, rest) => (.array items, rest)
    | '{' :: rest =>
      if depth = 0 then none
      else match skipSpace rest with
        | '}' :: rest => some (.emptyObject, rest)
        | rest => do
          let (pairs, rest) ← pairs? fuel (depth - 1) rest
          return (← inlineTable? pairs, rest)
    | '"' :: _ | '\x27' :: _ =>
      (string? cs).map fun (text, rest) => (.string (.ofList text), rest)
    | cs => scalar? cs

/-- Reads the items of an array up to its closing bracket; a comma may stand behind the last. -/
def items? : (fuel depth : Nat) → List Char → Option (List Json × List Char)
  | 0, _, _ => none
  | fuel + 1, depth, cs =>
    match skipLines? false cs with
    | none => none
    | some (']' :: rest) => some ([], rest)
    | some cs =>
      match value? fuel depth cs with
      | none => none
      | some (item, rest) =>
        match skipLines? false rest with
        | some (',' :: rest) =>
          (items? fuel depth rest).map fun (items, rest) => (item :: items, rest)
        | some (']' :: rest) => some ([item], rest)
        | _ => none

/-- Reads the pairs of an inline table, at least one, up to its closing brace. -/
def pairs? : (fuel depth : Nat) → List Char →
    Option (List ((List String × String) × Json) × List Char)
  | 0, _, _ => none
  | fuel + 1, depth, cs =>
    match keyPath? cs with
    | some (path, '=' :: rest) =>
      match value? fuel depth (skipSpace rest) with
      | none => none
      | some (v, rest) =>
        match skipSpace rest with
        | ',' :: rest =>
          (pairs? fuel depth rest).map fun (pairs, rest) => ((path, v) :: pairs, rest)
        | '}' :: rest => some ([(path, v)], rest)
        | _ => none
    | _ => none

end

/-! ## Documents -/

/-- A line that says something: a value for a key, a table that is declared, or one that is appended
to an array. -/
inductive Statement where
  | pair (path : List String) (key : String) (v : Json)
  | table (path : List String) (key : String)
  | appended (path : List String) (key : String)

/-- Reads a statement up to the end of its line. -/
def statement? (cs : List Char) : Option (Statement × List Char) :=
  match cs with
  | '[' :: '[' :: rest =>
    match keyPath? rest with
    | some ((path, key), ']' :: ']' :: rest) =>
      (endLine? rest).map fun rest => (.appended path key, rest)
    | _ => none
  | '[' :: rest =>
    match keyPath? rest with
    | some ((path, key), ']' :: rest) => (endLine? rest).map fun rest => (.table path key, rest)
    | _ => none
  | cs =>
    match keyPath? cs with
    | some ((path, key), '=' :: rest) => do
      let (v, rest) ← value? (2 * cs.length + 2) maxDepth (skipSpace rest)
      return (.pair path key v, ← endLine? rest)
    | _ => none

/-- Reads statements to the end of the text; empty lines and comments may stand between. -/
def statements? : (fuel : Nat) → List Char → Option (List Statement)
  | 0, _ => none
  | fuel + 1, cs =>
    match skipSpace cs with
    | [] => some []
    | cs =>
      match endLine? cs with
      | some rest => statements? fuel rest
      | none => do
        let (statement, rest) ← statement? cs
        return statement :: (← statements? fuel rest)

/-- Carries out statements. A value goes into the table that was named last, whose path is
`current`. -/
def carryOut? (current : List String) (root : Fields) : List Statement → Option Fields
  | [] => some root
  | .pair path key v :: rest => do
    carryOut? current (← alter? false (assign? path key v) current .declared root) rest
  | .table path key :: rest => do
    carryOut? (path ++ [key]) (← declare? path key root) rest
  | .appended path key :: rest => do
    carryOut? (path ++ [key]) (← append? path key root) rest

/-- Reads a whole text; a byte order mark may stand at its head. -/
def document? (text : String) : Option Json := do
  let cs := match text.toList with
    | '\uFEFF' :: rest => rest
    | cs => cs
  let statements ← statements? (cs.length + 1) cs
  let root ← carryOut? [] [] statements
  return .object (fieldsToJson root)

end Workflow.Toml
