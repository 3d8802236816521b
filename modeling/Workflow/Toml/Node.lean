import Workflow.Json

/-!
# The tables of a TOML document

The statements of a document put values into tables. A table may be declared only once, and one that
came about by dotted keys is not declared afterwards, nor the other way round.

* `TableOrigin`, `Node`: how a table came about, and what stands under a key.
* `alter?`: a change of the table at a path, which comes about if it is not there.
* `assign?`, `declare?`, `append?`: the three statements.
* `Node.toJson`: the document of a node.
-/

namespace Workflow.Toml

/-- How a table came about: it was declared; a table below it was declared; or a dotted key led
through it. -/
inductive TableOrigin where
  | declared
  | implied
  | dotted
  deriving DecidableEq, Repr

/-- What stands under a key: a value, a table, or an array of tables. -/
inductive Node where
  | value (v : Json)
  | table (origin : TableOrigin) (fields : List (String × Node))
  | tables (elements : List Node)

/-- The fields of a table. -/
abbrev Fields := List (String × Node)

/-- Changes the table at a path. An array of tables stands for its last table. Dotted keys lead
through tables that were not declared. -/
def alter? (byDots : Bool) (change : TableOrigin → Fields → Option Fields) :
    (path : List String) → TableOrigin → Fields → Option Fields
  | [], origin, fields => change origin fields
  | key :: path, _, fields =>
    match Entries.get? key fields with
    | none => do
      let origin := if byDots then TableOrigin.dotted else .implied
      let inner ← alter? byDots change path origin []
      return Entries.put key (.table origin inner) fields
    | some (.value _) => none
    | some (.table origin inner) =>
      if byDots ∧ origin = .declared then none
      else (alter? byDots change path origin inner).map fun inner =>
        Entries.put key (.table origin inner) fields
    | some (.tables elements) =>
      match elements.getLast? with
      | some (.table origin inner) =>
        (alter? byDots change path origin inner).map fun inner =>
          Entries.put key (.tables (elements.dropLast ++ [.table origin inner])) fields
      | _ => none

/-- Enters a value under a dotted key into a table. -/
def assign? (path : List String) (key : String) (v : Json) (origin : TableOrigin)
    (fields : Fields) : Option Fields :=
  alter? true (fun origin fields =>
    if (origin == .dotted) == path.isEmpty || (Entries.get? key fields).isSome then none
    else some (Entries.put key (.value v) fields)) path origin fields

/-- Declares a table. -/
def declare? (path : List String) (key : String) (fields : Fields) : Option Fields :=
  alter? false (fun _ fields =>
    match Entries.get? key fields with
    | none => some (Entries.put key (.table .declared []) fields)
    | some (.table .implied inner) => some (Entries.put key (.table .declared inner) fields)
    | some _ => none) path .declared fields

/-- Appends a table to an array of tables. -/
def append? (path : List String) (key : String) (fields : Fields) : Option Fields :=
  alter? false (fun _ fields =>
    match Entries.get? key fields with
    | none => some (Entries.put key (.tables [.table .declared []]) fields)
    | some (.tables elements) =>
      some (Entries.put key (.tables (elements ++ [.table .declared []])) fields)
    | some _ => none) path .declared fields

mutual

/-- The document of a node. -/
def Node.toJson : Node → Json
  | .value v => v
  | .table _ fields => .object (fieldsToJson fields)
  | .tables elements => .array (elementsToJson elements)

/-- The documents of fields. -/
def fieldsToJson : List (String × Node) → List (String × Json)
  | [] => []
  | (key, node) :: rest => (key, node.toJson) :: fieldsToJson rest

/-- The documents of tables. -/
def elementsToJson : List Node → List Json
  | [] => []
  | node :: rest => node.toJson :: elementsToJson rest

end

end Workflow.Toml
