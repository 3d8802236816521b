import Workflow.Json

/-!
# Records in documents

A record of named fields is written as an object, or as an array of the fields in their declared
order; of the latter trailing fields may be missing. Unknown fields of an object are ignored, and a
known one may stand there only once.

* `Json.recordFields?`: the fields of a record by their names, in either form.
* `Json.required`, `Json.withDefault`, `Json.optional`: one field that must be there, that has a
  default, or that may be absent or null.
* `Json.list?`: an array of things of one kind.
* `Json.unitVariant?`: the name of a case without contents.
* `Json.tagged?`: the tag of a record with cases, and the document without it.
* `Json.optionField`, `Json.present`, `Json.listValue`: the fields that a record is written with.
-/

namespace Workflow.Json

/-- The fields of a record with the given names. -/
def recordFields? (names : List String) : Json → Option (List (String × Json))
  | .object fields =>
    if names.any fun name => 1 < fields.countP (·.1 == name) then none else some fields
  | .array items => if items.length ≤ names.length then some (names.zip items) else none
  | _ => none

/-- A field that must be there. -/
def required {α : Type} (fields : List (String × Json)) (name : String)
    (read : Json → Option α) : Option α :=
  (Entries.get? name fields).bind read

/-- A field that has a default. If it is there, it must be right. -/
def withDefault {α : Type} (fields : List (String × Json)) (name : String)
    (read : Json → Option α) (default : α) : Option α :=
  match Entries.get? name fields with
  | none => some default
  | some v => read v

/-- A field that may be absent, which null says as well. -/
def optional {α : Type} (fields : List (String × Json)) (name : String)
    (read : Json → Option α) : Option (Option α) :=
  match Entries.get? name fields with
  | none => some none
  | some .null => some none
  | some v => (read v).map some

/-- A list of things of one kind. -/
def list? {α : Type} (read : Json → Option α) : Json → Option (List α)
  | .array items => items.mapM read
  | _ => none

/-- The name of a case without contents: a string, or an object whose only field is null. -/
def unitVariant? : Json → Option String
  | .string name => some name
  | .object [(name, .null)] => some name
  | _ => none

/-- The tag of a record with cases, and the document without it. The tag is the field of the given
name, which occurs once, or the first item of an array. -/
def tagged? (tag : String) : Json → Option (Json × Json)
  | .object fields =>
    match fields.filter (·.1 == tag) with
    | [(_, v)] => some (v, .object (fields.filter (·.1 != tag)))
    | _ => none
  | .array (v :: rest) => some (v, .array rest)
  | _ => none

/-- The fields of an optional value: one if there is a value, and otherwise none. -/
def optionField {α : Type} (name : String) (write : α → Json) : Option α → List (String × Json)
  | none => []
  | some a => [(name, write a)]

/-- The fields of a record that have a value, in the order in which they are declared. -/
def present (parts : List (String × Option Json)) : List (String × Json) :=
  parts.filterMap fun part => part.2.map fun v => (part.1, v)

/-- The value of a list that is written only if it has items. -/
def listValue {α : Type} (write : α → Json) (items : List α) : Option Json :=
  if items.isEmpty then none else some (.array (items.map write))

end Workflow.Json
