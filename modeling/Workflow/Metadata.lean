import Workflow.FanOut.Record
import Workflow.FanOut.Trigger

/-!
# Metadata of a run

What is handed from one state of a run to the next beside the values themselves: two reserved
fields, and entries of any name. An entry that has the form of the record of a fan-out is one.

* `MetadataEntry`, `Metadata`: the metadata, with their reader and writer.
* `Metadata.fanOut?`, `Metadata.setFanOut`: the record of a fan-out, by state and execution.
* `Metadata.get?`, `Metadata.insert`: entries by name.
* `Metadata.isJoin`: whether the invocation is to join.
-/

namespace Workflow

/-- An entry of the metadata.
Source: `MetadataEntry`. -/
inductive MetadataEntry where
  | fanOut (record : FanOutRecord)
  | value (v : Json)
  deriving DecidableEq, Repr

namespace MetadataEntry

/-- What an entry says: the record of a fan-out if it can be read as one.
Source: the reader of `MetadataEntry`. -/
def ofJson (v : Json) : MetadataEntry :=
  match FanOutRecord.ofJson? v with
  | some record => fanOut record
  | none => value v

/-- An entry in a document. -/
def toJson : MetadataEntry → Json
  | fanOut record => record.toJson
  | value v => v

end MetadataEntry

/-- The metadata of a run.
Source: `ExecutionMetadata`. -/
structure Metadata where
  action : Option StateAction := none
  isAsync : Bool := false
  entries : Table MetadataEntry := .empty
  deriving DecidableEq

namespace Metadata

/-- The name of the reserved field that holds the action. -/
def actionField : String := "__state_action"

/-- The name of the reserved field that says whether the run is asynchronous. -/
def asyncField : String := "__async_execution"

/-- Whether a field is not an entry. -/
def isReserved (name : String) : Bool := name == actionField || name == asyncField

/-- Reads metadata, which have to be an object.
Source: the reader of `ExecutionMetadata`. -/
def ofJson? (v : Json) : Option Metadata := do
  let fields ← v.object?
  let action ← Json.optional fields actionField StateAction.ofJson?
  let isAsync ← Json.withDefault fields asyncField Json.bool? false
  let rest := fields.filter fun field => !isReserved field.1
  return { action, isAsync, entries := .ofList (rest.map fun (k, x) => (k, .ofJson x)) }

/-- The fields that metadata are written with: the reserved ones, and then the entries.
Source: the writer of `ExecutionMetadata`. -/
def fields (m : Metadata) : List (String × Json) :=
  Json.optionField actionField StateAction.toJson m.action
    ++ [(asyncField, .bool m.isAsync)]
    ++ m.entries.entries.map fun (k, entry) => (k, entry.toJson)

/-- Metadata in a document. -/
def toJson (m : Metadata) : Json := .record m.fields

/-- The name of the entry that holds the record of a state's fan-out.
Source: `parallel_info_key`. -/
def fanOutKey (state executionId : String) : String :=
  state ++ "_" ++ executionId ++ "_parallel_info"

/-- The entry of a name.
Source: `get`. -/
def get? (m : Metadata) (name : String) : Option MetadataEntry := m.entries.get? name

/-- Enters a value under a name.
Source: `insert`. -/
def insert (m : Metadata) (name : String) (v : Json) : Metadata :=
  { m with entries := m.entries.put name (.value v) }

/-- The record of a state's fan-out.
Source: `parallel_info`. -/
def fanOut? (m : Metadata) (state executionId : String) : Option FanOutRecord :=
  match m.get? (fanOutKey state executionId) with
  | some (.fanOut record) => some record
  | _ => none

/-- Enters the record of a state's fan-out.
Source: `set_parallel_info`. -/
def setFanOut (m : Metadata) (state executionId : String) (record : FanOutRecord) : Metadata :=
  { m with entries := m.entries.put (fanOutKey state executionId) (.fanOut record) }

/-- Whether the invocation is to join a Parallel state.
Source: `is_post_parallel`. -/
def isJoin (m : Metadata) : Bool := m.action = some .join

end Metadata

end Workflow
