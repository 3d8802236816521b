import Workflow.Json.Record
import Workflow.Json.Selective

/-!
# The trigger of a join

A Parallel state registers a trigger for the counter of its branches. When the counter reaches one
of the thresholds, the state is invoked again with the trigger as its input, and joins.

* `StateAction`: what an invocation is meant to do.
* `JoinTrigger`: the trigger, with its readers and writers.
-/

namespace Workflow

/-- What an invocation is meant to do: to join a Parallel state, or something that is of no concern
here.
Source: `StateAction`. -/
inductive StateAction where
  | join
  | other
  deriving DecidableEq, Repr

namespace StateAction

/-- The name of the action. -/
def name : StateAction → String
  | join => "post_parallel_processing"
  | other => "other"

/-- The action of a name; a name that is not known is of no concern. -/
def ofName (name : String) : StateAction := if name = join.name then join else other

/-- Reads an action. -/
def ofJson? (v : Json) : Option StateAction := v.unitVariant?.map ofName

/-- An action in a document. -/
def toJson (a : StateAction) : Json := .string a.name

end StateAction

/-- The registered trigger of a join. The counter value is that at which it fired.
Source: `CounterTriggerMetadata`. -/
structure JoinTrigger where
  action : StateAction
  isAsync : Bool := false
  metadataKey : String
  counterValue : Int := 0
  thresholds : List Nat
  totalBranches : Nat
  executionId : String
  topic : String
  endpoint : Option String := none
  deriving DecidableEq, Repr

namespace JoinTrigger

/-- The names of the fields, in their order. -/
def fieldNames : List String :=
  ["__state_action", "__async_execution", "WorkflowInstanceMetadataStorageKey", "CounterValue",
    "Klist", "TotalBranches", "ExecutionId", "FunctionTopic", "Endpoint"]

/-- Reads a trigger.
Source: the reader of `CounterTriggerMetadata`. -/
def ofJson? (v : Json) : Option JoinTrigger := do
  let fields ← v.recordFields? fieldNames
  let text name := Json.required fields name Json.string?
  let word := Json.natBelow? Word.count64
  return {
    action := ← Json.required fields "__state_action" StateAction.ofJson?
    isAsync := ← Json.withDefault fields "__async_execution" Json.bool? false
    metadataKey := ← text "WorkflowInstanceMetadataStorageKey"
    counterValue := ← Json.withDefault fields "CounterValue" Json.signed? 0
    thresholds := ← Json.required fields "Klist" (Json.list? word)
    totalBranches := ← Json.required fields "TotalBranches" word
    executionId := ← text "ExecutionId"
    topic := ← text "FunctionTopic"
    endpoint := ← Json.optional fields "Endpoint" Json.string? }

/-- The fields of a trigger, in their order.
Source: the writer of `CounterTriggerMetadata`. -/
def fields (t : JoinTrigger) : List (String × Json) :=
  [("__state_action", t.action.toJson),
    ("__async_execution", .bool t.isAsync),
    ("WorkflowInstanceMetadataStorageKey", .string t.metadataKey),
    ("CounterValue", .int t.counterValue),
    ("Klist", .array (t.thresholds.map .nat)),
    ("TotalBranches", .nat t.totalBranches),
    ("ExecutionId", .string t.executionId),
    ("FunctionTopic", .string t.topic)]
    ++ Json.optionField "Endpoint" .string t.endpoint

/-- A trigger as a value, such as the input of a state. -/
def toJson (t : JoinTrigger) : Json := .record t.fields

/-- A trigger in a document of its own, its fields in their order. -/
def document (t : JoinTrigger) : Json := .object t.fields

/-- Reads the text of a trigger, in which no known field may occur twice. -/
def ofText? (text : String) : Option JoinTrigger :=
  (Json.recordDocument? fieldNames Json.maxDepth text.toList).bind ofJson?

end JoinTrigger

end Workflow
