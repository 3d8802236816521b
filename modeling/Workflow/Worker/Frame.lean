import Workflow.Json.Printer
import Workflow.Json.Record
import Workflow.Json.Selective
import Workflow.Store.Call

/-!
# Frames

What a task's worker and the interpreter tell each other: one document on one line. The worker asks
for callbacks and at last reports its completion; every callback is answered.

* `CallbackRequest`: what a worker can ask for.
* `WorkerFrame`: a frame of the worker, with its reader and writer.
* `CallbackResponse`: the answer to a callback, with its reader and writer.
* `frameBytes`: a document as it is sent.
-/

namespace Workflow

/-- What a worker can ask for: calls of the store, and the invocation of a state.
Source: `CallbackRequest`. -/
inductive CallbackRequest where
  | get (key : String)
  | put (key : String) (value : Json)
  | delete (key : String)
  | createSet (key : String)
  | addMember (key member : String)
  | members (key : String)
  | deleteSet (key : String)
  | dispatch (next : String) (value : Json)
  deriving DecidableEq, Repr

namespace CallbackRequest

/-- The names of the operations, in their order. -/
def operations : List String :=
  ["get", "put", "delete", "create_set", "add_set_entry", "retrieve_set", "delete_set",
    "add_dynamic_next"]

/-- The operation that a tag means: it is named, or counted from zero. -/
def operation? : Json → Option String
  | .string name => some name
  | .number (.int index) => if 0 ≤ index then operations[index.toNat]? else none
  | _ => none

/-- Any value. -/
def anyValue (v : Json) : Option Json := some v.canonical

/-- Reads a request. -/
def ofJson? (v : Json) : Option CallbackRequest := do
  let (tag, contents) ← v.tagged? "op"
  let operation ← operation? tag
  let key : Option String := do
    Json.required (← contents.recordFields? ["key"]) "key" Json.string?
  match operation with
  | "get" => key.map get
  | "put" =>
    let fields ← contents.recordFields? ["key", "value"]
    let key ← Json.required fields "key" Json.string?
    let value ← Json.required fields "value" anyValue
    return put key value
  | "delete" => key.map delete
  | "create_set" => key.map createSet
  | "add_set_entry" =>
    let fields ← contents.recordFields? ["key", "member"]
    let key ← Json.required fields "key" Json.string?
    let member ← Json.required fields "member" Json.string?
    return addMember key member
  | "retrieve_set" => key.map members
  | "delete_set" => key.map deleteSet
  | "add_dynamic_next" =>
    let fields ← contents.recordFields? ["next", "value"]
    let next ← Json.required fields "next" Json.string?
    let value ← Json.required fields "value" anyValue
    return dispatch next value
  | _ => none

/-- A request in a document: its tag, and then its fields in their order. -/
def toJson : CallbackRequest → Json
  | get key => .object [("op", .string "get"), ("key", .string key)]
  | put key value => .object [("op", .string "put"), ("key", .string key), ("value", value)]
  | delete key => .object [("op", .string "delete"), ("key", .string key)]
  | createSet key => .object [("op", .string "create_set"), ("key", .string key)]
  | addMember key member =>
    .object [("op", .string "add_set_entry"), ("key", .string key), ("member", .string member)]
  | members key => .object [("op", .string "retrieve_set"), ("key", .string key)]
  | deleteSet key => .object [("op", .string "delete_set"), ("key", .string key)]
  | dispatch next value =>
    .object [("op", .string "add_dynamic_next"), ("next", .string next), ("value", value)]

end CallbackRequest

/-- A frame of the worker: a callback, known by a number, or its completion.
Source: `WorkerFrame`. -/
inductive WorkerFrame where
  | callback (id : Nat) (request : CallbackRequest)
  | completed (hasError : Bool) (result : Json) (errorType errorTrace : String)
  deriving DecidableEq, Repr

namespace WorkerFrame

/-- Reads a frame. -/
def ofJson? (v : Json) : Option WorkerFrame := do
  let (tag, contents) ← v.tagged? "type"
  match tag with
  | .string "callback" =>
    let fields ← contents.recordFields? ["id", "request"]
    let id ← Json.required fields "id" (Json.natBelow? Word.count64)
    let request ← Json.required fields "request" CallbackRequest.ofJson?
    return callback id request
  | .string "completed" =>
    let fields ← contents.recordFields? ["hasError", "functionResult", "errorType", "errorTrace"]
    let hasError ← Json.required fields "hasError" Json.bool?
    let result ← Json.withDefault fields "functionResult" CallbackRequest.anyValue .null
    let errorType ← Json.withDefault fields "errorType" Json.string? ""
    let errorTrace ← Json.withDefault fields "errorTrace" Json.string? ""
    return completed hasError result errorType errorTrace
  | _ => none

/-- A frame in a document: its tag, and then its fields in their order. -/
def toJson : WorkerFrame → Json
  | callback id request =>
    .object [("type", .string "callback"), ("id", .nat id), ("request", request.toJson)]
  | completed hasError result errorType errorTrace =>
    .object [("type", .string "completed"), ("hasError", .bool hasError),
      ("functionResult", result), ("errorType", .string errorType),
      ("errorTrace", .string errorTrace)]

/-- Reads the text of a frame, in which no known field may occur twice. -/
def ofText? (text : String) : Option WorkerFrame :=
  (Json.document? Json.maxDepth text.toList).bind ofJson?

end WorkerFrame

/-- The answer to the callback of a number: a value, or the error in words.
Source: `CallbackResponse`. -/
structure CallbackResponse where
  id : Nat
  isOk : Bool
  value : Json := .null
  error : Option String := none
  deriving DecidableEq, Repr

namespace CallbackResponse

/-- The answer to a callback with the given result.
Source: the end of `serve_callback`. -/
def ofResult (id : Nat) : Except StoreError Json → CallbackResponse
  | .ok value => { id, isOk := true, value }
  | .error error => { id, isOk := false, error := some error.message }

/-- The names of the fields, in their order. -/
def fieldNames : List String := ["id", "ok", "value", "error"]

/-- Reads an answer. -/
def ofJson? (v : Json) : Option CallbackResponse := do
  let fields ← v.recordFields? fieldNames
  let id ← Json.required fields "id" (Json.natBelow? Word.count64)
  let isOk ← Json.required fields "ok" Json.bool?
  let value ← Json.withDefault fields "value" CallbackRequest.anyValue .null
  let error ← Json.optional fields "error" Json.string?
  return { id, isOk, value, error }

/-- The fields that an answer is written with.
Source: the writer of `CallbackResponse`. -/
def fields (r : CallbackResponse) : List (String × Json) :=
  [("id", .nat r.id), ("ok", .bool r.isOk), ("value", r.value)]
    ++ Json.optionField "error" .string r.error

/-- An answer in a document, its fields in their order. -/
def toJson (r : CallbackResponse) : Json := .object r.fields

/-- Reads the text of an answer, in which no known field may occur twice. -/
def ofText? (text : String) : Option CallbackResponse :=
  (Json.recordDocument? fieldNames Json.maxDepth text.toList).bind ofJson?

end CallbackResponse

/-- A document as it is sent: its text in UTF-8, and the end of the line.
Source: `write_frame`. -/
def frameBytes (v : Json) : List UInt8 := v.text.toUTF8.data.toList ++ [10]

end Workflow
