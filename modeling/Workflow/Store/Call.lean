import Workflow.FanOut.Trigger

/-!
# Calls of the store

What may be asked of the store that the invocations of a workflow share: values, sets of texts,
counters, and the triggers of counters, each under names of their own.

* `StoreError`: why the store refuses a call.
* `StoreCall`, `StoreCall.Reply`: the calls, and what they give.
* `StoreCall.operation`, `StoreCall.key`: the names of a call's operation and of its subject.
-/

namespace Workflow

/-- Why the store refuses a call.
Source: `StorageError`. -/
inductive StoreError where
  | backend (reason : String)
  | serialization (reason : String)
  | notFound (name : String)
  deriving DecidableEq, Repr

/-- The error in words. -/
def StoreError.message : StoreError → String
  | backend reason => "storage backend error: " ++ reason
  | serialization reason => "serialization error: " ++ reason
  | notFound name => "entry not found: " ++ name

/-- A call of the store.
Source: `StateStore` and `CounterTriggerAdmin`. -/
inductive StoreCall where
  | put (key : String) (value : Json)
  | get (key : String)
  | delete (key : String)
  | createSet (key : String)
  | addMember (key member : String)
  | members (key : String)
  | deleteSet (key : String)
  | createCounter (name : String) (initial : Int)
  | increment (name : String) (delta : Int)
  | deleteCounter (name : String)
  | putTrigger (key : String) (trigger : JoinTrigger)
  | deleteTrigger (key : String)
  deriving DecidableEq, Repr

namespace StoreCall

/-- The name of the operation. -/
def operation : StoreCall → String
  | put _ _ => "put"
  | get _ => "get"
  | delete _ => "delete"
  | createSet _ => "create_set"
  | addMember _ _ => "add_set_entry"
  | members _ => "retrieve_set"
  | deleteSet _ => "delete_set"
  | createCounter _ _ => "create_counter"
  | increment _ _ => "increment_counter"
  | deleteCounter _ => "delete_counter"
  | putTrigger _ _ => "put_trigger"
  | deleteTrigger _ => "delete_trigger"

/-- The name that a call is about. -/
def key : StoreCall → String
  | put key _ | get key | delete key | createSet key | addMember key _ | members key
  | deleteSet key | createCounter key _ | increment key _ | deleteCounter key | putTrigger key _
  | deleteTrigger key => key

/-- What a call gives: a value if there is one, the members of a set in ascending order, the new
count, or nothing. -/
def Reply : StoreCall → Type
  | get _ => Option Json
  | members _ => List String
  | increment _ _ => Int
  | put _ _ | delete _ | createSet _ | addMember _ _ | deleteSet _ | createCounter _ _
  | deleteCounter _ | putTrigger _ _ | deleteTrigger _ => Unit

end StoreCall

end Workflow
