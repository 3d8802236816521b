import Workflow.FanOut.Keys
import Workflow.Store.Call

/-!
# The store

The store of a workflow, held in memory. Its four tables do not see each other, but for one thing:
a counter that is incremented to a threshold of its trigger fires the trigger.

* `Store`: values, sets, counters and triggers.
* `FiredTrigger`, `Store.fired?`: what a counter fires when it reaches a value.
* `Store.add?`: the new count of a counter, before anything fires.
* `Store.perform`: the effect of a call.
-/

namespace Workflow

/-- The tables of the store. A set is a table without contents.
Source: `InMemoryStateStore`. -/
structure Store where
  values : Table Json := .empty
  sets : Table (Table Unit) := .empty
  counters : Table Int := .empty
  triggers : Table JoinTrigger := .empty
  deriving DecidableEq

/-- A trigger that has fired: the counter, and the trigger with the value that was reached.
Source: `CounterTrigger`. -/
structure FiredTrigger where
  counter : String
  trigger : JoinTrigger
  deriving DecidableEq, Repr

namespace Store

/-- The store without entries. -/
def empty : Store := {}

/-- The number of entries of all four tables.
Source: `entry_count`. -/
def size (s : Store) : Nat :=
  s.values.size + s.sets.size + s.counters.size + s.triggers.size

/-- The members of a set, ascending; none if there is no such set.
Source: `retrieve_set`. -/
def membersOf (s : Store) (key : String) : List String :=
  ((s.sets.get? key).getD .empty).keys

/-- Adds to a counter, if it exists; gives the new count. Counts are integers without bounds here,
and words of 64 bits with sign in the source. The counter of a fan-out begins at zero and is
incremented by one, so that it would take 2 ^ 63 calls to tell the two apart.
Source: `increment_counter`. -/
def add? (s : Store) (name : String) (delta : Int) : Option (Int × Store) :=
  (s.counters.get? name).map fun count =>
    (count + delta, { s with counters := s.counters.put name (count + delta) })

/-- What fires when a counter has reached a value: its trigger, if the value is one of the
thresholds.
Source: `fire_threshold`. -/
def fired? (s : Store) (counter : String) (value : Int) : Option FiredTrigger :=
  match s.triggers.get? (triggerKey counter) with
  | none => none
  | some trigger =>
    if 0 ≤ value ∧ value.toNat ∈ trigger.thresholds then
      some ⟨counter, { trigger with counterValue := value }⟩
    else none

/-- The effect of a call, in which nothing fires.
Source: the calls of `InMemoryStateStore`. -/
def perform (s : Store) : (call : StoreCall) → Except StoreError call.Reply × Store
  | .put key value => (.ok (), { s with values := s.values.put key value })
  | .get key => (.ok (s.values.get? key), s)
  | .delete key => (.ok (), { s with values := s.values.remove key })
  | .createSet key => (.ok (), { s with sets := s.sets.put key .empty })
  | .addMember key member =>
    let set := (s.sets.get? key).getD .empty
    (.ok (), { s with sets := s.sets.put key (set.put member ()) })
  | .members key => (.ok (s.membersOf key), s)
  | .deleteSet key => (.ok (), { s with sets := s.sets.remove key })
  | .createCounter name initial => (.ok (), { s with counters := s.counters.put name initial })
  | .increment name delta =>
    match s.add? name delta with
    | some (count, s) => (.ok count, s)
    | none => (.error (.notFound name), s)
  | .deleteCounter name => (.ok (), { s with counters := s.counters.remove name })
  | .putTrigger key trigger => (.ok (), { s with triggers := s.triggers.put key trigger })
  | .deleteTrigger key => (.ok (), { s with triggers := s.triggers.remove key })

/-- What a call fires once it has taken effect. -/
def firedBy? (s : Store) : (call : StoreCall) → Except StoreError call.Reply → Option FiredTrigger
  | .increment name _, .ok count => s.fired? name count
  | _, _ => none

end Store

end Workflow
