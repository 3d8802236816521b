import Workflow.Store.Call

/-!
# Faults of a simulated store

* `Fault`: calls of the store that are to fail.
* `Fault.strike`: whether a call fails.
-/

namespace Workflow

/-- Calls of the store that fail: those of an operation, perhaps about one name only, and perhaps
only one of them, counted from one. The calls of this kind so far are counted. -/
structure Fault where
  operation : String
  key : Option String := none
  nth : Option Nat := none
  error : StoreError
  matched : Nat := 0
  deriving DecidableEq, Repr

namespace Fault

/-- Whether a call is of the kind that the fault is about. -/
def concerns (f : Fault) (call : StoreCall) : Bool :=
  f.operation == call.operation && f.key.all (· == call.key)

/-- The fault when it has seen one more call of its kind. -/
def count (f : Fault) : Fault := { f with matched := f.matched + 1 }

/-- Whether the last call of its kind fails. -/
def fires (f : Fault) : Bool := f.nth.all (· == f.matched)

/-- The error of a call, that of the first fault that fires. The faults before it have seen the call
as well, those behind it have not. -/
def strike (call : StoreCall) : List Fault → Option StoreError × List Fault
  | [] => (none, [])
  | f :: rest =>
    if f.concerns call then
      if f.count.fires then (some f.error, f.count :: rest)
      else
        let (error, rest) := strike call rest
        (error, f.count :: rest)
    else
      let (error, rest) := strike call rest
      (error, f :: rest)

end Fault

end Workflow
