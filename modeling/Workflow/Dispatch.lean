import Workflow.Json

/-!
# Dispatches

* `Dispatch`: a state that is to be invoked next, with its input.
-/

namespace Workflow

/-- A state that is to be invoked, and the value that it is invoked with.
Source: `DynamicNext`. -/
structure Dispatch where
  next : String
  value : Json
  deriving DecidableEq, Repr

namespace Dispatch

/-- A dispatch in a document. -/
def toJson (d : Dispatch) : Json := .record [("next", .string d.next), ("value", d.value)]

end Dispatch

end Workflow
