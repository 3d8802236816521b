import Workflow.Json.Record

/-!
# The kinds of states

* `StateKind`: what a state does.
* `StateKind.name`, `StateKind.ofName?`: the name of a kind, and the kind of a name. A bare task is
  a task under a name of its own.
-/

namespace Workflow

/-- What a state does.
Source: `StateType`. -/
inductive StateKind where
  | task
  | choice
  | pass
  | succeed
  | fail
  | wait
  | parallel
  deriving DecidableEq, Repr, Inhabited

namespace StateKind

/-- The type name of a task that comes without a definition.
Source: `BARE_TASK_TYPE`. -/
def bareTask : String := "Task_SAND"

/-- The name of a kind.
Source: `as_str` of `StateType`. -/
def name : StateKind → String
  | task => "Task"
  | choice => "Choice"
  | pass => "Pass"
  | succeed => "Succeed"
  | fail => "Fail"
  | wait => "Wait"
  | parallel => "Parallel"

/-- The kind that a type name stands for.
Source: `from_str` of `StateType`. -/
def ofName? (s : String) : Option StateKind :=
  if s = "Task" ∨ s = bareTask then some task
  else if s = "Choice" then some choice
  else if s = "Pass" then some pass
  else if s = "Succeed" then some succeed
  else if s = "Fail" then some fail
  else if s = "Wait" then some wait
  else if s = "Parallel" then some parallel
  else none

/-- Reads a kind by its name. -/
def ofJson? (v : Json) : Option StateKind := v.unitVariant?.bind ofName?

/-- Why a type name is refused, in words.
Source: `UnknownStateType`. -/
def unknownMessage (s : String) : String := "unknown state type: '" ++ s ++ "'"

/-- Every kind is found by its name. -/
theorem ofName?_name (kind : StateKind) : ofName? kind.name = some kind := by
  cases kind <;> decide

end StateKind

end Workflow
