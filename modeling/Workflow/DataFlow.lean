import Workflow.Path

/-!
# Data flow through a state

What a state sees of its input, where its result goes, and what it hands on. Each of the three is
governed by a selector.

* `Selector`: everything, nothing, or what a path names.
* `Selector.cutInput`: the part of the input that a state sees.
* `Selector.mergeResult`: the input with the result entered into it.
* `Selector.cutOutput`: the part of the merged value that is handed on.
* `PathError`: why one of them fails.
-/

namespace Workflow

/-- Which part of a value is meant.
Source: `PathSpec`. -/
inductive Selector where
  | identity
  | empty
  | path (expression : String)
  deriving DecidableEq, Repr, Inhabited

/-- Why a selector could not be applied.
Source: `PathError`. -/
inductive PathError where
  | invalidPath (path : String) (fault : PathFault)
  | noInput (path : String)
  | notAField (path : String)
  | notAnObject (path : String)
  | noOutput (path : String)
  deriving DecidableEq, Repr

/-- The error in words. -/
def PathError.message : PathError → String
  | invalidPath path fault => "invalid JSON path '" ++ path ++ "': " ++ fault.message
  | noInput path => "InputPath '" ++ path ++ "' matched nothing in the state input"
  | notAField path => "ResultPath error: '" ++ path ++ "' does not end in a field name"
  | notAnObject path =>
    "ResultPath error: cannot merge into non-object state input for '" ++ path ++ "'"
  | noOutput path => "OutputPath '" ++ path ++ "' matched nothing in the state result"

/-- Reads a path, naming it in the error.
Source: `compile` of `JsonPath`. -/
def Path.parse (expression : String) : Except PathError Path :=
  (Path.ofText? expression).mapError (.invalidPath expression)

namespace Selector

/-- The part of the input that a state sees.
Source: `apply_input_path`. -/
def cutInput (selector : Selector) (raw : Json) : Except PathError Json :=
  match selector with
  | identity => .ok raw
  | empty => .ok .emptyObject
  | path expression => do
    let path ← Path.parse expression
    match path.first? raw with
    | some found => .ok found
    | none => .error (.noInput expression)

/-- Enters the result of a state into its raw input. A path names the field that receives it in its
last step; if it matches inside the result, the match is entered and not the whole result. Fields
of the input stay as they are.
Source: `apply_result_path`. -/
def mergeResult (selector : Selector) (raw result : Json) : Except PathError Json :=
  match selector with
  | identity => .ok result
  | empty => .ok raw
  | path expression => do
    let path ← Path.parse expression
    match path.lastField?, raw with
    | none, _ => .error (.notAField expression)
    | some name, .object fields =>
      let value := (path.first? result).getD result
      .ok (.object (if (Entries.get? name fields).isSome then fields
        else Entries.put name value fields))
    | some _, _ => .error (.notAnObject expression)

/-- The part of the merged value that a state hands on.
Source: `apply_output_path`. -/
def cutOutput (selector : Selector) (merged : Json) : Except PathError Json :=
  match selector with
  | identity => .ok merged
  | empty => .ok .emptyObject
  | path expression => do
    let path ← Path.parse expression
    match path.first? merged with
    | some found => .ok found
    | none => .error (.noOutput expression)

end Selector

end Workflow
