import Workflow.Double.Reading
import Workflow.Json.Printer
import Workflow.Moment.Reading
import Workflow.State.Body

/-!
# Wait states

How long a Wait state waits. The first of four fields that is present says so: seconds, a path to
seconds, a timestamp, or a path to a timestamp. A timestamp that is past means no delay, but one
found by a path must not be past.

* `WaitError`: why there is no delay.
* `secondsDelay`: the delay of a number of seconds, which may be written as a text.
* `StateBody.waitDelay`: the delay of a state at a moment.
-/

namespace Workflow

/-- Why a Wait state has no delay.
Source: `WaitError`. -/
inductive WaitError where
  | noField
  | nothingAtPath (path : String)
  | past (literal : String)
  | badPath (error : PathError)
  | notSeconds (value : Json)
  | notAText (path : String)
  | notATimestamp (literal : String)
  deriving DecidableEq, Repr

/-- The error in words. -/
def WaitError.message : WaitError → String
  | noField => "Wait state needs one of Seconds, SecondsPath, Timestamp or TimestampPath"
  | nothingAtPath path => "Wait path '" ++ path ++ "' matched nothing in the state input"
  | past literal =>
    "TimestampPath resolved to '" ++ literal ++ "', which is already in the past"
  | badPath error => "invalid Wait value: " ++ error.message
  | notSeconds value => "invalid Wait value: " ++ value.text ++ " is not a number of seconds"
  | notAText path => "invalid Wait value: '" ++ path ++ "' is not a timestamp string"
  | notATimestamp literal => "invalid Wait value: '" ++ literal ++ "'"

/-- The first match of a path that a Wait state names.
Source: `select`, for the fields of a Wait state. -/
def waitValue (path : String) (input : Json) : Except WaitError Json :=
  match Path.parse path with
  | .error error => .error (.badPath error)
  | .ok compiled =>
    match compiled.first? input with
    | some found => .ok found
    | none => .error (.nothingAtPath path)

/-- A number, or a text that holds one between white space.
Source: `seconds_value`. -/
def secondsOf? : Json → Option Double
  | .number n => some n.toDouble
  | .string s => Double.ofText? (Text.trim s.toList)
  | _ => none

/-- The delay of a number of seconds.
Source: `seconds_value`. -/
def secondsDelay (v : Json) : Except WaitError Duration :=
  match (secondsOf? v).bind Duration.ofSeconds? with
  | some delay => .ok delay
  | none => .error (.notSeconds v)

/-- The moment of a timestamp.
Source: `parse_timestamp`. -/
def waitMoment (literal : String) : Except WaitError Moment :=
  match Moment.ofUtcLiteral? literal with
  | some moment => .ok moment
  | none => .error (.notATimestamp literal)

/-- The time from one moment until another, unless that is past. -/
def delayUntil? (target now : Moment) : Option Duration :=
  let nanoseconds := target.since now
  if 0 ≤ nanoseconds then some ⟨nanoseconds.toNat⟩ else none

/-- How long the state waits, as of the moment `now`.
Source: `resolve_delay`. -/
def StateBody.waitDelay (body : StateBody) (input : Json) (now : Moment) :
    Except WaitError Duration :=
  match body.seconds, body.secondsPath, body.timestamp, body.timestampPath with
  | some value, _, _, _ => secondsDelay value
  | none, some path, _, _ => do secondsDelay (← waitValue path input)
  | none, none, some literal, _ => do
    return (delayUntil? (← waitMoment literal) now).getD .zero
  | none, none, none, some path => do
    match ← waitValue path input with
    | .string literal =>
      match delayUntil? (← waitMoment literal) now with
      | some delay => return delay
      | none => throw (.past literal)
    | _ => throw (.notAText path)
  | none, none, none, none => throw .noField

end Workflow
