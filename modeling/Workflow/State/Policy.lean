import Workflow.DataFlow
import Workflow.Duration
import Workflow.Json.Record

/-!
# Retry and catch policies

What a task state does about the failures of its task. A policy names the failures that it is for; a
retry policy says how often and after which delays the task is run again, a catch policy which state
takes over.

* `RetryPolicy`, `CatchPolicy`: the policies, with their readers and writers.
* `RetryPolicy.delay`: the delay before a retry, which grows by the backoff rate each time.
* `Selector.ofJson?`, `Selector.toJson`: a selector in a document.
-/

namespace Workflow

/-- Reads a selector: null means nothing, `$` everything, and any other text is a path.
Source: the reader of `PathSpec`. -/
def Selector.ofJson? : Json → Option Selector
  | .null => some .empty
  | .string s => some (if s = "$" then .identity else .path s)
  | _ => none

/-- A selector as it stands in a document.
Source: the writer of `PathSpec`. -/
def Selector.toJson : Selector → Json
  | .identity => .string "$"
  | .empty => .null
  | .path expression => .string expression

/-- How often and when a failed task is run again.
Source: `RetryPolicy`. -/
structure RetryPolicy where
  errorEquals : List String
  maxAttempts : Nat := 1
  intervalSeconds : Double := .ofNat 1
  backoffRate : Double := .ofNat 1
  deriving DecidableEq, Repr

namespace RetryPolicy

/-- The names of the fields, in their order. -/
def fieldNames : List String := ["ErrorEquals", "MaxAttempts", "IntervalSeconds", "BackoffRate"]

/-- Reads a retry policy. -/
def ofJson? (v : Json) : Option RetryPolicy := do
  let fields ← v.recordFields? fieldNames
  let errorEquals ← Json.required fields "ErrorEquals" (Json.list? Json.string?)
  let maxAttempts ← Json.withDefault fields "MaxAttempts" (Json.natBelow? Word.count32) 1
  let intervalSeconds ← Json.withDefault fields "IntervalSeconds" Json.double? (.ofNat 1)
  let backoffRate ← Json.withDefault fields "BackoffRate" Json.double? (.ofNat 1)
  return { errorEquals, maxAttempts, intervalSeconds, backoffRate }

/-- The parts of a retry policy. -/
def parts (p : RetryPolicy) : List (String × Option Json) :=
  [("ErrorEquals", some (.strings p.errorEquals)),
    ("MaxAttempts", some (.nat p.maxAttempts)),
    ("IntervalSeconds", some (.double p.intervalSeconds)),
    ("BackoffRate", some (.double p.backoffRate))]

/-- A retry policy in a document. -/
def toJson (p : RetryPolicy) : Json := .record (Json.present p.parts)

/-- The exponent of the backoff rate before the given retry, counted from one. It is a word of 32
bits with sign, so past half its range it turns negative.
Source: the exponent in `delay_for_retry`. -/
def exponent (retry : Nat) : Int :=
  let steps := retry - 1
  if steps < Word.count32 / 2 then steps else (steps : Int) - Word.count32

/-- The seconds before the given retry: the interval times a power of the backoff rate.
Source: the seconds in `delay_for_retry`. -/
def delaySeconds (p : RetryPolicy) (retry : Nat) : Double :=
  p.intervalSeconds.mul (p.backoffRate.powInt (exponent retry))

/-- The delay before the given retry. What is not positive is no delay, and what is too large is the
longest one.
Source: `delay_for_retry`. -/
def delay (p : RetryPolicy) (retry : Nat) : Duration :=
  let seconds := p.delaySeconds retry
  match seconds.compare? .zero with
  | some .gt => (Duration.ofSeconds? seconds).getD .max
  | _ => .zero

end RetryPolicy

/-- Which state takes over after a failure.
Source: `CatchPolicy`. -/
structure CatchPolicy where
  errorEquals : List String
  next : String
  resultPath : Selector := .identity
  deriving DecidableEq, Repr

namespace CatchPolicy

/-- The names of the fields, in their order. -/
def fieldNames : List String := ["ErrorEquals", "Next", "ResultPath"]

/-- Reads a catch policy. -/
def ofJson? (v : Json) : Option CatchPolicy := do
  let fields ← v.recordFields? fieldNames
  let errorEquals ← Json.required fields "ErrorEquals" (Json.list? Json.string?)
  let next ← Json.required fields "Next" Json.string?
  let resultPath ← Json.withDefault fields "ResultPath" Selector.ofJson? .identity
  return { errorEquals, next, resultPath }

/-- The parts of a catch policy. -/
def parts (p : CatchPolicy) : List (String × Option Json) :=
  [("ErrorEquals", some (.strings p.errorEquals)), ("Next", some (.string p.next)),
    ("ResultPath", some p.resultPath.toJson)]

/-- A catch policy in a document. -/
def toJson (p : CatchPolicy) : Json := .record (Json.present p.parts)

end CatchPolicy

end Workflow
