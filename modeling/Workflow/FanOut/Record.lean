import Workflow.Json.Record

/-!
# The record of a fan-out

What a run remembers of a Parallel state that has started its branches: where the branches leave
their outputs, and when all of them have.

* `FanOutRecord`: the record, with its reader and writer.
* `FanOutRecord.threshold`: the count at which all branches are done.
* `FanOutRecord.branchOutput?`: where a branch leaves its output.
-/

namespace Workflow

/-- What a run remembers of a fan-out.
Source: `ParallelExecutionRecord`. -/
structure FanOutRecord where
  counter : String
  branchOutputs : List String
  outputSet : String
  thresholds : List Nat
  totalBranches : Nat
  executionId : String
  topic : String
  endpoint : Option String := none
  deriving DecidableEq, Repr

namespace FanOutRecord

/-- The names of the fields, in their order. -/
def fieldNames : List String :=
  ["CounterName", "BranchOutputKeys", "BranchOutputKeysSetKey", "Klist", "TotalBranches",
    "ExecutionId", "FunctionTopic", "Endpoint"]

/-- Reads a record.
Source: the reader of `ParallelExecutionRecord`. -/
def ofJson? (v : Json) : Option FanOutRecord := do
  let fields ← v.recordFields? fieldNames
  let text name := Json.required fields name Json.string?
  let word := Json.natBelow? Word.count64
  return {
    counter := ← text "CounterName"
    branchOutputs := ← Json.required fields "BranchOutputKeys" (Json.list? Json.string?)
    outputSet := ← text "BranchOutputKeysSetKey"
    thresholds := ← Json.required fields "Klist" (Json.list? word)
    totalBranches := ← Json.required fields "TotalBranches" word
    executionId := ← text "ExecutionId"
    topic := ← text "FunctionTopic"
    endpoint := ← Json.optional fields "Endpoint" Json.string? }

/-- The fields that a record is written with.
Source: the writer of `ParallelExecutionRecord`. -/
def fields (r : FanOutRecord) : List (String × Json) :=
  [("CounterName", .string r.counter),
    ("BranchOutputKeys", .strings r.branchOutputs),
    ("BranchOutputKeysSetKey", .string r.outputSet),
    ("Klist", .array (r.thresholds.map .nat)),
    ("TotalBranches", .nat r.totalBranches),
    ("ExecutionId", .string r.executionId),
    ("FunctionTopic", .string r.topic)]
    ++ Json.optionField "Endpoint" .string r.endpoint

/-- A record in a document. -/
def toJson (r : FanOutRecord) : Json := .record r.fields

/-- The count at which all branches are done: the last threshold, or the number of branches if there
is none.
Source: `join_threshold`. -/
def threshold (r : FanOutRecord) : Nat := r.thresholds.getLast?.getD r.totalBranches

/-- Where a branch leaves its output, if there is such a branch; branches are counted from one.
Source: `branch_output_key`. -/
def branchOutput? (r : FanOutRecord) : (branch : Nat) → Option String
  | 0 => none
  | index + 1 => r.branchOutputs[index]?

end FanOutRecord

end Workflow
