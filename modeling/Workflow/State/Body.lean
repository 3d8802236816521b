import Workflow.State.Policy

/-!
# The body of a state definition

All kinds of states share one record of fields; those that do not apply to a kind are absent.

* `BranchDefinition`: a branch of a Parallel state.
* `BranchLineage`: the Parallel state and the branch that a state belongs to.
* `StateBody`: the fields of a definition, with their reader and writer.
-/

namespace Workflow

/-- A branch of a Parallel state: the state it starts at, and its states if they are given.
Source: `BranchDefinition`. -/
structure BranchDefinition where
  startAt : String
  states : Option Json := none
  deriving DecidableEq, Repr

namespace BranchDefinition

/-- Reads a branch. -/
def ofJson? (v : Json) : Option BranchDefinition := do
  let fields ← v.recordFields? ["StartAt", "States"]
  let startAt ← Json.required fields "StartAt" Json.string?
  let states ← Json.optional fields "States" some
  return { startAt, states }

/-- The parts of a branch. -/
def parts (b : BranchDefinition) : List (String × Option Json) :=
  [("StartAt", some (.string b.startAt)), ("States", b.states)]

/-- A branch in a document. -/
def toJson (b : BranchDefinition) : Json := .record (Json.present b.parts)

end BranchDefinition

/-- The Parallel state that a state belongs to, and the number of its branch, counted from one.
Source: `ParentParallelInfo`. -/
structure BranchLineage where
  name : String
  branchCounter : Nat
  deriving DecidableEq, Repr

namespace BranchLineage

/-- Reads a lineage. -/
def ofJson? (v : Json) : Option BranchLineage := do
  let fields ← v.recordFields? ["Name", "BranchCounter"]
  let name ← Json.required fields "Name" Json.string?
  let branchCounter ← Json.required fields "BranchCounter" (Json.natBelow? Word.count64)
  return { name, branchCounter }

/-- The parts of a lineage. -/
def parts (l : BranchLineage) : List (String × Option Json) :=
  [("Name", some (.string l.name)), ("BranchCounter", some (.nat l.branchCounter))]

/-- A lineage in a document. -/
def toJson (l : BranchLineage) : Json := .record (Json.present l.parts)

end BranchLineage

/-- The fields of a state definition.
Source: `StateBody`. -/
structure StateBody where
  typeName : Option String := none
  next : Option String := none
  isEnd : Bool := false
  comment : Option String := none
  inputPath : Selector := .identity
  outputPath : Selector := .identity
  resultPath : Selector := .identity
  retriers : List RetryPolicy := []
  catchers : List CatchPolicy := []
  choices : List Json := []
  fallback : Option String := none
  result : Option Json := none
  error : Option String := none
  cause : Option String := none
  seconds : Option Json := none
  secondsPath : Option String := none
  timestamp : Option String := none
  timestampPath : Option String := none
  branches : List BranchDefinition := []
  branchCount : Option Nat := none
  lineage : Option BranchLineage := none
  deriving DecidableEq, Repr

namespace StateBody

/-- The names of the fields, in their order. -/
def fieldNames : List String :=
  ["Type", "Next", "End", "Comment", "InputPath", "OutputPath", "ResultPath", "Retry", "Catch",
    "Choices", "Default", "Result", "Error", "Cause", "Seconds", "SecondsPath", "Timestamp",
    "TimestampPath", "Branches", "BranchCount", "ParentParallelInfo"]

/-- Reads a body. Every field may be missing.
Source: the reader of `StateBody`. -/
def ofJson? (v : Json) : Option StateBody := do
  let fields ← v.recordFields? fieldNames
  let text name := Json.optional fields name Json.string?
  let value name := Json.optional fields name some
  let selector name := Json.withDefault fields name Selector.ofJson? .identity
  return {
    typeName := ← text "Type"
    next := ← text "Next"
    isEnd := ← Json.withDefault fields "End" Json.bool? false
    comment := ← text "Comment"
    inputPath := ← selector "InputPath"
    outputPath := ← selector "OutputPath"
    resultPath := ← selector "ResultPath"
    retriers := ← Json.withDefault fields "Retry" (Json.list? RetryPolicy.ofJson?) []
    catchers := ← Json.withDefault fields "Catch" (Json.list? CatchPolicy.ofJson?) []
    choices := ← Json.withDefault fields "Choices" Json.array? []
    fallback := ← text "Default"
    result := ← value "Result"
    error := ← text "Error"
    cause := ← text "Cause"
    seconds := ← value "Seconds"
    secondsPath := ← text "SecondsPath"
    timestamp := ← text "Timestamp"
    timestampPath := ← text "TimestampPath"
    branches := ← Json.withDefault fields "Branches" (Json.list? BranchDefinition.ofJson?) []
    branchCount := ← Json.optional fields "BranchCount" (Json.natBelow? Word.count64)
    lineage := ← Json.optional fields "ParentParallelInfo" BranchLineage.ofJson? }

/-- The parts of a body: absent fields and empty lists have no value, the end mark and the three
selectors always one.
Source: the writer of `StateBody`. -/
def parts (b : StateBody) : List (String × Option Json) :=
  [("Type", b.typeName.map .string), ("Next", b.next.map .string), ("End", some (.bool b.isEnd)),
    ("Comment", b.comment.map .string), ("InputPath", some b.inputPath.toJson),
    ("OutputPath", some b.outputPath.toJson), ("ResultPath", some b.resultPath.toJson),
    ("Retry", Json.listValue RetryPolicy.toJson b.retriers),
    ("Catch", Json.listValue CatchPolicy.toJson b.catchers),
    ("Choices", Json.listValue id b.choices), ("Default", b.fallback.map .string),
    ("Result", b.result), ("Error", b.error.map .string), ("Cause", b.cause.map .string),
    ("Seconds", b.seconds), ("SecondsPath", b.secondsPath.map .string),
    ("Timestamp", b.timestamp.map .string), ("TimestampPath", b.timestampPath.map .string),
    ("Branches", Json.listValue BranchDefinition.toJson b.branches),
    ("BranchCount", b.branchCount.map .nat),
    ("ParentParallelInfo", b.lineage.map BranchLineage.toJson)]

/-- A body in a document. -/
def toJson (b : StateBody) : Json := .record (Json.present b.parts)

end StateBody

end Workflow
