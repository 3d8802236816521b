import Workflow.FanOut.Keys
import Workflow.Metadata
import Workflow.Run.Id

/-!
# Runs

What an invocation knows of the run that it belongs to.

* `Run`: the run, with its reader and writer.
* `Run.make`, `Run.start`: a run of a given id, and of a new one.
* `Run.forTopic`, `Run.withEndpoint`, `Run.withMetadata`: the run as other states see it.
* `Run.keys`: the names of a fan-out of the run.
-/

namespace Workflow

/-- An execution of a workflow, as one of its states sees it. All states of a run have one execution
id, also those of branches; the topic is the state's own.
Source: `RunContext`. -/
structure Run where
  executionId : String
  topic : String
  endpoint : Option String := none
  metadata : Metadata := {}
  deriving DecidableEq

namespace Run

/-- The names of the fields, in their order. -/
def fieldNames : List String := ["execution_id", "topic", "endpoint", "metadata"]

/-- Reads a run. -/
def ofJson? (v : Json) : Option Run := do
  let fields ← v.recordFields? fieldNames
  let executionId ← Json.required fields "execution_id" Json.string?
  let topic ← Json.required fields "topic" Json.string?
  let endpoint ← Json.optional fields "endpoint" Json.string?
  let metadata ← Json.withDefault fields "metadata" Metadata.ofJson? {}
  return { executionId, topic, endpoint, metadata }

/-- A run in a document. -/
def toJson (r : Run) : Json :=
  .record ([("execution_id", .string r.executionId), ("topic", .string r.topic)]
    ++ Json.optionField "endpoint" .string r.endpoint
    ++ [("metadata", r.metadata.toJson)])

/-- A run of the given id, without metadata.
Source: `new` of `RunContext`. -/
def make (executionId topic : String) : Run := { executionId, topic }

/-- A run of a new id, made of the time and a random number.
Source: `start`. -/
def start (topic : String) (millis random : Nat) : Run := make (timeOrderedId millis random) topic

/-- The run as the state of another topic sees it.
Source: `for_topic`. -/
def forTopic (r : Run) (topic : String) : Run := { r with topic }

/-- The run, to be called back at an address.
Source: `with_endpoint`. -/
def withEndpoint (r : Run) (endpoint : String) : Run := { r with endpoint := some endpoint }

/-- The run with other metadata.
Source: `with_metadata`. -/
def withMetadata (r : Run) (metadata : Metadata) : Run := { r with metadata }

/-- The names of a fan-out of this run and topic.
Source: `for_run`. -/
def keys (r : Run) : FanOutKeys := .make r.topic r.executionId

end Run

end Workflow
