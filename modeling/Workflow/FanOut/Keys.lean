import Workflow.Text.Digits

/-!
# The names of a fan-out

What a Parallel state keeps in the store while its branches run stands under names that are made of
its topic and the execution id, so that every invocation of the run finds them again.

* `FanOutKeys`, `FanOutKeys.make`: the names of one fan-out.
* `FanOutKeys.branchOutput`, `counter`, `trigger`, `metadata`, `outputSet`: the names themselves.
* `triggerKey`: the name of the trigger of a counter.
-/

namespace Workflow

/-- The name under which the trigger of a counter is registered.
Source: `counter_metadata_key`. -/
def triggerKey (counter : String) : String := counter ++ "_metadata"

/-- The names of one fan-out, all of which begin alike.
Source: `ParallelKeys`. -/
structure FanOutKeys where
  stem : String
  deriving DecidableEq, Repr

namespace FanOutKeys

/-- The names of a topic in an execution.
Source: `new` of `ParallelKeys`. -/
def make (topic executionId : String) : FanOutKeys := ⟨topic ++ "_" ++ executionId⟩

/-- Where the output of a branch is put; branches are counted from one.
Source: `branch_output`. -/
def branchOutput (keys : FanOutKeys) (branch : Nat) : String :=
  keys.stem ++ "_branch_" ++ Text.natText branch

/-- The counter of the finished branches.
Source: `counter`. -/
def counter (keys : FanOutKeys) : String := keys.stem ++ "_counter"

/-- The trigger of that counter.
Source: `counter_metadata`. -/
def trigger (keys : FanOutKeys) : String := triggerKey keys.counter

/-- Where the metadata of the run is put for the join.
Source: `workflow_metadata`. -/
def metadata (keys : FanOutKeys) : String := keys.stem ++ "_workflow_metadata"

/-- The set of the branch outputs that have been put.
Source: `output_keys_set`. -/
def outputSet (keys : FanOutKeys) : String := keys.stem ++ "_outputkeys_set"

end FanOutKeys

end Workflow
