import Workflow.Activity
import Workflow.Run
import Workflow.Settings
import Workflow.State.Definition

/-!
# Parallel states

A Parallel state starts its branches and does not wait for them. The branches share nothing but the
store: each leaves its output there, enters that into a set, and then counts itself as done. When
the counter reaches the number of branches, the trigger that was registered for it has the state
invoked again, and it joins the outputs in the order of the branches.

* `FanOutError`: why one of these fails.
* `FanOutRecord.make`, `JoinTrigger.make`: what a fan-out remembers and registers.
* `FanOut.enter`, `FanOut.start`: the record of a fan-out in the run, and the start of the branches.
* `FanOut.recordBranch`: what the last state of a branch does with its output.
* `FanOut.join`: the join, and what it removes at last, `FanOut.cleanUp`.
-/

namespace Workflow

/-- Why a fan-out, the end of a branch, or a join fails.
Source: `ParallelError`. -/
inductive FanOutError where
  | recordNotFound (state executionId : String)
  | noLineage (state : String)
  | noSuchBranch (branch : Nat) (state : String) (total : Nat)
  | unreadableMetadata (key : String)
  | emptyOutputSet (key : String)
  | outputTimeout (key : String) (reads : Nat)
  | store (error : StoreError)
  deriving DecidableEq, Repr

/-- The error in words. -/
def FanOutError.message : FanOutError → String
  | recordNotFound state executionId =>
    "no parallel record for state '" ++ state ++ "' in execution '" ++ executionId ++ "'"
  | noLineage state =>
    "parallel metadata is corrupt: state '" ++ state ++ "' carries no ParentParallelInfo"
  | noSuchBranch branch state total =>
    "parallel metadata is corrupt: branch " ++ Text.natText branch ++ " out of range for '"
      ++ state ++ "' (" ++ Text.natText total ++ " branches)"
  | unreadableMetadata key => "parallel metadata is corrupt: '" ++ key ++ "' holds no metadata"
  | emptyOutputSet key => "branch output set '" ++ key ++ "' is empty at join"
  | outputTimeout key reads =>
    "branch output '" ++ key ++ "' not written after " ++ Text.natText reads ++ " reads"
  | store error => error.message

/-- What a join leads to: the outputs of the branches, and whether they are all there; or nothing,
if the branches have been joined before.
Source: `JoinOutcome`. -/
inductive JoinOutcome where
  | joined (outputs : List Json) (isFinal : Bool)
  | alreadyJoined
  deriving DecidableEq, Repr

/-- What a run remembers of a fan-out to a number of branches.
Source: `fan_out`. -/
def FanOutRecord.make (run : Run) (total : Nat) : FanOutRecord where
  counter := run.keys.counter
  branchOutputs := (List.range total).map fun index => run.keys.branchOutput (index + 1)
  outputSet := run.keys.outputSet
  thresholds := [total]
  totalBranches := total
  executionId := run.executionId
  topic := run.topic
  endpoint := run.endpoint

/-- The trigger of the join of a fan-out to a number of branches.
Source: `fan_out`. -/
def JoinTrigger.make (run : Run) (total : Nat) : JoinTrigger where
  action := .join
  isAsync := run.metadata.isAsync
  metadataKey := run.keys.metadata
  thresholds := [total]
  totalBranches := total
  executionId := run.executionId
  topic := run.topic
  endpoint := run.endpoint

namespace FanOut

/-- The state that ends a workflow.
Source: `END_TARGET`. -/
def endTarget : String := "end"

/-- A call of the store by one of the steps below.
Source: `storage_failure`. -/
def call (c : StoreCall) : ExceptT FanOutError Activity c.Reply :=
  (Activity.store c).adapt .store

/-! ## Starting the branches -/

/-- The run with the record of the fan-out of a state.
Source: the beginning of `fan_out`. -/
def enter (d : Definition) (run : Run) : Run :=
  let record := FanOutRecord.make run d.body.branches.length
  run.withMetadata (run.metadata.setFanOut d.name run.executionId record)

/-- Has the scheduler invoke the states that branches start at.
Source: the end of `fan_out`. -/
def startBranches (input : Json) : List BranchDefinition → Activity Unit
  | [] => return ()
  | branch :: rest => do
    Activity.dispatch branch.startAt input
    startBranches input rest

/-- Starts the branches of a state in a run that has the record of it. Whatever the branches and the
join need is in the store before the first branch is invoked.
Source: `fan_out`. -/
def start (d : Definition) (input : Json) (run : Run) : ExceptT FanOutError Activity Unit := do
  call (.createCounter run.keys.counter 0)
  call (.putTrigger run.keys.trigger (.make run d.body.branches.length))
  call (.put run.keys.metadata run.metadata.toJson)
  call (.createSet run.keys.outputSet)
  startBranches input d.body.branches

/-! ## The end of a branch -/

/-- Where the output of the branch that a state belongs to is to be left, with the record of its
fan-out.
Source: the beginning of `process_branch_terminal`. -/
def branchPlace (d : Definition) (run : Run) : Except FanOutError (FanOutRecord × String) :=
  match d.body.lineage with
  | none => .error (.noLineage d.name)
  | some lineage =>
    match run.metadata.fanOut? lineage.name run.executionId with
    | none => .error (.recordNotFound lineage.name run.executionId)
    | some record =>
      match record.branchOutput? lineage.branchCounter with
      | none =>
        .error (.noSuchBranch lineage.branchCounter lineage.name record.totalBranches)
      | some key => .ok (record, key)

/-- Leaves the output of a branch, and counts the branch as done. The count comes last, so that it
never runs ahead of the outputs. Gives the new count.
Source: `process_branch_terminal`. -/
def recordBranch (d : Definition) (output : Json) (run : Run) :
    ExceptT FanOutError Activity Int := do
  let (record, key) ← branchPlace d run
  call (.put key output)
  call (.addMember record.outputSet key)
  call (.increment record.counter 1)

/-! ## The join -/

/-- Reads an output that a branch has entered into the set, at most the given number of times more.
It may not be there yet; every reading in vain is followed by a pause.
Source: `await_branch_output`. -/
def awaitOutput (settings : Settings) (key : String) :
    (reads : Nat) → ExceptT FanOutError Activity Json
  | 0 => throw (.outputTimeout key settings.pollReads)
  | reads + 1 => do
    match (← call (.get key) : Option Json) with
    | some output => return output
    | none =>
      Activity.sleep settings.pollInterval
      awaitOutput settings key reads

/-- Reads the outputs of branches in order; that of a branch that is not in the set is null.
Source: the loop of `join`. -/
def collect (settings : Settings) (finished : List String) :
    List String → ExceptT FanOutError Activity (List Json)
  | [] => return []
  | key :: rest => do
    let output ← if key ∈ finished then awaitOutput settings key settings.pollReads
      else pure .null
    return output :: (← collect settings finished rest)

/-- Deletes the outputs under the given keys.
Source: the loop of `cleanup`. -/
def deleteOutputs : List String → ExceptT FanOutError Activity Unit
  | [] => return ()
  | key :: rest => do
    call (.delete key)
    deleteOutputs rest

/-- Removes all that a fan-out keeps in the store.
Source: `cleanup`. -/
def cleanUp (record : FanOutRecord) (metadataKey : String) (consumed : List String) :
    ExceptT FanOutError Activity Unit := do
  call (.deleteCounter record.counter)
  call (.deleteTrigger (triggerKey record.counter))
  call (.delete metadataKey)
  deleteOutputs consumed
  call (.deleteSet record.outputSet)

/-- The record of the fan-out of a state in the metadata that were put for the join.
Source: the beginning of `join`. -/
def storedRecord (d : Definition) (trigger : JoinTrigger) (stored : Json) :
    Except FanOutError FanOutRecord :=
  match Metadata.ofJson? stored with
  | none => .error (.unreadableMetadata trigger.metadataKey)
  | some metadata =>
    match metadata.fanOut? d.name trigger.executionId with
    | none => .error (.recordNotFound d.name trigger.executionId)
    | some record => .ok record

/-- Hands a value to the state that follows, and ends the workflow with it if the state is an
end.
Source: the end of `join`. -/
def proceed (d : Definition) (value : Json) : Activity Unit := do
  if let some next := d.body.next then Activity.dispatch next value
  if d.body.isEnd then Activity.dispatch endTarget value

/-- Joins the branches of a state. The metadata stand for the fan-out as long as it is not joined:
the final join removes them with all the rest, so that a trigger that comes again finds nothing.
Source: `join` of `ParallelCoordinator`. -/
def join (settings : Settings) (d : Definition) (trigger : JoinTrigger) :
    ExceptT FanOutError Activity JoinOutcome := do
  match (← call (.get trigger.metadataKey) : Option Json) with
  | none => return .alreadyJoined
  | some stored =>
    let record ← storedRecord d trigger stored
    let finished : List String ← call (.members record.outputSet)
    if finished.isEmpty then throw (.emptyOutputSet record.outputSet)
    let isFinal := trigger.counterValue.natAbs == record.threshold
    let outputs ← collect settings finished record.branchOutputs
    if isFinal then
      cleanUp record trigger.metadataKey (record.branchOutputs.filter (· ∈ finished))
    proceed d (.array outputs)
    return .joined outputs isFinal

end FanOut

end Workflow
