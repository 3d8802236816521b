import Workflow.Interpreter
import Workflow.Simulation.World

/-!
# Driving a run

A run goes on by itself: whatever the scheduler has in its queue is invoked, the oldest first, and
when the queue is empty, the oldest trigger that has fired.

* `Stage`: the world, the states that can be invoked, their task, and the run.
* `Record`: what was invoked, and the values that the workflow ended with.
* `Stage.drive`: goes on for a number of invocations.
-/

namespace Workflow

/-- The world, the states that can be invoked, the task of all of them, and the run. -/
structure Stage where
  world : World
  states : List Interpreter
  task : Task
  run : Run

/-- What happened: the invocations with their outputs or errors, and the values that the workflow
ended with. -/
structure DriveRecord where
  trace : List (String × Except StateError Json) := []
  finished : List Json := []

/-- Why driving on is pointless: a state that is to be invoked is unknown. -/
structure UnknownState where
  name : String
  deriving DecidableEq, Repr

namespace DriveRecord

/-- Enters an invocation. -/
def invoked (r : DriveRecord) (name : String) (result : Except StateError Json) : DriveRecord :=
  { r with trace := r.trace ++ [(name, result)] }

/-- Enters a value that the workflow ended with. -/
def ended (r : DriveRecord) (value : Json) : DriveRecord :=
  { r with finished := r.finished ++ [value] }

end DriveRecord

namespace Stage

/-- What a topic begins with; the name of the state follows. -/
def topicStem : List Char := "wf_".toList

/-- The topic of a state. -/
def topicOf (state : String) : String := .ofList (topicStem ++ state.toList)

/-- The state of a topic. -/
def stateOf (topic : String) : String :=
  let cs := topic.toList
  if topicStem.isPrefixOf cs then .ofList (cs.drop topicStem.length) else topic

/-- The state of a name. -/
def state? (s : Stage) (name : String) : Option Interpreter :=
  s.states.find? fun i => i.definition.name == name

/-- Invokes a state as a run sees it. -/
def invoke (s : Stage) (i : Interpreter) (input : Json) (run : Run) :
    Except StateError StateOutcome × Stage :=
  let (result, world) := s.world.perform (i.execute s.task input run).run
  (result, { s with world })

/-- What an invocation leads to when its state was in the queue: the run takes over the metadata,
what follows enters the queue, and the output is that of the workflow if it ends here. -/
def follow (s : Stage) (i : Interpreter) (outcome : StateOutcome) (record : DriveRecord) :
    Stage × DriveRecord :=
  let isLast := outcome.transition = .finish ∧ !i.definition.endsBranch
  let record := if isLast then record.ended outcome.output else record
  let world := outcome.followUps.foldl World.dispatch s.world
  ({ s with world, run := s.run.withMetadata outcome.metadata }, record)

/-- Invokes the state of a dispatch; tells whether the run goes on. -/
def serveDispatch (s : Stage) (d : Dispatch) (record : DriveRecord) :
    Except UnknownState (Bool × DriveRecord) × Stage :=
  if d.next = FanOut.endTarget then (.ok (true, record.ended d.value), s)
  else match s.state? d.next with
    | none => (.error ⟨d.next⟩, s)
    | some i =>
      match s.invoke i d.value (s.run.forTopic (topicOf d.next)) with
      | (.error error, s) => (.ok (false, record.invoked d.next (.error error)), s)
      | (.ok outcome, s) =>
        let (s, record) := s.follow i outcome (record.invoked d.next (.ok outcome.output))
        (.ok (true, record), s)

/-- Invokes the state of a trigger that has fired, as its topic sees the run, to join; tells whether
the run goes on. The run itself is left alone. -/
def serveTrigger (s : Stage) (fired : FiredTrigger) (record : DriveRecord) :
    Except UnknownState (Bool × DriveRecord) × Stage :=
  let name := stateOf fired.trigger.topic
  match s.state? name with
  | none => (.error ⟨name⟩, s)
  | some i =>
    let run := (s.run.forTopic fired.trigger.topic).withMetadata
      { s.run.metadata with action := some .join }
    let (result, s) := s.invoke i fired.trigger.toJson run
    match result with
    | .error error => (.ok (false, record.invoked name (.error error)), s)
    | .ok outcome => (.ok (true, record.invoked name (.ok outcome.output)), s)

/-- The next invocation, if anything is left to invoke. -/
def serveNext (s : Stage) (record : DriveRecord) :
    Except UnknownState (Bool × DriveRecord) × Stage :=
  match s.world.queue, s.world.fired with
  | d :: queue, _ => { s with world := { s.world with queue } }.serveDispatch d record
  | [], trigger :: fired => { s with world := { s.world with fired } }.serveTrigger trigger record
  | [], [] => (.ok (false, record), s)

/-- Goes on for a number of invocations, until nothing is left or one fails. -/
def drive (s : Stage) (record : DriveRecord) :
    (steps : Nat) → Except UnknownState DriveRecord × Stage
  | 0 => (.ok record, s)
  | steps + 1 =>
    match s.serveNext record with
    | (.error unknown, s) => (.error unknown, s)
    | (.ok (true, record), s) => s.drive record steps
    | (.ok (false, record), s) => (.ok record, s)

end Stage

end Workflow
