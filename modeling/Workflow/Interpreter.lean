import Workflow.Choice
import Workflow.FanOut
import Workflow.Task.Retry
import Workflow.Wait

/-!
# The interpreter

One invocation evaluates one state: its input is cut, the state does what its kind says, the result
is merged into the input, and the output is cut. A Parallel state starts its branches or joins them,
and its outputs are neither merged nor cut. A state that ends a branch leaves its output for the
join.

* `StateError`: why an invocation fails.
* `Transition`, `StateFailure`, `StateOutcome`: what an invocation leads to.
* `StateOutcome.followUps`: what the scheduler is to invoke next.
* `Interpreter`, `Interpreter.make`: a definition with its compiled rules.
* `Interpreter.execute`: one invocation.
-/

namespace Workflow

/-- Why the invocation of a state fails.
Source: `InterpreterError`. -/
inductive StateError where
  | path (error : PathError)
  | choice (error : ChoiceError)
  | wait (error : WaitError)
  | fanOut (error : FanOutError)
  | task (failure : TaskFailure)
  | invalidTrigger
  deriving DecidableEq, Repr

/-- Where the run goes after a state: to the state that is declared or that was chosen, or nowhere,
as it ends, or as what follows has been handed to the scheduler.
Source: `Transition`. -/
inductive Transition where
  | next (state : String)
  | choice (state : String)
  | finish
  | dispatched
  deriving DecidableEq, Repr

/-- What a failed state tells of its failure.
Source: `StateFailure`. -/
structure StateFailure where
  error : Option String
  cause : Option String
  deriving DecidableEq, Repr

/-- What an invocation leads to.
Source: `StateOutcome`. -/
structure StateOutcome where
  output : Json
  transition : Transition
  metadata : Metadata
  failure : Option StateFailure := none
  deriving DecidableEq

/-- The invocations that follow.
Source: `follow_ups`. -/
def StateOutcome.followUps (o : StateOutcome) : List Dispatch :=
  match o.transition with
  | .next state => [⟨state, o.output⟩]
  | .choice state => choiceResults state o.output
  | .finish | .dispatched => []

/-- A definition that is ready to be invoked. A state other than a Choice has no rules.
Source: `StateInterpreter`. -/
structure Interpreter where
  definition : Definition
  rules : ChoiceRules := ⟨[], [], none⟩
  settings : Settings
  deriving DecidableEq

namespace Interpreter

/-- Makes a definition ready: the rules of a Choice are compiled.
Source: `new` of `StateInterpreter`. -/
def make (d : Definition) (settings : Settings) : Except ChoiceError Interpreter :=
  if d.kind = .choice then
    (ChoiceRules.compile d.body.choices d.body.fallback).map fun rules =>
      { definition := d, rules, settings }
  else .ok { definition := d, settings }

/-- Where the run goes as the definition declares.
Source: `declared_transition`. -/
def declared (i : Interpreter) : Transition :=
  match i.definition.body.next with
  | some state => if i.definition.body.isEnd then .finish else .next state
  | none => .finish

/-- What a state has done: it has a result, or its task failed and was caught.
Source: the ends of the kinds of states in `execute`. -/
inductive Performance where
  | finished (result : Json) (transition : Transition) (failure : Option StateFailure)
  | caught (catcher : CatchPolicy) (package : Json)

/-- Runs the task of a Task state.
Source: the Task state in `execute`. -/
def performTask (i : Interpreter) (task : Task) (input : Json) :
    ExceptT StateError Activity Performance := do
  let body := i.definition.body
  let outcome ← (task.invokeUnder body.retriers body.catchers input).adapt StateError.task
  match outcome with
  | .success output => return .finished output i.declared none
  | .exhausted message =>
    return .finished outcome.output i.declared
      (some ⟨some message, some TaskOutcome.exhaustedCause⟩)
  | .caught catcher _ => return .caught catcher outcome.output

/-- Waits as long as a Wait state says.
Source: `wait`. -/
def performWait (i : Interpreter) (input : Json) : ExceptT StateError Activity Performance := do
  let delay ← (i.definition.body.waitDelay input (← Activity.now)).mapError StateError.wait
  if delay ≠ .zero then Activity.sleep delay
  return .finished input i.declared none

/-- Does what the kind of the state says, with the part of the input that it sees.
Source: the kinds of states in `execute`. -/
def perform (i : Interpreter) (task : Task) (input : Json) :
    ExceptT StateError Activity Performance :=
  let body := i.definition.body
  match i.definition.kind with
  | .task => i.performTask task input
  | .choice => do
    let next ← (i.rules.evaluate input).mapError StateError.choice
    return .finished input (.choice next) none
  | .pass => return .finished (body.result.getD input) i.declared none
  | .succeed => return .finished input .finish none
  | .fail => return .finished input .finish (some ⟨body.error, body.cause⟩)
  | .wait => i.performWait input
  | .parallel => return .finished input .dispatched none

/-- Merges a result into the input and cuts the output.
Source: the end of `execute`. -/
def deliver (i : Interpreter) (selector : Selector) (input result : Json) :
    Except StateError Json :=
  (do i.definition.body.outputPath.cutOutput (← selector.mergeResult input result)).mapError .path

/-- Starts the branches of a Parallel state with the part of the input that it sees.
Source: the start in `execute_parallel`. -/
def executeFanOut (i : Interpreter) (input : Json) (run : Run) :
    ExceptT StateError Activity StateOutcome := do
  let seen ← (i.definition.body.inputPath.cutInput input).mapError StateError.path
  let run := FanOut.enter i.definition run
  (FanOut.start i.definition seen run).adapt StateError.fanOut
  return { output := seen, transition := .dispatched, metadata := run.metadata }

/-- Joins the branches of a Parallel state. The input is the trigger.
Source: the join in `execute_parallel`. -/
def executeJoin (i : Interpreter) (input : Json) (run : Run) :
    ExceptT StateError Activity StateOutcome := do
  let some trigger := JoinTrigger.ofJson? input | throw .invalidTrigger
  let outcome ← (FanOut.join i.settings i.definition trigger).adapt StateError.fanOut
  let output := match outcome with
    | .joined outputs _ => .array outputs
    | .alreadyJoined => .null
  return { output, transition := .dispatched, metadata := run.metadata }

/-- Evaluates a state that is not Parallel.
Source: `execute` of a state that is not Parallel. -/
def executeStep (i : Interpreter) (task : Task) (input : Json) (run : Run) :
    ExceptT StateError Activity StateOutcome := do
  let seen ← (i.definition.body.inputPath.cutInput input).mapError StateError.path
  match ← i.perform task seen with
  | .caught catcher package =>
    let output ← i.deliver catcher.resultPath input package
    return { output, transition := .dispatched, metadata := run.metadata }
  | .finished result transition failure =>
    let output ← i.deliver i.definition.body.resultPath input result
    if transition = .finish ∧ i.definition.endsBranch then
      let _ ← (FanOut.recordBranch i.definition output run).adapt StateError.fanOut
    return { output, transition, metadata := run.metadata, failure }

/-- One invocation of the state in a run. A Parallel state joins if the metadata of the run say so,
and starts its branches otherwise.
Source: `execute` of `StateInterpreter`. -/
def execute (i : Interpreter) (task : Task) (input : Json) (run : Run) :
    ExceptT StateError Activity StateOutcome :=
  if i.definition.kind = .parallel then
    if run.metadata.isJoin then i.executeJoin input run else i.executeFanOut input run
  else i.executeStep task input run

end Interpreter

end Workflow
