import Workflow.Interpreter
import Workflow.Proofs.World

/-!
# The conclusion of an invocation

A state that is not Parallel is invoked in two parts: it does what its kind says, with the part of
the input that it sees, and then its result is delivered. The scheduler can only be involved in the
first part.

* `Interpreter.conclude`: the second part, and `Interpreter.executeStep_eq`, the whole.
* `Interpreter.conclude_restrained`: the second part hands nothing to the scheduler.
* `Interpreter.run_conclude_caught`: what comes of a failure that was caught.
-/

namespace Workflow

namespace FanOut

/-- The end of a branch hands nothing to the scheduler itself. -/
theorem recordBranch_restrained (d : Definition) (output : Json) (run : Run) :
    (recordBranch d output run).run.OnlyAsks Request.IsRestrained := by
  unfold recordBranch
  refine .bindFailing (.nothing _) fun place => ?_
  refine .bindFailing (call_onlyAsks rfl) fun _ => ?_
  refine .bindFailing (call_onlyAsks rfl) fun _ => ?_
  exact call_onlyAsks rfl

end FanOut

namespace Interpreter

open Activity

variable {σ : Type}

/-- What follows when a state that is not Parallel has done what its kind says. -/
def conclude (i : Interpreter) (input : Json) (run : Run) :
    Performance → ExceptT StateError Activity StateOutcome
  | .caught catcher package => do
    let output ← i.deliver catcher.resultPath input package
    return { output, transition := .dispatched, metadata := run.metadata }
  | .finished result transition failure => do
    let output ← i.deliver i.definition.body.resultPath input result
    if transition = .finish ∧ i.definition.endsBranch then
      let _ ← (FanOut.recordBranch i.definition output run).adapt StateError.fanOut
    return { output, transition, metadata := run.metadata, failure }

/-- A state does what its kind says, and then its result is delivered. -/
theorem executeStep_eq (i : Interpreter) (task : Task) (input : Json) (run : Run) :
    i.executeStep task input run = (do
      let seen ← (i.definition.body.inputPath.cutInput input).mapError StateError.path
      i.conclude input run (← i.perform task seen)) := by
  unfold executeStep conclude
  rfl

/-- The delivery of a result hands nothing to the scheduler. -/
theorem conclude_restrained (i : Interpreter) (input : Json) (run : Run)
    (performance : Performance) :
    (i.conclude input run performance).run.OnlyAsks Request.IsRestrained := by
  cases performance with
  | caught catcher package =>
    apply OnlyAsks.bindFailing (.nothing _)
    intro output
    trivial
  | finished result transition failure =>
    apply OnlyAsks.bindFailing (.nothing _)
    intro output
    split
    · apply OnlyAsks.bindFailing
      · exact OnlyAsks.adapt _ (FanOut.recordBranch_restrained _ _ _)
      · intro _
        trivial
    · trivial

/-- A failure that was caught is delivered as the catch policy says, or the state fails. -/
theorem run_conclude_caught (i : Interpreter) (input : Json) (run : Run) (catcher : CatchPolicy)
    (package : Json) (environment : Environment σ) (s : σ) :
    (i.conclude input run (.caught catcher package)).run.run environment s =
      ((i.deliver catcher.resultPath input package).map fun output =>
        { output, transition := .dispatched, metadata := run.metadata }, s) := by
  simp only [conclude]
  cases i.deliver catcher.resultPath input package <;> rfl

end Interpreter

end Workflow
