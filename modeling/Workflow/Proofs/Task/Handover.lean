import Workflow.Proofs.Interpreter
import Workflow.Proofs.Task.Retry

/-!
# What a failed Task state hands over

A failure that is caught is handed to the state that takes over as soon as it is caught. Only then
is it delivered, under the path of its catch policy and the output path of the state. Where it
cannot be delivered, the state has failed although another one takes over.

* `Interpreter.dispatches_execute_task`: a Task state hands over what its task has handed over.
* `Interpreter.DeliversCaught`: whatever is caught can be delivered. This is the exact condition
  under which a failed Task state has handed over nothing, in one run
  (`failure_hands_over_nothing_iff`) and for all results of its task
  (`failure_never_hands_over_iff`).
* `unmergedOrder_hands_over`: a state that fails and is continued.
-/

namespace Workflow

open Activity hiding bind_assoc

variable {σ : Type}

namespace Interpreter

/-- The invocations of the task of a state, under its policies. -/
abbrev invokeTask (i : Interpreter) (task : Task) (seen : Json) :
    ExceptT TaskFailure Activity TaskOutcome :=
  task.invokeUnder i.definition.body.retriers i.definition.body.catchers seen

/-- What a Task state has done, by how its task has ended. -/
def performed (i : Interpreter) : TaskOutcome → Performance
  | .success output => .finished output i.declared none
  | .exhausted message =>
    .finished (TaskOutcome.exhausted message).output i.declared
      (some ⟨some message, some TaskOutcome.exhaustedCause⟩)
  | .caught catcher message => .caught catcher (TaskOutcome.package message TaskOutcome.caughtCause)

section execute

variable {i : Interpreter} {task : Task} {input seen : Json} {run : Run}
  {environment : Environment σ} {s : σ}

/-- What a Task state does is to have its task invoked under its policies. -/
theorem perform_task (hkind : i.definition.kind = .task) (task : Task) (seen : Json) :
    i.perform task seen =
      ((i.invokeTask task seen).adapt StateError.task >>= fun outcome =>
        return i.performed outcome) := by
  unfold perform performTask
  rw [hkind]
  apply congrArg (_ >>= ·)
  funext outcome
  cases outcome <;> rfl

/-- A Task state has its task invoked under its policies, and then the outcome is delivered. -/
theorem execute_task (hkind : i.definition.kind = .task)
    (hseen : i.definition.body.inputPath.cutInput input = .ok seen) :
    i.execute task input run =
      ((i.invokeTask task seen).adapt StateError.task >>= fun outcome =>
        i.conclude input run (i.performed outcome)) := by
  rw [execute, if_neg (by rw [hkind]; decide), executeStep_eq, hseen]
  change (i.perform task seen >>= fun performance => i.conclude input run performance) = _
  rw [perform_task hkind]
  simp only [bind_assoc, pure_bind]

/-- A Task state hands over what its task has handed over. -/
theorem dispatches_execute_task (hkind : i.definition.kind = .task) (htask : task.IsRestrained)
    (hseen : i.definition.body.inputPath.cutInput input = .ok seen) :
    (i.execute task input run).run.dispatches environment s =
      task.handover ((i.invokeTask task seen).run.run environment s).1 := by
  have hadapt := run_adapt environment (i.invokeTask task seen) StateError.task s
  rw [execute_task hkind hseen]
  rcases hinvoked : (i.invokeTask task seen).run.run environment s with ⟨failure | outcome, t⟩
  · rw [hinvoked] at hadapt
    rw [dispatches_bind_error hadapt, dispatches_adapt, dispatches_invokeUnder htask, hinvoked]
  · rw [hinvoked] at hadapt
    have hconclude : (i.conclude input run (i.performed outcome)).run.dispatches environment t =
        [] := (i.conclude_restrained input run (i.performed outcome)).dispatches_eq_nil
    rw [dispatches_bind_ok hadapt, dispatches_adapt, dispatches_invokeUnder htask, hinvoked,
      hconclude, List.append_nil]

/-- A Task state whose failure is caught fails exactly if it cannot be delivered. -/
theorem run_execute_task_caught (hkind : i.definition.kind = .task)
    (hseen : i.definition.body.inputPath.cutInput input = .ok seen) {catcher : CatchPolicy}
    {message : String}
    (hcaught : ((i.invokeTask task seen).run.run environment s).1 = .ok (.caught catcher message)) :
    ((i.execute task input run).run.run environment s).1 =
      (i.deliver catcher.resultPath input (TaskOutcome.package message TaskOutcome.caughtCause)).map
        fun output => { output, transition := .dispatched, metadata := run.metadata } := by
  have hadapt := run_adapt environment (i.invokeTask task seen) StateError.task s
  rw [hcaught] at hadapt
  rw [execute_task hkind hseen, run_bind_ok hadapt]
  exact congrArg Prod.fst (i.run_conclude_caught input run catcher _ environment _)

/-- Without a part of the input to see, a state has neither a task nor anything to hand over. -/
theorem dispatches_execute_unseen (hkind : i.definition.kind = .task) {error : PathError}
    (hseen : i.definition.body.inputPath.cutInput input = .error error) :
    (i.execute task input run).run.dispatches environment s = [] := by
  rw [execute, if_neg (by rw [hkind]; decide), executeStep_eq, hseen]
  rfl

end execute

/-! ## The condition -/

/-- Whether a failure that is caught in a run of the task can be delivered, under the path of its
catch policy and the output path of the state. -/
def DeliversCaught (i : Interpreter) (environment : Environment σ) (s : σ) (input : Json) : Prop :=
  ∀ seen catcher message,
    i.definition.body.inputPath.cutInput input = .ok seen →
    ((i.invokeTask .inProcess seen).run.run environment s).1 = .ok (.caught catcher message) →
    ∃ output, i.deliver catcher.resultPath input
      (TaskOutcome.package message TaskOutcome.caughtCause) = .ok output

section condition

variable {i : Interpreter} {input seen : Json} {run : Run} {environment : Environment σ} {s : σ}

/-- A failure that is caught and cannot be delivered: the state fails, and another one takes
over. -/
theorem hands_over_of_undelivered (run : Run) (hkind : i.definition.kind = .task)
    (hseen : i.definition.body.inputPath.cutInput input = .ok seen) {catcher : CatchPolicy}
    {message : String} {error : StateError}
    (hcaught : ((i.invokeTask .inProcess seen).run.run environment s).1 =
      .ok (.caught catcher message))
    (hdeliver : i.deliver catcher.resultPath input
      (TaskOutcome.package message TaskOutcome.caughtCause) = .error error) :
    ((i.execute .inProcess input run).run.run environment s).1 = .error error ∧
      (i.execute .inProcess input run).run.dispatches environment s =
        [⟨catcher.next, .string message⟩] := by
  constructor
  · rw [run_execute_task_caught hkind hseen hcaught, hdeliver]
    rfl
  · rw [dispatches_execute_task hkind Task.inProcess_restrained hseen, hcaught]
    rfl

/-- Where whatever is caught can be delivered, a state that fails has handed over nothing. -/
theorem hands_over_nothing_of_delivers (hkind : i.definition.kind = .task)
    (hdelivers : i.DeliversCaught environment s input) {error : StateError}
    (hfails : ((i.execute .inProcess input run).run.run environment s).1 = .error error) :
    (i.execute .inProcess input run).run.dispatches environment s = [] := by
  cases hseen : i.definition.body.inputPath.cutInput input with
  | error error => exact dispatches_execute_unseen hkind hseen
  | ok seen =>
    rw [dispatches_execute_task hkind Task.inProcess_restrained hseen]
    rcases hinvoked : ((i.invokeTask .inProcess seen).run.run environment s).1 with
      failure | outcome
    · rfl
    · cases outcome with
      | success output => rfl
      | exhausted message => rfl
      | caught catcher message =>
        obtain ⟨output, hdeliver⟩ := hdelivers seen catcher message hseen hinvoked
        rw [run_execute_task_caught hkind hseen hinvoked, hdeliver] at hfails
        cases hfails

end condition

/-- A Task state that fails has handed over nothing exactly if what was caught could be delivered,
whoever answers its task. -/
theorem failure_hands_over_nothing_iff {i : Interpreter} (hkind : i.definition.kind = .task)
    (environment : Environment σ) (s : σ) (input : Json) (run : Run) :
    (∀ error, ((i.execute .inProcess input run).run.run environment s).1 = .error error →
      (i.execute .inProcess input run).run.dispatches environment s = []) ↔
    i.DeliversCaught environment s input := by
  constructor
  · intro hnothing seen catcher message hseen hcaught
    cases hdeliver : i.deliver catcher.resultPath input
      (TaskOutcome.package message TaskOutcome.caughtCause) with
    | ok output => exact ⟨output, rfl⟩
    | error error =>
      obtain ⟨hfails, hdispatches⟩ :=
        hands_over_of_undelivered run hkind hseen hcaught hdeliver
      rw [hnothing error hfails] at hdispatches
      cases hdispatches
  · intro hdelivers error hfails
    exact hands_over_nothing_of_delivers hkind hdelivers hfails

/-- Whatever the results of its task are: a Task state that fails has handed over nothing, exactly
if every failure that a catch policy is for can be delivered. -/
theorem failure_never_hands_over_iff {i : Interpreter} (hkind : i.definition.kind = .task)
    (input : Json) :
    (∀ results run error,
      ((i.execute .inProcess input run).run.run (resultsInTurn results) 0).1 = .error error →
      (i.execute .inProcess input run).run.dispatches (resultsInTurn results) 0 = []) ↔
    ∀ seen (failure : TaskFailure) catcher,
      i.definition.body.inputPath.cutInput input = .ok seen →
      (i.definition.body.catchers.find? fun c => failure.matchedBy c.errorEquals) = some catcher →
      ∃ output, i.deliver catcher.resultPath input
        (TaskOutcome.package failure.message TaskOutcome.caughtCause) = .ok output := by
  constructor
  · intro hnothing seen failure catcher hseen hcatcher
    cases hdeliver : i.deliver catcher.resultPath input
      (TaskOutcome.package failure.message TaskOutcome.caughtCause) with
    | ok output => exact ⟨output, rfl⟩
    | error error =>
      have hcaught := invokeUnder_failing hcatcher i.definition.body.retriers seen
      obtain ⟨hfails, hdispatches⟩ :=
        hands_over_of_undelivered (.make "" "") hkind hseen hcaught hdeliver
      rw [hnothing _ _ error hfails] at hdispatches
      cases hdispatches
  · intro hdelivers results run error hfails
    refine hands_over_nothing_of_delivers hkind (fun seen catcher message hseen hcaught => ?_)
      hfails
    obtain ⟨failure, rfl, hcatcher⟩ := exists_failure_of_caught hcaught
    exact hdelivers seen failure catcher hseen hcatcher

/-! ### A state that fails and is continued -/

/-- The document of a Task state that enters a failure into a field of its input. -/
def orderDocument : Json :=
  .object [
    ("Type", .string "Task"),
    ("End", .bool true),
    ("Catch", .array [
      .object [
        ("ErrorEquals", .array [.string "Declined"]),
        ("Next", .string "Recover"),
        ("ResultPath", .string "$.error")]])]

/-- The state that is read from `orderDocument`. -/
def order : Definition where
  name := "Order"
  kind := .task
  document := orderDocument
  body := {
    typeName := some "Task"
    isEnd := true
    catchers := [⟨["Declined"], "Recover", .path "$.error"⟩] }

example : Definition.ofJson "Task" "Order" orderDocument = .ok order := by rfl

/-- The state `order`, ready to be invoked. -/
def orderState : Interpreter := { definition := order, settings := {} }

example : make order {} = .ok orderState := by rfl

/-- The invocation of `orderState` with an input that has no fields. -/
def orderInvocation : Activity (Except StateError StateOutcome) :=
  (orderState.execute .inProcess (.string "order-7") (.make "run" "wf_Order")).run

/-- A task that always fails in the given way. -/
def failing (errorType message : String) : Environment Nat :=
  resultsInTurn fun _ => .error (.raised errorType message)

/-- With a failure that no catch policy is for, the invocation of `orderState` fails and has handed
over nothing. -/
theorem uncaughtOrder_hands_over_nothing :
    (orderInvocation.run (failing "Lost" "no answer") 0).1 =
        .error (.task (.raised "Lost" "no answer")) ∧
      orderInvocation.dispatches (failing "Lost" "no answer") 0 = [] := by
  have hfails : (orderInvocation.run (failing "Lost" "no answer") 0).1 =
      .error (.task (.raised "Lost" "no answer")) := by
    decide +kernel
  have hdelivers : orderState.DeliversCaught (failing "Lost" "no answer") 0
      (.string "order-7") := by
    intro seen catcher message hseen hcaught
    cases hseen
    have hstands : ((orderState.invokeTask .inProcess (.string "order-7")).run.run
        (failing "Lost" "no answer") 0).1 = .error (.raised "Lost" "no answer") := by
      decide +kernel
    rw [hstands] at hcaught
    cases hcaught
  exact ⟨hfails, (failure_hands_over_nothing_iff rfl (failing "Lost" "no answer") 0
    (.string "order-7") (.make "run" "wf_Order")).mpr hdelivers _ hfails⟩

/-- With a failure that is caught and cannot be entered into the input, the invocation of
`orderState` fails and has handed over all the same. -/
theorem unmergedOrder_hands_over :
    (orderInvocation.run (failing "Declined" "no funds") 0).1 =
        .error (.path (.notAnObject "$.error")) ∧
      orderInvocation.dispatches (failing "Declined" "no funds") 0 =
        [⟨"Recover", .string "no funds"⟩] := by
  decide +kernel

end Interpreter

end Workflow
