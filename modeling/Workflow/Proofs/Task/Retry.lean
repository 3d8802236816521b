import Workflow.Proofs.Activity
import Workflow.Task.Retry

/-!
# The retry loop

One round of the loop invokes the task. A failure is answered by another round, with one retry less
that is left, or it ends the loop, and only then can something be handed to the scheduler.

* `answerFailure`, `invokeWithin_eq`: what follows a failure, and one round of the loop.
* `Task.handover`: what the loop hands to the scheduler, by how it ends (`dispatches_invokeUnder`).
* `resultsInTurn`: invocations in process whose results are given beforehand.
* `invokeUnder_failing`: a task that fails again and again in the same way is caught at last, if
  there is a catch policy for the failure.
-/

namespace Workflow

open Activity

variable {σ : Type}

/-! ## One round -/

/-- What follows a failure of the task. -/
def answerFailure (task : Task) (catchers : List CatchPolicy) (input : Json) (budget : RetryBudget)
    (failure : TaskFailure) : Activity (Except TaskFailure TaskOutcome) :=
  match budget.decide failure with
  | .unmatched => (catchFailure task catchers failure).run
  | .exhausted =>
    if catchers.isEmpty then return .ok (.exhausted failure.message)
    else (catchFailure task catchers failure).run
  | .again delay next => do
    Activity.sleep delay
    (invokeWithin task catchers input next).run

/-- The task is invoked, and a failure is answered by the policies. -/
theorem invokeWithin_eq (task : Task) (catchers : List CatchPolicy) (input : Json)
    (budget : RetryBudget) :
    (invokeWithin task catchers input budget).run = (do
      match ← (task.invoke input).run with
      | .ok output => return .ok (.success output)
      | .error failure => answerFailure task catchers input budget failure) := by
  rw [invokeWithin]
  apply congrArg (fun f => (task.invoke input).run >>= f)
  funext result
  cases result with
  | ok output => rfl
  | error failure =>
    simp only [answerFailure]
    cases budget.decide failure <;> rfl

/-! ## What is handed over -/

/-- Whether the invocations of a task hand nothing to the scheduler themselves. -/
def Task.IsRestrained (task : Task) : Prop :=
  ∀ input, (task.invoke input).run.OnlyAsks Request.IsRestrained

/-- A task in process hands nothing to the scheduler itself. -/
theorem Task.inProcess_restrained : Task.inProcess.IsRestrained :=
  fun _ => ⟨rfl, fun _ => trivial⟩

/-- What the invocations of a task under its policies hand to the scheduler, by how they end: a
failure that was caught, to the state that takes over. -/
def Task.handover (task : Task) : Except TaskFailure TaskOutcome → List Dispatch
  | .ok (.caught catcher message) => [⟨catcher.next, task.catchPayload message⟩]
  | .ok (.success _) | .ok (.exhausted _) | .error _ => []

section handover

variable {task : Task} {catchers : List CatchPolicy} {input : Json} {budget : RetryBudget}
  {failure : TaskFailure} {environment : Environment σ} {s : σ}

/-- Catching a failure hands over the state that takes over, if a catch policy is for it. -/
theorem dispatches_catchFailure :
    (catchFailure task catchers failure).run.dispatches environment s =
      task.handover ((catchFailure task catchers failure).run.run environment s).1 := by
  unfold catchFailure
  cases catchers.find? fun catcher => failure.matchedBy catcher.errorEquals with
  | none => rfl
  | some catcher => rfl

/-- Only the end of the loop hands something to the scheduler. -/
theorem dispatches_invokeWithin (htask : task.IsRestrained) :
    (invokeWithin task catchers input budget).run.dispatches environment s =
      task.handover ((invokeWithin task catchers input budget).run.run environment s).1 := by
  induction budget using invokeWithin.induct generalizing s with
  | case1 budget ih =>
    rw [invokeWithin_eq, dispatches_bind, run_bind, (htask input).dispatches_eq_nil,
      List.nil_append]
    generalize (task.invoke input).run.run environment s = invoked
    rcases invoked with ⟨failure | output, s⟩
    · simp only [answerFailure]
      cases hdecide : budget.decide failure with
      | unmatched => exact dispatches_catchFailure
      | exhausted =>
        cases catchers with
        | nil => rfl
        | cons head rest => exact dispatches_catchFailure
      | again delay next => exact ih failure delay next hdecide
    · rfl

/-- A restrained task under its policies hands over what its end says. -/
theorem dispatches_invokeUnder (htask : task.IsRestrained) (retriers : List RetryPolicy) :
    (task.invokeUnder retriers catchers input).run.dispatches environment s =
      task.handover ((task.invokeUnder retriers catchers input).run.run environment s).1 :=
  dispatches_invokeWithin htask

/-- What is caught at the end of the loop is a failure that its catch policy is the first for. -/
theorem exists_failure_of_caught {catcher : CatchPolicy} {message : String}
    (h : ((invokeWithin task catchers input budget).run.run environment s).1 =
      .ok (.caught catcher message)) :
    ∃ failure : TaskFailure, failure.message = message ∧
      (catchers.find? fun c => failure.matchedBy c.errorEquals) = some catcher := by
  have hcatch (failure : TaskFailure) (s : σ)
      (h : ((catchFailure task catchers failure).run.run environment s).1 =
        .ok (.caught catcher message)) :
      failure.message = message ∧
        (catchers.find? fun c => failure.matchedBy c.errorEquals) = some catcher := by
    unfold catchFailure at h
    cases hfind : catchers.find? fun c => failure.matchedBy c.errorEquals with
    | none =>
      rw [hfind] at h
      cases h
    | some found =>
      rw [hfind] at h
      cases h
      exact ⟨rfl, rfl⟩
  induction budget using invokeWithin.induct generalizing s with
  | case1 budget ih =>
    rw [invokeWithin_eq, run_bind] at h
    generalize (task.invoke input).run.run environment s = invoked at h
    rcases invoked with ⟨failure | output, s⟩
    · simp only [answerFailure] at h
      cases hdecide : budget.decide failure with
      | unmatched =>
        rw [hdecide] at h
        exact ⟨failure, hcatch failure s h⟩
      | exhausted =>
        rw [hdecide] at h
        cases catchers with
        | nil => cases h
        | cons head rest => exact ⟨failure, hcatch failure s h⟩
      | again delay next =>
        rw [hdecide] at h
        exact ih failure delay next hdecide h
    · cases h

end handover

/-! ## Results that are given beforehand -/

/-- Answers the invocations in process with the given results, one after the other, and counts them.
There is neither a store nor a worker. -/
def resultsInTurn (results : Nat → Except TaskFailure Json) : Environment Nat
  | .work _, count => (results count, count + 1)
  | .store _, count => (.error (.backend "there is no store"), count)
  | .dispatch _, count => ((), count)
  | .sleep _, count => ((), count)
  | .now, count => (⟨0, 0⟩, count)
  | .connect, count => (.error "there is no worker", count)
  | .send _, count => (false, count)

/-- A task that always fails in the same way is caught at last. -/
theorem invokeWithin_failing {catchers : List CatchPolicy} {failure : TaskFailure}
    {catcher : CatchPolicy}
    (hcatcher : (catchers.find? fun c => failure.matchedBy c.errorEquals) = some catcher)
    (input : Json) (budget : RetryBudget) (count : Nat) :
    ((invokeWithin .inProcess catchers input budget).run.run
      (resultsInTurn fun _ => .error failure) count).1 = .ok (.caught catcher failure.message) := by
  have hcatch (count : Nat) : ((catchFailure .inProcess catchers failure).run.run
      (resultsInTurn fun _ => .error failure) count).1 =
        .ok (.caught catcher failure.message) := by
    rw [catchFailure, hcatcher]
    rfl
  induction budget using invokeWithin.induct generalizing count with
  | case1 budget ih =>
    rw [invokeWithin_eq]
    change ((answerFailure .inProcess catchers input budget failure).run
      (resultsInTurn fun _ => .error failure) (count + 1)).1 = _
    unfold answerFailure
    cases hdecide : budget.decide failure with
    | unmatched => exact hcatch _
    | exhausted =>
      cases catchers with
      | nil => cases hcatcher
      | cons head rest => exact hcatch _
    | again delay next => exact ih failure delay next hdecide _

/-- A task that always fails in one way is caught at last by the first catch policy for it, whatever
its retry policies are. -/
theorem invokeUnder_failing {catchers : List CatchPolicy} {failure : TaskFailure}
    {catcher : CatchPolicy}
    (hcatcher : (catchers.find? fun c => failure.matchedBy c.errorEquals) = some catcher)
    (retriers : List RetryPolicy) (input : Json) :
    ((Task.inProcess.invokeUnder retriers catchers input).run.run
      (resultsInTurn fun _ => .error failure) 0).1 = .ok (.caught catcher failure.message) :=
  invokeWithin_failing hcatcher input _ 0

end Workflow
