import Workflow.State.Policy
import Workflow.Task

/-!
# Retrying and catching

A task is invoked under its retry and catch policies. After a failure the first retry policy that is
for it decides: as long as it has attempts left, the task is invoked again after its delay. When no
retry policy is for the failure, or the one that is has no attempts left, the first catch policy
that is for the failure hands it to another state.

* `RetryBudget`, `RetryBudget.decide`: the policies with the attempts left, and their decision.
* `TaskOutcome`: how the invocations end, if not in a failure.
* `invokeWithin`: the invocations under a budget.
* `catchFailure`: what becomes of a failure that is not retried.
* `Task.invokeUnder`: a task under its policies.
-/

namespace Workflow

/-- The retry policies of a task, each with the number of retries that it has granted.
Source: `retries_used` in `execute` of `RetryCatchExecutor`. -/
abbrev RetryBudget := List (RetryPolicy × Nat)

/-- What the retry policies say about a failure.
Source: the cases in the loop of `execute` of `RetryCatchExecutor`. -/
inductive RetryDecision where
  | unmatched
  | exhausted
  | again (delay : Duration) (budget : RetryBudget)
  deriving DecidableEq, Repr

namespace RetryBudget

/-- The policies before any failure. -/
def fresh (retriers : List RetryPolicy) : RetryBudget := retriers.map fun policy => (policy, 0)

/-- How many retries are left in all. -/
def left : RetryBudget → Nat
  | [] => 0
  | (policy, used) :: rest => policy.maxAttempts - used + left rest

/-- What the policies say about a failure: the first that is for it grants one more retry, if it has
any left.
Source: the loop of `execute` of `RetryCatchExecutor`. -/
def decide (failure : TaskFailure) : RetryBudget → RetryDecision
  | [] => .unmatched
  | (policy, used) :: rest =>
    if failure.matchedBy policy.errorEquals then
      if policy.maxAttempts ≤ used then .exhausted
      else .again (policy.delay (used + 1)) ((policy, used + 1) :: rest)
    else
      match decide failure rest with
      | .again delay rest => .again delay ((policy, used) :: rest)
      | decision => decision

/-- A granted retry is one less that is left. -/
theorem left_of_again {failure : TaskFailure} {budget next : RetryBudget} {delay : Duration}
    (h : budget.decide failure = .again delay next) : budget.left = next.left + 1 := by
  induction budget generalizing next with
  | nil => simp [decide] at h
  | cons head rest ih =>
    obtain ⟨policy, used⟩ := head
    rw [decide] at h
    split at h
    · split at h
      · cases h
      · cases h
        simp only [left]
        omega
    · split at h
      · next hrest =>
        cases h
        have := ih hrest
        simp only [left]
        omega
      · next hrest => exact absurd h (hrest _ _)

end RetryBudget

/-- How the invocations of a task end, if not in a failure: with its output; with a message when the
retries are used up and there is no catch policy at all; or caught.
Source: `TaskOutcome`. -/
inductive TaskOutcome where
  | success (output : Json)
  | exhausted (message : String)
  | caught (catcher : CatchPolicy) (message : String)
  deriving DecidableEq, Repr

namespace TaskOutcome

/-- The cause that is given when the retries are used up.
Source: `RETRY_EXHAUSTED_CAUSE`. -/
def exhaustedCause : String := "not caught by retry policy"

/-- The cause that is given when a failure was caught.
Source: `CAUGHT_CAUSE`. -/
def caughtCause : String := "caught by catch policy"

/-- A failure as a value: its message, and what became of it.
Source: the values in `TaskOutcome`. -/
def package (message cause : String) : Json :=
  .record [("Error", .string message), ("Cause", .string cause)]

/-- The value of the outcome. -/
def output : TaskOutcome → Json
  | success output => output
  | exhausted message => package message exhaustedCause
  | caught _ message => package message caughtCause

end TaskOutcome

/-- What becomes of a failure that is not retried: the first catch policy that is for it hands it to
its state; without one the failure stands.
Source: `catch` of `RetryCatchExecutor`. -/
def catchFailure (task : Task) (catchers : List CatchPolicy) (failure : TaskFailure) :
    ExceptT TaskFailure Activity TaskOutcome :=
  match catchers.find? fun catcher => failure.matchedBy catcher.errorEquals with
  | none => throw failure
  | some catcher => do
    Activity.dispatch catcher.next (task.catchPayload failure.message)
    return .caught catcher failure.message

/-- The invocations of a task under a budget of retries. How many there have been is counted for the
log only, in a word of 32 bits; nothing is decided by that count, and it is left out. The retries of
a policy are counted up to its attempts, which such a word holds.
Source: the loop of `execute` of `RetryCatchExecutor`. -/
def invokeWithin (task : Task) (catchers : List CatchPolicy) (input : Json)
    (budget : RetryBudget) : ExceptT TaskFailure Activity TaskOutcome :=
  .mk do
    match ← (task.invoke input).run with
    | .ok output => return .ok (.success output)
    | .error failure =>
      match _h : budget.decide failure with
      | .unmatched => (catchFailure task catchers failure).run
      | .exhausted =>
        if catchers.isEmpty then return .ok (.exhausted failure.message)
        else (catchFailure task catchers failure).run
      | .again delay next => do
        Activity.sleep delay
        (invokeWithin task catchers input next).run
termination_by budget.left
decreasing_by have := RetryBudget.left_of_again _h; omega

/-- A task under its policies.
Source: `execute` of `RetryCatchExecutor`. -/
def Task.invokeUnder (task : Task) (retriers : List RetryPolicy) (catchers : List CatchPolicy)
    (input : Json) : ExceptT TaskFailure Activity TaskOutcome :=
  invokeWithin task catchers input (.fresh retriers)

end Workflow
