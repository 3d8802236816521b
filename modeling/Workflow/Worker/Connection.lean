import Workflow.Activity
import Workflow.Settings

/-!
# Connecting to a worker

A worker may still be starting when its task is invoked, so that connecting is tried several times,
with a pause after each failure that grows by the same step.

* `WorkerSettings.connect`: the attempts.
-/

namespace Workflow.WorkerSettings

/-- Connects at the given attempt, or at one of the following `retries`; a pause comes after every
failure but the last, whose error is given.
Source: the loop of `connect`. -/
def connectFrom (w : WorkerSettings) (attempt : Nat) :
    (retries : Nat) → ExceptT String Activity (List UInt8)
  | 0 => Activity.connect
  | retries + 1 =>
    tryCatch Activity.connect fun _ => do
      Activity.sleep (w.backoff attempt)
      w.connectFrom (attempt + 1) retries

/-- Connects to a worker; one attempt is always made.
Source: `connect` of `UnixSocketConnector`. -/
def connect (w : WorkerSettings) : ExceptT String Activity (List UInt8) :=
  w.connectFrom 1 (w.connectAttempts - 1)

end Workflow.WorkerSettings
