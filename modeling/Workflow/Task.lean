import Workflow.Worker.Connection
import Workflow.Worker.Session

/-!
# Tasks

* `Task`: where the work of a task state is done.
* `Task.invoke`: one invocation of a task.
* `Task.catchPayload`: what the state that takes over after a failure is invoked with.
-/

namespace Workflow

/-- Where the work of a task state is done: nowhere, so that the result is the input; in process; or
by a worker.
Source: `EchoInvoker`, `InProcessInvoker` and `DelegatedInvoker`. -/
inductive Task where
  | echo
  | inProcess
  | delegated (worker : WorkerSettings)
  deriving DecidableEq, Repr

namespace Task

/-- One invocation of a task.
Source: `invoke` of `TaskInvoker`. -/
def invoke : Task → Json → ExceptT TaskFailure Activity Json
  | echo, input => return input
  | inProcess, input => Activity.work input
  | delegated worker, input => do
    let bytes ← worker.connect.adapt fun reason => TaskFailure.transport (.cannotConnect reason)
    converse bytes input

/-- What a state that takes over is invoked with: the message of the failure, which for states with
workers stands in an object.
Source: `catch_payload` of `TaskInvoker`. -/
def catchPayload : Task → (message : String) → Json
  | echo, message | inProcess, message => .string message
  | delegated _, message => .record [("value", .string message)]

end Task

end Workflow
