import Workflow.Json

/-!
# Failures of tasks

* `TransportFault`: what can go wrong between here and the worker of a task.
* `TaskFailure`: a failure of a task, with its type, message and trace.
* `TaskFailure.matchedBy`: whether a policy is for the failure.
-/

namespace Workflow

/-- What can go wrong between here and the worker of a task.
Source: the messages given to `transport`. -/
inductive TransportFault where
  | cannotConnect (reason : String)
  | cannotSendInput
  | closedEarly
  | unreadableFrame
  | malformedFrame
  | serverStopped
  | cannotAnswer
  deriving DecidableEq, Repr

namespace TransportFault

/-- The fault in words, without its reason. -/
def summary : TransportFault → String
  | cannotConnect _ => "cannot connect to worker"
  | cannotSendInput => "cannot send task input"
  | closedEarly => "worker closed the channel before completing"
  | unreadableFrame => "cannot read worker frame"
  | malformedFrame => "malformed worker frame"
  | serverStopped => "callback server stopped before the worker completed"
  | cannotAnswer => "cannot answer worker callback"

/-- Why the fault came about, if that is not said yet. -/
def reason? : TransportFault → Option String
  | cannotConnect reason => some reason
  | cannotSendInput | cannotAnswer => some "the channel is closed"
  | unreadableFrame => some "the line is not UTF-8"
  | malformedFrame => some "the line holds no frame"
  | closedEarly | serverStopped => none

/-- The fault in words. -/
def message (fault : TransportFault) : String :=
  match fault.reason? with
  | some reason => fault.summary ++ ": " ++ reason
  | none => fault.summary

end TransportFault

/-- A failure of a task: one that it raised itself, one that its worker reported, or one of the
transport between.
Source: `TaskInvocationError`. -/
inductive TaskFailure where
  | raised (errorType message : String)
  | reported (errorType trace : String)
  | transport (fault : TransportFault)
  deriving DecidableEq, Repr

namespace TaskFailure

/-- The type of all failures of the transport.
Source: `TRANSPORT_ERROR`. -/
def transportType : String := "States.Runtime"

/-- The type of the failure. -/
def errorType : TaskFailure → String
  | raised errorType _ => errorType
  | reported errorType _ => errorType
  | transport _ => transportType

/-- The message of the failure. A worker names a type only, which is the message as well. -/
def message : TaskFailure → String
  | raised _ message => message
  | reported errorType _ => errorType
  | transport fault => fault.message

/-- Where the failure arose, if the worker told. -/
def trace? : TaskFailure → Option String
  | reported _ trace => if trace.isEmpty then none else some trace
  | raised _ _ | transport _ => none

/-- The failure in words. -/
def text (f : TaskFailure) : String := f.errorType ++ ": " ++ f.message

/-- The names that match every failure of a task.
Source: `STATES_ALL` and `STATES_TASK_FAILED`. -/
def wildcards : List String := ["States.ALL", "States.TaskFailed"]

/-- Whether a policy with the given names is for the failure: one of the names matches every
failure, or is its type or its message.
Source: `error_matches`. -/
def matchedBy (names : List String) (f : TaskFailure) : Bool :=
  names.any fun name => name ∈ wildcards || name == f.errorType || name == f.message

end TaskFailure

end Workflow
