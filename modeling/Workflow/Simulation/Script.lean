import Workflow.Worker.Session

/-!
# Scripts of tasks

How the task of a simulated run behaves: it gives results in turn, or it has workers that send what
they are told to.

* `WorkerManner`, `WorkerScript`: how a worker behaves.
* `TaskScript`: how a task behaves.
* `TaskPlay`: a script that is being played, with what its task and workers have seen.
* `TaskPlay.work`, `TaskPlay.connect`, `TaskPlay.send`: the answers to requests.
-/

namespace Workflow

/-- What a worker does with what it is sent: it listens until the session is over; it goes away
without listening to any answer; or it is gone before it is sent its input. -/
inductive WorkerManner where
  | listens
  | drops
  | deaf
  deriving DecidableEq, Repr

/-- How a worker behaves: the bytes that it sends, and its manner. -/
structure WorkerScript where
  bytes : List UInt8
  manner : WorkerManner := .listens
  deriving DecidableEq, Repr

/-- How a task behaves: there is none; it gives results in turn, and afterwards always the same, or
its input; its connections reach one worker after the other, or none; or they reach one worker as
soon as that is there, after a pause. -/
inductive TaskScript where
  | absent
  | results (verdicts : List Verdict) (afterwards : Option Verdict)
  | workers (connections : List (Option WorkerScript))
  | listener (opens : Duration) (worker : WorkerScript)

/-- What a worker has been sent: its input, and the answers to its callbacks. -/
structure Conversation where
  input : Json
  responses : List Json := []
  deriving DecidableEq, Repr

/-- A script that is being played, with the time at which that began, the calls of the task with
their times, and the conversations with workers, the last of which may go on. -/
structure TaskPlay where
  script : TaskScript := .absent
  start : Nat := 0
  calls : List (Nat × Json) := []
  conversations : List Conversation := []
  connected : Option WorkerScript := none
  hasInput : Bool := false

namespace TaskPlay

/-- The document that bytes carry on their first line. -/
def received (bytes : List UInt8) : Json :=
  (((linesOf bytes).head?.join).bind Json.ofText?).getD .null

/-- The task is called at a time. -/
def work (play : TaskPlay) (clock : Nat) (input : Json) : Verdict × TaskPlay :=
  let play := { play with calls := play.calls ++ [(clock - play.start, input)] }
  match play.script with
  | .results (verdict :: rest) afterwards =>
    (verdict, { play with script := .results rest afterwards })
  | .results [] (some verdict) => (verdict, play)
  | _ => (.ok input, play)

/-- The error of a connection that reaches no worker. -/
def noWorker : String := "no worker"

/-- The channel to a worker. -/
def reach (play : TaskPlay) (worker : WorkerScript) : Except String (List UInt8) × TaskPlay :=
  (.ok worker.bytes, { play with connected := some worker, hasInput := false })

/-- A connection is made at a time. -/
def connect (play : TaskPlay) (clock : Nat) : Except String (List UInt8) × TaskPlay :=
  match play.script with
  | .workers (some worker :: rest) => { play with script := .workers rest }.reach worker
  | .workers (none :: rest) => (.error noWorker, { play with script := .workers rest })
  | .listener opens worker =>
    if opens.pauseMillis ≤ clock - play.start then play.reach worker else (.error noWorker, play)
  | .workers [] | .results _ _ | .absent => (.error noWorker, play)

/-- The conversations when the worker is sent one more answer. -/
def addResponse (response : Json) : List Conversation → List Conversation
  | [] => []
  | [last] => [{ last with responses := last.responses ++ [response] }]
  | conversation :: rest => conversation :: addResponse response rest

/-- Bytes are sent to the worker, first its input and then answers; tells whether that succeeds. -/
def send (play : TaskPlay) (bytes : List UInt8) : Bool × TaskPlay :=
  match play.connected with
  | none => (false, play)
  | some worker =>
    match worker.manner, play.hasInput with
    | .deaf, _ => (false, play)
    | _, false =>
      let conversations := play.conversations ++ [{ input := received bytes }]
      (true, { play with conversations, hasInput := true })
    | .drops, true => (false, play)
    | .listens, true =>
      (true, { play with conversations := addResponse (received bytes) play.conversations })

end TaskPlay

end Workflow
