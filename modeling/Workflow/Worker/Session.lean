import Workflow.Activity
import Workflow.Text.Blank
import Workflow.Worker.Frame
import Workflow.Worker.Line

/-!
# Sessions with a worker

Once the input of a task has been sent to its worker, two halves run beside each other. The reader
reads the worker's lines and enters callbacks into a queue, until it comes to a verdict. The server
takes callbacks from the queue, carries them out and answers them, until the verdict is there and
the queue is empty, or an answer cannot be sent.

* `Reading`, `readLine`: what a line means to the reader.
* `CallbackRequest.serve`: carrying out a callback.
* `Session`, `Move`, `Session.step`: both halves, and a step of one of them.
* `Session.follow`: the session under any schedule of steps.
* `Session.result`: what comes of a session that is over.
* `converse`: a whole session, in which the reader goes first whenever it can.
-/

namespace Workflow

/-- What becomes of a task: its result, or its failure. -/
abbrev Verdict := Except TaskFailure Json

/-- A callback of the worker that has not been carried out.
Source: the entries of the queue in `run_session`. -/
structure Callback where
  id : Nat
  request : CallbackRequest
  deriving DecidableEq, Repr

/-! ## The reader's view of a line -/

/-- What a line means to the reader: nothing, a callback, or the end of the session.
Source: the cases of the reader of `run_session`. -/
inductive Reading where
  | blank
  | callback (c : Callback)
  | over (verdict : Verdict)

/-- The verdict of a completion.
Source: `WorkerFrame`, as the reader of `run_session` takes it. -/
def completion (hasError : Bool) (result : Json) (errorType errorTrace : String) : Verdict :=
  if hasError then .error (.reported errorType errorTrace) else .ok result

/-- The verdict of a fault of the transport.
Source: `transport`. -/
def transportFailure (fault : TransportFault) : Verdict := .error (.transport fault)

/-- What a line means.
Source: the reader of `run_session`. -/
def readLine : Line → Reading
  | none => .over (transportFailure .unreadableFrame)
  | some text =>
    if Text.allBlank text.toList then .blank
    else match WorkerFrame.ofText? text with
      | none => .over (transportFailure .malformedFrame)
      | some (.callback id request) => .callback ⟨id, request⟩
      | some (.completed hasError result errorType errorTrace) =>
        .over (completion hasError result errorType errorTrace)

/-! ## Callbacks -/

/-- Carries out a callback. An absent value is null, and so is the answer of a call that gives
nothing.
Source: `serve_callback`. -/
def CallbackRequest.serve : CallbackRequest → ExceptT StoreError Activity Json
  | get key => do return (← Activity.store (.get key) : Option Json).getD .null
  | put key value => do
    Activity.store (.put key value)
    return .null
  | delete key => do
    Activity.store (.delete key)
    return .null
  | createSet key => do
    Activity.store (.createSet key)
    return .null
  | addMember key member => do
    Activity.store (.addMember key member)
    return .null
  | members key => do return .strings (← Activity.store (.members key))
  | deleteSet key => do
    Activity.store (.deleteSet key)
    return .null
  | dispatch next value => do
    Activity.dispatch next value
    return .null

/-- Carries out a callback and answers it; tells whether the answer could be sent.
Source: `serve_callback` and the answer to it. -/
def Callback.serve (c : Callback) : Activity Bool := do
  let result ← c.request.serve.run
  Activity.send (frameBytes (CallbackResponse.ofResult c.id result).toJson)

/-! ## Both halves -/

/-- A session: the lines that have not been read, the queue of callbacks, the verdict of the reader
if it has come to one, and whether the server is still there.
Source: the reader and the server of `run_session`. -/
structure Session where
  unread : List Line
  queue : List Callback := []
  verdict : Option Verdict := none
  isServing : Bool := true

/-- Which half makes a step.
Source: the two halves that `run_session` joins. -/
inductive Move where
  | read
  | serve
  deriving DecidableEq, Repr

namespace Session

/-- How many callbacks can wait in the queue.
Source: `CALLBACK_QUEUE_DEPTH`. -/
def queueBound : Nat := 32

/-- The reader receives a callback: it enters it into the queue, comes to a verdict if the server is
gone, or waits as long as the queue is full.
Source: the reader of `run_session`. -/
def receive (s : Session) (c : Callback) (rest : List Line) : Session :=
  if !s.isServing then
    { s with unread := rest, verdict := some (transportFailure .serverStopped) }
  else if s.queue.length < queueBound then { s with unread := rest, queue := s.queue ++ [c] }
  else s

/-- A step of the reader. A reader that has come to a verdict does nothing any more.
Source: the reader of `run_session`. -/
def read (s : Session) : Session :=
  match s.verdict, s.unread with
  | some _, _ => s
  | none, [] => { s with verdict := some (transportFailure .closedEarly) }
  | none, line :: rest =>
    match readLine line with
    | .blank => { s with unread := rest }
    | .callback c => s.receive c rest
    | .over verdict => { s with unread := rest, verdict := some verdict }

/-- A step of the server: the oldest callback. When its answer cannot be sent, the server stops and
the queue is lost. How many callbacks have been served is counted for the log only, and left out.
Source: the server of `run_session`. -/
def serve (s : Session) : Activity Session :=
  match s.queue with
  | [] => return s
  | c :: rest => do
    if ← c.serve then return { s with queue := rest }
    return { s with queue := [], isServing := false }

/-- A step of one half. -/
def step (s : Session) : Move → Activity Session
  | .read => return s.read
  | .serve => s.serve

/-- The session under a schedule of steps. -/
def follow (s : Session) : List Move → Activity Session
  | [] => return s
  | move :: rest => do (← s.step move).follow rest

/-- Whether both halves are done. -/
def isOver (s : Session) : Bool := s.verdict.isSome && s.queue.isEmpty

/-- Whether the reader can make a step: it has no verdict, and the queue has room if it has a
callback to enter. -/
def canRead (s : Session) : Bool :=
  s.verdict.isNone && (s.queue.length < queueBound ||
    match s.unread with
    | line :: _ =>
      match readLine line with
      | .callback _ => false
      | _ => true
    | [] => true)

/-- What comes of a session that is over: the verdict of the reader; but a result is void if the
worker has not been told all answers.
Source: the end of `run_session`. -/
def result (s : Session) : Verdict :=
  match s.verdict with
  | none => transportFailure .closedEarly
  | some (.error failure) => .error failure
  | some (.ok value) => if s.isServing then .ok value else transportFailure .cannotAnswer

/-- The session when the reader goes first whenever it can, within a number of steps. -/
def eager : (steps : Nat) → Session → Activity Session
  | 0, s => return s
  | steps + 1, s =>
    if s.isOver then return s
    else do eager steps (← s.step (if s.canRead then .read else .serve))

end Session

/-- A session over the bytes of a worker: the input is sent, and then the lines are read. Every line
takes one step of the reader and at most one of the server, and the end of the lines takes one
more.
Source: `run_session`. -/
def converse (bytes : List UInt8) (input : Json) : ExceptT TaskFailure Activity Json := do
  unless ← Activity.send (frameBytes input) do throw (.transport .cannotSendInput)
  let lines := linesOf bytes
  let session ← Session.eager (2 * lines.length + 1) { unread := lines }
  session.result

end Workflow
