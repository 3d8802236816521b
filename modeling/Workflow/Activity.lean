import Workflow.Dispatch
import Workflow.Duration
import Workflow.Moment
import Workflow.Store.Call
import Workflow.Task.Failure

/-!
# Activities

What a state does, apart from computing, is done by others: the store, the scheduler, the clock, the
task and its worker. An activity is a tree of requests to them. What comes of it depends on who
answers, so that one activity can be run against a store that fails, beside other activities, or
against any clock.

* `Request`, `Request.Reply`: what can be asked, and the answer to it.
* `Activity`: a result, or a request and what is done with the answer.
* `Environment`, `Activity.run`: who answers, and the run of an activity.
* `Activity.run_bind`: one activity after another is run one after the other.
-/

namespace Workflow

/-- What an activity can ask for: a call of the store, the invocation of a state by the scheduler, a
pause, the present moment, the work of a task in process, a connection to a worker, and the sending
of bytes to it.
Source: the calls of `StateStore`, `CounterTriggerAdmin`, `Scheduler`, `TaskInvoker` and
`WorkerConnector`. -/
inductive Request where
  | store (call : StoreCall)
  | dispatch (d : Dispatch)
  | sleep (duration : Duration)
  | now
  | work (input : Json)
  | connect
  | send (bytes : List UInt8)
  deriving DecidableEq, Repr

/-- The answer to a request. A worker that can be connected to is known by all the bytes that it
will send; of a sending it is known whether it succeeded. -/
def Request.Reply : Request → Type
  | store call => Except StoreError call.Reply
  | dispatch _ => Unit
  | sleep _ => Unit
  | now => Moment
  | work _ => Except TaskFailure Json
  | connect => Except String (List UInt8)
  | send _ => Bool

/-- A result, or a request with what is done with its answer. -/
inductive Activity (α : Type) where
  | done (result : α)
  | ask (request : Request) (resume : request.Reply → Activity α)

/-- Those who answer requests, in a state that the answers change. -/
abbrev Environment (σ : Type) := (request : Request) → σ → request.Reply × σ

namespace Activity

variable {α β γ σ : Type}

/-! ## The monad of activities -/

/-- One activity, and then another with its result. -/
def bind (a : Activity α) (f : α → Activity β) : Activity β :=
  match a with
  | done result => f result
  | ask request resume => ask request fun reply => (resume reply).bind f

instance : Monad Activity where
  pure := done
  bind := bind

/-- A result is an activity that is over. -/
@[simp] theorem pure_eq (a : α) : (pure a : Activity α) = done a := rfl

/-- An activity that is over is followed by what is done with its result. -/
@[simp] theorem done_bind (a : α) (f : α → Activity β) : (done a >>= f) = f a := rfl

/-- A request is made before what follows. -/
@[simp] theorem ask_bind (request : Request) (resume : request.Reply → Activity α)
    (f : α → Activity β) :
    (ask request resume >>= f) = ask request fun reply => resume reply >>= f := rfl

/-- To give the result of an activity changes nothing. -/
theorem bind_done (a : Activity α) : (a >>= done) = a := by
  induction a with
  | done result => rfl
  | ask request resume ih => exact congrArg (ask request) (funext ih)

/-- It makes no difference how activities one after the other are put together. -/
theorem bind_assoc (a : Activity α) (f : α → Activity β) (g : β → Activity γ) :
    (a >>= f >>= g) = (a >>= fun x => f x >>= g) := by
  induction a with
  | done result => rfl
  | ask request resume ih => exact congrArg (ask request) (funext ih)

/-- A changed result is the result of what follows. -/
theorem map_eq (f : α → β) (a : Activity α) : (f <$> a) = (a >>= fun x => done (f x)) := rfl

instance : LawfulMonad Activity :=
  .mk' Activity bind_done (fun _ _ => rfl) bind_assoc

/-! ## Runs -/

/-- Runs an activity: every request is answered in turn. -/
def run (environment : Environment σ) : Activity α → σ → α × σ
  | done result, s => (result, s)
  | ask request resume, s =>
    let (reply, s) := environment request s
    (resume reply).run environment s

/-- To run an activity that is over is to give its result. -/
@[simp] theorem run_done (environment : Environment σ) (a : α) (s : σ) :
    (done a).run environment s = (a, s) := rfl

/-- To run a request is to answer it and to go on with the answer. -/
@[simp] theorem run_ask (environment : Environment σ) (request : Request)
    (resume : request.Reply → Activity α) (s : σ) :
    (ask request resume).run environment s =
      (resume (environment request s).1).run environment (environment request s).2 := rfl

/-- One activity after another is run one after the other. -/
theorem run_bind (environment : Environment σ) (a : Activity α) (f : α → Activity β) (s : σ) :
    (a >>= f).run environment s =
      (f (a.run environment s).1).run environment (a.run environment s).2 := by
  induction a generalizing s with
  | done result => rfl
  | ask request resume ih => exact ih _ _

/-! ## Single requests -/

/-- Asks for one thing and gives the answer. -/
def request (request : Request) : Activity request.Reply := ask request done

/-- A call of the store. -/
def store (call : StoreCall) : ExceptT StoreError Activity call.Reply :=
  .mk (request (.store call))

/-- Hands a state to the scheduler, to be invoked. -/
def dispatch (next : String) (value : Json) : Activity Unit := request (.dispatch ⟨next, value⟩)

/-- Pauses. -/
def sleep (duration : Duration) : Activity Unit := request (.sleep duration)

/-- The present moment. -/
def now : Activity Moment := request .now

/-- The work of a task in process. -/
def work (input : Json) : ExceptT TaskFailure Activity Json := .mk (request (.work input))

/-- Connects to a worker; gives what it will send. -/
def connect : ExceptT String Activity (List UInt8) := .mk (request .connect)

/-- Sends bytes to the worker; tells whether that succeeded. -/
def send (bytes : List UInt8) : Activity Bool := request (.send bytes)

end Activity

end Workflow
