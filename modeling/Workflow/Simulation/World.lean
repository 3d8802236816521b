import Workflow.Simulation.Fault
import Workflow.Simulation.Script
import Workflow.Store

/-!
# A simulated world

Activities can be run in a world of their own: a store in memory whose calls can be made to fail, a
scheduler that keeps a queue, a clock that moves only when someone pauses, and tasks and workers
that follow scripts.

* `JournalEntry`: a call of the store with its reply.
* `World`: the state of the world.
* `World.call`, `World.pause`, `World.schedule`: the store, and the clock.
* `World.answer`, `World.perform`: the world as an environment of activities.
-/

namespace Workflow

/-- A call of the store with its reply. -/
structure JournalEntry where
  call : StoreCall
  reply : Except StoreError call.Reply

/-- The state of a simulated world. The clock counts milliseconds. Calls that are to be made later
stand in the order of their times. -/
structure World where
  store : Store := .empty
  queue : List Dispatch := []
  fired : List FiredTrigger := []
  firesTriggers : Bool := true
  faults : List Fault := []
  clock : Nat := 0
  today : Moment := ⟨1767225600, 0⟩
  later : List (Nat × StoreCall) := []
  journal : List JournalEntry := []
  play : TaskPlay := {}

namespace World

/-! ## The store -/

/-- A call of the store, which a fault may keep from taking effect. -/
def call (w : World) (c : StoreCall) : Except StoreError c.Reply × World :=
  match Fault.strike c w.faults with
  | (some error, faults) => (.error error, { w with faults })
  | (none, faults) =>
    let (reply, store) := w.store.perform c
    let fired := if w.firesTriggers then (store.firedBy? c reply).toList else []
    (reply, { w with store, faults, fired := w.fired ++ fired })

/-- A call of the store that is entered into the journal. -/
def journaledCall (w : World) (c : StoreCall) : Except StoreError c.Reply × World :=
  let (reply, w) := w.call c
  (reply, { w with journal := w.journal ++ [⟨c, reply⟩] })

/-! ## The clock -/

/-- Enters a call into a list in the order of time, behind those of the same time. -/
def insertLater (entry : Nat × StoreCall) : List (Nat × StoreCall) → List (Nat × StoreCall)
  | [] => [entry]
  | head :: rest =>
    if entry.1 < head.1 then entry :: head :: rest else head :: insertLater entry rest

/-- Has a call made after a pause that begins now. -/
def schedule (w : World) (delay : Duration) (c : StoreCall) : World :=
  { w with later := insertLater (w.clock + delay.pauseMillis, c) w.later }

/-- Makes calls one after the other. -/
def makeCalls (w : World) (calls : List (Nat × StoreCall)) : World :=
  calls.foldl (fun w entry => (w.call entry.2).2) w

/-- Time passes: the calls that come due are made, in the order of their times. -/
def pause (w : World) (d : Duration) : World :=
  let clock := w.clock + d.pauseMillis
  let isDue := fun entry : Nat × StoreCall => decide (entry.1 ≤ clock)
  { w with later := w.later.dropWhile isDue, clock }.makeCalls (w.later.takeWhile isDue)

/-! ## Activities -/

/-- Hands a state to the scheduler. -/
def dispatch (w : World) (d : Dispatch) : World := { w with queue := w.queue ++ [d] }

/-- The answers to the requests of activities. -/
def answer : Environment World
  | .store c, w => w.journaledCall c
  | .dispatch d, w => ((), w.dispatch d)
  | .sleep d, w => ((), w.pause d)
  | .now, w => (w.today, w)
  | .work input, w =>
    let (verdict, play) := w.play.work w.clock input
    (verdict, { w with play })
  | .connect, w =>
    let (channel, play) := w.play.connect w.clock
    (channel, { w with play })
  | .send bytes, w =>
    let (isSent, play) := w.play.send bytes
    (isSent, { w with play })

/-- Runs an activity in the world. -/
def perform {α : Type} (w : World) (a : Activity α) : α × World := a.run answer w

/-- The world with another task, which begins now. -/
def withTask (w : World) (script : TaskScript) : World :=
  { w with play := { script, start := w.clock } }

end World

end Workflow
