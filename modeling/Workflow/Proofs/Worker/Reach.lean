import Workflow.Proofs.Worker.Connection
import Workflow.Proofs.Worker.Unanswered
import Workflow.Proofs.World
import Workflow.Task

/-!
# What a worker can reach

Among the things that a worker can ask for there is none about a counter or a trigger. So whatever
it sends, and however its session goes, the joins that are in progress are not disturbed by way of
their counters. What it does to the values, the sets and the queue of the scheduler is what its
callbacks say, as far as they have been carried out.

* **Reach** (`Reach`, `CallbackRequest.apply`, `World.Spares`, `World.Served`): what a worker can
  get at, what each callback does to it, and a world in which callbacks have done this and no more.
* **One callback** (`World.served_answer`, `Request.IsSparing`): it does what it says, and spares
  the counters of whatever world it is carried out in.
* **Any worker** (`Peer`, `World.facing`): a worker decides what it sends, and which bytes reach it.
* **Callbacks in part** (`World.exists_served`, `carriedOut`): when so many requests have been
  answered, so many callbacks have done their work; how many do so in all.
* **The beginning** (`WorkerSettings.opening`, `World.exists_waits`): up to the first line, an
  invocation does nothing but wait.
* **Any schedule** (`Duplex.state_under`, `Duplex.Conforms.asked_of_isOver`,
  `Task.exists_turns_invoke`): what a session has come to is told by what it has asked for.
* **Any worker and any schedule** (`Peer.Confined`, `Peer.spares_counters`): all of this together.
-/

namespace Workflow

open Activity

variable {σ τ : Type}

/-! ## Reach -/

/-- What a worker can get at: values, sets, and the queue of the scheduler. -/
structure Reach where
  values : Table Json
  sets : Table (Table Unit)
  queue : List Dispatch
  deriving DecidableEq

namespace CallbackRequest

/-- What a callback does to the values, the sets and the queue. -/
def apply : CallbackRequest → Reach → Reach
  | get _, r | members _, r => r
  | put key value, r => { r with values := r.values.put key value }
  | delete key, r => { r with values := r.values.remove key }
  | createSet key, r => { r with sets := r.sets.put key .empty }
  | addMember key member, r =>
    { r with sets := r.sets.put key (((r.sets.get? key).getD .empty).put member ()) }
  | deleteSet key, r => { r with sets := r.sets.remove key }
  | dispatch next value, r => { r with queue := r.queue ++ [⟨next, value⟩] }

/-- The entry of the store that a callback may change. -/
def place? : CallbackRequest → Option Place
  | put key _ | delete key => some (.value key)
  | createSet key | addMember key _ | deleteSet key => some (.set key)
  | get _ | members _ | dispatch _ _ => none

end CallbackRequest

/-- What a callback has done: nothing, if the store has refused it. -/
def Exchange.apply (e : Exchange) (r : Reach) : Reach :=
  if e.result.isOk then e.callback.request.apply r else r

namespace World

/-- What a worker can get at in a world. -/
def reach (w : World) : Reach := ⟨w.store.values, w.store.sets, w.queue⟩

/-- From one world to another, no counter and no trigger has changed, and nothing has fired. -/
structure Spares (w v : World) : Prop where
  counters : v.store.counters = w.store.counters
  triggers : v.store.triggers = w.store.triggers
  fired : v.fired = w.fired

/-- One world has become another by these callbacks, in this order, and by nothing else. -/
structure Served (w : World) (made : List Exchange) (v : World) : Prop where
  spares : w.Spares v
  reach : v.reach = made.foldl (fun r e => e.apply r) w.reach
  untouched : ∀ place, (∀ e ∈ made, e.callback.request.place? ≠ some place) →
    v.store.content? place = w.store.content? place
  granted : w.faults = [] → v.faults = [] ∧ ∀ e ∈ made, e.result.isOk = true

namespace Served

variable {w v u : World} {made more : List Exchange}

/-- A world that stays as it is has been served by no callbacks. -/
theorem refl (w : World) : w.Served [] w :=
  ⟨⟨rfl, rfl, rfl⟩, rfl, fun _ _ => rfl, fun h => ⟨h, by simp⟩⟩

/-- A world that is served by some callbacks and then by others is served by all of them, in this
order. -/
theorem trans (h : w.Served made v) (h' : v.Served more u) : w.Served (made ++ more) u where
  spares :=
    ⟨h'.spares.counters.trans h.spares.counters, h'.spares.triggers.trans h.spares.triggers,
      h'.spares.fired.trans h.spares.fired⟩
  reach := by rw [List.foldl_append, ← h.reach, h'.reach]
  untouched place hplace :=
    (h'.untouched place fun e he => hplace e (List.mem_append_right made he)).trans
      (h.untouched place fun e he => hplace e (List.mem_append_left more he))
  granted hfaults := by
    obtain ⟨hfaults, hmade⟩ := h.granted hfaults
    obtain ⟨hfaults, hmore⟩ := h'.granted hfaults
    exact ⟨hfaults, fun e he => (List.mem_append.mp he).elim (hmade e) (hmore e)⟩

end Served

/-! ## One callback -/

section answer

variable {w : World} {c : StoreCall} {callback : Callback}
  {result : Except StoreError c.Reply → Except StoreError Json}

/-- A call of the store carries out a callback: it fails with the call, and what the call does is
what the callback says. -/
theorem served_store (hrefused : ∀ e, (result (.error e)).isOk = false)
    (hgranted : (result (w.store.perform c).1).isOk = true)
    (hplace : c.place? = callback.request.place?)
    (hfires : ∀ name delta, c ≠ .increment name delta)
    (hspares : (w.store.perform c).2.counters = w.store.counters ∧
      (w.store.perform c).2.triggers = w.store.triggers)
    (hreach : (w.after c).reach = callback.request.apply w.reach) :
    w.Served [⟨callback, result (answer (.store c) w).1⟩] (answer (.store c) w).2 := by
  rcases answer_store_cases w c with ⟨hfaults, e, faults, journal, hanswer⟩ |
    ⟨faults, hfaults, hanswer⟩
  · rw [hanswer]
    refine ⟨⟨rfl, rfl, rfl⟩, ?_, fun _ _ => rfl, fun h => absurd h hfaults⟩
    simp only [List.foldl_cons, List.foldl_nil, Exchange.apply, hrefused]
    rfl
  · rw [hanswer]
    refine ⟨⟨hspares.1, hspares.2, after_fired_of_ne_increment hfires⟩, ?_, fun place h => ?_,
      fun h => ⟨hfaults h, fun e he => ?_⟩⟩
    · simp only [List.foldl_cons, List.foldl_nil, Exchange.apply, hgranted, if_true]
      exact hreach
    · exact Store.content?_perform_of_ne (hplace ▸ h _ List.mem_cons_self)
    · obtain rfl := List.mem_singleton.mp he
      exact hgranted

end answer

/-- What becomes of a world when a callback is carried out in it. -/
theorem served_answer (w : World) (callback : Callback) :
    w.Served [⟨callback, callback.request.result (answer callback.request.toRequest w).1⟩]
      (answer callback.request.toRequest w).2 := by
  obtain ⟨id, request⟩ := callback
  cases request with
  | dispatch next value =>
    refine ⟨⟨rfl, rfl, rfl⟩, rfl, fun _ _ => rfl, fun h => ⟨h, fun e he => ?_⟩⟩
    obtain rfl := List.mem_singleton.mp he
    rfl
  | _ => exact served_store (fun _ => rfl) rfl rfl nofun ⟨rfl, rfl⟩ rfl

end World

/-- A request that spares the counters of any world in which it is answered. -/
def Request.IsSparing (request : Request) : Prop :=
  ∀ w : World, w.Spares (World.answer request w).2

/-- Callbacks that are carried out and answered ask for nothing that could touch a counter. -/
theorem serveAll_onlyAsks (callbacks : List Callback) :
    (serveAll callbacks).OnlyAsks Request.IsSparing := by
  induction callbacks with
  | nil => trivial
  | cons c rest ih =>
    have hserve := c.serve_onlyAsks (P := Request.IsSparing)
      (fun w => (World.served_answer w c).spares) fun _ _ => ⟨rfl, rfl, rfl⟩
    refine hserve.bind fun isSent => ?_
    cases isSent with
    | false => trivial
    | true => exact ih

/-! ## Any worker -/

/-- A worker as it is met: whether it can be connected to and what it will send then, and whether
bytes that are sent to it reach it. It may remember what it has been told, and see the world. -/
structure Peer (τ : Type) where
  connect : World → τ → Except String (List UInt8) × τ
  hear : World → List UInt8 → τ → Bool × τ

/-- A world in which tasks are done by such a worker. -/
def World.facing (peer : Peer τ) : Environment (World × τ)
  | .connect, (w, t) =>
    let (outcome, t) := peer.connect w t
    (outcome, (w, t))
  | .send bytes, (w, t) =>
    let (isSent, t) := peer.hear w bytes t
    (isSent, (w, t))
  | request, (w, t) =>
    let (reply, w) := World.answer request w
    (reply, (w, t))

/-! ## Callbacks in part -/

/-- The state that the answers to some requests lead to. -/
def stateAfter (environment : Environment σ) (asked : List Request) (s : σ) : σ :=
  asked.foldl (fun s request => (environment request s).2) s

/-- Callbacks are carried out by the world, and the worker does not notice. -/
theorem World.facing_toRequest (peer : Peer τ) (request : CallbackRequest) (s : World × τ) :
    facing peer request.toRequest s =
      ((answer request.toRequest s.1).1, (answer request.toRequest s.1).2, s.2) := by
  cases request <;> rfl

/-- When a callback has been carried out, it has done what it says, whether or not it is
answered. -/
theorem World.served_exchange (peer : Peer τ) (c : Callback) (s : World × τ) :
    s.1.Served [(c.exchange (facing peer) s).1] (facing peer c.request.toRequest s).2.1 ∧
      (c.exchange (facing peer) s).2.1 = (facing peer c.request.toRequest s).2.1 := by
  refine ⟨?_, rfl⟩
  rw [Callback.exchange, facing_toRequest]
  exact served_answer s.1 c

/-- When some of the requests that callbacks take have been answered, some of the callbacks have
done what they say, and when all have, all. -/
theorem World.exists_served (peer : Peer τ) {callbacks : List Callback} {asked : List Request}
    {s : World × τ}
    (h : asked <+: (exchanges (facing peer) callbacks s).1.flatMap Exchange.requests) :
    ∃ count ≤ callbacks.length,
      s.1.Served (exchanges (facing peer) (callbacks.take count) s).1
          (stateAfter (facing peer) asked s).1 ∧
        (asked = (exchanges (facing peer) callbacks s).1.flatMap Exchange.requests →
          count = callbacks.length) := by
  induction callbacks generalizing asked s with
  | nil =>
    obtain rfl : asked = [] := List.prefix_nil.mp h
    exact ⟨0, Nat.le_refl 0, .refl s.1, fun _ => rfl⟩
  | cons c rest ih =>
    obtain ⟨hserved, hstate⟩ := served_exchange peer c s
    -- a callback takes two requests, and has done its work when the first has been answered
    have hrequests : (exchanges (facing peer) (c :: rest) s).1.flatMap Exchange.requests =
        c.request.toRequest ::
          .send (frameBytes (c.exchange (facing peer) s).1.response.toJson) ::
            (exchanges (facing peer) rest (c.exchange (facing peer) s).2).1.flatMap
              Exchange.requests := rfl
    rw [hrequests] at h ⊢
    match asked, h with
    | [], _ => exact ⟨0, Nat.zero_le _, .refl s.1, nofun⟩
    | [first], h =>
      obtain ⟨rfl, -⟩ := List.cons_prefix_cons.mp h
      exact ⟨1, Nat.succ_le_succ (Nat.zero_le _), hserved, nofun⟩
    | first :: second :: more, h =>
      obtain ⟨rfl, hsecond⟩ := List.cons_prefix_cons.mp h
      obtain ⟨rfl, hrest⟩ := List.cons_prefix_cons.mp hsecond
      obtain ⟨count, hcount, hmore, hall⟩ := ih hrest
      refine ⟨count + 1, Nat.succ_le_succ hcount, ?_, fun heq => ?_⟩
      · rw [hstate] at hmore
        exact hserved.trans hmore
      · exact congrArg (· + 1) (hall (List.cons.inj (List.cons.inj heq).2).2)

/-- How many callbacks are carried out when they are carried out one after the other: all of them,
or those up to the first whose answer cannot be sent. -/
def carriedOut (environment : Environment σ) (callbacks : List Callback) (s : σ) : Nat :=
  (answeredBeforeLoss? environment callbacks s).elim callbacks.length (· + 1)

section carriedOut

variable {environment : Environment σ} {callbacks : List Callback} {s : σ}

/-- If no answer is lost, all are sent. -/
theorem run_serveAll_of_no_loss (h : answeredBeforeLoss? environment callbacks s = none) :
    ((serveAll callbacks).run environment s).1 = true := by
  induction callbacks generalizing s with
  | nil => rfl
  | cons c rest ih =>
    obtain ⟨isSent, hserve⟩ := c.runs_serve environment s
    rw [answeredBeforeLoss?] at h
    rw [serveAll, run_bind, hserve.run]
    rw [hserve.run] at h
    cases isSent with
    | false => cases h
    | true => exact ih (Option.map_eq_none_iff.mp h)

/-- No more callbacks are carried out than there are. -/
theorem carriedOut_le_length (environment : Environment σ) (callbacks : List Callback) (s : σ) :
    carriedOut environment callbacks s ≤ callbacks.length := by
  rw [carriedOut]
  cases hlost : answeredBeforeLoss? environment callbacks s with
  | none => exact Nat.le_refl _
  | some answered => exact lt_length_of_loss hlost

/-- What callbacks take that are carried out one after the other. -/
theorem requests_serveAll (environment : Environment σ) (callbacks : List Callback) (s : σ) :
    (serveAll callbacks).requests environment s =
      (exchanges environment (callbacks.take (carriedOut environment callbacks s)) s).1.flatMap
        Exchange.requests := by
  rw [carriedOut]
  cases hlost : answeredBeforeLoss? environment callbacks s with
  | none =>
    rw [Option.elim_none, List.take_length]
    exact (runs_serveAll (run_serveAll_of_no_loss hlost)).requests
  | some answered => exact (runs_serveAll_of_loss hlost).requests

end carriedOut

/-! ## The beginning -/

/-- Up to the first line of an invocation: the worker is connected to, and the input is sent. Gives
the lines that are to be read; there are none if one of the two fails. -/
def WorkerSettings.opening (worker : WorkerSettings) (input : Json) : Activity (List Line) := do
  match ← worker.connect.run with
  | .error _ => return []
  | .ok bytes =>
    if ← Activity.send (frameBytes input) then return linesOf bytes
    return []

/-- Whether a request takes time at most: to connect, to pause, to send. -/
def Request.IsIdle : Request → Prop
  | connect | sleep _ | send _ => True
  | store _ | dispatch _ | now | work _ => False

/-- Up to the first line, an invocation asks for what takes time at most. -/
theorem WorkerSettings.opening_onlyAsks (worker : WorkerSettings) (input : Json) :
    (worker.opening input).OnlyAsks Request.IsIdle := by
  refine (worker.connect_onlyAsks trivial fun _ => trivial).bind fun outcome => ?_
  cases outcome with
  | error reason => trivial
  | ok bytes => exact ⟨trivial, fun isSent => by cases isSent <;> trivial⟩

/-- All that a world sees of requests that take time at most is that time passes. -/
theorem World.exists_waits {α : Type} {a : Activity α} (h : a.OnlyAsks Request.IsIdle)
    (peer : Peer τ) (s : World × τ) :
    ∃ waits : List Duration, (a.run (facing peer) s).2.1 = waits.foldl World.pause s.1 := by
  induction a generalizing s with
  | done result => exact ⟨[], rfl⟩
  | ask request resume ih =>
    obtain ⟨waits, hwaits⟩ := ih _ (h.2 _) (facing peer request s).2
    rw [run_ask, hwaits]
    cases request with
    | connect | send _ => exact ⟨waits, rfl⟩
    | sleep d => exact ⟨d :: waits, rfl⟩
    | store _ | dispatch _ | now | work _ => exact h.1.elim

/-- If no one else is to call the store, time passes and that is all. -/
theorem World.foldl_pause {w : World} (h : w.later = []) (waits : List Duration) :
    waits.foldl World.pause w = { w with clock := (waits.foldl World.pause w).clock } := by
  induction waits generalizing w with
  | nil => rfl
  | cons d rest ih =>
    rw [List.foldl_cons, pause_of_later_eq_nil h d]
    have hrest := ih (w := { w with later := [], clock := w.clock + d.pauseMillis }) rfl
    rw [hrest, h]

/-! ## Any schedule -/

namespace Duplex

variable {environment : Environment σ} {lines : List Line} {s : σ} {d : Duplex σ}

/-- The state of a session comes from the answers to its requests. -/
theorem state_step (h : d.state = stateAfter environment d.asked s) (turn : SessionTurn) :
    (d.step environment turn).state =
      stateAfter environment (d.step environment turn).asked s := by
  cases turn with
  | read => exact h
  | take =>
    rw [step]
    split <;> exact h
  | ask =>
    rw [step]
    split
    case h_1 request resume hhand => simp only [stateAfter, List.foldl_append, List.foldl_cons,
      List.foldl_nil, h]
    case h_2 => exact h
  | settle =>
    rw [step]
    split <;> exact h

/-- The state of a session under a schedule is the one that the answers to its requests lead to. -/
theorem state_under (environment : Environment σ) (lines : List Line) (s : σ)
    (turns : List SessionTurn) :
    (under environment lines s turns).state =
      stateAfter environment (under environment lines s turns).asked s :=
  under_invariant (P := fun d => d.state = stateAfter environment d.asked s) rfl
    (fun _ turn h => state_step h turn) turns

/-- At no time has anything been asked for that is not due. -/
theorem Conforms.asked_isPrefix_requests (h : Conforms environment lines s d) :
    d.asked <+: (serveAll (callbacksOf lines)).requests environment s :=
  ⟨d.pending.requests environment d.state, h.requests⟩

/-- When a session is over, all has been asked for. -/
theorem Conforms.asked_of_isOver (h : Conforms environment lines s d) (hover : d.isOver = true) :
    d.asked = (serveAll (callbacksOf lines)).requests environment s := by
  have hpending : d.pending.requests environment d.state = [] := by
    obtain ⟨⟨unread, queue, verdict, isServing⟩, inHand, state, asked⟩ := d
    simp only [isOver, Session.isOver, Bool.and_eq_true, List.isEmpty_iff,
      Option.isNone_iff_eq_none] at hover
    obtain ⟨⟨hverdict, rfl⟩, rfl⟩ := hover
    obtain ⟨verdict, rfl⟩ := Option.isSome_iff_exists.mp hverdict
    cases isServing <;> rfl
  rw [← h.requests, hpending, List.append_nil]

end Duplex

/-- An invocation by a worker is a session under one of the schedules, once it has begun. -/
theorem Task.exists_turns_invoke {environment : Environment σ} {worker : WorkerSettings}
    {input : Json} {s t : σ} {lines : List Line}
    (h : (worker.opening input).run environment s = (lines, t)) :
    ∃ turns, (Duplex.under environment lines t turns).isOver = true ∧
      (((Task.delegated worker).invoke input).run.run environment s).2 =
        (Duplex.under environment lines t turns).state := by
  have hadapt := run_adapt environment worker.connect
    (fun reason => TaskFailure.transport (.cannotConnect reason)) s
  have hconnect := Runs.intro environment worker.connect.run s
  rcases houtcome : worker.connect.run.run environment s with ⟨reason | bytes, u⟩
  · -- the worker cannot be reached
    rw [houtcome] at hconnect hadapt
    cases h.symm.trans (hconnect.bind (.done [])).run
    rw [Task.invoke, run_bind_error hadapt]
    exact ⟨[.read], rfl, rfl⟩
  · rw [houtcome] at hconnect hadapt
    rw [Task.invoke, run_bind_ok hadapt]
    rcases hsend : environment (.send (frameBytes input)) u with ⟨_ | _, v⟩
    · -- the input does not reach it
      have hfailed : Runs environment (converse bytes input).run u _
        (.error (.transport .cannotSendInput)) v := .ask hsend (.done _)
      cases h.symm.trans (hconnect.bind (.ask hsend (.done []))).run
      exact ⟨[.read], rfl, congrArg Prod.snd hfailed.run⟩
    · obtain ⟨turns, hover, hruns⟩ := Duplex.exists_turns_converse hsend
      cases h.symm.trans (hconnect.bind (.ask hsend (.done (linesOf bytes)))).run
      exact ⟨turns, hover, congrArg Prod.snd hruns.run⟩

/-- How far a worker reaches in an invocation, the session of which begins in a world `v`, if it
does, with lines to be read. Before it there was a world `w`. -/
structure Peer.Confined (peer : Peer τ) (worker : WorkerSettings) (input : Json) (w v : World)
    (t u : τ) (lines : List Line) : Prop where
  /-- Nothing but pauses comes before the session. -/
  waits : ∃ waits : List Duration, v = waits.foldl World.pause w
  /-- If no one else is to call the store, time passes and that is all. -/
  idle : w.later = [] → v = { w with clock := v.clock }
  /-- At any time some of the callbacks have been served, from the first on, and when the session is
  over all that were to be carried out. -/
  served : ∀ turns, ∃ count ≤ carriedOut (World.facing peer) (callbacksOf lines) (v, u),
    v.Served (exchanges (World.facing peer) ((callbacksOf lines).take count) (v, u)).1
        (Duplex.under (World.facing peer) lines (v, u) turns).state.1 ∧
      ((Duplex.under (World.facing peer) lines (v, u) turns).isOver = true →
        count = carriedOut (World.facing peer) (callbacksOf lines) (v, u))
  /-- All callbacks are carried out if every answer reaches the worker. -/
  all : answeredBeforeLoss? (World.facing peer) (callbacksOf lines) (v, u) = none →
    carriedOut (World.facing peer) (callbacksOf lines) (v, u) = (callbacksOf lines).length
  /-- The invocation as it is run comes to the end of such a session. -/
  invoked : ∃ turns, (Duplex.under (World.facing peer) lines (v, u) turns).isOver = true ∧
    (((Task.delegated worker).invoke input).run.run (World.facing peer) (w, t)).2 =
      (Duplex.under (World.facing peer) lines (v, u) turns).state
  /-- No request would touch a counter in any world. -/
  sparing : ∀ turns, ∀ request ∈ (Duplex.under (World.facing peer) lines (v, u) turns).asked,
    request.IsSparing

/-- Whatever a worker sends, whichever bytes reach it, and however the reader and the server of its
session mix: an invocation does nothing but wait until the session begins, and in the session no
counter and no trigger changes and nothing fires. What the worker can get at is at any time as some
of its callbacks leave it, carried out in order from the first, and entries that those do not name
have not changed; what the store refuses does nothing, and a store without faults refuses nothing.
Callbacks are those before the line that ends the session. In a session that is over they have been
carried out up to the first whose answer could not be sent, and all of them if there is no such
answer; and an invocation as it is run comes to the end of such a session. None of its requests
would have touched a counter in any other world. -/
theorem Peer.spares_counters (peer : Peer τ) (worker : WorkerSettings) (input : Json)
    {w v : World} {t u : τ} {lines : List Line}
    (h : (worker.opening input).run (World.facing peer) (w, t) = (lines, v, u)) :
    peer.Confined worker input w v t u lines := by
  have hwaits := World.exists_waits (worker.opening_onlyAsks input) peer (w, t)
  rw [h] at hwaits
  have hconforms (turns : List SessionTurn) :=
    Duplex.conforms_under (World.facing peer) lines (v, u) turns
  have hrequests := requests_serveAll (World.facing peer) (callbacksOf lines) (v, u)
  refine
    { waits := hwaits
      idle := fun hquiet => ?idle
      served := fun turns => ?served
      all := fun hnone => ?all
      invoked := Task.exists_turns_invoke h
      sparing := fun turns request hrequest => ?sparing }
  case idle =>
    obtain ⟨waits, hv⟩ := hwaits
    have hpause := World.foldl_pause hquiet waits
    rwa [← hv] at hpause
  case served =>
    have hprefix := (hconforms turns).asked_isPrefix_requests
    rw [hrequests] at hprefix
    obtain ⟨count, hcount, hserved, hall⟩ := World.exists_served peer hprefix
    have hdue := List.length_take_of_le
      (carriedOut_le_length (World.facing peer) (callbacksOf lines) (v, u))
    have hle := Nat.le_trans hcount (Nat.le_of_eq hdue)
    refine ⟨count, hle, ?_, fun hover => ?_⟩
    · rw [List.take_take, Nat.min_eq_left hle] at hserved
      rw [Duplex.state_under]
      exact hserved
    · exact (hall (((hconforms turns).asked_of_isOver hover).trans hrequests)).trans hdue
  case all => rw [carriedOut, hnone, Option.elim_none]
  case sparing =>
    exact (serveAll_onlyAsks (callbacksOf lines)).of_mem_requests request
      ((hconforms turns).asked_isPrefix_requests.subset hrequest)

/-- A world in which branches are counted, under a name that is also that of a value. -/
def joining : World :=
  { store :=
      { values := .put .empty "fork" (.nat 5)
        counters := .put .empty "fork" 1
        triggers := .put .empty (triggerKey "fork")
          { action := .join, metadataKey := "meta", thresholds := [2], totalBranches := 2,
            executionId := "run", topic := "Join" } } }

/-- What a worker says that asks for three things, and then makes no sense. -/
def babble : List Json :=
  [(WorkerFrame.callback 1 (.put "fork" (.nat 7))).toJson,
    (WorkerFrame.callback 2 (.dispatch "Next" (.nat 1))).toJson,
    (WorkerFrame.callback 3 (.delete "fork")).toJson, .string "join"]

/-- A worker that says this, and listens for so long. -/
def babbler : Peer Nat where
  connect _ patience := (.ok (babble.flatMap frameBytes), patience)
  hear _ _ patience := (decide (0 < patience), patience - 1)

/-- The worker `babbler` hears its input and one answer, so that its third callback is not carried
out, and the count of the branches is what it was. -/
theorem Peer.spares_counters_babbler :
    let final :=
      (((Task.delegated {}).invoke .null).run.run (World.facing babbler) (joining, 2)).2.1
    joining.Spares final ∧
      final.reach = ⟨.put .empty "fork" (.nat 7), .empty, [⟨"Next", .nat 1⟩]⟩ := by
  intro final
  have hbegun : (WorkerSettings.opening {} .null).run (World.facing babbler) (joining, 2) =
      (linesOf (babble.flatMap frameBytes), joining, 1) := rfl
  have hconfined := spares_counters babbler {} .null hbegun
  obtain ⟨turns, hover, hfinal⟩ := hconfined.invoked
  obtain ⟨count, -, hserved, hcount⟩ := hconfined.served turns
  have hdue : carriedOut (World.facing babbler) (callbacksOf (linesOf (babble.flatMap frameBytes)))
      (joining, 1) = 2 := by decide +kernel
  rw [hcount hover, hdue, ← hfinal] at hserved
  refine ⟨hserved.spares, hserved.reach.trans ?_⟩
  decide +kernel

end Workflow
