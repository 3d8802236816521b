import Workflow.FanOut
import Workflow.Proofs.Activity
import Workflow.Proofs.Store
import Workflow.Simulation.World

/-!
# Calls of the store in a world

In a simulated world a call of the store either takes effect or is struck by a fault and changes
nothing. The steps of a fan-out are sequences of such calls; here one call is taken off the front.

* **One call** (`World.after`, `World.answer_store_cases`, `World.answer_store`): the world after a
  call that has taken effect; the two ways in which a call can end; the only way in a world without
  faults. `World.Effect` says that a call has taken effect without naming all of the world.
* **Sequences** (`FanOut.run_call_bind`, `FanOut.run_call_bind_eq_ok`): a call and what follows it,
  in a world without faults, and in any world, if the whole has succeeded.
* **Whole activities** (`World.Outcome`, `World.Yields`): what has become of a world, as far as a
  fan-out can see, and the result of an activity with what becomes of the world by it.
* **Dispatches** (`World.queue_answer`, `FanOut.run_handAll`): the scheduler takes whatever it is
  handed, and nothing but a dispatch hands it anything.
-/

namespace Workflow

namespace World

variable {w : World} {c : StoreCall}

/-! ## One call -/

/-- The world after a call of the store that has taken effect. -/
def after (w : World) (c : StoreCall) : World :=
  { w with
    store := (w.store.perform c).2
    fired := w.fired ++
      if w.firesTriggers then ((w.store.perform c).2.firedBy? c (w.store.perform c).1).toList
      else []
    journal := w.journal ++ [⟨c, (w.store.perform c).1⟩] }

/-- The store after a call is the one that the call leaves. -/
@[simp] theorem after_store (w : World) (c : StoreCall) :
    (w.after c).store = (w.store.perform c).2 := rfl

/-- A call leaves the queue of the scheduler alone. -/
@[simp] theorem after_queue (w : World) (c : StoreCall) : (w.after c).queue = w.queue := rfl

/-- A call changes nothing about whether counters fire their triggers. -/
@[simp] theorem after_firesTriggers (w : World) (c : StoreCall) :
    (w.after c).firesTriggers = w.firesTriggers := rfl

/-- A call that takes effect leaves the faults alone. -/
@[simp] theorem after_faults (w : World) (c : StoreCall) : (w.after c).faults = w.faults := rfl

/-- Whatever a call fires is fired by the counter that it is about. -/
theorem after_fired (w : World) (c : StoreCall) :
    ∃ emitted, (w.after c).fired = w.fired ++ emitted ∧
      ∀ f ∈ emitted, c.place? = some (.counter f.counter) := by
  refine ⟨_, rfl, fun f hf => ?_⟩
  split at hf
  · exact Store.firedBy?_counter (Option.mem_toList.mp hf)
  · cases hf

/-- A counter that a call is not about fires nothing. -/
theorem filter_fired_eq_nil {counter : String} (hc : c.place? ≠ some (.counter counter))
    {emitted : List FiredTrigger} (h : ∀ f ∈ emitted, c.place? = some (.counter f.counter)) :
    (emitted.filter fun f => f.counter == counter) = [] := by
  refine List.filter_eq_nil_iff.mpr fun f hf hname => hc ?_
  rw [← beq_iff_eq.mp hname, h f hf]

/-- Only the addition to a counter can fire anything. -/
theorem after_fired_of_ne_increment (h : ∀ name delta, c ≠ .increment name delta) :
    (w.after c).fired = w.fired := by
  have hnone : (w.store.perform c).2.firedBy? c (w.store.perform c).1 = none := by
    cases c with
    | increment name delta => exact absurd rfl (h name delta)
    | _ => rfl
  simp [after, hnone]

/-- What a counter fires when it is added to. -/
theorem after_fired_increment {name : String} {count : Int}
    (h : w.store.content? (.counter name) = some count) (delta : Int) :
    (w.after (.increment name delta)).fired = w.fired ++
      if w.firesTriggers then
        ((w.store.perform (.increment name delta)).2.fired? name (count + delta)).toList
      else [] := by
  simp only [after]
  rw [Store.perform_increment h]
  rfl

/-- In a world without faults every call takes effect. -/
theorem answer_store (h : w.faults = []) (c : StoreCall) :
    answer (.store c) w = ((w.store.perform c).1, w.after c) := by
  simp only [answer, journaledCall, call, h, Fault.strike]
  rw [after, h]

/-- A call is struck by a fault and leaves nothing but an entry in the journal, or it takes
effect. -/
theorem answer_store_struck_or (w : World) (c : StoreCall) :
    (w.faults ≠ [] ∧ ∃ e faults, answer (.store c) w =
      (.error e, { w with faults, journal := w.journal ++ [⟨c, .error e⟩] })) ∨
      ∃ faults, (w.faults = [] → faults = []) ∧
        answer (.store c) w = ((w.store.perform c).1, { w.after c with faults }) := by
  by_cases hw : w.faults = []
  · exact .inr ⟨w.faults, id, answer_store hw c⟩
  · rcases hstrike : Fault.strike c w.faults with ⟨_ | e, faults⟩
    · refine .inr ⟨faults, fun h => absurd h hw, ?_⟩
      simp only [answer, journaledCall, call, hstrike]
      rfl
    · refine .inl ⟨hw, e, faults, ?_⟩
      simp only [answer, journaledCall, call, hstrike]
      rfl

/-- A call is struck by a fault and changes nothing that the store holds, or it takes effect. -/
theorem answer_store_cases (w : World) (c : StoreCall) :
    (w.faults ≠ [] ∧
      ∃ e faults journal, answer (.store c) w = (.error e, { w with faults, journal })) ∨
      ∃ faults, (w.faults = [] → faults = []) ∧
        answer (.store c) w = ((w.store.perform c).1, { w.after c with faults }) := by
  rcases answer_store_struck_or w c with ⟨hw, e, faults, hanswer⟩ | heffect
  · exact .inl ⟨hw, e, faults, _, hanswer⟩
  · exact .inr heffect

/-- A call has led from one world to another by taking effect. -/
structure Effect (c : StoreCall) (w v : World) : Prop where
  store : v.store = (w.store.perform c).2
  fired : v.fired = (w.after c).fired
  queue : v.queue = w.queue
  firesTriggers : v.firesTriggers = w.firesTriggers
  faults : w.faults = [] → v.faults = []

/-- A call that has been granted has taken effect. -/
theorem effect_of_answer_ok {reply : c.Reply} {v : World}
    (h : answer (.store c) w = (.ok reply, v)) :
    (w.store.perform c).1 = .ok reply ∧ Effect c w v := by
  rcases answer_store_cases w c with ⟨-, e, faults, journal, hanswer⟩ | ⟨faults, hfaults, hanswer⟩
  · rw [hanswer] at h
    cases h
  · rw [hanswer] at h
    obtain ⟨hreply, rfl⟩ := Prod.mk.inj h
    exact ⟨hreply, rfl, rfl, rfl, rfl, hfaults⟩

namespace Effect

variable {v : World}

/-- A call that has taken effect leaves alone what it is not about. -/
theorem content?_of_ne (h : Effect c w v) {place : Place} (hne : c.place? ≠ some place) :
    v.store.content? place = w.store.content? place := by
  rw [h.store, Store.content?_perform_of_ne hne]

/-- Only the addition to a counter can have fired anything. -/
theorem fired_of_ne_increment (h : Effect c w v) (hne : ∀ name delta, c ≠ .increment name delta) :
    v.fired = w.fired := by
  rw [h.fired, after_fired_of_ne_increment hne]

end Effect

/-- If no call is to come, a pause changes nothing but the time. -/
theorem pause_of_later_eq_nil (h : w.later = []) (d : Duration) :
    w.pause d = { w with later := [], clock := w.clock + d.pauseMillis } := by
  rw [pause, h]
  rfl

/-! ## What has become of a world -/

/-- What has become of a world: it has another store, the scheduler has been handed something, and
nothing else has changed but what was said and slept in between. -/
structure Outcome (w : World) (store : Store) (handed : List Dispatch) (v : World) : Prop where
  store : v.store = store
  queue : v.queue = w.queue ++ handed
  fired : v.fired = w.fired
  firesTriggers : v.firesTriggers = w.firesTriggers
  faults : v.faults = w.faults

namespace Outcome

variable {v u : World} {store later : Store} {handed more : List Dispatch}

/-- A world that stays as it is has kept its store, and nothing has been handed over. -/
theorem refl (w : World) : w.Outcome w.store [] w := ⟨rfl, (List.append_nil _).symm, rfl, rfl, rfl⟩

/-- What becomes of a world in two steps: the store of the second one, and what has been handed over
in both. -/
theorem trans (h : w.Outcome store handed v) (h' : v.Outcome later more u) :
    w.Outcome later (handed ++ more) u where
  store := h'.store
  queue := by rw [h'.queue, h.queue, List.append_assoc]
  fired := h'.fired.trans h.fired
  firesTriggers := h'.firesTriggers.trans h.firesTriggers
  faults := h'.faults.trans h.faults

end Outcome

/-- An activity has this result in a world, and this becomes of the world. -/
def Yields {α : Type} (w : World) (a : Activity α) (result : α) (store : Store)
    (handed : List Dispatch) : Prop :=
  ∃ v, w.Outcome store handed v ∧ a.run answer w = (result, v)

/-! ## Dispatches -/

/-- Nothing but a dispatch changes the queue. -/
theorem queue_answer (request : Request) (w : World) :
    (answer request w).2.queue = w.queue ++ request.dispatch?.toList := by
  have hcall (w : World) (c : StoreCall) : (w.call c).2.queue = w.queue := by
    rw [call]
    rcases Fault.strike c w.faults with ⟨_ | e, faults⟩ <;> rfl
  have hcalls (calls : List (Nat × StoreCall)) (w : World) :
      (w.makeCalls calls).queue = w.queue := by
    induction calls generalizing w with
    | nil => rfl
    | cons entry rest ih => exact (ih _).trans (hcall w entry.2)
  cases request with
  | store c => exact (hcall w c).trans (List.append_nil _).symm
  | sleep d => exact (hcalls _ _).trans (List.append_nil _).symm
  | dispatch d => rfl
  | _ => exact (List.append_nil _).symm

/-- The scheduler takes whatever it is handed. -/
theorem run_dispatch_bind {α : Type} (w : World) (next : String) (value : Json)
    (f : Unit → Activity α) :
    (Activity.dispatch next value >>= f).run answer w =
      (f ()).run answer (w.dispatch ⟨next, value⟩) := rfl

end World

namespace FanOut

/-- Hands states to the scheduler one after the other. -/
def handAll : List Dispatch → Activity Unit
  | [] => return ()
  | d :: rest => do
    Activity.dispatch d.next d.value
    handAll rest

/-- Handing states to the scheduler asks for nothing else. -/
theorem handAll_onlyAsks {P : Request → Prop} {handed : List Dispatch}
    (h : ∀ d ∈ handed, P (.dispatch d)) : (handAll handed).OnlyAsks P := by
  induction handed with
  | nil => trivial
  | cons d rest ih =>
    exact ⟨h d List.mem_cons_self, fun _ => ih fun d hd => h d (List.mem_cons_of_mem _ hd)⟩

/-- States that are handed to the scheduler stand in its queue in their order. -/
theorem run_handAll (w : World) (handed : List Dispatch) :
    (handAll handed).run World.answer w = ((), { w with queue := w.queue ++ handed }) := by
  induction handed generalizing w with
  | nil =>
    rw [List.append_nil]
    rfl
  | cons d rest ih =>
    rw [handAll, World.run_dispatch_bind, ih, World.dispatch, List.append_assoc]
    rfl

variable {α : Type} {w w' : World} {c : StoreCall} {f : c.Reply → ExceptT FanOutError Activity α}

/-! ## Sequences of calls -/

/-- A call and what follows it, as a tree of requests. -/
theorem call_bind_run (c : StoreCall) (f : c.Reply → ExceptT FanOutError Activity α) :
    (call c >>= f).run = .ask (.store c) fun
      | .ok reply => (f reply).run
      | .error e => .done (.error (.store e)) := by
  change Activity.ask _ _ = Activity.ask _ _
  congr 1
  funext reply
  cases reply <;> rfl

/-- The last call of a sequence, as a tree of requests. -/
theorem call_run (c : StoreCall) :
    (call c).run = .ask (.store c) fun
      | .ok reply => .done (.ok reply)
      | .error e => .done (.error (.store e)) := by
  change Activity.ask _ _ = Activity.ask _ _
  congr 1
  funext reply
  cases reply <;> rfl

/-- A call asks for nothing but itself. -/
theorem call_onlyAsks {P : Request → Prop} (h : P (.store c)) : (call c).run.OnlyAsks P :=
  .adapt _ ⟨h, fun _ => trivial⟩

/-- The rule of a call and what follows it, for activities that rely on their answers. -/
theorem until_call_bind {asks : Request → Prop} {given : (request : Request) → request.Reply → Prop}
    {final : Activity (Except FanOutError α) → Prop} (h : asks (.store c))
    (hok : ∀ reply, given (.store c) (.ok reply) → (f reply).run.Until asks given final)
    (herror : ∀ e, given (.store c) (.error e) → final (.done (.error (.store e)))) :
    (call c >>= f).run.Until asks given final := by
  rw [call_bind_run]
  refine .ask h fun reply hgiven => ?_
  cases reply with
  | ok reply => exact hok reply hgiven
  | error e => exact .final (herror e hgiven)

/-- Without faults a call hands its reply on to what follows. -/
theorem run_call_bind (hw : w.faults = []) {reply : c.Reply}
    (h : (w.store.perform c).1 = .ok reply) :
    (call c >>= f).run.run World.answer w = (f reply).run.run World.answer (w.after c) := by
  rw [call_bind_run, Activity.run_ask, World.answer_store hw, h]

/-- In a sequence that has succeeded the first call has taken effect. -/
theorem run_call_bind_eq_ok {result : α}
    (h : (call c >>= f).run.run World.answer w = (.ok result, w')) :
    ∃ reply v, (w.store.perform c).1 = .ok reply ∧ World.Effect c w v ∧
      (f reply).run.run World.answer v = (.ok result, w') := by
  rw [call_bind_run, Activity.run_ask] at h
  rcases World.answer_store_cases w c with ⟨-, e, faults, journal, hanswer⟩ |
    ⟨faults, hfaults, hanswer⟩
  · rw [hanswer] at h
    cases h
  · rw [hanswer] at h
    cases hreply : (w.store.perform c).1 with
    | error e =>
      rw [hreply] at h
      cases h
    | ok reply =>
      rw [hreply] at h
      exact ⟨reply, { w.after c with faults }, rfl, ⟨rfl, rfl, rfl, rfl, hfaults⟩, h⟩

/-- In a sequence that has succeeded, a last call has taken effect. -/
theorem run_call_eq_ok {reply : c.Reply} (h : (call c).run.run World.answer w = (.ok reply, w')) :
    (w.store.perform c).1 = .ok reply ∧ World.Effect c w w' := by
  rw [← bind_pure (call c)] at h
  obtain ⟨reply', v, hreply, heffect, hdone⟩ := run_call_bind_eq_ok h
  cases hdone
  exact ⟨hreply, heffect⟩

end FanOut

end Workflow
