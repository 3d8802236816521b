import Workflow.Proofs.World

/-!
# Sequences of calls that may be refused

The steps of a fan-out make calls of the store in a fixed order and hand something to the scheduler
at their end. Any of the calls may be refused, and then the step is over at that point: what the
calls before have done to the store stays done, and nothing has been handed over.

* **Calls in a row** (`Store.performAll`): what they make of a store. Calls that overwrite whatever
  stands at their places make the same of two stores that differ only there
  (`Store.performAll_eq_of_agree`).
* **Removal** (`Place.removal`, `Place.performAll_removals`): the calls that clear places.
* **Activities** (`FanOut.callAll`, `World.Becomes`, `World.Performs`): an activity makes calls and
  hands something over, or is stopped at one of the calls; rules for sequences
  (`World.Performs.callBind`, `World.Performs.bindOk`).
-/

namespace Workflow

/-! ## Calls in a row -/

namespace StoreCall

/-- Whether a call determines what stands at its place, whatever stood there. -/
def overwrites : StoreCall → Bool
  | put _ _ | delete _ | createSet _ | deleteSet _ | createCounter _ _ | deleteCounter _
  | putTrigger _ _ | deleteTrigger _ => true
  | get _ | addMember _ _ | members _ | increment _ _ => false

end StoreCall

namespace Store

variable {s t : Store} {c : StoreCall} {calls : List StoreCall} {place : Place}

/-- What calls make of a store when all of them are granted. -/
def performAll (s : Store) (calls : List StoreCall) : Store :=
  calls.foldl (fun s c => (s.perform c).2) s

/-- Calls are made from the first one on. -/
@[simp] theorem performAll_cons (s : Store) (c : StoreCall) (calls : List StoreCall) :
    s.performAll (c :: calls) = (s.perform c).2.performAll calls := rfl

/-- Calls and further calls are made one after the other. -/
theorem performAll_append (s : Store) (calls more : List StoreCall) :
    s.performAll (calls ++ more) = (s.performAll calls).performAll more := List.foldl_append

/-- Calls change nothing but their places. -/
theorem content?_performAll_of_ne (h : ∀ c ∈ calls, c.place? ≠ some place) :
    (s.performAll calls).content? place = s.content? place := by
  induction calls generalizing s with
  | nil => rfl
  | cons c rest ih =>
    rw [performAll_cons, ih fun c hc => h c (List.mem_cons_of_mem _ hc),
      content?_perform_of_ne (h c List.mem_cons_self)]

/-- Calls that only read leave the store as it is. -/
theorem performAll_of_readings (h : ∀ c ∈ calls, c.place? = none) : s.performAll calls = s :=
  ext_content? fun place => content?_performAll_of_ne fun c hc => by simp [h c hc]

/-- A call that overwrites leaves the same at its place in every store. -/
theorem content?_perform_of_overwrites (h : c.overwrites = true) (hplace : c.place? = some place) :
    (s.perform c).2.content? place = (t.perform c).2.content? place := by
  cases c with
  | get key | members key => cases hplace
  | addMember key member => cases h
  | increment name delta => cases h
  | _ =>
    obtain rfl := Option.some.inj hplace
    simp [perform, content?]

/-- Only the addition to a counter can fail in the store itself. -/
theorem exists_reply (s : Store) (h : ∀ name delta, c ≠ .increment name delta) :
    ∃ reply, (s.perform c).1 = .ok reply := by
  cases c with
  | increment name delta => exact absurd rfl (h name delta)
  | _ => exact ⟨_, rfl⟩

/-- Calls that overwrite make the same of stores that differ at the places of the calls only. -/
theorem performAll_eq_of_agree (hcalls : ∀ c ∈ calls, c.overwrites = true)
    (h : ∀ place, (∀ c ∈ calls, c.place? ≠ some place) → s.content? place = t.content? place) :
    s.performAll calls = t.performAll calls := by
  induction calls generalizing s t with
  | nil => exact ext_content? fun place => h place (by simp)
  | cons c rest ih =>
    refine ih (fun c hc => hcalls c (List.mem_cons_of_mem _ hc)) fun place hrest => ?_
    by_cases hplace : c.place? = some place
    · exact content?_perform_of_overwrites (hcalls c List.mem_cons_self) hplace
    · rw [content?_perform_of_ne hplace, content?_perform_of_ne hplace]
      exact h place (List.forall_mem_cons.mpr ⟨hplace, hrest⟩)

end Store

/-- The call that clears a place. -/
def Place.removal : Place → StoreCall
  | value key => .delete key
  | set key => .deleteSet key
  | counter name => .deleteCounter name
  | trigger key => .deleteTrigger key

namespace Place

/-- The call that clears a place adds to no counter. -/
theorem removal_ne_increment (place : Place) (name : String) (delta : Int) :
    place.removal ≠ .increment name delta := by
  cases place <;> simp [removal]

/-- The call that clears a place leaves a store without it. -/
theorem perform_removal (s : Store) (place : Place) :
    (s.perform place.removal).2 = s.erase place := by
  cases place <;> rfl

/-- Clearing places one by one leaves a store without them. -/
theorem performAll_removals (s : Store) (places : List Place) :
    s.performAll (places.map removal) = s.without places := by
  rw [Store.performAll, List.foldl_map, Store.without]
  simp only [perform_removal]

end Place

/-! ## Activities -/

namespace FanOut

/-- Makes calls one after the other. -/
def callAll : List StoreCall → ExceptT FanOutError Activity Unit
  | [] => return ()
  | c :: rest => do
    let _ ← call c
    callAll rest

/-- Calls in a row are some of them and then the others. -/
theorem callAll_append (calls more : List StoreCall) :
    callAll (calls ++ more) = (callAll calls >>= fun _ => callAll more) := by
  induction calls with
  | nil => rw [List.nil_append, callAll, pure_bind]
  | cons c rest ih =>
    rw [List.cons_append, callAll, callAll, ih, bind_assoc]

/-- Making calls in a row asks for these calls only. -/
theorem callAll_onlyAsks {P : Request → Prop} {calls : List StoreCall}
    (h : ∀ c ∈ calls, P (.store c)) : (callAll calls).run.OnlyAsks P := by
  induction calls with
  | nil => trivial
  | cons c rest ih =>
    refine .bindFailing (call_onlyAsks (h c List.mem_cons_self)) fun _ => ?_
    exact ih fun c hc => h c (List.mem_cons_of_mem _ hc)

end FanOut

namespace World

variable {w v u : World} {store later : Store} {handed more : List Dispatch}

/-- What has become of a world, faults or not: it has another store, and the scheduler has been
handed something. -/
structure Becomes (w : World) (store : Store) (handed : List Dispatch) (v : World) : Prop where
  store : v.store = store
  queue : v.queue = w.queue ++ handed
  fired : v.fired = w.fired
  firesTriggers : v.firesTriggers = w.firesTriggers
  faults : w.faults = [] → v.faults = []

namespace Becomes

/-- A world that stays as it is has kept its store, and nothing has been handed over. -/
theorem refl (w : World) : w.Becomes w.store [] w :=
  ⟨rfl, (List.append_nil _).symm, rfl, rfl, id⟩

/-- What has become of a world in two steps has become of it. -/
theorem trans (h : w.Becomes store handed v) (h' : v.Becomes later more u) :
    w.Becomes later (handed ++ more) u where
  store := h'.store
  queue := by rw [h'.queue, h.queue, List.append_assoc]
  fired := h'.fired.trans h.fired
  firesTriggers := h'.firesTriggers.trans h.firesTriggers
  faults := fun hw => h'.faults (h.faults hw)

end Becomes

/-- An activity makes calls, hands something over and comes to a result; or, as there are faults,
one of the calls is refused and the activity is over, with nothing handed over. -/
inductive Performs {α : Type} (w : World) (a : Activity (Except FanOutError α))
    (calls : List StoreCall) (result : α) (handed : List Dispatch) : Prop
  | granted {v : World} (run : a.run answer w = (.ok result, v))
      (becomes : w.Becomes (w.store.performAll calls) handed v)
  | refused (before after : List StoreCall) {c : StoreCall} {e : StoreError} {v : World}
      (faulty : w.faults ≠ []) (split : calls = before ++ c :: after)
      (run : a.run answer w = (.error (.store e), v))
      (becomes : w.Becomes (w.store.performAll before) [] v)
      (last : v.journal.getLast? = some ⟨c, .error e⟩)

namespace Performs

variable {α β : Type} {calls others : List StoreCall} {a : α} {b : β}

/-- The end of an activity. -/
theorem done (w : World) (a : α) : w.Performs (.done (.ok a)) [] a [] :=
  .granted rfl (.refl w)

/-- The rule of sequence. -/
theorem bindOk {x : ExceptT FanOutError Activity α} {f : α → ExceptT FanOutError Activity β}
    (hx : w.Performs x.run calls a [])
    (hf : ∀ v, w.Becomes (w.store.performAll calls) [] v →
      v.Performs (f a).run others b handed) :
    w.Performs (x >>= f).run (calls ++ others) b handed := by
  cases hx with
  | @granted v hrun hv =>
    have hstore : v.store = w.store.performAll calls := hv.store
    cases hf v hv with
    | @granted u hrest hu =>
      refine .granted ((Activity.run_bind_ok hrun).trans hrest) ?_
      rw [Store.performAll_append, ← hstore]
      exact hv.trans hu
    | @refused before after c e u hfaulty hsplit hrest hu hlast =>
      refine .refused (calls ++ before) after (fun hw => hfaulty (hv.faults hw)) ?_
        ((Activity.run_bind_ok hrun).trans hrest) ?_ hlast
      · rw [hsplit, List.append_assoc]
      · rw [Store.performAll_append, ← hstore]
        exact hv.trans hu
  | @refused before after c e v hfaulty hsplit hrun hv hlast =>
    refine .refused before (after ++ others) hfaulty ?_ (Activity.run_bind_error hrun) hv
      hlast
    rw [hsplit, List.append_assoc]
    rfl

/-- A call that only an added fault can refuse. -/
theorem call {c : StoreCall} {reply : c.Reply} (hc : ∀ name delta, c ≠ .increment name delta)
    (hreply : (w.store.perform c).1 = .ok reply) :
    w.Performs (FanOut.call c).run [c] reply [] := by
  rw [FanOut.call_run]
  rcases answer_store_struck_or w c with ⟨hfaulty, e, faults, hanswer⟩ | ⟨faults, hfaults, hanswer⟩
  · refine .refused [] [] hfaulty rfl (by rw [Activity.run_ask, hanswer]; rfl) ?_ ?_
    · exact ⟨rfl, (List.append_nil _).symm, rfl, rfl, fun hw => absurd hw hfaulty⟩
    · exact List.getLast?_concat
  · refine .granted (by rw [Activity.run_ask, hanswer, hreply]; rfl) ?_
    exact ⟨rfl, (List.append_nil _).symm, after_fired_of_ne_increment hc, rfl, hfaults⟩

/-- The rule of a call and what follows it. -/
theorem callBind {c : StoreCall} {reply : c.Reply} {f : c.Reply → ExceptT FanOutError Activity β}
    (hc : ∀ name delta, c ≠ .increment name delta) (hreply : (w.store.perform c).1 = .ok reply)
    (hf : ∀ v, w.Becomes (w.store.perform c).2 [] v → v.Performs (f reply).run calls b handed) :
    w.Performs (FanOut.call c >>= f).run (c :: calls) b handed :=
  (Performs.call hc hreply).bindOk hf

/-- The scheduler is handed states without a call of the store. -/
theorem handAll (w : World) (handed : List Dispatch) :
    w.Performs (liftM (FanOut.handAll handed) : ExceptT FanOutError Activity Unit).run [] ()
      handed := by
  refine .granted ((Activity.run_liftM _ _ _).trans (by rw [FanOut.run_handAll])) ?_
  exact ⟨rfl, rfl, rfl, rfl, id⟩

/-- Giving the result in other words asks for nothing more. -/
theorem bindPure {x : ExceptT FanOutError Activity α} (hx : w.Performs x.run calls a handed)
    (g : α → β) : w.Performs (x >>= fun a => pure (g a)).run calls (g a) handed := by
  cases hx with
  | @granted v hrun hv => exact .granted (Activity.run_bind_ok hrun) hv
  | @refused before after c e v hfaulty hsplit hrun hv hlast =>
    exact .refused before after hfaulty hsplit (Activity.run_bind_error hrun) hv hlast

/-- The rule of calls in a row. -/
theorem callAll (h : ∀ c ∈ calls, ∀ name delta, c ≠ .increment name delta) :
    w.Performs (FanOut.callAll calls).run calls () [] := by
  induction calls generalizing w with
  | nil => exact .done w ()
  | cons c rest ih =>
    obtain ⟨reply, hreply⟩ := w.store.exists_reply (h c List.mem_cons_self)
    rw [FanOut.callAll]
    exact .callBind (h c List.mem_cons_self) hreply fun v _ =>
      ih fun c hc => h c (List.mem_cons_of_mem _ hc)

/-- In a world without faults all calls are made. -/
theorem yields (hw : w.faults = []) {x : Activity (Except FanOutError α)}
    (h : w.Performs x calls a handed) :
    w.Yields x (.ok a) (w.store.performAll calls) handed := by
  cases h with
  | @granted v hrun hv =>
    exact ⟨v, ⟨hv.store, hv.queue, hv.fired, hv.firesTriggers, (hv.faults hw).trans hw.symm⟩, hrun⟩
  | refused before after hfaulty => exact absurd hw hfaulty

end Performs

end World

end Workflow
