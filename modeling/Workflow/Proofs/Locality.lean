import Workflow.Proofs.World

/-!
# Worlds that agree on some places

A call of the store sees nothing but the place that it is about, and an addition to a counter the
trigger of the counter besides. Those who keep to places of their own cannot tell worlds apart that
agree on these places, and are not disturbed by what happens at other places.

* **Calm worlds** (`World.Calm`): nothing happens in them but what is asked for.
* **Agreement** (`World.Agree`): what stands at some places, and what their counters have fired.
* **Calls** (`World.Agree.store`, `World.Agree.elsewhere`): a call about one of the places has the
  same reply and keeps the agreement, and so does a call about another place in one of the worlds.
* **Other requests** (`World.Calm.unchanged`): they change nothing that is compared.
-/

namespace Workflow.World

variable {w v : World} {owned : Place → Prop} {c : StoreCall} {request : Request}

/-! ## Calm worlds -/

/-- Nothing happens in the world but what is asked for: no call is refused, and none is to come. -/
structure Calm (w : World) : Prop where
  faults : w.faults = []
  later : w.later = []

namespace Calm

/-- A calm world stays calm. -/
theorem answer (h : w.Calm) (request : Request) : (answer request w).2.Calm := by
  cases request with
  | store c =>
    rw [answer_store h.faults]
    exact ⟨h.faults, h.later⟩
  | sleep d =>
    change (w.pause d).Calm
    rw [pause_of_later_eq_nil h.later]
    exact ⟨h.faults, rfl⟩
  | _ => exact ⟨h.faults, h.later⟩

/-- A request that is not a call of the store changes neither the store nor what has fired. -/
theorem unchanged (h : w.Calm) (hrequest : ∀ c, request ≠ .store c) :
    (World.answer request w).2.store = w.store ∧ (World.answer request w).2.fired = w.fired ∧
      (World.answer request w).2.firesTriggers = w.firesTriggers := by
  cases request with
  | store c => exact absurd rfl (hrequest c)
  | sleep d =>
    change (w.pause d).store = _ ∧ (w.pause d).fired = _ ∧ (w.pause d).firesTriggers = _
    rw [pause_of_later_eq_nil h.later]
    exact ⟨rfl, rfl, rfl⟩
  | _ => exact ⟨rfl, rfl, rfl⟩

/-- What is not asked to change does not change. -/
theorem content?_answer (h : w.Calm) {place : Place}
    (hplace : ∀ c, request = .store c → c.place? ≠ some place) :
    (World.answer request w).2.store.content? place = w.store.content? place := by
  by_cases hstore : ∃ c, request = .store c
  · obtain ⟨c, rfl⟩ := hstore
    rw [answer_store h.faults]
    exact Store.content?_perform_of_ne (hplace c rfl)
  · rw [(h.unchanged fun c hc => hstore ⟨c, hc⟩).1]

end Calm

/-! ## Agreement -/

/-- What a counter has fired so far. -/
def firedOf (w : World) (counter : String) : List FiredTrigger :=
  w.fired.filter fun f => f.counter == counter

/-- Two worlds hold the same at some places, and their counters have fired the same there. -/
structure Agree (owned : Place → Prop) (w v : World) : Prop where
  content : ∀ place, owned place → w.store.content? place = v.store.content? place
  fired : ∀ counter, owned (.counter counter) → w.firedOf counter = v.firedOf counter
  firesTriggers : w.firesTriggers = v.firesTriggers

namespace Agree

/-- Every world agrees with itself. -/
theorem refl (owned : Place → Prop) (w : World) : Agree owned w w :=
  ⟨fun _ _ => rfl, fun _ _ => rfl, rfl⟩

/-- Two worlds agree that hold the same and whose counters have fired the same; in all else they may
differ. -/
theorem of_eq {w' v' : World} (h : Agree owned w v)
    (hw : w'.store = w.store ∧ w'.fired = w.fired ∧ w'.firesTriggers = w.firesTriggers)
    (hv : v'.store = v.store ∧ v'.fired = v.fired ∧ v'.firesTriggers = v.firesTriggers) :
    Agree owned w' v' := by
  obtain ⟨hstore, hfired, hfires⟩ := hw
  obtain ⟨hstore', hfired', hfires'⟩ := hv
  refine ⟨?_, ?_, ?_⟩
  · rw [hstore, hstore']
    exact h.content
  · rw [show w'.firedOf = w.firedOf by funext; simp only [firedOf, hfired],
      show v'.firedOf = v.firedOf by funext; simp only [firedOf, hfired']]
    exact h.fired
  · rw [hfires, hfires', h.firesTriggers]

/-! ## Calls -/

/-- A call about one of the places has the same reply in both worlds and does the same there. -/
theorem store (h : Agree owned w v) (hw : w.Calm) (hv : v.Calm) (hc : owned c.subject)
    (htriggers : ∀ name, owned (.counter name) → owned (.trigger (triggerKey name))) :
    (answer (.store c) w).1 = (answer (.store c) v).1 ∧
      Agree owned (answer (.store c) w).2 (answer (.store c) v).2 := by
  obtain ⟨hreply, hsubject⟩ := Store.perform_congr (h.content _ hc)
  have hcontent : ∀ place, owned place →
      (w.store.perform c).2.content? place = (v.store.perform c).2.content? place := by
    intro place hplace
    by_cases heq : c.place? = some place
    · rwa [← StoreCall.subject_of_place? heq]
    · rw [Store.content?_perform_of_ne heq, Store.content?_perform_of_ne heq]
      exact h.content place hplace
  rw [answer_store hw.faults, answer_store hv.faults]
  refine ⟨hreply, hcontent, fun counter hcounter => ?_, h.firesTriggers⟩
  have hfires : (w.store.perform c).2.firedBy? c (w.store.perform c).1 =
      (v.store.perform c).2.firedBy? c (v.store.perform c).1 := by
    rw [hreply]
    refine Store.firedBy?_congr _ fun name hname => hcontent _ (htriggers name ?_)
    rwa [← StoreCall.subject_of_place? hname]
  simp only [firedOf, after, List.filter_append, hfires, h.firesTriggers]
  exact congrArg (· ++ _) (h.fired counter hcounter)

/-- A call about another place, made in one of the worlds, goes unnoticed. -/
theorem elsewhere (h : Agree owned w v) (hw : w.Calm)
    (hc : ∀ place, owned place → c.place? ≠ some place) :
    Agree owned (answer (.store c) w).2 v := by
  rw [answer_store hw.faults]
  refine ⟨fun place hplace => ?_, fun counter hcounter => ?_, h.firesTriggers⟩
  · rw [after_store, Store.content?_perform_of_ne (hc place hplace)]
    exact h.content place hplace
  · obtain ⟨emitted, hemitted, hcounters⟩ := after_fired w c
    rw [firedOf, hemitted, List.filter_append, filter_fired_eq_nil (hc _ hcounter) hcounters,
      List.append_nil]
    exact h.fired counter hcounter

end Agree

end Workflow.World
