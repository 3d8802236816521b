import Mathlib.Tactic.Common
import Workflow.Proofs.Table
import Workflow.Store

/-!
# Places of the store

A place is a name in one of the four tables. All that a store holds is told by what stands at its
places, and a call of the store concerns one place at most, so that calls about different places do
not see each other.

* **Places** (`Place`, `Store.content?`): what stands at a place; stores that agree at all places
  are equal (`Store.ext_content?`).
* **Calls** (`StoreCall.place?`, `StoreCall.subject`): the place that a call may change, and that
  which it is about. No other place changes (`Store.content?_perform_of_ne`), and no other place has
  a part in it (`Store.perform_congr`).
* **Removal** (`Store.erase`, `Store.without`): a store without what stands at some places.
* **Triggers** (`Store.firedBy?_counter`): whatever a call fires is fired by the counter it adds to.
-/

namespace Workflow

/-- A name in one of the tables of the store. -/
inductive Place where
  | value (key : String)
  | set (key : String)
  | counter (name : String)
  | trigger (key : String)
  deriving DecidableEq, Repr

/-- What may stand at a place. -/
abbrev Place.Content : Place → Type
  | value _ => Json
  | set _ => Table Unit
  | counter _ => Int
  | trigger _ => JoinTrigger

/-- The place that a call may change; readings change nothing. -/
def StoreCall.place? : StoreCall → Option Place
  | put key _ | delete key => some (.value key)
  | createSet key | addMember key _ | deleteSet key => some (.set key)
  | createCounter name _ | increment name _ | deleteCounter name => some (.counter name)
  | putTrigger key _ | deleteTrigger key => some (.trigger key)
  | get _ | members _ => none

/-- The place that a call is about, also if it only reads. -/
def StoreCall.subject : StoreCall → Place
  | put key _ | get key | delete key => .value key
  | createSet key | addMember key _ | members key | deleteSet key => .set key
  | createCounter name _ | increment name _ | deleteCounter name => .counter name
  | putTrigger key _ | deleteTrigger key => .trigger key

/-- A call changes only what it is about. -/
theorem StoreCall.subject_of_place? {call : StoreCall} {place : Place}
    (h : call.place? = some place) : call.subject = place := by
  cases call <;> cases h <;> rfl

namespace Store

variable {s t : Store}

/-- What stands at a place. -/
def content? (s : Store) : (place : Place) → Option place.Content
  | .value key => s.values.get? key
  | .set key => s.sets.get? key
  | .counter name => s.counters.get? name
  | .trigger key => s.triggers.get? key

/-- Stores that agree at all places are equal. -/
theorem ext_content? (h : ∀ place, s.content? place = t.content? place) : s = t := by
  have hvalues : s.values = t.values := Table.ext_get? fun key => h (.value key)
  have hsets : s.sets = t.sets := Table.ext_get? fun key => h (.set key)
  have hcounters : s.counters = t.counters := Table.ext_get? fun name => h (.counter name)
  have htriggers : s.triggers = t.triggers := Table.ext_get? fun key => h (.trigger key)
  cases s
  cases t
  simp_all

/-! ## Calls -/

/-- A call changes nothing but its place. -/
theorem content?_perform_of_ne {call : StoreCall} {place : Place} (h : call.place? ≠ some place) :
    (s.perform call).2.content? place = s.content? place := by
  cases call with
  | get key => rfl
  | members key => rfl
  | increment name delta =>
    simp only [perform, add?]
    cases s.counters.get? name with
    | none => rfl
    | some count =>
      cases place with
      | counter other =>
        have hne : other ≠ name := fun heq => h (heq ▸ rfl)
        simp [content?, Table.get?_put, hne]
      | _ => rfl
  | put key v | delete key =>
    cases place with
    | value other =>
      have hne : other ≠ key := fun heq => h (heq ▸ rfl)
      simp [content?, perform, Table.get?_put, Table.get?_remove, hne]
    | _ => rfl
  | createSet key | addMember key member | deleteSet key =>
    cases place with
    | set other =>
      have hne : other ≠ key := fun heq => h (heq ▸ rfl)
      simp [content?, perform, Table.get?_put, Table.get?_remove, hne]
    | _ => rfl
  | createCounter name initial | deleteCounter name =>
    cases place with
    | counter other =>
      have hne : other ≠ name := fun heq => h (heq ▸ rfl)
      simp [content?, perform, Table.get?_put, Table.get?_remove, hne]
    | _ => rfl
  | putTrigger key trigger | deleteTrigger key =>
    cases place with
    | trigger other =>
      have hne : other ≠ key := fun heq => h (heq ▸ rfl)
      simp [content?, perform, Table.get?_put, Table.get?_remove, hne]
    | _ => rfl

/-- What a call gives and does depends only on what it is about. -/
theorem perform_congr {call : StoreCall} (h : s.content? call.subject = t.content? call.subject) :
    (s.perform call).1 = (t.perform call).1 ∧
      (s.perform call).2.content? call.subject = (t.perform call).2.content? call.subject := by
  cases call with
  | get key => exact ⟨congrArg Except.ok h, h⟩
  | members key =>
    have hsets : s.sets.get? key = t.sets.get? key := h
    exact ⟨by simp only [perform, membersOf, hsets], h⟩
  | increment name delta =>
    have hcounters : s.counters.get? name = t.counters.get? name := h
    simp only [perform, add?, hcounters]
    cases hcount : t.counters.get? name with
    | none => exact ⟨rfl, hcounters⟩
    | some count => simp [StoreCall.subject, content?]
  | addMember key member =>
    have hsets : s.sets.get? key = t.sets.get? key := h
    simp [perform, StoreCall.subject, content?, hsets]
  | _ => simp [perform, StoreCall.subject, content?]

/-- A value that has been put stands under its key. -/
@[simp] theorem content?_perform_put (key : String) (v : Json) :
    (s.perform (.put key v)).2.content? (.value key) = some v := Table.get?_put_self s.values key v

/-- A set that has been created is empty. -/
@[simp] theorem content?_perform_createSet (key : String) :
    (s.perform (.createSet key)).2.content? (.set key) = some Table.empty :=
  Table.get?_put_self s.sets key .empty

/-- A counter that has been created stands at its initial value. -/
@[simp] theorem content?_perform_createCounter (name : String) (initial : Int) :
    (s.perform (.createCounter name initial)).2.content? (.counter name) = some initial :=
  Table.get?_put_self s.counters name initial

/-- A trigger that has been put stands under its key. -/
@[simp] theorem content?_perform_putTrigger (key : String) (trigger : JoinTrigger) :
    (s.perform (.putTrigger key trigger)).2.content? (.trigger key) = some trigger :=
  Table.get?_put_self s.triggers key trigger

/-- A counter that exists is added to, and its new count is given. -/
theorem perform_increment {name : String} {count : Int}
    (h : s.content? (.counter name) = some count) (delta : Int) :
    s.perform (.increment name delta) =
      (.ok (count + delta), { s with counters := s.counters.put name (count + delta) }) := by
  have hget : s.counters.get? name = some count := h
  simp [perform, add?, hget]

/-- Only a counter that exists can be added to. -/
theorem exists_of_perform_increment {name : String} {delta count : Int}
    (h : (s.perform (.increment name delta)).1 = .ok count) :
    ∃ before : Int, s.content? (.counter name) = some before ∧
      (s.perform (.increment name delta)).2.content? (.counter name) = some (before + delta) := by
  cases hbefore : s.content? (.counter name) with
  | none =>
    have hget : s.counters.get? name = none := hbefore
    simp [perform, add?, hget] at h
  | some before =>
    refine ⟨before, rfl, ?_⟩
    rw [perform_increment hbefore]
    exact Table.get?_put_self s.counters name (before + delta)

/-- The members of a set are the keys of what stands at its place. -/
theorem membersOf_eq (s : Store) (key : String) :
    s.membersOf key = ((s.content? (.set key)).getD .empty).keys := rfl

/-- A set that is added to keeps its members. -/
theorem mem_membersOf_addMember (key member other : String) :
    other ∈ (s.perform (.addMember key member)).2.membersOf key ↔
      other = member ∨ other ∈ s.membersOf key := by
  simp only [membersOf, perform, Table.get?_put_self, Option.getD_some, Table.mem_keys,
    Table.get?_put]
  by_cases h : other = member <;> simp [h]

/-! ## Triggers -/

/-- A counter fires under its own name. -/
theorem counter_of_fired? {counter : String} {count : Int} {f : FiredTrigger}
    (h : s.fired? counter count = some f) : f.counter = counter := by
  rw [fired?] at h
  split at h
  · cases h
  · split at h
    · cases h
      rfl
    · cases h

/-- Only the addition to a counter fires anything, and it fires under the name of the counter. -/
theorem firedBy?_counter {call : StoreCall} {reply : Except StoreError call.Reply}
    {fired : FiredTrigger} (h : s.firedBy? call reply = some fired) :
    call.place? = some (.counter fired.counter) := by
  cases call with
  | increment name delta =>
    cases reply with
    | error e => cases h
    | ok count =>
      rw [counter_of_fired? h]
      rfl
  | _ => simp [firedBy?] at h

/-- What a call fires depends only on the trigger of the counter that it adds to. -/
theorem firedBy?_congr {call : StoreCall} (reply : Except StoreError call.Reply)
    (h : ∀ name, call.place? = some (.counter name) →
      s.content? (.trigger (triggerKey name)) = t.content? (.trigger (triggerKey name))) :
    s.firedBy? call reply = t.firedBy? call reply := by
  cases call with
  | increment name delta =>
    have htriggers : s.triggers.get? (triggerKey name) = t.triggers.get? (triggerKey name) :=
      h name rfl
    cases reply with
    | error e => rfl
    | ok count => simp only [firedBy?, fired?, htriggers]
  | _ => rfl

/-- A counter fires its trigger at the thresholds of the trigger. -/
theorem fired?_eq {counter : String} {trigger : JoinTrigger}
    (h : s.content? (.trigger (triggerKey counter)) = some trigger) (count : Nat) :
    s.fired? counter count =
      if count ∈ trigger.thresholds then some ⟨counter, { trigger with counterValue := count }⟩
      else none := by
  have hget : s.triggers.get? (triggerKey counter) = some trigger := h
  simp [fired?, hget]

/-! ## Removal -/

/-- The store without what stands at a place. -/
def erase (s : Store) : Place → Store
  | .value key => { s with values := s.values.remove key }
  | .set key => { s with sets := s.sets.remove key }
  | .counter name => { s with counters := s.counters.remove name }
  | .trigger key => { s with triggers := s.triggers.remove key }

/-- The store without what stands at any of some places. -/
def without (s : Store) (places : List Place) : Store := places.foldl erase s

/-- A store from which a place has been cleared holds nothing there, and the same elsewhere. -/
theorem content?_erase (place other : Place) :
    (s.erase place).content? other = if other = place then none else s.content? other := by
  cases place <;> cases other <;> simp [erase, content?, Table.get?_remove]

/-- A store without some places holds nothing there, and the same elsewhere. -/
theorem content?_without (places : List Place) (place : Place) :
    (s.without places).content? place = if place ∈ places then none else s.content? place := by
  rw [without]
  induction places generalizing s with
  | nil => simp
  | cons head rest ih =>
    rw [List.foldl_cons, ih, content?_erase]
    by_cases hrest : place ∈ rest
    · simp [hrest]
    · by_cases hhead : place = head <;> simp [hrest, hhead]

/-- A store without some places is the same in whichever order, and however often, these are
cleared. -/
theorem without_congr {places others : List Place} (h : ∀ place, place ∈ places ↔ place ∈ others) :
    s.without places = s.without others :=
  ext_content? fun place => by rw [content?_without, content?_without]; simp only [h place]

/-- A store without places and further places is without the ones and then without the others. -/
theorem without_append (places others : List Place) :
    s.without (places ++ others) = (s.without places).without others :=
  List.foldl_append

/-- Clearing places a second time changes nothing. -/
theorem without_without (places : List Place) :
    (s.without places).without places = s.without places := by
  rw [← without_append]
  exact without_congr fun place => by simp

/-- Stores that differ at some places only are equal once these are cleared. -/
theorem without_eq_of_agree {places : List Place}
    (h : ∀ place, place ∉ places → s.content? place = t.content? place) :
    s.without places = t.without places :=
  ext_content? fun place => by
    rw [content?_without, content?_without]
    split
    case isTrue => rfl
    case isFalse hmem => exact h place hmem

end Store

end Workflow
