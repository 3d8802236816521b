import Mathlib.Algebra.BigOperators.Fin
import Mathlib.Data.List.OfFn
import Mathlib.Data.Multiset.Bind
import Mathlib.Tactic.Common
import Workflow.Proofs.World

/-!
# Thresholds under additions side by side

Whoever adds one to a counter first adds, in one step, and then has the store look whether the count
that was reached is a threshold of the counter's trigger. Between the two, others add and look, so
that counts may be looked at in another order than that in which they were reached. Still every
threshold that is reached fires once, since every count is reached by one addition alone.

* **Additions in two steps** (`Increment`, `Increments`, `Increments.step`): how far each addition
  has come, and what a turn does. Both steps at once are the call of the store
  (`Increments.step_step`).
* **The tally** (`Increments.Tally`): the counts that have been given are all from one up to that of
  the counter, and what the counter has fired is what belongs to the counts that have been looked
  at. Every turn keeps it (`Tally.step`), and so do all (`Increments.tally_run`).
* **Ends** (`Increments.isOver_run`): two turns suffice for an addition.
* **Once each** (`Increments.thresholds_fire_once`).
-/

namespace Workflow

/-! ## Additions in two steps -/

/-- How far the addition of one to a counter has come: it has not begun; the counter has been added
to, and the store has not looked yet whether that was a threshold; or it is over. -/
inductive Increment where
  | ready
  | added (count : Int)
  | ended (reply : Except StoreError Int)

namespace Increment

/-- Whether an addition is over. -/
def isOver : Increment → Bool
  | ended _ => true
  | ready | added _ => false

/-- How many of its steps an addition has behind it. -/
def progress : Increment → Nat
  | ready => 0
  | added _ => 1
  | ended _ => 2

end Increment

/-- What happens next: an addition goes on by one step, or somebody else makes a call. -/
inductive IncrementTurn (n : Nat) where
  | serve (i : Fin n)
  | foreign (call : StoreCall)
  deriving DecidableEq

/-- Whether a turn leaves a counter and its trigger to the additions: nobody else adds to the
counter, creates it anew or removes it, puts another trigger in the place of its own or removes
that. -/
def IncrementTurn.Spares {n : Nat} (counter : String) : IncrementTurn n → Prop
  | serve _ => True
  | foreign call =>
    call.place? ≠ some (.counter counter) ∧ call.place? ≠ some (.trigger (triggerKey counter))

/-- Additions to a counter side by side in one store. -/
structure Increments (n : Nat) where
  store : Store
  fired : List FiredTrigger := []
  left : Fin n → Increment := fun _ => .ready

namespace Increments

variable {n : Nat}

/-- One turn of additions side by side. -/
def step (counter : String) (s : Increments n) : IncrementTurn n → Increments n
  | .serve i =>
    match s.left i with
    | .ready =>
      match s.store.add? counter 1 with
      | some (count, store) =>
        { s with store, left := Function.update s.left i (.added count) }
      | none =>
        { s with left := Function.update s.left i (.ended (.error (.notFound counter))) }
    | .added count =>
      { s with
        fired := s.fired ++ (s.store.fired? counter count).toList
        left := Function.update s.left i (.ended (.ok count)) }
    | .ended _ => s
  | .foreign call =>
    let (reply, store) := s.store.perform call
    { s with store, fired := s.fired ++ (store.firedBy? call reply).toList }

/-- All turns, one after the other. -/
def run (counter : String) (s : Increments n) (turns : List (IncrementTurn n)) : Increments n :=
  turns.foldl (step counter) s

/-- Turns are made up to the last one, and then the last one. -/
theorem run_concat (counter : String) (s : Increments n) (turns : List (IncrementTurn n))
    (turn : IncrementTurn n) :
    s.run counter (turns ++ [turn]) = (s.run counter turns).step counter turn := by
  rw [run, List.foldl_append]
  rfl

/-- The two steps of an addition, one right after the other, are what the store does at once when it
is asked for the addition. -/
theorem step_step (counter : String) (s : Increments n) (i : Fin n) (h : s.left i = .ready) :
    (s.step counter (.serve i)).step counter (.serve i) =
      let (reply, store) := s.store.perform (.increment counter 1)
      { store
        fired := s.fired ++ (store.firedBy? (.increment counter 1) reply).toList
        left := Function.update s.left i (.ended reply) } := by
  cases hadd : s.store.add? counter 1 with
  | none =>
    have hfirst : s.step counter (.serve i) =
        { s with left := Function.update s.left i (.ended (.error (.notFound counter))) } := by
      simp only [step, h, hadd]
    rw [hfirst]
    simp only [step, Function.update_self, Store.perform, hadd, Store.firedBy?, Option.toList_none,
      List.append_nil]
    rfl
  | some result =>
    obtain ⟨count, store⟩ := result
    have hfirst : s.step counter (.serve i) =
        { s with store, left := Function.update s.left i (.added count) } := by
      simp only [step, h, hadd]
    rw [hfirst]
    simp only [step, Function.update_self, Function.update_idem, Store.perform, hadd,
      Store.firedBy?]
    rfl

/-! ## The tally -/

section sums

variable {ι α β : Type} [Fintype ι] [DecidableEq ι] [AddCommMonoid β] (f : α → β) {g : ι → α}
  {i : ι} {x : α}

/-- A sum over all members grows by what one of them comes to, if it had nothing before. -/
theorem sum_update_of_eq_zero (h : f (g i) = 0) :
    ∑ j, f (Function.update g i x j) = f x + ∑ j, f (g j) := by
  have hrest : ∀ j ∈ Finset.univ.erase i, f (Function.update g i x j) = f (g j) := fun j hj => by
    rw [Function.update_of_ne (Finset.ne_of_mem_erase hj)]
  rw [← Finset.add_sum_erase _ _ (Finset.mem_univ i),
    ← Finset.add_sum_erase _ (fun j => f (g j)) (Finset.mem_univ i), h, zero_add,
    Finset.sum_congr rfl hrest, Function.update_self]

/-- A sum over all members stays as it is if the member that changes comes to the same as before. -/
theorem sum_update_of_eq (h : f x = f (g i)) :
    ∑ j, f (Function.update g i x j) = ∑ j, f (g j) := by
  refine Finset.sum_congr rfl fun j _ => ?_
  by_cases hj : j = i
  · rw [hj, Function.update_self, h]
  · rw [Function.update_of_ne hj]

end sums

/-- The count that an addition has been given, if it has been given one. -/
def given : Increment → Multiset Int
  | .added count | .ended (.ok count) => {count}
  | .ready | .ended (.error _) => 0

/-- What a counter fires, in a store, for the count of an addition once it has been looked at. -/
def firing (base : Store) (counter : String) : Increment → Multiset FiredTrigger
  | .ended (.ok count) => ↑(base.fired? counter count).toList
  | .ready | .added _ | .ended (.error _) => 0

/-- The counts from one up to the given one. -/
def countsUpTo (m : Nat) : List Int := (List.range' 1 m).map fun k : Nat => (k : Int)

/-- The counts up to the next one are those up to this one, and the next one. -/
theorem coe_countsUpTo_succ (m : Nat) :
    (countsUpTo (m + 1) : Multiset Int) = ((m : Int) + 1) ::ₘ ↑(countsUpTo m) := by
  rw [countsUpTo, List.range'_1_concat, List.map_append, Multiset.coe_eq_coe.mpr
    List.perm_append_comm, Int.add_comm]
  rfl

/-- The trigger stands as it did in the beginning; the counter has come to the number of counts that
have been given, and these are all from one up to it; the counter has fired what is due; and no
addition has been refused. -/
structure Tally (base : Store) (counter : String) (s : Increments n) : Prop where
  trigger : s.store.content? (.trigger (triggerKey counter)) =
    base.content? (.trigger (triggerKey counter))
  counted : ∃ m : Nat, s.store.content? (.counter counter) = some (m : Int) ∧
    ∑ i, given (s.left i) = ↑(countsUpTo m)
  fired : ↑(s.fired.filter fun f => f.counter == counter) = ∑ i, firing base counter (s.left i)
  granted : ∀ i e, s.left i ≠ .ended (.error e)

namespace Tally

variable {base : Store} {counter : String} {s : Increments n}

/-- What a counter fires depends on its trigger alone. -/
theorem fired?_eq (h : Tally base counter s) (count : Int) :
    s.store.fired? counter count = base.fired? counter count := by
  have htriggers : s.store.triggers.get? (triggerKey counter) =
      base.triggers.get? (triggerKey counter) := h.trigger
  simp only [Store.fired?, htriggers]

/-- No addition has been refused if none was and one of them goes on without a refusal. -/
theorem granted_update (h : Tally base counter s) {i : Fin n} {x : Increment}
    (hx : ∀ e, x ≠ .ended (.error e)) (j : Fin n) (e : StoreError) :
    Function.update s.left i x j ≠ .ended (.error e) := by
  by_cases hj : j = i
  · subst hj
    rw [Function.update_self]
    exact hx e
  · rw [Function.update_of_ne hj]
    exact h.granted j e

/-- The first step of an addition, in which the counter is added to, keeps the tally. -/
theorem add (h : Tally base counter s) {i : Fin n} (hleft : s.left i = .ready) :
    Tally base counter (s.step counter (.serve i)) := by
  obtain ⟨m, hcounter, hcounts⟩ := h.counted
  have hadd : s.store.add? counter 1 =
      some ((m : Int) + 1, (s.store.perform (.increment counter 1)).2) := by
    rw [Store.perform_increment hcounter]
    have hget : s.store.counters.get? counter = some (m : Int) := hcounter
    rw [Store.add?, hget]
    rfl
  have hstep : s.step counter (.serve i) =
      { s with
        store := (s.store.perform (.increment counter 1)).2
        left := Function.update s.left i (.added (m + 1)) } := by
    simp only [step, hleft, hadd]
  rw [hstep]
  constructor
  case trigger =>
    exact (Store.content?_perform_of_ne (by simp [StoreCall.place?])).trans h.trigger
  case counted =>
    refine ⟨m + 1, ?_, ?_⟩
    · rw [Store.perform_increment hcounter]
      exact Table.get?_put_self _ _ _
    · rw [coe_countsUpTo_succ, ← hcounts]
      exact sum_update_of_eq_zero given (by rw [hleft]; rfl)
  case fired =>
    exact h.fired.trans (sum_update_of_eq (firing base counter) (by rw [hleft]; rfl)).symm
  case granted => exact h.granted_update (by simp)

/-- The second step of an addition, in which the store looks at the count, keeps the tally. -/
theorem check (h : Tally base counter s) {i : Fin n} {count : Int}
    (hleft : s.left i = .added count) : Tally base counter (s.step counter (.serve i)) := by
  have hstep : s.step counter (.serve i) =
      { s with
        fired := s.fired ++ (s.store.fired? counter count).toList
        left := Function.update s.left i (.ended (.ok count)) } := by
    simp only [step, hleft]
  rw [hstep]
  constructor
  case trigger => exact h.trigger
  case counted =>
    obtain ⟨m, hcounter, hcounts⟩ := h.counted
    exact ⟨m, hcounter, (sum_update_of_eq given (by rw [hleft]; rfl)).trans hcounts⟩
  case fired =>
    have hown : (s.store.fired? counter count).toList.filter (fun f => f.counter == counter) =
        (s.store.fired? counter count).toList := by
      refine List.filter_eq_self.mpr fun f hf => ?_
      exact beq_iff_eq.mpr (Store.counter_of_fired? (Option.mem_toList.mp hf))
    have hnone : firing base counter (s.left i) = 0 := by
      rw [hleft]
      rfl
    -- The trigger stands as in the beginning, so that what fires now is what is due for the count.
    rw [List.filter_append, hown, ← Multiset.coe_add, h.fired, h.fired?_eq, add_comm]
    refine Eq.trans ?_ (sum_update_of_eq_zero (firing base counter) hnone).symm
    rfl
  case granted => exact h.granted_update (by simp)

/-- A call of somebody else that spares the counter and its trigger keeps the tally. -/
theorem foreign (h : Tally base counter s) {call : StoreCall}
    (hcounter : call.place? ≠ some (.counter counter))
    (htrigger : call.place? ≠ some (.trigger (triggerKey counter))) :
    Tally base counter (s.step counter (.foreign call)) := by
  obtain ⟨m, hcount, hcounts⟩ := h.counted
  constructor
  case trigger => exact (Store.content?_perform_of_ne htrigger).trans h.trigger
  case counted => exact ⟨m, (Store.content?_perform_of_ne hcounter).trans hcount, hcounts⟩
  case fired =>
    have hother : ((s.store.perform call).2.firedBy? call (s.store.perform call).1).toList.filter
        (fun f => f.counter == counter) = [] :=
      World.filter_fired_eq_nil hcounter fun f hf =>
        Store.firedBy?_counter (Option.mem_toList.mp hf)
    have hfired : (s.step counter (.foreign call)).fired.filter (fun f => f.counter == counter) =
        s.fired.filter fun f => f.counter == counter := by
      rw [step, List.filter_append, hother, List.append_nil]
    rw [hfired]
    exact h.fired
  case granted => exact h.granted

/-- Every turn keeps the tally. -/
theorem step (h : Tally base counter s) {turn : IncrementTurn n} (hspare : turn.Spares counter) :
    Tally base counter (s.step counter turn) := by
  cases turn with
  | foreign call => exact h.foreign hspare.1 hspare.2
  | serve i =>
    cases hleft : s.left i with
    | ready => exact h.add hleft
    | added count => exact h.check hleft
    | ended reply =>
      have hsame : s.step counter (.serve i) = s := by simp only [Increments.step, hleft]
      rwa [hsame]

/-- Before the first turn nothing has been counted and nothing has fired. -/
theorem begin (h : base.content? (.counter counter) = some 0) :
    Tally base counter ({ store := base } : Increments n) where
  trigger := rfl
  counted := ⟨0, h, by simp [given, countsUpTo]⟩
  fired := by simp [firing]
  granted := by simp

end Tally

/-- However the additions take turns, the tally is right. -/
theorem tally_run {base : Store} {counter : String}
    (hcounter : base.content? (.counter counter) = some 0) {turns : List (IncrementTurn n)}
    (hspare : ∀ turn ∈ turns, turn.Spares counter) :
    Tally base counter (run counter { store := base } turns) := by
  induction turns using List.reverseRecOn with
  | nil => exact .begin hcounter
  | append_singleton turns turn ih =>
    rw [run_concat]
    exact (ih fun t ht => hspare t (List.mem_append_left _ ht)).step
      (hspare turn (List.mem_append_right _ (List.mem_singleton_self _)))

/-! ## Ends -/

/-- A turn takes the addition that it serves one step further, if that is not over. -/
theorem le_progress_step (counter : String) (s : Increments n) (turn : IncrementTurn n)
    (i : Fin n) :
    min 2 ((s.left i).progress + if turn = .serve i then 1 else 0) ≤
      ((s.step counter turn).left i).progress := by
  cases turn with
  | foreign call => simp [step]
  | serve j =>
    by_cases hj : j = i
    case neg =>
      have hsame : (s.step counter (.serve j)).left i = s.left i := by
        simp only [step]
        split <;> [split; skip; skip] <;> simp [Function.update_of_ne (Ne.symm hj)]
      simp [hsame, hj]
    case pos =>
      subst hj
      cases hleft : s.left j with
      | ready =>
        cases hadd : s.store.add? counter 1 <;> simp [step, hleft, hadd, Increment.progress]
      | added count => simp [step, hleft, Increment.progress]
      | ended reply => simp [step, hleft, Increment.progress]

/-- Two turns suffice for an addition, wherever they come. -/
theorem isOver_run (counter : String) (s : Increments n) {turns : List (IncrementTurn n)}
    {i : Fin n} (h : 2 ≤ turns.count (.serve i)) : ((s.run counter turns).left i).isOver := by
  have hprogress : min 2 (turns.count (.serve i)) ≤ ((s.run counter turns).left i).progress := by
    clear h
    induction turns using List.reverseRecOn with
    | nil => simp
    | append_singleton turns turn ih =>
      rw [run_concat]
      refine le_trans ?_ (le_progress_step counter _ turn i)
      rw [List.count_append, List.count_singleton]
      simp only [beq_iff_eq]
      omega
  rw [min_eq_left h] at hprogress
  cases hleft : (s.run counter turns).left i with
  | ended reply => rfl
  | ready | added count => simp [hleft, Increment.progress] at hprogress

/-! ## Once each -/

/-- For the counts from one on, a counter fires at the thresholds among them, at each of them once,
however often the trigger names it and in whichever order. -/
theorem flatMap_fired?_perm {store : Store} {counter : String} {trigger : JoinTrigger}
    (h : store.content? (.trigger (triggerKey counter)) = some trigger) (n : Nat) :
    ((List.range' 1 n).flatMap fun k : Nat => (store.fired? counter k).toList).Perm
      ((trigger.thresholds.dedup.filter fun k => 1 ≤ k ∧ k ≤ n).map fun k : Nat =>
        ⟨counter, { trigger with counterValue := k }⟩) := by
  have hfilter : ((List.range' 1 n).flatMap fun k : Nat => (store.fired? counter k).toList) =
      ((List.range' 1 n).filter (· ∈ trigger.thresholds)).map fun k : Nat =>
        ⟨counter, { trigger with counterValue := k }⟩ := by
    induction List.range' 1 n with
    | nil => rfl
    | cons k rest ih =>
      rw [List.flatMap_cons, ih, Store.fired?_eq h]
      by_cases hk : k ∈ trigger.thresholds <;> simp [hk]
  rw [hfilter]
  refine List.Perm.map _ ((List.perm_ext_iff_of_nodup ?_ ?_).mpr fun k => ?_)
  · exact (List.nodup_range' ..).filter _
  · exact (List.nodup_dedup _).filter _
  · simp only [List.mem_filter, List.mem_range'_1, List.mem_dedup, decide_eq_true_eq]
    rw [and_comm, Nat.add_comm 1 n, Nat.lt_succ_iff]

namespace Tally

variable {base : Store} {counter : String} {s : Increments n}

/-- Once all additions are over, each has given a count. -/
theorem exists_counts (h : Tally base counter s) (hover : ∀ i, (s.left i).isOver) :
    ∃ counts : Fin n → Int, ∀ i, s.left i = .ended (.ok (counts i)) := by
  have hcount : ∀ i, ∃ count, s.left i = .ended (.ok count) := fun i => by
    have hi := hover i
    cases hleft : s.left i with
    | ready | added count => simp [hleft, Increment.isOver] at hi
    | ended reply =>
      cases reply with
      | error e => exact absurd hleft (h.granted i e)
      | ok count => exact ⟨count, rfl⟩
  exact Classical.skolem.mp hcount

/-- Once all additions are over, the counts that they have been given are those from one on. -/
theorem counts_perm (h : Tally base counter s) {counts : Fin n → Int}
    (hover : ∀ i, s.left i = .ended (.ok (counts i))) :
    (List.ofFn counts).Perm (countsUpTo n) := by
  obtain ⟨m, -, hcounts⟩ := h.counted
  have hgiven : ∑ i, given (s.left i) = ↑(List.ofFn counts) := by
    simp only [hover, given]
    calc ∑ i, ({counts i} : Multiset Int)
      _ = ((Finset.univ.val.map counts).map fun count => {count}).sum := by
        rw [Multiset.map_map]
        rfl
      _ = Finset.univ.val.map counts := Multiset.sum_map_singleton _
      _ = ↑(List.ofFn counts) := Fin.univ_val_map counts
  -- As many counts have been given as there are additions.
  have hm : n = m := by
    have hcard := congrArg Multiset.card (hgiven.symm.trans hcounts)
    simpa [countsUpTo] using hcard
  subst hm
  exact Multiset.coe_eq_coe.mp (hgiven.symm.trans hcounts)

/-- Once all additions are over, the counter has fired what it fires for the counts from one on. -/
theorem fired_perm (h : Tally base counter s) {counts : Fin n → Int}
    (hover : ∀ i, s.left i = .ended (.ok (counts i))) :
    (s.fired.filter fun f => f.counter == counter).Perm
      ((List.range' 1 n).flatMap fun k : Nat => (base.fired? counter k).toList) := by
  have hfiring : ∑ i, firing base counter (s.left i) =
      ↑((List.ofFn counts).flatMap fun count => (base.fired? counter count).toList) := by
    simp only [hover, firing]
    rw [← Multiset.coe_bind, ← Fin.univ_val_map, Multiset.bind_map]
    rfl
  refine (Multiset.coe_eq_coe.mp (h.fired.trans hfiring)).trans ?_
  have hperm := (h.counts_perm hover).flatMap_right fun count => (base.fired? counter count).toList
  rwa [countsUpTo, List.flatMap_map] at hperm

end Tally

/-- Whatever has fired, the counter has, or a counter that somebody else has added to. -/
theorem mem_fired_run (counter : String) (store : Store) {turns : List (IncrementTurn n)}
    {f : FiredTrigger} (h : f ∈ (run counter ({ store } : Increments n) turns).fired) :
    f.counter = counter ∨
      ∃ call, .foreign call ∈ turns ∧ call.place? = some (.counter f.counter) := by
  induction turns using List.reverseRecOn with
  | nil => cases h
  | append_singleton turns turn ih =>
    rw [run_concat] at h
    have hearlier (hf : f ∈ (run counter ({ store } : Increments n) turns).fired) :
        f.counter = counter ∨
          ∃ call, .foreign call ∈ turns ++ [turn] ∧ call.place? = some (.counter f.counter) :=
      (ih hf).imp_right fun ⟨call, hmem, hplace⟩ => ⟨call, List.mem_append_left _ hmem, hplace⟩
    cases turn with
    | foreign call =>
      rcases List.mem_append.mp h with hf | hf
      · exact hearlier hf
      · exact .inr ⟨call, by simp, Store.firedBy?_counter (Option.mem_toList.mp hf)⟩
    | serve i =>
      simp only [step] at h
      split at h
      · split at h <;> exact hearlier h
      · rcases List.mem_append.mp h with hf | hf
        · exact hearlier hf
        · exact .inl (Store.counter_of_fired? (Option.mem_toList.mp hf))
      · exact hearlier h

/-- However additions of one to a new counter take turns, and whatever calls others make in the
meantime that spare the counter and its trigger: an addition that has had two turns is over, and
once all are over they have been given the counts from one on, each count once; the counter has
fired once at each of these that is a threshold, with all else as the trigger has it; and nothing
else has fired but for the counters that others have added to. -/
theorem thresholds_fire_once {counter : String} {store : Store} {trigger : JoinTrigger}
    (hcounter : store.content? (.counter counter) = some 0)
    (htrigger : store.content? (.trigger (triggerKey counter)) = some trigger)
    (turns : List (IncrementTurn n)) (hspare : ∀ turn ∈ turns, turn.Spares counter) :
    let s := run counter { store } turns
    (∀ i, 2 ≤ turns.count (.serve i) → (s.left i).isOver) ∧
      ((∀ i, (s.left i).isOver) →
        (∃ counts : Fin n → Int, (∀ i, s.left i = .ended (.ok (counts i))) ∧
          (List.ofFn counts).Perm (countsUpTo n)) ∧
        (s.fired.filter fun f => f.counter == counter).Perm
          ((trigger.thresholds.dedup.filter fun k => 1 ≤ k ∧ k ≤ n).map fun k : Nat =>
            ⟨counter, { trigger with counterValue := k }⟩)) ∧
      ∀ f ∈ s.fired, f.counter = counter ∨
        ∃ call, .foreign call ∈ turns ∧ call.place? = some (.counter f.counter) := by
  intro s
  have htally : Tally store counter s := tally_run hcounter hspare
  refine ⟨fun i h => isOver_run counter _ h, fun hover => ?_, fun f hf => mem_fired_run _ _ hf⟩
  obtain ⟨counts, hcounts⟩ := htally.exists_counts hover
  refine ⟨⟨counts, hcounts, htally.counts_perm hcounts⟩, ?_⟩
  exact (htally.fired_perm hcounts).trans (flatMap_fired?_perm htrigger n)

/-- A trigger with its thresholds in no order, one of them twice and one out of reach. -/
def scatteredTrigger : JoinTrigger where
  action := .join
  metadataKey := "wf_metadata"
  thresholds := [3, 1, 3, 9]
  totalBranches := 9
  executionId := "run"
  topic := "wf_Fan"

/-- The store in which a counter has been created for it. -/
def scatteredStore : Store :=
  (((Store.empty.perform (.createCounter "wf_counter" 0)).2.perform
    (.putTrigger (triggerKey "wf_counter") scatteredTrigger)).2.perform
    (.createCounter "other" 0)).2

/-- All three counts are given before one is looked at, and then the last one is first. -/
def scatteredTurns : List (IncrementTurn 3) :=
  [.serve 0, .serve 1, .foreign (.increment "other" 1), .serve 2, .serve 2,
    .foreign (.delete "wf_metadata"), .serve 0, .serve 1]

/-- With `scatteredTrigger` three additions fire at the counts one and three, once each, although
three is named twice and the counts are looked at out of order. -/
theorem scattered_fires_once :
    (run "wf_counter" ({ store := scatteredStore } : Increments 3) scatteredTurns).fired.Perm
      [⟨"wf_counter", { scatteredTrigger with counterValue := 1 }⟩,
        ⟨"wf_counter", { scatteredTrigger with counterValue := 3 }⟩] := by
  have hspare : ∀ turn ∈ scatteredTurns, turn.Spares "wf_counter" := by
    simp [scatteredTurns, IncrementTurn.Spares, StoreCall.place?, triggerKey]
  obtain ⟨hover, hends, -⟩ := @thresholds_fire_once 3 "wf_counter" scatteredStore
    scatteredTrigger (by decide +kernel) (by decide +kernel) scatteredTurns hspare
  have hperm := (hends fun i => hover i (by revert i; decide)).2
  have hown : (run "wf_counter" ({ store := scatteredStore } : Increments 3)
      scatteredTurns).fired.filter (fun f => f.counter == "wf_counter") =
      (run "wf_counter" ({ store := scatteredStore } : Increments 3) scatteredTurns).fired := by
    decide +kernel
  rw [hown] at hperm
  exact hperm

end Increments

end Workflow
