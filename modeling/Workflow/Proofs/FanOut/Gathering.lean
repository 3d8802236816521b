import Mathlib.Data.Fintype.Card
import Workflow.Proofs.Crew
import Workflow.Proofs.FanOut.Keys

/-!
# Branches that leave their outputs

A fan-out has been started, and each of its branches is to leave its output: it puts the output,
enters its name into the set, and counts itself. The three steps of all branches mix as they like,
any of them may fail and be made again, and others use the same store for purposes of their own.

* **How far a branch is** (`BranchStage`, `BranchStage.left`): the stage of a branch, and what it
  has left to do.
* **The invariant** (`Gathering.Recorded`): the counter is the number of the branches that have
  counted themselves, what a branch has done so far is in the store, the trigger has fired if all
  branches are counted and not before, and nothing else has changed.
* **Every step keeps it** (`Recorded.put`, `Recorded.enter`, `Recorded.count`, `Recorded.foreign`,
  `Recorded.lower`).
* **Every run keeps it** (`Gathering.gathered_run`).
-/

namespace Workflow

/-! ## How far a branch is -/

/-- An attempt that has failed is to be followed by another one. -/
def FanOut.hasFailed {α : Type} : Except FanOutError α → Bool
  | .ok _ => false
  | .error _ => true

/-- How far a branch is with leaving its output: it has not begun, or the attempt has failed; it has
put its output; entered it into the set; or counted itself. -/
inductive BranchStage where
  | ready
  | put
  | entered
  | counted (count : Int)
  | failed (error : FanOutError)

namespace BranchStage

/-- How many steps of the present attempt the branch has made. -/
def progress : BranchStage → Nat
  | ready | failed _ => 0
  | put => 1
  | entered => 2
  | counted _ => 3

/-- What the branch has left to do. -/
def left (keys : FanOutKeys) (key : String) (output : Json) :
    BranchStage → Activity (Except FanOutError Int)
  | ready => ExceptT.run do
    FanOut.call (.put key output)
    FanOut.call (.addMember keys.outputSet key)
    FanOut.call (.increment keys.counter 1)
  | put => ExceptT.run do
    FanOut.call (.addMember keys.outputSet key)
    FanOut.call (.increment keys.counter 1)
  | entered => (FanOut.call (.increment keys.counter 1)).run
  | counted count => .done (.ok count)
  | failed error => .done (.error error)

variable {keys : FanOutKeys} {key : String} {output : Json}

/-- A branch that has not begun puts its output next. -/
theorem left_ready : ready.left keys key output = .ask (.store (.put key output)) fun
    | .ok _ => put.left keys key output
    | .error e => (failed (.store e)).left keys key output := by
  refine (FanOut.call_bind_run _ _).trans (congrArg _ (funext fun reply => ?_))
  cases reply <;> rfl

/-- A branch that has put its output enters the name of it into the set next. -/
theorem left_put : put.left keys key output = .ask (.store (.addMember keys.outputSet key)) fun
    | .ok _ => entered.left keys key output
    | .error e => (failed (.store e)).left keys key output := by
  refine (FanOut.call_bind_run _ _).trans (congrArg _ (funext fun reply => ?_))
  cases reply <;> rfl

/-- A branch that has entered its output counts itself next. -/
theorem left_entered : entered.left keys key output = .ask (.store (.increment keys.counter 1)) fun
    | .ok count => (counted count).left keys key output
    | .error e => (failed (.store e)).left keys key output := by
  refine (FanOut.call_run _).trans (congrArg _ (funext fun reply => ?_))
  cases reply <;> rfl

/-- A branch asks for nothing but calls of the store. -/
theorem request_of_left {stage : BranchStage} {request : Request}
    {resume : request.Reply → Activity (Except FanOutError Int)}
    (h : stage.left keys key output = .ask request resume) : ∃ c, request = .store c := by
  cases stage with
  | ready => rw [left_ready] at h; cases h; exact ⟨_, rfl⟩
  | put => rw [left_put] at h; cases h; exact ⟨_, rfl⟩
  | entered => rw [left_entered] at h; cases h; exact ⟨_, rfl⟩
  | counted count => cases h
  | failed error => cases h

/-- Whichever call of a branch fails, the attempt has failed. -/
theorem left_error {stage : BranchStage} {c : StoreCall}
    {resume : Except StoreError c.Reply → Activity (Except FanOutError Int)}
    (h : stage.left keys key output = .ask (.store c) resume) (e : StoreError) :
    stage.progress < 3 ∧ resume (.error e) = (failed (.store e)).left keys key output := by
  cases stage with
  | ready => rw [left_ready] at h; cases h; exact ⟨by decide, rfl⟩
  | put => rw [left_put] at h; cases h; exact ⟨by decide, rfl⟩
  | entered => rw [left_entered] at h; cases h; exact ⟨by decide, rfl⟩
  | counted count => cases h
  | failed error => cases h

/-- A branch whose attempt is over has counted itself if the attempt has succeeded, and is where it
was at the beginning otherwise. -/
theorem progress_of_left_eq_done {stage : BranchStage} {result : Except FanOutError Int}
    (h : stage.left keys key output = .done result) :
    stage.progress = if FanOut.hasFailed result then 0 else 3 := by
  cases stage with
  | ready => rw [left_ready] at h; cases h
  | put => rw [left_put] at h; cases h
  | entered => rw [left_entered] at h; cases h
  | counted count => cases h; rfl
  | failed error => cases h; rfl

end BranchStage

/-! ## The invariant -/

/-- A fan-out that has been started in a world, the outputs that its branches are to leave, and the
places that nobody else writes to. -/
structure Gathering (n : Nat) where
  keys : FanOutKeys
  trigger : JoinTrigger
  outputs : Fin n → Json
  base : World
  owned : Place → Prop
  nonempty : 0 < n
  thresholds : trigger.thresholds = [n]
  firesTriggers : base.firesTriggers = true
  registered : base.store.content? (.trigger keys.trigger) = some trigger
  unset : base.store.content? (.counter keys.counter) = some 0
  owns : ∀ place ∈ keys.places n, owned place

namespace Gathering

variable {n : Nat}

/-- The branches that have counted themselves. -/
def counted (progress : Fin n → Nat) : Finset (Fin n) := {i | 3 ≤ progress i}

/-- A branch is counted when it has made its third step. -/
theorem mem_counted {progress : Fin n → Nat} {i : Fin n} :
    i ∈ counted progress ↔ 3 ≤ progress i := by
  simp [counted]

/-- When one more branch counts itself, one more is counted. -/
theorem card_counted_update {progress : Fin n → Nat} {i : Fin n} (h : progress i < 3) :
    (counted (Function.update progress i 3)).card = (counted progress).card + 1 := by
  have hinsert : counted (Function.update progress i 3) = insert i (counted progress) := by
    ext j
    rw [Finset.mem_insert, mem_counted, mem_counted]
    by_cases hj : j = i
    · simp [hj]
    · simp [hj]
  rw [hinsert, Finset.card_insert_of_notMem]
  rw [mem_counted]
  omega

/-- The branches that are counted stay the same when one goes on that is counted neither before nor
after. -/
theorem counted_update {progress : Fin n → Nat} {i : Fin n} {k : Nat} (h : progress i < 3)
    (hk : k < 3) : counted (Function.update progress i k) = counted progress := by
  ext j
  rw [mem_counted, mem_counted]
  by_cases hj : j = i
  · subst hj
    rw [Function.update_self]
    omega
  · rw [Function.update_of_ne hj]

/-- If a branch had made so many steps before it went on, then every branch that has made them now
had made them then. -/
theorem le_of_le_update {progress : Fin n → Nat} {i j : Fin n} {steps reached : Nat}
    (hi : steps ≤ progress i) (hj : steps ≤ Function.update progress i reached j) :
    steps ≤ progress j := by
  by_cases hji : j = i
  · rwa [hji]
  · rwa [Function.update_of_ne hji] at hj

/-- All branches have counted themselves when there are as many of them as branches. -/
theorem card_counted_iff {progress : Fin n → Nat} :
    (counted progress).card = n ↔ ∀ i, 3 ≤ progress i := by
  have hcard := Finset.card_eq_iff_eq_univ (counted progress)
  rw [Fintype.card_fin, Finset.eq_univ_iff_forall] at hcard
  simp only [hcard, mem_counted]

/-- The trigger as it fires when all branches are counted. -/
def final (g : Gathering n) : FiredTrigger :=
  ⟨g.keys.counter, { g.trigger with counterValue := n }⟩

/-- What a world shows of branches that are so far. -/
structure Recorded (g : Gathering n) (world : World) (progress : Fin n → Nat) : Prop where
  firesTriggers : world.firesTriggers = true
  counter : world.store.content? (.counter g.keys.counter) = some ((counted progress).card : Int)
  put : ∀ i, 1 ≤ progress i →
    world.store.content? (.value (g.keys.branchOutput (i + 1))) = some (g.outputs i)
  entered : ∀ i, 2 ≤ progress i →
    g.keys.branchOutput (i + 1) ∈ world.store.membersOf g.keys.outputSet
  fired : ∃ emitted, world.fired = g.base.fired ++ emitted ∧
    (∀ f ∈ emitted, g.owned (.counter f.counter) → f.counter = g.keys.counter) ∧
    (emitted.filter fun f => f.counter == g.keys.counter) =
      if (counted progress).card = n then [g.final] else []
  spared : ∀ place, g.owned place → place ∉ g.keys.branchPlaces n →
    world.store.content? place = g.base.store.content? place
  queue : world.queue = g.base.queue
  faults : g.base.faults = [] → world.faults = []

namespace Recorded

variable {g : Gathering n} {world : World} {progress : Fin n → Nat}

/-- At the beginning a world shows no step of any branch. -/
theorem start (g : Gathering n) : g.Recorded g.base fun _ => 0 where
  firesTriggers := g.firesTriggers
  counter := by
    rw [g.unset]
    simp [counted]
  put := fun i h => absurd h (by simp)
  entered := fun i h => absurd h (by simp)
  fired := by
    refine ⟨[], (List.append_nil _).symm, fun f h => absurd h List.not_mem_nil, ?_⟩
    have hne : ¬0 = n := g.nonempty.ne
    simp [counted, hne]
  spared := fun _ _ _ => rfl
  queue := rfl
  faults := id

/-- An attempt that has failed counts for nothing, whatever it has left in the store, nor does a
call that was struck by a fault. -/
theorem lower (h : g.Recorded world progress) {others : Fin n → Nat}
    (hle : ∀ i, others i ≤ progress i) (hcounted : counted others = counted progress)
    {faults : List Fault} {journal : List JournalEntry}
    (hfaults : world.faults = [] → faults = []) :
    g.Recorded { world with faults, journal } others where
  firesTriggers := h.firesTriggers
  counter := by rw [hcounted]; exact h.counter
  put := fun i hi => h.put i (hi.trans (hle i))
  entered := fun i hi => h.entered i (hi.trans (hle i))
  fired := by rw [hcounted]; exact h.fired
  spared := h.spared
  queue := h.queue
  faults := fun hbase => hfaults (h.faults hbase)

/-- The trigger stands where it was registered. -/
theorem trigger (h : g.Recorded world progress) :
    world.store.content? (.trigger g.keys.trigger) = some g.trigger := by
  have howned : g.owned (.trigger g.keys.trigger) := g.owns _ List.mem_cons_self
  rw [h.spared _ howned (FanOutKeys.trigger_not_mem_branchPlaces _), g.registered]

/-! ## Every step keeps it -/

/-- A call about one of the branches' own places, once it has taken effect. -/
theorem after (h : g.Recorded world progress) {c : StoreCall} {others : Fin n → Nat}
    {faults : List Fault} (hfaults : world.faults = [] → faults = [])
    (hplace : ∀ place, c.place? = some place → place ∈ g.keys.branchPlaces n)
    (counter : (world.store.perform c).2.content? (.counter g.keys.counter) =
      some ((counted others).card : Int))
    (put : ∀ i, 1 ≤ others i →
      (world.store.perform c).2.content? (.value (g.keys.branchOutput (i + 1))) =
        some (g.outputs i))
    (entered : ∀ i, 2 ≤ others i →
      g.keys.branchOutput (i + 1) ∈ (world.store.perform c).2.membersOf g.keys.outputSet)
    (fired : ∃ emitted, (world.after c).fired = g.base.fired ++ emitted ∧
      (∀ f ∈ emitted, g.owned (.counter f.counter) → f.counter = g.keys.counter) ∧
      (emitted.filter fun f => f.counter == g.keys.counter) =
        if (counted others).card = n then [g.final] else []) :
    g.Recorded { world.after c with faults } others where
  firesTriggers := h.firesTriggers
  counter := counter
  put := put
  entered := entered
  fired := fired
  spared := by
    intro place howned hnot
    rw [← h.spared place howned hnot]
    exact Store.content?_perform_of_ne fun hc => hnot (hplace place hc)
  queue := h.queue
  faults := fun hbase => hfaults (h.faults hbase)

/-- When a branch puts its output, the world shows it one step further. -/
theorem putOutput (h : g.Recorded world progress) {i : Fin n} (hi : progress i < 3)
    {faults : List Fault} (hfaults : world.faults = [] → faults = []) :
    g.Recorded { world.after (.put (g.keys.branchOutput (i + 1)) (g.outputs i)) with faults }
      (Function.update progress i 1) := by
  have hsame := counted_update hi (show 1 < 3 by omega)
  refine h.after hfaults ?place ?counter ?put ?entered ?fired
  case place =>
    rintro place ⟨⟩
    exact FanOutKeys.output_mem_branchPlaces i
  case counter =>
    rw [hsame, Store.content?_perform_of_ne (by simp [StoreCall.place?])]
    exact h.counter
  case put =>
    intro j hj
    by_cases hji : j = i
    · subst hji
      exact Store.content?_perform_put _ _
    · rw [Function.update_of_ne hji] at hj
      rw [Store.content?_perform_of_ne, h.put j hj]
      intro hplace
      have hkey : g.keys.branchOutput (i + 1) = g.keys.branchOutput (j + 1) := by
        simpa [StoreCall.place?] using hplace
      have hindex := g.keys.branchOutput_injective hkey
      exact hji (Fin.ext (by omega))
  case entered =>
    intro j hj
    have hji : j ≠ i := by
      rintro rfl
      simp at hj
    rw [Function.update_of_ne hji] at hj
    exact h.entered j hj
  case fired =>
    rw [hsame, World.after_fired_of_ne_increment (by simp)]
    exact h.fired

/-- When a branch enters the name of its output, which it has put, into the set, the world shows it
one step further. -/
theorem enterOutput (h : g.Recorded world progress) {i : Fin n} (hi : progress i = 1)
    {faults : List Fault} (hfaults : world.faults = [] → faults = []) :
    g.Recorded
      { world.after (.addMember g.keys.outputSet (g.keys.branchOutput (i + 1))) with faults }
      (Function.update progress i 2) := by
  have hsame := counted_update (hi.trans_lt (show 1 < 3 by omega)) (show 2 < 3 by omega)
  refine h.after hfaults ?place ?counter ?put ?entered ?fired
  case place =>
    rintro place ⟨⟩
    exact FanOutKeys.outputSet_mem_branchPlaces
  case counter =>
    rw [hsame, Store.content?_perform_of_ne (by simp [StoreCall.place?])]
    exact h.counter
  case put =>
    intro j hj
    rw [Store.content?_perform_of_ne (by simp [StoreCall.place?])]
    exact h.put j (le_of_le_update hi.ge hj)
  case entered =>
    intro j hj
    rw [Store.mem_membersOf_addMember]
    by_cases hji : j = i
    · exact .inl (by rw [hji])
    · rw [Function.update_of_ne hji] at hj
      exact .inr (h.entered j hj)
  case fired =>
    rw [hsame, World.after_fired_of_ne_increment (by simp)]
    exact h.fired

/-- One more branch that counts itself fires the trigger if it is the last one. -/
theorem fired?_count (h : g.Recorded world progress) :
    (world.store.perform (.increment g.keys.counter 1)).2.fired? g.keys.counter
        ((counted progress).card + 1) =
      if (counted progress).card + 1 = n then some g.final else none := by
  have htrigger : (world.store.perform (.increment g.keys.counter 1)).2.content?
      (.trigger (triggerKey g.keys.counter)) = some g.trigger := by
    rw [Store.content?_perform_of_ne (by simp [StoreCall.place?])]
    exact h.trigger
  have hthreshold : (counted progress).card + 1 ∈ g.trigger.thresholds ↔
      (counted progress).card + 1 = n := by
    rw [g.thresholds, List.mem_singleton]
  have hfired := Store.fired?_eq htrigger ((counted progress).card + 1)
  rw [Int.natCast_add] at hfired
  refine hfired.trans ?_
  by_cases hall : (counted progress).card + 1 = n
  · have hvalue : (n : Int) = (counted progress).card + 1 := by omega
    rw [if_pos (hthreshold.mpr hall), if_pos hall, final, hvalue]
    rfl
  · rw [if_neg (mt hthreshold.mp hall), if_neg hall]

/-- What has fired when one more branch has counted itself: the trigger, if that is the last one. -/
theorem fired_count (h : g.Recorded world progress) (hbefore : (counted progress).card ≠ n) :
    ∃ emitted, (world.after (.increment g.keys.counter 1)).fired = g.base.fired ++ emitted ∧
      (∀ f ∈ emitted, g.owned (.counter f.counter) → f.counter = g.keys.counter) ∧
      (emitted.filter fun f => f.counter == g.keys.counter) =
        if (counted progress).card + 1 = n then [g.final] else [] := by
  obtain ⟨emitted, hfired, howned, hemitted⟩ := h.fired
  rw [if_neg hbefore] at hemitted
  rw [World.after_fired_increment h.counter, if_pos h.firesTriggers, h.fired?_count, hfired,
    List.append_assoc]
  refine ⟨_, rfl, ?_, ?_⟩
  · intro f hf hplace
    rcases List.mem_append.mp hf with hf | hf
    · exact howned f hf hplace
    · split at hf
      · rw [Option.toList_some, List.mem_singleton] at hf
        rw [hf, final]
      · cases hf
  · rw [List.filter_append, hemitted, List.nil_append]
    split
    · simp [final]
    · rfl

/-- A branch whose output is put and entered counts itself; the last one fires the trigger. -/
theorem count (h : g.Recorded world progress) {i : Fin n} (hi : progress i = 2)
    {faults : List Fault} (hfaults : world.faults = [] → faults = []) :
    g.Recorded { world.after (.increment g.keys.counter 1) with faults }
      (Function.update progress i 3) := by
  have hcard := card_counted_update (hi.trans_lt (show 2 < 3 by omega))
  have hperform := Store.perform_increment h.counter 1
  refine h.after hfaults ?place ?counter ?put ?entered ?fired
  case place =>
    rintro place ⟨⟩
    exact List.mem_cons_self
  case counter =>
    rw [hperform, hcard, Int.natCast_add]
    exact Table.get?_put_self _ _ _
  case put =>
    intro j hj
    rw [Store.content?_perform_of_ne (by simp [StoreCall.place?])]
    exact h.put j (le_of_le_update (by omega) hj)
  case entered =>
    intro j hj
    rw [Store.membersOf_eq, Store.content?_perform_of_ne (by simp [StoreCall.place?]),
      ← Store.membersOf_eq]
    exact h.entered j (le_of_le_update hi.ge hj)
  case fired =>
    have hbefore : (counted progress).card ≠ n := fun hall => by
      have hcounted := card_counted_iff.mp hall i
      omega
    rw [hcard]
    exact h.fired_count hbefore

/-- A call of somebody else leaves alone what is nobody else's to write to, and the world shows the
branches where they were. -/
theorem foreign (h : g.Recorded world progress) {c : StoreCall}
    (hspare : ∀ place, g.owned place → c.place? ≠ some place)
    {faults : List Fault} (hfaults : world.faults = [] → faults = []) :
    g.Recorded { world.after c with faults } progress where
  firesTriggers := h.firesTriggers
  counter := by
    have hne := hspare (.counter g.keys.counter) (g.owns _ (FanOutKeys.branchPlaces_subset
      List.mem_cons_self))
    exact (Store.content?_perform_of_ne hne).trans h.counter
  put := by
    intro i hi
    have hne := hspare _ (g.owns _ (FanOutKeys.branchPlaces_subset
      (FanOutKeys.output_mem_branchPlaces i)))
    exact (Store.content?_perform_of_ne hne).trans (h.put i hi)
  entered := by
    intro i hi
    have hne := hspare (.set g.keys.outputSet) (g.owns _ (FanOutKeys.branchPlaces_subset
      FanOutKeys.outputSet_mem_branchPlaces))
    change _ ∈ (world.store.perform c).2.membersOf _
    rw [Store.membersOf_eq, Store.content?_perform_of_ne hne, ← Store.membersOf_eq]
    exact h.entered i hi
  fired := by
    obtain ⟨emitted, hfired, howned, hemitted⟩ := h.fired
    obtain ⟨others, hothers, hcounter⟩ := world.after_fired c
    have hstrange : ∀ f ∈ others, ¬g.owned (.counter f.counter) := fun f hf hplace =>
      hspare _ hplace (hcounter f hf)
    have hnone := World.filter_fired_eq_nil (hspare (.counter g.keys.counter)
      (g.owns _ (FanOutKeys.branchPlaces_subset List.mem_cons_self))) hcounter
    refine ⟨emitted ++ others, ?_, ?_, ?_⟩
    · change (world.after c).fired = _
      rw [hothers, hfired, List.append_assoc]
    · intro f hf hplace
      rcases List.mem_append.mp hf with hf | hf
      · exact howned f hf hplace
      · exact absurd hplace (hstrange f hf)
    · rw [List.filter_append, hnone, List.append_nil, hemitted]
  spared := by
    intro place howned hnot
    rw [← h.spared place howned hnot]
    exact Store.content?_perform_of_ne (hspare place howned)
  queue := h.queue
  faults := fun hbase => hfaults (h.faults hbase)

end Recorded

/-! ## Every run keeps it -/

/-- The branches of a crew are so far as the world shows. -/
def Gathered (g : Gathering n) (crew : Crew (Fin n) (Except FanOutError Int)) : Prop :=
  ∃ stages : Fin n → BranchStage,
    (∀ i, crew.left i = (stages i).left g.keys (g.keys.branchOutput (i + 1)) (g.outputs i)) ∧
      g.Recorded crew.world fun i => (stages i).progress

variable {g : Gathering n}

/-- One branch changes its stage, and the world with it. -/
theorem gathered_update {left : Fin n → Activity (Except FanOutError Int)}
    {stages : Fin n → BranchStage} {i : Fin n} (stage : BranchStage) {world : World}
    (hleft : ∀ j, left j = (stages j).left g.keys (g.keys.branchOutput (j + 1)) (g.outputs j))
    (hworld : g.Recorded world (Function.update (fun j => (stages j).progress) i stage.progress)) :
    g.Gathered ⟨world, Function.update left i
      (stage.left g.keys (g.keys.branchOutput (i + 1)) (g.outputs i))⟩ := by
  refine ⟨Function.update stages i stage, fun j => ?_, ?_⟩
  · change Function.update left i _ j = _
    by_cases hj : j = i
    · subst hj
      rw [Function.update_self, Function.update_self]
    · rw [Function.update_of_ne hj, Function.update_of_ne hj, hleft j]
  · convert hworld using 1
    funext j
    by_cases hj : j = i
    · subst hj
      rw [Function.update_self, Function.update_self]
    · rw [Function.update_of_ne hj, Function.update_of_ne hj]

/-- A branch that is not counted falls back to the beginning; the world stays as it is, up to its
faults. -/
theorem gathered_fall {left : Fin n → Activity (Except FanOutError Int)}
    {stages : Fin n → BranchStage} {i : Fin n} (stage : BranchStage) {world : World}
    (hleft : ∀ j, left j = (stages j).left g.keys (g.keys.branchOutput (j + 1)) (g.outputs j))
    (hworld : g.Recorded world fun j => (stages j).progress) (hi : (stages i).progress < 3)
    (hstage : stage.progress = 0) {faults : List Fault} {journal : List JournalEntry}
    (hfaults : world.faults = [] → faults = []) :
    g.Gathered ⟨{ world with faults, journal }, Function.update left i
      (stage.left g.keys (g.keys.branchOutput (i + 1)) (g.outputs i))⟩ := by
  refine gathered_update stage hleft (hworld.lower (fun j => ?_) ?_ hfaults)
  · by_cases hj : j = i
    · subst hj
      rw [Function.update_self, hstage]
      exact Nat.zero_le _
    · rw [Function.update_of_ne hj]
  · exact counted_update hi (by omega)

/-- What the branches are to do, and do again after a failure. -/
def tasks (g : Gathering n) (i : Fin n) : Activity (Except FanOutError Int) :=
  BranchStage.ready.left g.keys (g.keys.branchOutput (i + 1)) (g.outputs i)

/-- A call of a branch that takes effect, or is struck by a fault. -/
theorem gathered_serve {crew : Crew (Fin n) (Except FanOutError Int)} {i : Fin n} {c : StoreCall}
    {resume : Except StoreError c.Reply → Activity (Except FanOutError Int)}
    (h : g.Gathered crew) (hi : crew.left i = .ask (.store c) resume) :
    g.Gathered ⟨(World.answer (.store c) crew.world).2,
      Function.update crew.left i (resume (World.answer (.store c) crew.world).1)⟩ := by
  obtain ⟨stages, hleft, hworld⟩ := h
  rw [hleft] at hi
  rcases World.answer_store_cases crew.world c with ⟨hne, e, faults, journal, hanswer⟩ |
    ⟨faults, hfaults, hanswer⟩
  · obtain ⟨hlt, hfailed⟩ := BranchStage.left_error hi e
    rw [hanswer, hfailed]
    exact gathered_fall (.failed (.store e)) hleft hworld hlt rfl fun h => absurd h hne
  · rw [hanswer]
    cases hstage : stages i with
    | ready =>
      rw [hstage, BranchStage.left_ready] at hi
      cases hi
      exact gathered_update .put hleft
        (hworld.putOutput (by rw [hstage]; decide) hfaults)
    | put =>
      rw [hstage, BranchStage.left_put] at hi
      cases hi
      exact gathered_update .entered hleft
        (hworld.enterOutput (by rw [hstage]; rfl) hfaults)
    | entered =>
      rw [hstage, BranchStage.left_entered] at hi
      cases hi
      rw [Store.perform_increment hworld.counter 1]
      exact gathered_update (.counted _) hleft
        (hworld.count (by rw [hstage]; rfl) hfaults)
    | counted count => rw [hstage] at hi; cases hi
    | failed error => rw [hstage] at hi; cases hi

/-- Every turn keeps the invariant, as long as others spare the places of the fan-out. -/
theorem gathered_step {crew : Crew (Fin n) (Except FanOutError Int)} {turn : Turn (Fin n)}
    (h : g.Gathered crew)
    (hspare : ∀ c, turn = .foreign c → ∀ place, g.owned place → c.place? ≠ some place) :
    g.Gathered (crew.step g.tasks FanOut.hasFailed turn) := by
  have hstep := Crew.step_spec g.tasks FanOut.hasFailed crew turn
  generalize crew.step g.tasks FanOut.hasFailed turn = next at hstep ⊢
  cases hstep with
  | idle => exact h
  | @served i request resume hi =>
    obtain ⟨stages, hleft, hworld⟩ := h
    obtain ⟨c, rfl⟩ := BranchStage.request_of_left ((hleft i).symm.trans hi)
    exact gathered_serve ⟨stages, hleft, hworld⟩ hi
  | @refused i c resume e hi =>
    obtain ⟨stages, hleft, hworld⟩ := h
    obtain ⟨hlt, hfailed⟩ := BranchStage.left_error ((hleft i).symm.trans hi) e
    rw [hfailed]
    exact gathered_fall (.failed (.store e)) hleft hworld hlt rfl id
  | @retried i result hi hagain =>
    obtain ⟨stages, hleft, hworld⟩ := h
    have hstage := BranchStage.progress_of_left_eq_done ((hleft i).symm.trans hi)
    rw [if_pos hagain] at hstage
    exact gathered_fall .ready hleft hworld (by omega) rfl id
  | @foreign c hturn =>
    obtain ⟨stages, hleft, hworld⟩ := h
    refine ⟨stages, hleft, ?_⟩
    rcases World.answer_store_cases crew.world c with ⟨hne, e, faults, journal, hanswer⟩ |
      ⟨faults, hfaults, hanswer⟩
    · rw [hanswer]
      exact hworld.lower (fun _ => le_rfl) rfl fun h => absurd h hne
    · rw [hanswer]
      exact hworld.foreign (hspare c hturn) hfaults

/-- Every run of the branches keeps the invariant. -/
theorem gathered_run (g : Gathering n) {turns : List (Turn (Fin n))}
    (hspare : ∀ c, .foreign c ∈ turns → ∀ place, g.owned place → c.place? ≠ some place) :
    g.Gathered ((Crew.begin g.tasks g.base).run g.tasks FanOut.hasFailed turns) := by
  refine Crew.run_invariant ⟨fun _ => .ready, fun _ => rfl, Recorded.start g⟩ ?_
  intro crew h turn hmem
  exact gathered_step h fun c hc => hspare c (hc ▸ hmem)

end Gathering

end Workflow
