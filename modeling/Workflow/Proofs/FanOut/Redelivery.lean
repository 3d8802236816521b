import Workflow.Proofs.FanOut.Agreement

/-!
# Ends of branches that are delivered again

The state that ends a branch may be invoked more than once. How many branches of a fan-out have
finished is kept twice: the set has every branch once, and the counter adds every invocation. Only
the counter fires the trigger of the join, so that the two have to agree when it reaches the number
of branches; they do if no branch has been delivered twice by then.

* **One end** (`FanOut.BranchEnded`, `FanOut.branchEnded_of_left`): what one invocation that has
  succeeded does to the world.
* **Deliveries** (`Delivery`, `FanOut.Delivered`): ends of branches, one after the other, in any
  order and any number of times, with calls of others in between.
* **The tally** (`FanOut.Tally`): what the world shows of the deliveries; every one of them keeps it
  (`Tally.deliver`, `Tally.foreign`), and so do all (`FanOut.Delivered.tally`).
* **Counter and set** (`FanOut.Redelivered`, `FanOut.threshold_complete_iff_nodup`): what the
  counter, the set and the join come to.
-/

namespace Workflow

/-! ## One end -/

namespace FanOut

/-- From one world to another, the end of a branch has succeeded. -/
structure BranchEnded (keys : FanOutKeys) (key : String) (output : Json) (count : Int)
    (w v : World) : Prop where
  output : v.store.content? (.value key) = some output
  members : ∀ other, other ∈ v.store.membersOf keys.outputSet ↔
    other = key ∨ other ∈ w.store.membersOf keys.outputSet
  counted : ∃ before : Int, w.store.content? (.counter keys.counter) = some before ∧
    count = before + 1 ∧ v.store.content? (.counter keys.counter) = some count
  spared : ∀ place, place ≠ .value key → place ≠ .set keys.outputSet →
    place ≠ .counter keys.counter → v.store.content? place = w.store.content? place
  fired : v.fired = w.fired ++
    if w.firesTriggers then (v.store.fired? keys.counter count).toList else []
  firesTriggers : v.firesTriggers = w.firesTriggers

/-- A branch that has put its output, entered it and counted itself has ended. -/
theorem branchEnded_of_left {keys : FanOutKeys} {key : String} {output : Json} {count : Int}
    {w v : World}
    (h : w.perform (BranchStage.ready.left keys key output) = (.ok count, v)) :
    BranchEnded keys key output count w v := by
  obtain ⟨-, v₁, -, hput, h⟩ := run_call_bind_eq_ok h
  obtain ⟨-, v₂, -, hadd, h⟩ := run_call_bind_eq_ok h
  obtain ⟨hcount, hincrement⟩ := run_call_eq_ok h
  obtain ⟨before, hbefore, hafter⟩ := Store.exists_of_perform_increment hcount
  rw [Store.perform_increment hbefore] at hcount
  obtain rfl : before + 1 = count := Except.ok.inj hcount
  have hfires : v₂.firesTriggers = w.firesTriggers := hadd.firesTriggers.trans hput.firesTriggers
  constructor
  case output =>
    rw [hincrement.content?_of_ne (by simp [StoreCall.place?]),
      hadd.content?_of_ne (by simp [StoreCall.place?]), hput.store, Store.content?_perform_put]
  case members =>
    intro other
    rw [Store.membersOf_eq, hincrement.content?_of_ne (by simp [StoreCall.place?]),
      ← Store.membersOf_eq, hadd.store, Store.mem_membersOf_addMember, Store.membersOf_eq,
      hput.content?_of_ne (by simp [StoreCall.place?]), ← Store.membersOf_eq]
  case counted =>
    refine ⟨before, ?_, rfl, by rw [hincrement.store, hafter]⟩
    rw [← hbefore, hadd.content?_of_ne (by simp [StoreCall.place?]),
      hput.content?_of_ne (by simp [StoreCall.place?])]
  case spared =>
    intro place hkey hset hcounter
    have hcalls : ∀ other, place ≠ other → some other ≠ some place :=
      fun other hne heq => hne (Option.some.inj heq).symm
    rw [hincrement.content?_of_ne (hcalls _ hcounter), hadd.content?_of_ne (hcalls _ hset),
      hput.content?_of_ne (hcalls _ hkey)]
  case fired =>
    rw [hincrement.fired, World.after_fired_increment hbefore, hfires, ← hincrement.store,
      hadd.fired_of_ne_increment (by simp), hput.fired_of_ne_increment (by simp)]
  case firesTriggers => exact hincrement.firesTriggers.trans hfires

end FanOut

/-! ## Deliveries -/

/-- The end of a branch of a fan-out, as it is delivered: the branch and its output. -/
structure Delivery (n : Nat) where
  branch : Fin n
  output : Json

namespace Delivery

variable {n : Nat}

/-- The output that a branch has come with last. -/
def latest? (deliveries : List (Delivery n)) (i : Fin n) : Option Json :=
  (deliveries.reverse.find? fun delivery => delivery.branch = i).map Delivery.output

/-- The last delivery gives the last output of its branch, and of no other. -/
theorem latest?_concat (deliveries : List (Delivery n)) (delivery : Delivery n) (i : Fin n) :
    latest? (deliveries ++ [delivery]) i =
      if delivery.branch = i then some delivery.output else latest? deliveries i := by
  rw [latest?, List.reverse_concat, List.find?_cons]
  by_cases h : delivery.branch = i <;> simp [h, latest?]

/-- A branch that has not been delivered has no output. -/
theorem latest?_eq_none_iff {deliveries : List (Delivery n)} {i : Fin n} :
    latest? deliveries i = none ↔ i ∉ deliveries.map Delivery.branch := by
  simp [latest?]

end Delivery

namespace FanOut

/-- A state of a branch has been invoked, in a run that finds the record of the fan-out, and has
ended the branch with success. -/
def Delivers (d : Definition) (run : Run) (w : World)
    (delivery : Delivery d.body.branches.length) (count : Int) (v : World) : Prop :=
  ∃ (state : Definition) (seen : Run),
    state.body.lineage = some ⟨d.name, delivery.branch + 1⟩ ∧
    seen.metadata.fanOut? d.name seen.executionId = some (.make run d.body.branches.length) ∧
    w.perform (recordBranch state delivery.output seen).run = (.ok count, v)

/-- The end of a branch that has been delivered has left its output at the place that the record has
for the branch. -/
theorem Delivers.branchEnded {d : Definition} {run : Run} {w v : World}
    {delivery : Delivery d.body.branches.length} {count : Int}
    (h : Delivers d run w delivery count v) :
    BranchEnded run.keys (run.keys.branchOutput (delivery.branch + 1)) delivery.output count w
      v := by
  obtain ⟨state, seen, hlineage, hfound, hperform⟩ := h
  rw [recordBranch, branchPlace_of_found delivery.branch hlineage hfound] at hperform
  exact branchEnded_of_left hperform

/-- Ends of branches have been delivered one after the other, all of them with success, while others
have made calls that are not about the places of the fan-out. -/
inductive Delivered (d : Definition) (run : Run) (base : World) :
    List (Delivery d.body.branches.length) → World → Prop
  | start : Delivered d run base [] base
  | deliver {deliveries : List (Delivery d.body.branches.length)} {w v : World} {count : Int}
      (before : Delivered d run base deliveries w) (delivery : Delivery d.body.branches.length)
      (success : Delivers d run w delivery count v) :
      Delivered d run base (deliveries ++ [delivery]) v
  | foreign {deliveries : List (Delivery d.body.branches.length)} {w : World}
      (before : Delivered d run base deliveries w) (c : StoreCall)
      (spares : ∀ place ∈ run.keys.places d.body.branches.length, c.place? ≠ some place) :
      Delivered d run base deliveries (World.answer (.store c) w).2

/-! ## The tally -/

/-- What a world shows of the ends of branches that have been delivered: the counter adds every one
of them and fires the trigger when it comes to the number of branches, the set has the branches,
and every branch has left its last output. -/
structure Tally (run : Run) (n : Nat) (base : World) (deliveries : List (Delivery n)) (w : World) :
    Prop where
  firesTriggers : w.firesTriggers = true
  counter : w.store.content? (.counter run.keys.counter) = some (deliveries.length : Int)
  entered : ∀ i : Fin n, run.keys.branchOutput (i + 1) ∈ w.store.membersOf run.keys.outputSet ↔
    i ∈ deliveries.map Delivery.branch
  output : ∀ (i : Fin n) (output : Json), Delivery.latest? deliveries i = some output →
    w.store.content? (.value (run.keys.branchOutput (i + 1))) = some output
  trigger : w.store.content? (.trigger run.keys.trigger) = some (.make run n)
  metadata : w.store.content? (.value run.keys.metadata) = some run.metadata.toJson
  fired : ∃ emitted, w.fired = base.fired ++ emitted ∧
    (emitted.filter fun f => f.counter == run.keys.counter) =
      if n ≤ deliveries.length then [⟨run.keys.counter, finalTrigger run n⟩] else []

namespace Tally

variable {run : Run} {n : Nat} {base w v : World} {deliveries : List (Delivery n)}

/-- What the counter has fired since the start. -/
theorem emittedSince_eq (h : Tally run n base deliveries w) :
    base.emittedSince w run.keys.counter =
      if n ≤ deliveries.length then [⟨run.keys.counter, finalTrigger run n⟩] else [] := by
  obtain ⟨emitted, hfired, hemitted⟩ := h.fired
  rw [World.emittedSince_of_append hfired, hemitted]

/-! ### Every delivery keeps it -/

section deliver

variable {delivery : Delivery n} {count : Int} (h : Tally run n base deliveries w)
  (hended : BranchEnded run.keys (run.keys.branchOutput (delivery.branch + 1)) delivery.output count
    w v)
include h hended

/-- An invocation is given the number of all that have succeeded so far. -/
theorem count_eq : count = (deliveries.length + 1 : Nat) := by
  obtain ⟨before, hbefore, hcount, -⟩ := hended.counted
  have hsame : before = deliveries.length := Option.some.inj (hbefore.symm.trans h.counter)
  rw [hcount, hsame, Int.natCast_add]
  rfl

/-- The trigger stands where it was registered. -/
theorem trigger_of_ended :
    v.store.content? (.trigger run.keys.trigger) = some (.make run n) := by
  rw [hended.spared _ (by simp) (by simp) (by simp), h.trigger]

/-- The counter fires the trigger with a delivery if its number is that of the branches. -/
theorem fired_eq : v.fired = w.fired ++
    if deliveries.length + 1 = n then [⟨run.keys.counter, finalTrigger run n⟩] else [] := by
  have hthreshold : deliveries.length + 1 ∈ (JoinTrigger.make run n).thresholds ↔
      deliveries.length + 1 = n := List.mem_singleton
  rw [hended.fired, if_pos h.firesTriggers, h.count_eq hended,
    Store.fired?_eq (h.trigger_of_ended hended)]
  by_cases hlast : deliveries.length + 1 = n
  · have hvalue : ((deliveries.length + 1 : Nat) : Int) = n := congrArg _ hlast
    rw [if_pos (hthreshold.mpr hlast), if_pos hlast, hvalue]
    rfl
  · rw [if_neg (mt hthreshold.mp hlast), if_neg hlast, Option.toList_none]

/-- One more delivery keeps the tally. -/
theorem deliver : Tally run n base (deliveries ++ [delivery]) v where
  firesTriggers := hended.firesTriggers.trans h.firesTriggers
  counter := by
    obtain ⟨before, -, -, hafter⟩ := hended.counted
    rw [hafter, h.count_eq hended, List.length_append, List.length_singleton]
  entered := by
    intro i
    have hkey : run.keys.branchOutput (i + 1) = run.keys.branchOutput (delivery.branch + 1) ↔
        i = delivery.branch := by
      rw [run.keys.branchOutput_injective.eq_iff, Fin.ext_iff]
      omega
    rw [hended.members, h.entered, hkey, List.map_append, List.mem_append, List.map_singleton,
      List.mem_singleton, or_comm]
  output := by
    intro i output houtput
    rw [Delivery.latest?_concat] at houtput
    by_cases hi : delivery.branch = i
    · rw [if_pos hi] at houtput
      rw [← hi, hended.output, houtput]
    · rw [if_neg hi] at houtput
      rw [hended.spared _ ?_ (by simp) (by simp), h.output i output houtput]
      intro hplace
      have hindex := run.keys.branchOutput_injective (Place.value.inj hplace)
      exact hi (Fin.ext (by omega))
  trigger := h.trigger_of_ended hended
  metadata := by
    have hkey := (run.keys.branchOutput_ne_metadata run.keys (delivery.branch + 1)).symm
    rw [hended.spared _ (by simpa using hkey) (by simp) (by simp), h.metadata]
  fired := by
    obtain ⟨emitted, hfired, hemitted⟩ := h.fired
    rw [h.fired_eq hended, hfired, List.append_assoc]
    refine ⟨_, rfl, ?_⟩
    rw [List.filter_append, hemitted, List.length_append, List.length_singleton]
    -- the trigger has fired before, fires now, or is to fire later
    rcases Nat.lt_trichotomy (deliveries.length + 1) n with hlt | heq | hgt
    · rw [if_neg (by omega), if_neg (by omega), if_neg (by omega)]
      rfl
    · rw [if_neg (by omega), if_pos heq, if_pos (by omega)]
      simp
    · rw [if_pos (by omega), if_neg (by omega), if_pos (by omega)]
      rfl

end deliver

/-! ### So do the calls of others -/

/-- A call that was struck by a fault has changed nothing. -/
theorem struck (h : Tally run n base deliveries w) (faults : List Fault)
    (journal : List JournalEntry) : Tally run n base deliveries { w with faults, journal } :=
  ⟨h.firesTriggers, h.counter, h.entered, h.output, h.trigger, h.metadata, h.fired⟩

/-- A call of somebody else keeps the tally, if it spares the places of the fan-out. -/
theorem foreign (h : Tally run n base deliveries w) {c : StoreCall}
    (hspares : ∀ place ∈ run.keys.places n, c.place? ≠ some place) :
    Tally run n base deliveries (World.answer (.store c) w).2 := by
  rcases World.answer_store_cases w c with ⟨-, e, faults, journal, hanswer⟩ | ⟨faults, -, hanswer⟩
  · rw [hanswer]
    exact h.struck faults journal
  rw [hanswer]
  have hsame : ∀ place ∈ run.keys.places n,
      (w.store.perform c).2.content? place = w.store.content? place :=
    fun place hplace => Store.content?_perform_of_ne (hspares place hplace)
  have hbranch : ∀ place ∈ run.keys.branchPlaces n,
      (w.store.perform c).2.content? place = w.store.content? place :=
    fun place hplace => hsame place (FanOutKeys.branchPlaces_subset hplace)
  constructor
  case firesTriggers => exact h.firesTriggers
  case counter => exact (hbranch _ List.mem_cons_self).trans h.counter
  case entered =>
    intro i
    change _ ∈ (w.store.perform c).2.membersOf _ ↔ _
    rw [Store.membersOf_eq, hbranch _ FanOutKeys.outputSet_mem_branchPlaces, ← Store.membersOf_eq,
      h.entered]
  case output =>
    intro i output houtput
    exact (hbranch _ (FanOutKeys.output_mem_branchPlaces i)).trans (h.output i output houtput)
  case trigger => exact (hsame _ List.mem_cons_self).trans h.trigger
  case metadata => exact (hsame _ FanOutKeys.metadata_mem_places).trans h.metadata
  case fired =>
    obtain ⟨emitted, hfired, hemitted⟩ := h.fired
    obtain ⟨others, hothers, hcounter⟩ := w.after_fired c
    have hnone := World.filter_fired_eq_nil (hspares (.counter run.keys.counter)
      (FanOutKeys.branchPlaces_subset List.mem_cons_self)) hcounter
    refine ⟨emitted ++ others, ?_, by rw [List.filter_append, hnone, List.append_nil, hemitted]⟩
    change (w.after c).fired = _
    rw [hothers, hfired, List.append_assoc]

end Tally

/-- At the start nothing has been delivered, and the tally says so. -/
theorem Started.tally {run : Run} {input : Json} {branches : List BranchDefinition}
    {before after : World} (h : Started run input branches before after)
    (hpos : 0 < branches.length) (hfires : before.firesTriggers = true) :
    Tally run branches.length after [] after where
  firesTriggers := h.firesTriggers.trans hfires
  counter := h.counter
  entered := by
    intro i
    rw [Store.membersOf_eq, h.set]
    simp [Table.mem_keys]
  output := fun i output houtput => absurd houtput (by simp [Delivery.latest?])
  trigger := h.trigger
  metadata := h.metadata
  fired := ⟨[], (List.append_nil _).symm, (if_neg (Nat.not_le.mpr hpos)).symm⟩

/-- All deliveries keep the tally. -/
theorem Delivered.tally {d : Definition} {run : Run} {base w : World}
    {deliveries : List (Delivery d.body.branches.length)}
    (h : Delivered d run base deliveries w)
    (hbase : Tally run d.body.branches.length base [] base) :
    Tally run d.body.branches.length base deliveries w := by
  induction h with
  | start => exact hbase
  | deliver before delivery success ih => exact ih.deliver success.branchEnded
  | foreign before c spares ih => exact ih.foreign spares

/-! ## Counter and set -/

/-- As many deliveries as there are branches reach all of them if none is delivered twice. -/
theorem forall_mem_iff_nodup {n : Nat} {branches : List (Fin n)} (h : branches.length = n) :
    (∀ i, i ∈ branches) ↔ branches.Nodup := by
  calc (∀ i, i ∈ branches)
    _ ↔ branches.toFinset = Finset.univ := by simp [Finset.eq_univ_iff_forall]
    _ ↔ branches.toFinset.card = Fintype.card (Fin n) := (Finset.card_eq_iff_eq_univ _).symm
    _ ↔ branches.toFinset.card = branches.length := by rw [Fintype.card_fin, h]
    _ ↔ branches.Nodup := Multiset.toFinset_card_eq_card_iff_nodup

/-- A join that follows when as many ends have been delivered as there are branches gives what every
branch has come with last, and null for a branch that has not been delivered. -/
theorem Tally.join {d : Definition} {run : Run} {base w : World}
    {deliveries : List (Delivery d.body.branches.length)}
    (h : Tally run d.body.branches.length base deliveries w) (settings : Settings)
    (hpos : 0 < d.body.branches.length) (hsound : run.metadata.Sound)
    (hrecord : run.metadata.fanOut? d.name run.executionId =
      some (.make run d.body.branches.length))
    (hall : d.body.branches.length ≤ deliveries.length) :
    ({ w with faults := [] }.perform
        (join settings d (finalTrigger run d.body.branches.length)).run).1 =
      .ok (.joined (List.ofFn fun i => (Delivery.latest? deliveries i).getD .null) true) := by
  have hfinished : ¬(w.store.membersOf run.keys.outputSet).isEmpty = true := by
    intro hempty
    obtain ⟨delivery, hdelivery⟩ := List.exists_mem_of_length_pos (hpos.trans_le hall)
    have hmem := (h.entered delivery.branch).mpr (List.mem_map_of_mem hdelivery)
    rw [List.isEmpty_iff.mp hempty] at hmem
    exact absurd hmem List.not_mem_nil
  have houtputs : ∀ i : Fin d.body.branches.length,
      if run.keys.branchOutput (i + 1) ∈ w.store.membersOf run.keys.outputSet then
        w.store.content? (.value (run.keys.branchOutput (i + 1))) =
          some ((Delivery.latest? deliveries i).getD .null)
      else (Delivery.latest? deliveries i).getD .null = .null := by
    intro i
    have hentered := h.entered i
    rw [← not_iff_not, ← Delivery.latest?_eq_none_iff] at hentered
    split
    case isTrue hmem =>
      obtain ⟨output, houtput⟩ :=
        Option.ne_none_iff_exists'.mp fun hnone => hentered.mpr hnone hmem
      rw [houtput, Option.getD_some, h.output i output houtput]
    case isFalse hmem => rw [hentered.mp hmem, Option.getD_none]
  have hperforms := join_performs_record (w := { w with faults := [] }) settings h.metadata
    (storedRecord_toJson hsound hrecord) hfinished (forall₂_branchOutputs houtputs)
  rw [isFinal_finalTrigger] at hperforms
  obtain ⟨v, -, hjoin⟩ := hperforms.yields rfl
  exact congrArg Prod.fst hjoin

/-- What the counter, the set and the join of a fan-out of so many branches have come to in a world
`w`, when the ends of branches have been delivered since its start in a world `w₁`. -/
structure Redelivered (d : Definition) (run : Run) (w₁ w : World) {n : Nat}
    (deliveries : List (Delivery n)) : Prop where
  /-- A delivery is counted, and the trigger fires if its number is that of the branches. -/
  next : ∀ delivery count v, Delivers d (enter d run) w delivery count v →
    count = (deliveries.length + 1 : Nat) ∧ v.fired = w.fired ++
      if deliveries.length + 1 = n then [⟨run.keys.counter, finalTrigger run n⟩] else []
  /-- The trigger has fired if there have been as many deliveries as branches. -/
  emitted : w₁.emittedSince w run.keys.counter =
    if n ≤ deliveries.length then [⟨run.keys.counter, finalTrigger run n⟩] else []
  /-- The set has the branches that have been delivered. -/
  entered : ∀ i : Fin n, run.keys.branchOutput (i + 1) ∈ w.store.membersOf run.keys.outputSet ↔
    i ∈ deliveries.map Delivery.branch
  /-- When the trigger fires, the set has all branches if none has been delivered twice, and only
  then. -/
  complete_iff : deliveries.length = n →
    ((∀ i : Fin n, run.keys.branchOutput (i + 1) ∈ w.store.membersOf run.keys.outputSet) ↔
      (deliveries.map Delivery.branch).Nodup)
  /-- The join gives what every branch has come with last, and null for the others. -/
  joined : n ≤ deliveries.length → ∀ settings : Settings,
    ({ w with faults := [] }.perform (join settings d (finalTrigger run n)).run).1 =
      .ok (.joined (List.ofFn fun i => (Delivery.latest? deliveries i).getD .null) true)

/-- In whatever order and however often the ends of branches are delivered, and whatever others do
elsewhere in the store: the counter of a fan-out fires its trigger with the delivery whose number is
that of the branches, and with no other. The set has all branches by then exactly if none of them
has been delivered twice. The join that follows gives what every branch has come with last, and null
for every branch that has not been delivered. -/
theorem threshold_complete_iff_nodup {typeName name : String} {document input : Json}
    {d : Definition} {run : Run} {w₀ w₁ w : World}
    (hd : Definition.ofJson typeName name document = .ok d) (hkind : d.kind = .parallel)
    (hrun : run.Received) (hfires : w₀.firesTriggers = true)
    (hstart : w₀.perform (start d input (enter d run)).run = (.ok (), w₁))
    {deliveries : List (Delivery d.body.branches.length)}
    (hdelivered : Delivered d (enter d run) w₁ deliveries w) :
    Redelivered d run w₁ w deliveries := by
  have hpos := (Definition.branches_of_ofJson hd hkind).1
  have htally := hdelivered.tally ((started_of_start hstart).tally hpos hfires)
  refine
    { next := ?next
      emitted := htally.emittedSince_eq
      entered := htally.entered
      complete_iff := ?complete_iff
      joined := ?joined }
  case next =>
    intro delivery count v hdelivers
    have hended := hdelivers.branchEnded
    exact ⟨htally.count_eq hended, htally.fired_eq hended⟩
  case complete_iff =>
    intro hlength
    rw [← forall_mem_iff_nodup ((List.length_map _).trans hlength)]
    exact forall_congr' htally.entered
  case joined =>
    exact fun hall settings => htally.join settings hpos (sound_enter hd hkind hrun.sound)
      (fanOut?_enter d run) hall

/-! ### Two branches -/

/-- The end of one of the branches of `pair` in a world. -/
def pairDeliver (w : World) (delivery : Delivery pair.body.branches.length) :
    Except FanOutError Int × World :=
  w.perform (recordBranch (pairBranches.ends delivery.branch) delivery.output
    (pairBranches.seen (enter pair pairRun) delivery.branch)).run

/-- If it says so, it has ended with success. -/
theorem delivers_of_pairDeliver {w : World} {delivery : Delivery pair.body.branches.length}
    {count : Int} (h : (pairDeliver w delivery).1 = .ok count) :
    Delivers pair (enter pair pairRun) w delivery count (pairDeliver w delivery).2 :=
  ⟨_, _, pairBranches.lineage delivery.branch, fanOut?_enter pair pairRun, Prod.ext h rfl⟩

/-- The world in which two branches have been started, after ends of them have been delivered. -/
def pairDelivered (deliveries : List (Delivery pair.body.branches.length)) : World :=
  deliveries.foldl (fun w delivery => (pairDeliver w delivery).2) pairStart.2

/-- Ends of both branches of `pair`, of the second one first. -/
def bothDelivered : List (Delivery pair.body.branches.length) :=
  [⟨rightBranch, .nat 7⟩, ⟨leftBranch, .nat 8⟩]

/-- After `bothDelivered` both branches are in the set, and the join gives both outputs. -/
theorem pair_both_complete :
    (∀ i : Fin pair.body.branches.length, pairRun.keys.branchOutput (i + 1) ∈
      (pairDelivered bothDelivered).store.membersOf pairRun.keys.outputSet) ∧
    ({ pairDelivered bothDelivered with faults := [] }.perform pairJoin).1 =
      .ok (.joined [.nat 8, .nat 7] true) := by
  have hstart : World.perform {} (start pair .null (enter pair pairRun)).run =
      (.ok (), pairStart.2) := by
    obtain ⟨w, hw⟩ := start_succeeds (w := {}) rfl pair .null (enter pair pairRun)
    rw [pairStart, hw]
  have hright : (pairDeliver pairStart.2 ⟨rightBranch, .nat 7⟩).1 = .ok 1 := by decide +kernel
  have hleft : (pairDeliver (pairDelivered [⟨rightBranch, .nat 7⟩]) ⟨leftBranch, .nat 8⟩).1 =
      .ok 2 := by decide +kernel
  have hdelivered : Delivered pair (enter pair pairRun) pairStart.2 bothDelivered
      (pairDelivered bothDelivered) :=
    .deliver (.deliver .start _ (delivers_of_pairDeliver hright)) _ (delivers_of_pairDeliver hleft)
  have hredelivered := threshold_complete_iff_nodup ofJson_pairDocument rfl (.inl ⟨_, _, rfl⟩) rfl
    hstart hdelivered
  exact ⟨(hredelivered.complete_iff rfl).mpr (by decide), hredelivered.joined (by decide) {}⟩

/-- Two ends of the first branch of `pair`. -/
def leftTwice : List (Delivery pair.body.branches.length) :=
  [⟨leftBranch, .nat 7⟩, ⟨leftBranch, .nat 8⟩]

/-- After `leftTwice` the trigger of the join has fired although the second branch has not ended,
and the join gives null for it. -/
theorem pair_threshold_incomplete :
    Delivered pair (enter pair pairRun) pairStart.2 leftTwice (pairDelivered leftTwice) ∧
    pairStart.2.emittedSince (pairDelivered leftTwice) pairRun.keys.counter =
      [⟨pairRun.keys.counter, finalTrigger pairRun 2⟩] ∧
    pairRun.keys.branchOutput (rightBranch + 1) ∉
      (pairDelivered leftTwice).store.membersOf pairRun.keys.outputSet ∧
    ((pairDelivered leftTwice).perform pairJoin).1 = .ok (.joined [.nat 8, .null] true) := by
  have hfirst : (pairDeliver pairStart.2 ⟨leftBranch, .nat 7⟩).1 = .ok 1 := by decide +kernel
  have hagain : (pairDeliver (pairDelivered [⟨leftBranch, .nat 7⟩]) ⟨leftBranch, .nat 8⟩).1 =
      .ok 2 := by decide +kernel
  refine ⟨.deliver (.deliver .start _ (delivers_of_pairDeliver hfirst)) _
    (delivers_of_pairDeliver hagain), ?_, ?_, ?_⟩
  all_goals decide +kernel

end FanOut

end Workflow
