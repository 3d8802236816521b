import Mathlib.Data.List.Forall2
import Mathlib.Data.List.OfFn
import Workflow.Proofs.Calls
import Workflow.Proofs.FanOut.Start
import Workflow.Proofs.Metadata

/-!
# The join of a complete fan-out

A join that finds everything in place gives the outputs in the order of the branches, removes
whatever the fan-out has kept in the store, and hands the outputs on; a join that finds nothing does
nothing. What it asks of the store is the same calls every time, so that it is known where it can be
stopped.

* **What a join asks for** (`FanOut.collect_onlyAsks`, `FanOut.cleanUp_onlyAsks`): to read outputs,
  to pause, and to clear places.
* **Reading and removing** (`FanOut.collect_performs`, `FanOut.cleanUp_performs`): the outputs are
  read without waiting, and what is removed is a list of places.
* **A join that finds a record** (`FanOut.recordCalls`, `FanOut.join_performs_record`): it gives the
  outputs that have been entered into the set, and null for the others.
* **Completeness** (`FanOut.Complete`): what the join needs to find all outputs.
* **The join** (`FanOut.joinCalls`, `FanOut.join_performs`): the calls of a join, wherever it stops;
  `FanOut.join_of_complete` and `FanOut.join_of_missing` in a world without faults.
-/

namespace Workflow.FanOut

/-! ## What a join asks for -/

section requests

variable {P : Request → Prop}

/-- To await an output is to read its key and to pause. -/
theorem awaitOutput_onlyAsks {settings : Settings} {key : String} (hget : P (.store (.get key)))
    (hsleep : P (.sleep settings.pollInterval)) (reads : Nat) :
    (awaitOutput settings key reads).run.OnlyAsks P := by
  induction reads with
  | zero => trivial
  | succ reads ih =>
    refine .bindFailing (call_onlyAsks hget) fun found => ?_
    cases found with
    | some output => trivial
    | none => exact ⟨hsleep, fun _ => ih⟩

/-- To gather outputs is to read their keys and to pause. -/
theorem collect_onlyAsks {settings : Settings} {keys : List String}
    (hget : ∀ key ∈ keys, P (.store (.get key))) (hsleep : P (.sleep settings.pollInterval))
    (finished : List String) : (collect settings finished keys).run.OnlyAsks P := by
  induction keys with
  | nil => trivial
  | cons key rest ih =>
    have hrest := ih fun key hkey => hget key (List.mem_cons_of_mem _ hkey)
    rw [collect]
    split
    · exact .bindFailing (awaitOutput_onlyAsks (hget key List.mem_cons_self) hsleep _) fun _ =>
        .bindFailing hrest fun _ => trivial
    · exact .bindFailing (.nothing _) fun _ => .bindFailing hrest fun _ => trivial

end requests

/-! ## Reading and removing -/

section parts

variable {w : World} {settings : Settings} {finished : List String} {store : Store}

/-- However many readings the settings allow, there is a first one. -/
theorem pollReads_eq_succ (settings : Settings) :
    settings.pollReads = settings.pollReads - 1 + 1 := by
  have hpos : 1 ≤ settings.pollReads := Nat.le_max_left _ _
  omega

/-- An output that is there is read at once. -/
theorem awaitOutput_performs (settings : Settings) {key : String} {output : Json}
    (h : w.store.content? (.value key) = some output) (reads : Nat) :
    w.Performs (awaitOutput settings key (reads + 1)).run [.get key] output [] := by
  have hreply : (w.store.perform (.get key)).1 = .ok (some output) := congrArg Except.ok h
  rw [awaitOutput]
  exact .callBind (by simp) hreply fun v _ => .done v output

/-- Outputs are read in order as long as those are there whose names are in the set; the others are
null. -/
theorem collect_performs (hstore : w.store = store) {keys : List String} {outputs : List Json}
    (h : List.Forall₂ (fun key output => if key ∈ finished
      then store.content? (.value key) = some output else output = .null) keys outputs) :
    w.Performs (collect settings finished keys).run ((keys.filter (· ∈ finished)).map .get) outputs
      [] := by
  induction h generalizing w with
  | nil => exact .done w []
  | @cons key output keys outputs hhead _ ih =>
    rw [collect]
    by_cases hmem : key ∈ finished
    · rw [if_pos hmem] at hhead
      have hawait := awaitOutput_performs settings (hstore ▸ hhead) (settings.pollReads - 1)
      rw [← pollReads_eq_succ] at hawait
      rw [if_pos hmem, List.filter_cons_of_pos (by simpa using hmem)]
      change w.Performs _ ([.get key] ++ (keys.filter (· ∈ finished)).map .get) _ _
      exact hawait.bindOk fun v hv => (ih (hv.store.trans hstore)).bindPure _
    · rw [if_neg hmem] at hhead
      obtain rfl := hhead
      rw [if_neg hmem, List.filter_cons_of_neg (by simpa using hmem)]
      exact (ih hstore).bindPure (.null :: ·)

/-- Deleting outputs is calls in a row. -/
theorem deleteOutputs_eq (keys : List String) :
    deleteOutputs keys = callAll ((keys.map Place.value).map Place.removal) := by
  induction keys with
  | nil => rfl
  | cons key rest ih =>
    rw [deleteOutputs, ih]
    rfl

/-- The places that a join removes. -/
def removed (record : FanOutRecord) (metadataKey : String) (consumed : List String) : List Place :=
  .counter record.counter :: .trigger (triggerKey record.counter) :: .value metadataKey ::
    (consumed.map Place.value ++ [.set record.outputSet])

/-- The removal is calls that clear these places. -/
theorem cleanUp_eq (record : FanOutRecord) (metadataKey : String) (consumed : List String) :
    cleanUp record metadataKey consumed =
      callAll ((removed record metadataKey consumed).map Place.removal) := by
  have hlast : callAll [.deleteSet record.outputSet] = call (.deleteSet record.outputSet) :=
    bind_pure_unit
  rw [cleanUp, deleteOutputs_eq, removed]
  simp only [List.map_cons, List.map_append, List.map_nil, Place.removal, callAll]
  rw [callAll_append, hlast]
  rfl

/-- To clean up is to clear the places that a join removes. -/
theorem cleanUp_onlyAsks {P : Request → Prop} {record : FanOutRecord} {metadataKey : String}
    {consumed : List String}
    (h : ∀ place ∈ removed record metadataKey consumed, P (.store place.removal)) :
    (cleanUp record metadataKey consumed).run.OnlyAsks P := by
  rw [cleanUp_eq]
  exact callAll_onlyAsks (List.forall_mem_map.mpr h)

/-- To clean up is to make the calls that clear the places that a join removes. -/
theorem cleanUp_performs (w : World) (record : FanOutRecord) (metadataKey : String)
    (consumed : List String) :
    w.Performs (cleanUp record metadataKey consumed).run
      ((removed record metadataKey consumed).map Place.removal) () [] := by
  rw [cleanUp_eq]
  refine .callAll fun c hc => ?_
  obtain ⟨place, -, rfl⟩ := List.mem_map.mp hc
  exact place.removal_ne_increment

/-- What a state hands on when it goes on with a value. -/
def handedOn (d : Definition) (value : Json) : List Dispatch :=
  (d.body.next.map fun next => ⟨next, value⟩).toList
    ++ if d.body.isEnd then [⟨endTarget, value⟩] else []

/-- Whatever follows is handed to the scheduler. -/
theorem proceed_eq (d : Definition) (value : Json) :
    proceed d value = handAll (handedOn d value) := by
  rw [proceed, handedOn]
  cases d.body.next <;> cases d.body.isEnd <;> rfl

end parts

/-! ## A join that finds a record -/

/-- The calls of a join that finds a record: it reads the metadata, the set, and the outputs whose
names are in the set; the final one clears the places of what it has read. -/
def recordCalls (record : FanOutRecord) (metadataKey : String) (finished : List String)
    (isFinal : Bool) : List StoreCall :=
  .get metadataKey :: .members record.outputSet ::
    ((record.branchOutputs.filter (· ∈ finished)).map .get ++
      if isFinal then
        (removed record metadataKey (record.branchOutputs.filter (· ∈ finished))).map Place.removal
      else [])

/-- What holds of the name and the output of every branch holds along the record. -/
theorem forall₂_branchOutputs {n : Nat} {run : Run} {outputs : Fin n → Json}
    {R : String → Json → Prop} (h : ∀ i : Fin n, R (run.keys.branchOutput (i + 1)) (outputs i)) :
    List.Forall₂ R (FanOutRecord.make run n).branchOutputs (List.ofFn outputs) := by
  refine List.forall₂_iff_get.mpr ⟨by simp [FanOutRecord.make], fun i hleft hright => ?_⟩
  have hi : i < n := by simpa using hright
  have hkey : (FanOutRecord.make run n).branchOutputs.get ⟨i, hleft⟩ =
      run.keys.branchOutput (i + 1) := by simp [FanOutRecord.make]
  have houtput : (List.ofFn outputs).get ⟨i, hright⟩ = outputs ⟨i, hi⟩ := by simp
  rw [hkey, houtput]
  exact h ⟨i, hi⟩

/-- A join that finds a record, and some outputs, makes these calls, hands the outputs on and gives
them, null standing for the outputs whose names are not in the set. -/
theorem join_performs_record {w : World} {d : Definition} (settings : Settings)
    {trigger : JoinTrigger} {stored : Json} {record : FanOutRecord} {outputs : List Json}
    (hstored : w.store.content? (.value trigger.metadataKey) = some stored)
    (hrecord : storedRecord d trigger stored = .ok record)
    (hfinished : ¬(w.store.membersOf record.outputSet).isEmpty = true)
    (houtputs : List.Forall₂ (fun key output => if key ∈ w.store.membersOf record.outputSet
      then w.store.content? (.value key) = some output else output = .null) record.branchOutputs
      outputs) :
    w.Performs (join settings d trigger).run
      (recordCalls record trigger.metadataKey (w.store.membersOf record.outputSet)
        (trigger.counterValue.natAbs == record.threshold))
      (.joined outputs (trigger.counterValue.natAbs == record.threshold))
      (handedOn d (.array outputs)) := by
  have hreply : (w.store.perform (.get trigger.metadataKey)).1 = .ok (some stored) :=
    congrArg Except.ok hstored
  unfold join
  refine .callBind (by simp) hreply fun v₁ h₁ => ?_
  have hv₁ : v₁.store = w.store := h₁.store
  simp only [hrecord, Activity.run_lift_bind_ok]
  refine .callBind (by simp) rfl fun v₂ h₂ => ?_
  have hv₂ : v₂.store = w.store := h₂.store.trans hv₁
  rw [hv₁, if_neg hfinished]
  refine (collect_performs hv₂ houtputs).bindOk fun v₃ _ => ?_
  by_cases hfinal : (trigger.counterValue.natAbs == record.threshold) = true
  · rw [if_pos hfinal, if_pos hfinal, ← List.append_nil (List.map _ (removed _ _ _))]
    refine (cleanUp_performs v₃ _ _ _).bindOk fun v₄ _ => ?_
    rw [proceed_eq]
    exact (World.Performs.handAll v₄ _).bindPure _
  · rw [if_neg hfinal, if_neg hfinal, proceed_eq]
    exact (World.Performs.handAll v₃ _).bindPure _

/-! ## Completeness -/

/-- The store holds all that the join of a fan-out needs to find: the metadata, and the outputs with
their names in the set. -/
structure Complete {n : Nat} (run : Run) (outputs : Fin n → Json) (store : Store) : Prop where
  metadata : store.content? (.value run.keys.metadata) = some run.metadata.toJson
  put : ∀ i : Fin n, store.content? (.value (run.keys.branchOutput (i + 1))) = some (outputs i)
  entered : ∀ i : Fin n, run.keys.branchOutput (i + 1) ∈ store.membersOf run.keys.outputSet

namespace Complete

variable {n : Nat} {run : Run} {outputs : Fin n → Json} {store : Store}

/-- Every name in the record is in the set, and its output is there. -/
theorem forall₂ (h : Complete run outputs store) :
    List.Forall₂ (fun key output =>
        key ∈ store.membersOf run.keys.outputSet ∧ store.content? (.value key) = some output)
      (FanOutRecord.make run n).branchOutputs (List.ofFn outputs) :=
  forall₂_branchOutputs fun i => ⟨h.entered i, h.put i⟩

/-- The join of a complete fan-out finds the outputs of all its branches entered. -/
theorem consumed_eq (h : Complete run outputs store) :
    ((FanOutRecord.make run n).branchOutputs.filter
      (· ∈ store.membersOf run.keys.outputSet)) = (FanOutRecord.make run n).branchOutputs := by
  refine List.filter_eq_self.mpr fun key hkey => ?_
  obtain ⟨index, hindex, rfl⟩ := List.mem_map.mp hkey
  exact decide_eq_true (h.entered ⟨index, List.mem_range.mp hindex⟩)

/-- The set of a complete fan-out has members, if the fan-out has branches. -/
theorem finished (h : Complete run outputs store) (hn : 0 < n) :
    ¬(store.membersOf run.keys.outputSet).isEmpty = true := by
  intro hempty
  have hmem := h.entered ⟨0, hn⟩
  rw [List.isEmpty_iff.mp hempty] at hmem
  exact absurd hmem List.not_mem_nil

end Complete

/-- What a join removes when all branches have finished are the places of the fan-out. -/
theorem mem_removed_make (run : Run) (n : Nat) (place : Place) :
    place ∈ removed (.make run n) run.keys.metadata (FanOutRecord.make run n).branchOutputs ↔
      place ∈ run.keys.places n := by
  have houtputs : (FanOutRecord.make run n).branchOutputs.map Place.value =
      run.keys.outputPlaces n := List.map_map
  rw [removed, houtputs, FanOutKeys.places, FanOutKeys.branchPlaces]
  simp only [List.mem_cons, List.mem_append, List.not_mem_nil, or_false]
  change place = .counter run.keys.counter ∨ place = .trigger run.keys.trigger ∨
    place = .value run.keys.metadata ∨ _ ∨ place = .set run.keys.outputSet ↔ _
  tauto

/-! ## The join -/

section join

variable {w : World} {d : Definition} {run : Run} {n : Nat} {outputs : Fin n → Json}

/-- The trigger of the join as it fires when all branches are counted. -/
def finalTrigger (run : Run) (n : Nat) : JoinTrigger :=
  { JoinTrigger.make run n with counterValue := n }

/-- What a join reads: the metadata, the set, and the outputs. -/
def readings (run : Run) (n : Nat) : List StoreCall :=
  .get run.keys.metadata :: .members run.keys.outputSet ::
    (FanOutRecord.make run n).branchOutputs.map .get

/-- The calls of the join of a complete fan-out: it reads everything, and then clears all places of
the fan-out. -/
def joinCalls (run : Run) (n : Nat) : List StoreCall :=
  readings run n ++
    (removed (.make run n) run.keys.metadata (FanOutRecord.make run n).branchOutputs).map
      Place.removal

/-- Readings change nothing, so that the calls leave the store without the places of the fan-out. -/
theorem performAll_joinCalls (s : Store) (run : Run) (n : Nat) :
    s.performAll (joinCalls run n) = s.without (run.keys.places n) := by
  have hreadings : s.performAll (readings run n) = s := by
    refine Store.performAll_of_readings fun c hc => ?_
    simp only [readings, List.mem_cons, List.mem_map] at hc
    rcases hc with rfl | rfl | ⟨key, -, rfl⟩ <;> rfl
  rw [joinCalls, Store.performAll_append, hreadings, Place.performAll_removals]
  exact Store.without_congr (mem_removed_make run n)

/-- The metadata that a run has put for its join are read back, with the record of the fan-out. -/
theorem storedRecord_toJson (hsound : run.metadata.Sound)
    (hrecord : run.metadata.fanOut? d.name run.executionId = some (.make run n)) :
    storedRecord d (finalTrigger run n) run.metadata.toJson = .ok (.make run n) := by
  have hfound : run.metadata.fanOut? d.name (finalTrigger run n).executionId =
      some (.make run n) := hrecord
  simp only [storedRecord, Metadata.ofJson?_toJson hsound, hfound]

/-- The final trigger is that of a final join. -/
theorem isFinal_finalTrigger (run : Run) (n : Nat) :
    ((finalTrigger run n).counterValue.natAbs == (FanOutRecord.make run n).threshold) = true := by
  simp [finalTrigger, FanOutRecord.make, FanOutRecord.threshold]

/-- The join of a complete fan-out makes these calls, hands the outputs on and gives them; or it
stops at one of the calls, and has handed over nothing. -/
theorem join_performs (settings : Settings) (hn : 0 < n) (hsound : run.metadata.Sound)
    (hrecord : run.metadata.fanOut? d.name run.executionId = some (.make run n))
    (h : Complete run outputs w.store) :
    w.Performs (join settings d (finalTrigger run n)).run (joinCalls run n)
      (.joined (List.ofFn outputs) true) (handedOn d (.array (List.ofFn outputs))) := by
  have hconsumed : ((FanOutRecord.make run n).branchOutputs.filter
      (· ∈ w.store.membersOf (FanOutRecord.make run n).outputSet)) =
        (FanOutRecord.make run n).branchOutputs := h.consumed_eq
  have hperforms := join_performs_record settings h.metadata (storedRecord_toJson hsound hrecord)
    (h.finished hn) (h.forall₂.imp fun key output hfound => Eq.mpr (if_pos hfound.1) hfound.2)
  rw [isFinal_finalTrigger, recordCalls, hconsumed] at hperforms
  exact hperforms

/-- The join of a complete fan-out gives its outputs, hands them on, and leaves nothing behind. -/
theorem join_of_complete (settings : Settings) (hw : w.faults = []) (hn : 0 < n)
    (hsound : run.metadata.Sound)
    (hrecord : run.metadata.fanOut? d.name run.executionId = some (.make run n))
    (h : Complete run outputs w.store) :
    w.Yields (join settings d (finalTrigger run n)).run (.ok (.joined (List.ofFn outputs) true))
      (w.store.without (run.keys.places n)) (handedOn d (.array (List.ofFn outputs))) := by
  rw [← performAll_joinCalls]
  exact (join_performs settings hn hsound hrecord h).yields hw

/-- A join that finds no metadata has nothing to do. -/
theorem join_of_missing (settings : Settings) (hw : w.faults = []) (trigger : JoinTrigger)
    (h : w.store.content? (.value trigger.metadataKey) = none) :
    w.Yields (join settings d trigger).run (.ok .alreadyJoined) w.store [] := by
  have hreply : (w.store.perform (.get trigger.metadataKey)).1 = .ok none :=
    congrArg Except.ok h
  have hperforms : w.Performs (join settings d trigger).run [.get trigger.metadataKey]
      .alreadyJoined [] := by
    unfold join
    exact .callBind (by simp) hreply fun v _ => .done v _
  exact hperforms.yields hw

end join

end Workflow.FanOut
