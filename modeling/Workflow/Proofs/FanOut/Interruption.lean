import Workflow.Proofs.FanOut.Agreement

/-!
# A join that is interrupted

The final join of a fan-out clears its places one after the other before it hands the outputs on,
and the metadata, by which a later join tells whether there is anything left to join, are neither
the first of them nor the last. So it depends on where a join is stopped whether the next one takes
it up again.

* **Before and after** (`FanOut.openCalls`, `FanOut.closedCalls`): the calls of a join up to the
  removal of the metadata, and those behind it.
* **What an interruption leaves** (`FanOut.complete_of_open`, `FanOut.missing_of_closed`): as long
  as the metadata stand, everything does that a join needs; after that, a join finds nothing.
* **The next join** (`FanOut.interrupted_join_resumes_iff`).
-/

namespace Workflow.FanOut

/-! ## Before and after -/

/-- The calls of a join before the metadata are removed. -/
def preparations (run : Run) (n : Nat) : List StoreCall :=
  readings run n ++ [.deleteCounter run.keys.counter, .deleteTrigger run.keys.trigger]

/-- The calls of a join up to the removal of the metadata. -/
def openCalls (run : Run) (n : Nat) : List StoreCall :=
  preparations run n ++ [.delete run.keys.metadata]

/-- The calls of a join after the removal of the metadata. -/
def closedCalls (run : Run) (n : Nat) : List StoreCall :=
  (FanOutRecord.make run n).branchOutputs.map .delete ++ [.deleteSet run.keys.outputSet]

/-- The calls of a join are those up to the removal of the metadata, and those after it. -/
theorem joinCalls_eq (run : Run) (n : Nat) :
    joinCalls run n = openCalls run n ++ closedCalls run n := by
  have hremoved : (removed (.make run n) run.keys.metadata
      (FanOutRecord.make run n).branchOutputs).map Place.removal =
        .deleteCounter run.keys.counter :: .deleteTrigger run.keys.trigger ::
          .delete run.keys.metadata :: closedCalls run n := by
    rw [removed, closedCalls, List.map_cons, List.map_cons, List.map_cons, List.map_append,
      List.map_map]
    rfl
  rw [joinCalls, hremoved, openCalls, preparations]
  simp

section interruption

variable {run : Run} {n : Nat} {outputs : Fin n → Json} {store : Store} {c : StoreCall}

/-- A call that is made after the removal of the metadata is about an output or the set. -/
theorem place?_of_mem_closedCalls (h : c ∈ closedCalls run n) :
    c.place? ≠ some (.value run.keys.metadata) := by
  simp only [closedCalls, FanOutRecord.make, List.map_map, List.mem_append, List.mem_map,
    List.mem_singleton] at h
  rcases h with ⟨index, -, rfl⟩ | rfl
  · intro hplace
    exact run.keys.branchOutput_ne_metadata run.keys (index + 1)
      (Place.value.inj (Option.some.inj hplace))
  · simp [StoreCall.place?]

/-- No call of a join is made both up to the removal of the metadata and after it. -/
theorem not_mem_closedCalls (h : c ∈ openCalls run n) : c ∉ closedCalls run n := by
  intro hclosed
  rcases List.mem_append.mp h with h | h
  · simp only [closedCalls, List.mem_append, List.mem_map, List.mem_singleton] at hclosed
    simp only [preparations, readings, List.mem_append, List.mem_cons, List.mem_map,
      List.not_mem_nil, or_false] at h
    rcases hclosed with ⟨key, -, rfl⟩ | rfl <;> simp at h
  · obtain rfl := List.mem_singleton.mp h
    exact place?_of_mem_closedCalls hclosed rfl

/-- Up to the removal of the metadata a join changes the counter and the trigger only. -/
theorem place?_of_mem_preparations (h : c ∈ preparations run n) :
    c.place? = none ∨ c.place? = some (.counter run.keys.counter) ∨
      c.place? = some (.trigger run.keys.trigger) := by
  simp only [preparations, readings, List.mem_append, List.mem_cons, List.mem_map, List.not_mem_nil,
    or_false] at h
  rcases h with (rfl | rfl | ⟨key, -, rfl⟩) | rfl | rfl <;> simp [StoreCall.place?]

/-- Where a join is stopped decides which calls it has made before. -/
theorem calls_before {before after : List StoreCall}
    (h : joinCalls run n = before ++ c :: after) :
    (c ∈ openCalls run n ∧ ∀ made ∈ before, made ∈ preparations run n) ∨
      c ∉ openCalls run n ∧
        ∃ more, before = openCalls run n ++ more ∧ ∀ made ∈ more, made ∈ closedCalls run n := by
  rw [joinCalls_eq] at h
  rcases List.append_eq_append_iff.mp h with ⟨more, hbefore, hclosed⟩ | ⟨rest, hopen, hafter⟩
  · have hc : c ∈ closedCalls run n := hclosed ▸ List.mem_append_right _ List.mem_cons_self
    refine .inr ⟨fun hopen => not_mem_closedCalls hopen hc, more, hbefore, fun made hmade => ?_⟩
    exact hclosed ▸ List.mem_append_left _ hmade
  · cases rest with
    | nil =>
      -- The join is stopped at the first call behind the removal of the metadata.
      have hc : c ∈ closedCalls run n := by
        rw [← List.nil_append (closedCalls run n), ← hafter]
        exact List.mem_cons_self
      refine .inr ⟨fun hopen => not_mem_closedCalls hopen hc, [], ?_, by simp⟩
      rw [hopen, List.append_nil, List.append_nil]
    | cons head rest =>
      obtain ⟨rfl, -⟩ := List.cons.inj hafter
      refine .inl ⟨hopen ▸ List.mem_append_right _ List.mem_cons_self, fun made hmade => ?_⟩
      have hprepared : preparations run n = before ++ (c :: rest).dropLast := by
        rw [← List.dropLast_append_of_ne_nil (List.cons_ne_nil c rest), ← hopen, openCalls,
          List.dropLast_concat]
      rw [hprepared]
      exact List.mem_append_left _ hmade

/-! ## What an interruption leaves -/

/-- What a fan-out needs for its join stands at its own places. -/
theorem Complete.congr (h : Complete run outputs store) {later : Store}
    (hagree : ∀ place ∈ run.keys.places n, later.content? place = store.content? place) :
    Complete run outputs later where
  metadata := (hagree _ FanOutKeys.metadata_mem_places).trans h.metadata
  put i := (hagree _ (FanOutKeys.branchPlaces_subset (FanOutKeys.output_mem_branchPlaces i))).trans
    (h.put i)
  entered i := by
    have hset := hagree _ (FanOutKeys.branchPlaces_subset (FanOutKeys.outputSet_mem_branchPlaces))
    rw [Store.membersOf_eq, hset]
    exact h.entered i

/-- As long as the metadata stand, everything does that a join needs. -/
theorem complete_of_open (h : Complete run outputs store) {before : List StoreCall}
    (hbefore : ∀ c ∈ before, c ∈ preparations run n) :
    Complete run outputs (store.performAll before) := by
  have hkeep (place : Place) (hcounter : place ≠ .counter run.keys.counter)
      (htrigger : place ≠ .trigger run.keys.trigger) :
      (store.performAll before).content? place = store.content? place := by
    refine Store.content?_performAll_of_ne fun c hc hplace => ?_
    rcases place?_of_mem_preparations (hbefore c hc) with hnone | hplace' | hplace'
    · rw [hnone] at hplace
      cases hplace
    · exact hcounter (Option.some.inj (hplace.symm.trans hplace'))
    · exact htrigger (Option.some.inj (hplace.symm.trans hplace'))
  refine ⟨?_, fun i => ?_, fun i => ?_⟩
  · rw [hkeep _ (by simp) (by simp), h.metadata]
  · rw [hkeep _ (by simp) (by simp), h.put i]
  · rw [Store.membersOf_eq, hkeep _ (by simp) (by simp)]
    exact h.entered i

/-- Once the metadata are removed, they do not come back. -/
theorem missing_of_closed (store : Store) {more : List StoreCall}
    (hmore : ∀ c ∈ more, c ∈ closedCalls run n) :
    (store.performAll (openCalls run n ++ more)).content? (.value run.keys.metadata) = none := by
  rw [Store.performAll_append, openCalls, Store.performAll_append,
    Store.content?_performAll_of_ne fun c hc => place?_of_mem_closedCalls (hmore c hc)]
  exact Table.get?_remove_self _ _

end interruption

/-! ## The next join -/

/-- A final join of a complete fan-out that fails has handed nothing over. It was stopped at one of
its calls, and that decides about every later join: as long as nobody has touched the fan-out since,
it gives the outputs and hands them on if the call was one of those up to the removal of the
metadata; otherwise it finds the fan-out joined already and hands nothing on, so that the outputs
are lost. -/
theorem interrupted_join_resumes_iff {typeName name : String} {document : Json} {d : Definition}
    {run : Run} {w v : World} {outputs : Fin d.body.branches.length → Json} {failure : FanOutError}
    (hd : Definition.ofJson typeName name document = .ok d) (hkind : d.kind = .parallel)
    (hrun : run.Received) (settings : Settings) (hcomplete : Complete (enter d run) outputs w.store)
    (hfailed : w.perform (join settings d (finalTrigger run d.body.branches.length)).run =
      (.error failure, v)) :
    v.queue = w.queue ∧ ∃ c error, failure = .store error ∧
      v.journal.getLast? = some ⟨c, .error error⟩ ∧ c ∈ joinCalls run d.body.branches.length ∧
      ∀ (settings : Settings) (u : World), u.faults = [] →
        (∀ place ∈ run.keys.places d.body.branches.length,
          u.store.content? place = v.store.content? place) →
        let again := u.perform (join settings d (finalTrigger run d.body.branches.length)).run
        (c ∈ openCalls run d.body.branches.length →
          again.1 = .ok (.joined (List.ofFn outputs) true) ∧
            again.2.queue = u.queue ++ handedOn d (.array (List.ofFn outputs))) ∧
        (c ∉ openCalls run d.body.branches.length →
          again.1 = .ok .alreadyJoined ∧ again.2.queue = u.queue) := by
  have hpos := (Definition.branches_of_ofJson hd hkind).1
  have hsound := sound_enter hd hkind hrun.sound
  have hperforms := join_performs settings hpos hsound (fanOut?_enter d run) hcomplete
  cases hperforms with
  | @granted v' hgranted hv =>
    have hresult := congrArg Prod.fst (hgranted.symm.trans hfailed)
    cases hresult
  | @refused before after c e v' hfaulty hsplit hrefused hv hlast =>
    obtain ⟨hfailure, rfl⟩ := Prod.mk.inj (hfailed.symm.trans hrefused)
    change joinCalls run _ = _ at hsplit
    refine ⟨hv.queue.trans (List.append_nil _), c, e, Except.error.inj hfailure, hlast,
      hsplit ▸ List.mem_append_right _ List.mem_cons_self, fun settings u hu hagree => ?_⟩
    rcases calls_before hsplit with ⟨hopen, hbefore⟩ | ⟨hclosed, more, rfl, hmore⟩
    · refine ⟨fun _ => ?_, fun hnot => absurd hopen hnot⟩
      have hcomplete' : Complete (enter d run) outputs u.store := by
        refine Complete.congr ?_ hagree
        rw [hv.store]
        exact complete_of_open hcomplete hbefore
      obtain ⟨t, ht, hjoin⟩ := join_of_complete settings hu hpos hsound (fanOut?_enter d run)
        hcomplete'
      exact ⟨congrArg Prod.fst hjoin, (congrArg (·.2.queue) hjoin).trans ht.queue⟩
    · refine ⟨fun hopen => absurd hopen hclosed, fun _ => ?_⟩
      have hmissing : u.store.content? (.value run.keys.metadata) = none := by
        rw [hagree _ FanOutKeys.metadata_mem_places, hv.store]
        exact missing_of_closed w.store hmore
      obtain ⟨t, ht, hjoin⟩ := join_of_missing (d := d) settings hu
        (finalTrigger run d.body.branches.length) hmissing
      refine ⟨congrArg Prod.fst hjoin, (congrArg (·.2.queue) hjoin).trans ?_⟩
      rw [ht.queue, List.append_nil]

/-! ### Two branches -/

/-- A join of the outputs of `pair` that is refused a call. -/
def pairStopped (refused : Fault) : Except FanOutError JoinOutcome × World :=
  { pairFinished with faults := [refused] }.perform pairJoin

/-- A fault that strikes the removal of the counter. -/
def counterFault : Fault := { operation := "delete_counter", error := .backend "down" }

/-- A fault that strikes the removal of the first output. -/
def outputFault : Fault :=
  { operation := "delete", key := some (pairRun.keys.branchOutput 1), error := .backend "down" }

/-- A join that is stopped when it removes the counter can be made up for: the next one gives the
outputs. -/
theorem pair_join_resumes :
    (pairStopped counterFault).1 = .error (.store (.backend "down")) ∧
      ({ (pairStopped counterFault).2 with faults := [] }.perform pairJoin).1 =
        .ok (.joined [.nat 0, .nat 1] true) := by
  have hstopped : (pairStopped counterFault).1 = .error (.store (.backend "down")) := by
    decide +kernel
  have hcall : (pairStopped counterFault).2.journal.getLast?.map (·.call) =
      some (.deleteCounter pairRun.keys.counter) := by decide +kernel
  obtain ⟨-, c, e, -, hlast, -, hagain⟩ := interrupted_join_resumes_iff ofJson_pairDocument rfl
    (w := { pairFinished with faults := [counterFault] }) (.inl ⟨_, _, rfl⟩) {}
    complete_pairFinished (Prod.ext hstopped rfl)
  change (pairStopped counterFault).2.journal.getLast? = _ at hlast
  rw [hlast] at hcall
  obtain rfl : c = .deleteCounter pairRun.keys.counter := Option.some.inj hcall
  have hopen : .deleteCounter pairRun.keys.counter ∈ openCalls pairRun 2 := by decide +kernel
  exact ⟨hstopped,
    ((hagain {} { (pairStopped counterFault).2 with faults := [] } rfl fun _ _ => rfl).1 hopen).1⟩

/-- A join that is stopped when it removes the first output is the last that sees the outputs: the
next one reports that the fan-out has been joined, and nothing is ever handed on. -/
theorem pair_join_loses_outputs :
    let again := { (pairStopped outputFault).2 with faults := [] }.perform pairJoin
    (pairStopped outputFault).1 = .error (.store (.backend "down")) ∧
      again.1 = .ok .alreadyJoined ∧ again.2.queue = pairFinished.queue := by
  decide +kernel

end Workflow.FanOut
