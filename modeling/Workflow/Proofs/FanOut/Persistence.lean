import Workflow.Proofs.FanOut.Agreement

/-!
# Metadata that outlive their run

A run keeps its metadata while one state after the other is invoked; when branches are started, they
are put into the store, and the join has nothing but what it finds there. So they have to come back
as they were, and the record of the fan-out with them.

* **Metadata of runs** (`Metadata.Obtained`, `Metadata.Obtained.sound`): what a run can come by.
* **Entries of others** (`Metadata.Unreserved.exists_read_fanOut?`): a record is found again,
  whatever stands beside it under names that are not reserved.
* **From the start to the join** (`FanOut.stored_metadata_read_back`).
-/

namespace Workflow

namespace Metadata

/-! ## Metadata of runs -/

/-- The metadata that a run can come by: those without entries, or some that have been read; and
then the records of any number of fan-outs entered into them, whose numbers fit into words. -/
inductive Obtained : Metadata → Prop
  | empty : Obtained {}
  | read {v : Json} {m : Metadata} (accepted : ofJson? v = some m) : Obtained m
  | entered {m : Metadata} (before : Obtained m) (state executionId : String)
      {record : FanOutRecord} (inRange : record.InRange) :
      Obtained (m.setFanOut state executionId record)

variable {m : Metadata} {state executionId : String} {record : FanOutRecord}

/-- Metadata that a run can come by are sound. -/
theorem Obtained.sound (h : m.Obtained) : m.Sound := by
  induction h with
  | empty => exact sound_empty none false
  | read accepted => exact sound_of_ofJson? accepted
  | entered before state executionId inRange ih => exact ih.setFanOut state executionId inRange

/-! ## Entries of others -/

/-- What is entered under another name leaves the reserved names free. -/
theorem Unreserved.put (h : m.Unreserved) {name : String} (hname : isReserved name = false)
    (entry : MetadataEntry) : Unreserved { m with entries := m.entries.put name entry } := by
  intro reserved hreserved
  have hput := Table.get?_put m.entries name reserved entry
  have hne : reserved ≠ name := by
    rintro rfl
    rw [hreserved] at hname
    cases hname
  rw [if_neg hne] at hput
  exact hput.trans (h reserved hreserved)

/-- Metadata with a record are read back with the record, whatever other entries they have. -/
theorem Unreserved.exists_read_fanOut? (h : m.Unreserved)
    (hentry : m.fanOut? state executionId = some record) (hrecord : record.InRange) :
    ∃ read, ofJson? m.toJson = some read ∧ read.fanOut? state executionId = some record := by
  obtain ⟨read, hread, -⟩ := h.exists_read
  exact ⟨read, hread, fanOut?_of_ofJson?_toJson hread hentry hrecord⟩

end Metadata

/-! ## From the start to the join -/

namespace FanOut

/-- What a start has stored holds the record that it has made. -/
theorem storedRecord_enter {d : Definition} {run : Run}
    (hrun : run.metadata.Unreserved)
    (hbranches : d.body.branches.length < Word.count64) {trigger : JoinTrigger}
    (htrigger : trigger.executionId = run.executionId) :
    storedRecord d trigger (enter d run).metadata.toJson =
      .ok (.make run d.body.branches.length) := by
  have hunreserved : (enter d run).metadata.Unreserved :=
    hrun.put (Metadata.isReserved_fanOutKey d.name run.executionId) _
  obtain ⟨read, hread, hfound⟩ := hunreserved.exists_read_fanOut? (fanOut?_enter d run)
    (FanOutRecord.inRange_make (enter d run) hbranches)
  have hexecution : trigger.executionId = (enter d run).executionId := htrigger
  simp only [storedRecord, hread, hexecution, hfound]
  rfl

/-- Metadata that a run can come by are read back exactly as they were written. When the branches of
a Parallel state have been started, the metadata that the join finds in the store are those of the
run; and it finds the very record that was made for the branches, even if the metadata hold values
that a run could not have read, such as a value in the form of a record. -/
theorem stored_metadata_read_back :
    (∀ m : Metadata, m.Obtained → m.Unreserved ∧ Metadata.ofJson? m.toJson = some m) ∧
    ∀ (typeName name : String) (document input : Json) (d : Definition) (run : Run) (w w' : World),
      Definition.ofJson typeName name document = .ok d → d.kind = .parallel →
      run.metadata.Unreserved →
      w.perform (start d input (enter d run)).run = (.ok (), w') →
      ∃ stored, w'.store.content? (.value run.keys.metadata) = some stored ∧
        (∀ trigger : JoinTrigger, trigger.executionId = run.executionId →
          storedRecord d trigger stored = .ok (.make run d.body.branches.length)) ∧
        (run.metadata.Obtained →
          Metadata.ofJson? stored = some (enter d run).metadata) := by
  refine ⟨fun m hm => ⟨hm.sound.unreserved, Metadata.ofJson?_toJson hm.sound⟩, ?_⟩
  intro typeName name document input d run w w' hd hkind hrun hstart
  have hbranches := (Definition.branches_of_ofJson hd hkind).2
  refine ⟨(enter d run).metadata.toJson, (started_of_start hstart).metadata, ?_, ?_⟩
  · intro trigger htrigger
    exact storedRecord_enter hrun hbranches htrigger
  · intro hobtained
    exact Metadata.ofJson?_toJson (sound_enter hd hkind hobtained.sound)

/-- A run with a note that has the form of a record, entered as a value. -/
def notedRun : Run :=
  pairRun.withMetadata (pairRun.metadata.insert "caller"
    (FanOutRecord.make pairRun 1).toJson)

/-- The metadata of `pairDocument` are read back, and in `notedRun`, whose note has the form of a
record, the join finds the record of the branches. -/
theorem stored_metadata_read_back_noted :
    (∃ m, Metadata.ofJson? pairDocument = some m ∧ Metadata.ofJson? m.toJson = some m) ∧
    ∃ stored, (World.perform {} (start pair .null (enter pair notedRun)).run).2.store.content?
        (.value notedRun.keys.metadata) = some stored ∧
      storedRecord pair (finalTrigger notedRun 2) stored = .ok (.make notedRun 2) := by
  have hread : (Metadata.ofJson? pairDocument).isSome = true := by decide +kernel
  obtain ⟨m, hm⟩ := Option.isSome_iff_exists.mp hread
  refine ⟨⟨m, hm, (stored_metadata_read_back.1 m (.read hm)).2⟩, ?_⟩
  obtain ⟨w, hw⟩ := start_succeeds (w := {}) rfl pair .null (enter pair notedRun)
  have hunreserved : notedRun.metadata.Unreserved :=
    (Metadata.sound_empty none false).unreserved.put (show Metadata.isReserved "caller" = false by
      decide) _
  obtain ⟨stored, hstored, hrecord, -⟩ := stored_metadata_read_back.2 _ _ _ _ _ _ _ _
    ofJson_pairDocument rfl hunreserved hw
  rw [hw]
  exact ⟨stored, hstored, hrecord _ rfl⟩

end FanOut

end Workflow
