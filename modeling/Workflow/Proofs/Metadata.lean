import Workflow.Proofs.Json.Record
import Workflow.FanOut

/-!
# Metadata that are read back

A Parallel state puts the metadata of its run into the store, and the join reads them from there.
What has been read once, or made from nothing, is read back as it was written.

* **Records** (`FanOutRecord.InRange`, `FanOutRecord.ofJson?_toJson`): the record of a fan-out is
  read back if its numbers fit into words, as those of every record do that has been read.
* **Metadata** (`Metadata.Unreserved.exists_read`, `Metadata.ofJson?_toJson`): metadata can be read
  back if no entry has the name of a reserved field, and are read back as they were if every entry
  is one that could have been read. The record of a fan-out is not lost in any case
  (`Metadata.fanOut?_of_ofJson?_toJson`).
* **Runs** (`Run.Received`, `Run.Received.sound`): the metadata of runs are sound, whether the run
  was made or read, and stay so when a fan-out is entered (`Metadata.Sound.setFanOut`).
-/

namespace Workflow

/-! ## Records -/

namespace FanOutRecord

/-- The numbers of a record fit into words. -/
def InRange (r : FanOutRecord) : Prop :=
  (∀ k ∈ r.thresholds, k < Word.count64) ∧ r.totalBranches < Word.count64

/-- No two fields of a record have the same name. -/
theorem nodup_fields (r : FanOutRecord) : (r.fields.map (·.1)).Nodup := by
  cases hendpoint : r.endpoint with
  | none => simp [fields, hendpoint, Json.optionField]
  | some endpoint => simp [fields, hendpoint, Json.optionField]

/-- A record is read back as it was written. -/
theorem ofJson?_toJson {r : FanOutRecord} (h : r.InRange) : ofJson? r.toJson = some r := by
  have hget (name : String) : Entries.get? name (Entries.ofList r.fields) =
      Entries.get? name r.fields := Entries.get?_ofList_of_nodup r.nodup_fields name
  have hendpoint : Json.optional (Entries.ofList r.fields) "Endpoint" Json.string? =
      some r.endpoint := by
    refine Json.optional_eq .string ?_ (fun _ _ => rfl) fun _ h => by cases h
    rw [hget, fields, Entries.get?_append, Json.get?_optionField]
    simp [Entries.get?_cons]
  have hkeys : Json.list? Json.string? (.strings r.branchOutputs) = some r.branchOutputs :=
    Json.list?_map fun _ _ => rfl
  have hthresholds : Json.list? (Json.natBelow? Word.count64) (.array (r.thresholds.map .nat)) =
      some r.thresholds := Json.list?_map fun k hk => Json.natBelow?_nat (h.1 k hk)
  have htotal := Json.natBelow?_nat h.2
  simp only [ofJson?, toJson, Json.recordFields?_record, bind, Option.bind_some, hendpoint]
  simp only [Json.required, hget]
  simp [fields, Entries.get?_cons, hkeys, hthresholds, htotal, Json.string?]

/-- What has been read is in range. -/
theorem inRange_of_ofJson? {v : Json} {r : FanOutRecord} (h : ofJson? v = some r) : r.InRange := by
  simp only [ofJson?, Json.required, bind, pure, Option.bind_eq_some_iff, Option.some.injEq] at h
  obtain ⟨fields, -, counter, -, outputs, -, set, -, thresholds, ⟨list, -, hthresholds⟩, total,
    ⟨number, -, htotal⟩, execution, -, topic, -, endpoint, -, rfl⟩ := h
  refine ⟨fun k hk => ?_, Json.lt_of_natBelow? htotal⟩
  obtain ⟨x, hx⟩ := Json.list?_eq_some hthresholds k hk
  exact Json.lt_of_natBelow? hx

/-- The record that a run makes of a fan-out is in range. -/
theorem inRange_make (run : Run) {n : Nat} (h : n < Word.count64) : (make run n).InRange :=
  ⟨fun _ hk => (List.mem_singleton.mp hk) ▸ h, h⟩

end FanOutRecord

/-! ## Metadata -/

/-- An entry that is read back as it was written. -/
def MetadataEntry.Sound (entry : MetadataEntry) : Prop := ofJson entry.toJson = entry

/-- Every entry that has been read is sound. -/
theorem MetadataEntry.sound_ofJson (v : Json) : (ofJson v).Sound := by
  cases hread : FanOutRecord.ofJson? v with
  | none => simp only [Sound, ofJson, hread, toJson]
  | some r =>
    have hback := FanOutRecord.ofJson?_toJson (FanOutRecord.inRange_of_ofJson? hread)
    simp only [Sound, ofJson, hread, toJson, hback]

namespace Metadata

/-- Metadata all of whose entries have names of their own and are sound. -/
def Sound (m : Metadata) : Prop :=
  ∀ name entry, m.get? name = some entry → isReserved name = false ∧ entry.Sound

/-- No entry has the name of a reserved field. -/
def Unreserved (m : Metadata) : Prop := ∀ name, isReserved name = true → m.get? name = none

/-- Metadata that are read back have no entry with the name of a reserved field. -/
theorem Sound.unreserved {m : Metadata} (h : m.Sound) : m.Unreserved := by
  intro name hname
  cases hget : m.get? name with
  | none => rfl
  | some entry =>
    have hfree := (h name entry hget).1
    rw [hname] at hfree
    cases hfree

/-- What is read from fields under a name that is not reserved. -/
theorem get?_ofFields {fields : List (String × Json)} (h : Ascending fields) (name : String) :
    Table.get? (.ofList ((fields.filter fun field => !isReserved field.1).map
        fun (k, x) => (k, MetadataEntry.ofJson x))) name =
      if isReserved name = false then (Entries.get? name fields).map MetadataEntry.ofJson
      else none := by
  rw [Table.get?_ofList, Entries.get?_reverse (Entries.ascending_map _
    (Entries.ascending_filter (fun field => !isReserved field.1) h)), Entries.get?_map,
    Entries.get?_filter fun name => !isReserved name]
  cases hreserved : isReserved name <;> rfl

/-- A name that is not reserved is neither of the reserved ones. -/
theorem ne_of_not_isReserved {name : String} (h : isReserved name = false) :
    name ≠ actionField ∧ name ≠ asyncField := by
  refine ⟨?_, ?_⟩ <;> rintro rfl <;> revert h <;> decide

namespace Unreserved

variable {m : Metadata}

/-- No two fields of metadata have the same name, if no entry has that of a reserved field. -/
theorem nodup_fields (h : m.Unreserved) : (m.fields.map (·.1)).Nodup := by
  have hkeys : ∀ name, isReserved name = true → name ∉ m.entries.keys := by
    intro name hname hmem
    have hsome := (Table.mem_keys m.entries name).mp hmem
    have hnone : m.entries.get? name = none := h name hname
    rw [hnone] at hsome
    cases hsome
  have hnodup : m.entries.keys.Nodup := Entries.nodup_keys m.entries.ascending
  have hrest : (asyncField :: m.entries.keys).Nodup :=
    List.nodup_cons.mpr ⟨hkeys asyncField (by decide), hnodup⟩
  -- the names of the entries are the keys of their table
  rw [fields, List.map_append, List.map_append, List.map_map]
  cases m.action with
  | none => exact hrest
  | some action =>
    refine List.nodup_cons.mpr ⟨fun hmem => ?_, hrest⟩
    rcases List.mem_cons.mp hmem with heq | hmem
    · exact absurd heq (show actionField ≠ asyncField by decide)
    · exact hkeys actionField (by decide) hmem

/-- What is written under a name: one of the reserved fields, or an entry. -/
theorem get?_fields (h : m.Unreserved) (name : String) :
    Entries.get? name (Entries.ofList m.fields) =
      if name = actionField then m.action.map StateAction.toJson
      else if name = asyncField then some (.bool m.isAsync)
      else (m.get? name).map MetadataEntry.toJson := by
  have hentry : Entries.get? name m.entries.entries = m.get? name := rfl
  rw [Entries.get?_ofList_of_nodup h.nodup_fields, fields, Entries.get?_append,
    Entries.get?_append, Json.get?_optionField, Entries.get?_cons, Entries.get?_map, hentry]
  by_cases haction : name = actionField
  · subst haction
    have hne : actionField ≠ asyncField := by decide
    rw [h _ (by decide)]
    simp [hne]
  · by_cases hasync : name = asyncField
    · subst hasync
      simp [haction]
    · simp [haction, hasync]

/-- An entry is written under its name, and nothing else is. -/
theorem field?_toJson (h : m.Unreserved) {name : String} (hname : isReserved name = false) :
    m.toJson.field? name = (m.get? name).map MetadataEntry.toJson := by
  obtain ⟨haction, hasync⟩ := ne_of_not_isReserved hname
  have hfields := h.get?_fields name
  rw [if_neg haction, if_neg hasync] at hfields
  exact hfields

/-- Metadata are read back, and every entry as what it is written as. -/
theorem exists_read (h : m.Unreserved) :
    ∃ read, ofJson? m.toJson = some read ∧ read.action = m.action ∧ read.isAsync = m.isAsync ∧
      ∀ name, read.get? name = (m.get? name).map fun entry => .ofJson entry.toJson := by
  have haction : Json.optional (Entries.ofList m.fields) actionField StateAction.ofJson? =
      some m.action := by
    refine Json.optional_eq StateAction.toJson ?_ ?_ fun _ h => by cases h
    · rw [h.get?_fields, if_pos rfl]
    · intro action _
      cases action <;> rfl
  have hasync : Json.withDefault (Entries.ofList m.fields) asyncField Json.bool? false =
      some m.isAsync := by
    refine Json.withDefault_eq (v := .bool m.isAsync) ?_ false
    rw [h.get?_fields, if_neg (by decide), if_pos rfl]
  have hfields : m.toJson = .object (Entries.ofList m.fields) := rfl
  rw [hfields, ofJson?]
  simp only [Json.object?, bind, pure, Option.bind_some, haction, hasync]
  refine ⟨_, rfl, rfl, rfl, fun name => ?_⟩
  rw [get?, get?_ofFields (Entries.ascending_ofList m.fields)]
  cases hreserved : isReserved name with
  | true => rw [h name hreserved, if_neg (by decide), Option.map_none]
  | false =>
    obtain ⟨haction, hasync⟩ := ne_of_not_isReserved hreserved
    rw [if_pos rfl, h.get?_fields, if_neg haction, if_neg hasync, Option.map_map]
    rfl

end Unreserved

/-- Sound metadata are read back as they were written. -/
theorem ofJson?_toJson {m : Metadata} (h : m.Sound) : ofJson? m.toJson = some m := by
  obtain ⟨read, hread, haction, hasync, hget⟩ := h.unreserved.exists_read
  have hentries : read.entries = m.entries := by
    refine Table.ext_get? fun name => (hget name).trans ?_
    cases hentry : m.get? name with
    | none => exact hentry.symm
    | some entry => exact (congrArg some (h name entry hentry).2).trans hentry.symm
  have hsame : read = m := by
    cases read
    cases m
    rw [mk.injEq]
    exact ⟨haction, hasync, hentries⟩
  rw [hread, hsame]

/-- Metadata that have been read are sound. -/
theorem sound_of_ofJson? {v : Json} {m : Metadata} (h : ofJson? v = some m) : m.Sound := by
  simp only [ofJson?, bind, pure, Option.bind_eq_some_iff, Option.some.injEq] at h
  obtain ⟨fields, -, action, -, isAsync, -, rfl⟩ := h
  intro name entry hget
  have hlist := hget
  rw [get?, Table.get?_ofList] at hlist
  obtain ⟨⟨k, x⟩, hmem, heq⟩ := List.mem_map.mp (List.mem_reverse.mp (Entries.mem_of_get? hlist))
  cases heq
  obtain ⟨-, hfree⟩ := List.mem_filter.mp hmem
  exact ⟨by simpa using hfree, MetadataEntry.sound_ofJson x⟩

/-- Metadata without entries are sound. -/
theorem sound_empty (action : Option StateAction) (isAsync : Bool) :
    Sound { action, isAsync } := by
  intro name entry hget
  cases hget

/-- The name of a record is not that of a reserved field. -/
theorem isReserved_fanOutKey (state executionId : String) :
    isReserved (fanOutKey state executionId) = false := by
  have hlast : (fanOutKey state executionId).toList.getLast? = some 'o' := by
    rw [fanOutKey, String.toList_append, List.getLast?_append]
    rfl
  have haction : fanOutKey state executionId ≠ actionField := by
    intro h
    rw [h] at hlast
    revert hlast
    decide
  have hasync : fanOutKey state executionId ≠ asyncField := by
    intro h
    rw [h] at hlast
    revert hlast
    decide
  simp [isReserved, haction, hasync]

/-- Entering the record of a fan-out leaves metadata sound. -/
theorem Sound.setFanOut {m : Metadata} (h : m.Sound) (state executionId : String)
    {record : FanOutRecord} (hrecord : record.InRange) :
    (m.setFanOut state executionId record).Sound := by
  intro name entry hget
  have hput := Table.get?_put m.entries (fanOutKey state executionId) name (.fanOut record)
  rw [show (m.entries.put (fanOutKey state executionId) (.fanOut record)).get? name = some entry
    from hget] at hput
  split at hput
  case isTrue heq =>
    cases hput
    refine ⟨heq ▸ isReserved_fanOutKey state executionId, ?_⟩
    simp only [MetadataEntry.Sound, MetadataEntry.ofJson, MetadataEntry.toJson,
      FanOutRecord.ofJson?_toJson hrecord]
  case isFalse => exact h name entry hput.symm

/-- If metadata can be read back at all, a record in them is found again, whatever else they hold:
an entry that is no record, or one with the name of a reserved field. -/
theorem fanOut?_of_ofJson?_toJson {m read : Metadata} {state executionId : String}
    {record : FanOutRecord} (hread : ofJson? m.toJson = some read)
    (hentry : m.fanOut? state executionId = some record) (hrecord : record.InRange) :
    read.fanOut? state executionId = some record := by
  have hfields : m.toJson = .object (Entries.ofList m.fields) := rfl
  rw [hfields, ofJson?] at hread
  simp only [Json.object?, bind, pure, Option.bind_some, Option.bind_eq_some_iff,
    Option.some.injEq] at hread
  obtain ⟨action, -, isAsync, -, hread⟩ := hread
  have hget : m.get? (fanOutKey state executionId) = some (.fanOut record) := by
    unfold fanOut? at hentry
    split at hentry
    case h_1 found hfound =>
      rw [hfound, Option.some.inj hentry]
    case h_2 => cases hentry
  -- Names may stand twice among the fields, but the entries come last.
  have hwritten : Entries.get? (fanOutKey state executionId) (Entries.ofList m.fields) =
      some record.toJson := by
    rw [Entries.get?_ofList, fields, List.reverse_append, Entries.get?_append,
      Entries.get?_reverse (Entries.ascending_map _ m.entries.ascending), Entries.get?_map,
      show Entries.get? (fanOutKey state executionId) m.entries.entries = _ from hget]
    rfl
  have hback : MetadataEntry.ofJson record.toJson = .fanOut record := by
    simp only [MetadataEntry.ofJson, FanOutRecord.ofJson?_toJson hrecord]
  have hfound : read.get? (fanOutKey state executionId) = some (.fanOut record) := by
    rw [← hread, get?, get?_ofFields (Entries.ascending_ofList m.fields), hwritten,
      if_pos (isReserved_fanOutKey state executionId)]
    exact congrArg some hback
  rw [fanOut?, hfound]

/-- The record that was entered is found. -/
theorem fanOut?_setFanOut (m : Metadata) (state executionId : String) (record : FanOutRecord) :
    (m.setFanOut state executionId record).fanOut? state executionId = some record := by
  simp [fanOut?, setFanOut, get?]

end Metadata

/-! ## Runs -/

/-- The run was made, or read from a document. -/
def Run.Received (run : Run) : Prop :=
  (∃ executionId topic, run = .make executionId topic) ∨ ∃ v, Run.ofJson? v = some run

/-- The metadata of a run that was made or read are sound. -/
theorem Run.Received.sound {run : Run} (h : run.Received) : run.metadata.Sound := by
  rcases h with ⟨executionId, topic, rfl⟩ | ⟨v, h⟩
  · exact Metadata.sound_empty none false
  · simp only [Run.ofJson?, bind, pure, Option.bind_eq_some_iff, Option.some.injEq] at h
    obtain ⟨fields, -, executionId, -, topic, -, endpoint, -, metadata, hmetadata, rfl⟩ := h
    rw [Json.withDefault] at hmetadata
    split at hmetadata
    · cases hmetadata
      exact Metadata.sound_empty none false
    · exact Metadata.sound_of_ofJson? hmetadata

end Workflow
