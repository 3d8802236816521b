import Workflow.Proofs.Metadata

/-!
# Entries that are kept as they are

Metadata hold entries of any name, and give them back under their names when they are written
again. An entry that can be read as the record of a fan-out is written as one, whatever its name is
and however it was written before: as an array, with further fields, or with null for a field that
has no value. All other entries are kept as they are.

* **Records** (`Json.IsPlainRecord`, `FanOutRecord.toJson_eq_iff`): a document that can be read as a
  record is what the record is written as exactly if it is an object with no other fields and no
  null.
* **Entries** (`MetadataEntry.toJson_ofJson_eq_iff`): what becomes of one entry.
* **Metadata** (`Metadata.get?_of_ofJson?`, `Metadata.entry_kept_iff`): what becomes of an entry
  when metadata are read and written again.
-/

namespace Workflow

/-- A document that is an object with no fields but those of a record; the field that may be absent
is absent rather than null. -/
structure Json.IsPlainRecord (v : Json) : Prop where
  isObject : v.object?.isSome
  known : ∀ name, name ∉ FanOutRecord.fieldNames → v.field? name = none
  notNull : v.field? "Endpoint" ≠ some .null

/-! ## Records -/

namespace FanOutRecord

/-- A record is written with the fields of a record only. -/
theorem get?_fields_of_notMem (r : FanOutRecord) {name : String} (h : name ∉ fieldNames) :
    Entries.get? name r.fields = none := by
  simp only [fieldNames, List.mem_cons, List.not_mem_nil, or_false, not_or] at h
  simp [fields, Entries.get?_cons, Json.get?_optionField, h]

/-- The endpoint of a record is a text, if there is one. -/
theorem get?_fields_endpoint (r : FanOutRecord) :
    Entries.get? "Endpoint" r.fields = r.endpoint.map .string := by
  simp [fields, Entries.get?_cons, Json.get?_optionField]

/-- An object from which a record has been read has the fields of the record, as they are written,
unless it has null for the endpoint. -/
theorem get?_of_ofJson? {entries : List (String × Json)} {r : FanOutRecord}
    (h : ofJson? (.object entries) = some r)
    (hnull : Entries.get? "Endpoint" entries ≠ some .null) {name : String}
    (hname : name ∈ fieldNames) : Entries.get? name entries = Entries.get? name r.fields := by
  simp only [ofJson?, Json.recordFields?, bind, pure, Option.bind_eq_some_iff,
    Option.some.injEq] at h
  obtain ⟨read, hread, counter, hcounter, outputs, houtputs, set, hset, thresholds, hthresholds,
    total, htotal, execution, hexecution, topic, htopic, endpoint, hendpoint, rfl⟩ := h
  obtain rfl : entries = read := by
    split at hread
    · cases hread
    · exact Option.some.inj hread
  have hlist := Json.eq_array_of_list? Json.eq_string_of_string?
  have hnumbers (v : Json) (numbers : List Nat)
      (h : Json.list? (Json.natBelow? Word.count64) v = some numbers) :
      v = .array (numbers.map .nat) :=
    Json.eq_array_of_list? Json.eq_nat_of_natBelow? v numbers h
  replace hcounter := Json.get?_of_required Json.eq_string_of_string? hcounter
  replace houtputs := Json.get?_of_required hlist houtputs
  replace hset := Json.get?_of_required Json.eq_string_of_string? hset
  replace hthresholds := Json.get?_of_required hnumbers hthresholds
  replace htotal := Json.get?_of_required Json.eq_nat_of_natBelow? htotal
  replace hexecution := Json.get?_of_required Json.eq_string_of_string? hexecution
  replace htopic := Json.get?_of_required Json.eq_string_of_string? htopic
  replace hendpoint : Entries.get? "Endpoint" entries = endpoint.map .string := by
    cases endpoint with
    | none => exact (Json.optional_eq_none hendpoint).resolve_right hnull
    | some url =>
      obtain ⟨v, hget, hv⟩ := Json.optional_eq_some hendpoint
      rw [hget, Json.eq_string_of_string? v url hv, Option.map_some]
  simp only [fieldNames, List.mem_cons, List.not_mem_nil, or_false] at hname
  rcases hname with rfl | rfl | rfl | rfl | rfl | rfl | rfl | rfl
  case inr.inr.inr.inr.inr.inr.inr => rw [hendpoint, get?_fields_endpoint]
  all_goals simp [fields, Entries.get?_cons, Json.strings, *]

/-- A value from which a record has been read is what the record is written as, exactly if it is
plain. -/
theorem toJson_eq_iff {v : Json} {r : FanOutRecord} (hv : v.Sorted) (h : ofJson? v = some r) :
    r.toJson = v ↔ v.IsPlainRecord := by
  have hwritten (name : String) : r.toJson.field? name = Entries.get? name r.fields :=
    Entries.get?_ofList_of_nodup r.nodup_fields name
  constructor
  · rintro rfl
    refine ⟨rfl, fun name hname => ?_, ?_⟩
    · rw [hwritten, r.get?_fields_of_notMem hname]
    · rw [hwritten, r.get?_fields_endpoint]
      cases r.endpoint <;> simp
  · intro hplain
    cases v with
    | object entries =>
      have hentries : Entries.ofList r.fields = entries := by
        refine Entries.eq_of_get?_eq (Entries.ascending_ofList _) hv.1 fun name => ?_
        rw [Entries.get?_ofList_of_nodup r.nodup_fields]
        by_cases hname : name ∈ fieldNames
        · exact (get?_of_ofJson? h hplain.notNull hname).symm
        · rw [r.get?_fields_of_notMem hname]
          exact (hplain.known name hname).symm
      exact congrArg Json.object hentries
    | _ => exact absurd hplain.isObject Bool.false_ne_true

end FanOutRecord

/-! ## Entries -/

/-- An entry is kept as it is, exactly if it is a plain record or cannot be read as a record. -/
theorem MetadataEntry.toJson_ofJson_eq_iff {v : Json} (hv : v.Sorted) :
    (ofJson v).toJson = v ↔ ((FanOutRecord.ofJson? v).isSome → v.IsPlainRecord) := by
  cases hread : FanOutRecord.ofJson? v with
  | none => simp [ofJson, hread, toJson]
  | some r =>
    have hiff := FanOutRecord.toJson_eq_iff hv hread
    simpa [ofJson, hread, toJson] using hiff

/-! ## Metadata -/

namespace Metadata

/-- The entries that have been read are the fields whose names are not reserved. -/
theorem get?_of_ofJson? {v : Json} {m : Metadata} (hv : v.Sorted) (h : ofJson? v = some m)
    {name : String} (hname : isReserved name = false) :
    m.get? name = (v.field? name).map MetadataEntry.ofJson := by
  cases v with
  | object fields =>
    simp only [ofJson?, Json.object?, bind, pure, Option.bind_some, Option.bind_eq_some_iff,
      Option.some.injEq] at h
    obtain ⟨action, -, isAsync, -, rfl⟩ := h
    rw [get?, get?_ofFields hv.1, if_pos hname]
    rfl
  | _ => cases h

/-- When metadata are read and written again, every field whose name is not reserved is still there,
and no other one has come. It has the value that it had, exactly if this cannot be read as the
record of a fan-out or is a plain one; otherwise it is the record, written anew. -/
theorem entry_kept_iff {v : Json} {m : Metadata} (hv : v.Sorted) (hread : ofJson? v = some m)
    {name : String} (hname : isReserved name = false) :
    (m.toJson.field? name).isSome = (v.field? name).isSome ∧
      ∀ x, v.field? name = some x →
        (m.toJson.field? name = some x ↔
          ((FanOutRecord.ofJson? x).isSome → x.IsPlainRecord)) ∧
        ∀ r, FanOutRecord.ofJson? x = some r → m.toJson.field? name = some r.toJson := by
  have hwritten := (sound_of_ofJson? hread).unreserved.field?_toJson hname
  rw [get?_of_ofJson? hv hread hname, Option.map_map] at hwritten
  refine ⟨by rw [hwritten, Option.isSome_map], fun x hx => ?_⟩
  rw [hx, Option.map_some] at hwritten
  refine ⟨?_, fun r hr => ?_⟩
  · rw [hwritten, Option.some.injEq]
    exact MetadataEntry.toJson_ofJson_eq_iff (hv.of_field? hx)
  · rw [hwritten]
    simp [MetadataEntry.ofJson, hr, MetadataEntry.toJson]

/-! ### Callers -/

/-- Metadata in which somebody has left a note about the caller of a run. -/
def callerDocument (note : Json) : Json := .object [("caller", note)]

/-- In `callerDocument` a note that is a text is kept as it is. -/
theorem caller_text_kept :
    ∃ m, ofJson? (callerDocument (.string "desk")) = some m ∧
      m.toJson.field? "caller" = some (.string "desk") := by
  have hread : (ofJson? (callerDocument (.string "desk"))).isSome = true := by decide +kernel
  obtain ⟨m, hm⟩ := Option.isSome_iff_exists.mp hread
  refine ⟨m, hm, ?_⟩
  have hsorted : (callerDocument (.string "desk")).Sorted :=
    ⟨List.pairwise_singleton _ _, trivial, trivial⟩
  obtain ⟨-, hkept⟩ := entry_kept_iff hsorted hm (show isReserved "caller" = false by decide)
  refine (hkept _ rfl).1.mpr fun hrecord => ?_
  have hnone : FanOutRecord.ofJson? (.string "desk") = none := rfl
  rw [hnone] at hrecord
  cases hrecord

/-- A note that happens to have the form of a record: seven values in a row. -/
def callerRow : Json :=
  .array [.string "c", .array [.string "k"], .string "s", .array [.nat 1], .nat 1, .string "run1",
    .string "t"]

/-- In `callerDocument` the note `callerRow` is not kept as it is, but written as the object that it
can be read as. -/
theorem caller_row_rewritten :
    (callerDocument callerRow).Sorted ∧
      ∃ m, ofJson? (callerDocument callerRow) = some m ∧
        (callerDocument callerRow).field? "caller" = some callerRow ∧
        m.toJson.field? "caller" ≠ some callerRow := by
  have hread : (ofJson? (callerDocument callerRow)).isSome = true := by decide +kernel
  have hrewritten : ((ofJson? (callerDocument callerRow)).bind fun m => m.toJson.field? "caller") ≠
      some callerRow := by decide +kernel
  obtain ⟨m, hm⟩ := Option.isSome_iff_exists.mp hread
  rw [hm] at hrewritten
  refine ⟨⟨List.pairwise_singleton _ _, ?_, trivial⟩, m, hm, rfl, hrewritten⟩
  simp [callerRow, Json.Sorted, Json.SortedItems, Json.nat]

end Metadata

end Workflow
