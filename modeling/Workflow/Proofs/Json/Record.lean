import Mathlib.Data.List.Nodup
import Mathlib.Tactic.Common
import Workflow.Json.Record
import Workflow.Proofs.Table

/-!
# Reading what has been written

Records are written as objects whose fields have different names, and are read field by field. What
is read of a field is told by the list that the record was written from.

* **Order** (`Json.SortedItems.of_mem`, `Json.SortedFields.of_mem`, `Json.Sorted.of_field?`): all
  that a value in order holds is in order.
* **The whole record** (`Json.recordFields?_object`, `Json.recordFields?_record`,
  `Entries.get?_ofList_of_nodup`): a record is read as an object whose names all differ, as those of
  a written record do, and every field has its own value.
* **Fields** (`Json.withDefault_eq`, `Json.optional_eq`): a field is read back if its value is.
* **Values** (`Json.list?_map`, `Json.natBelow?_nat`, `Json.list?_eq_some`): lists and numbers are
  read back, and what has been read of a list has been read item by item.
* **Written in one way only** (`Json.eq_string_of_string?`, `Json.eq_nat_of_natBelow?`,
  `Json.eq_array_of_list?`, `Json.get?_of_required`): what a document holds is known from what has
  been read of it.
* **Parts** (`Json.present`, `Json.get?_ofList_present`): a record as the list of all its declared
  names, each with its value or none.
* **What has been read** (`Json.ReadsBack`): whatever has been read of a value is read back when it
  is written, and so are the fields of a record, whether they are always there, have a default or
  may be absent.
-/

namespace Workflow

/-- A list whose keys all differ is entered as it stands, up to its order. -/
theorem Entries.get?_ofList_of_nodup {α : Type} {entries : List (String × α)}
    (h : (entries.map (·.1)).Nodup) (key : String) :
    Entries.get? key (Entries.ofList entries) = Entries.get? key entries := by
  rw [Entries.get?_ofList]
  induction entries with
  | nil => rfl
  | cons head rest ih =>
    obtain ⟨k, v⟩ := head
    rw [List.map_cons, List.nodup_cons] at h
    obtain ⟨hk, hrest⟩ := h
    rw [List.reverse_cons, Entries.get?_append, ih hrest, Entries.get?_cons, Entries.get?_cons]
    split
    case isTrue heq =>
      have hnone : Entries.get? key rest = none := by
        refine Option.eq_none_iff_forall_not_mem.mpr fun x hx => hk ?_
        exact List.mem_map.mpr ⟨(key, x), Entries.mem_of_get? hx, heq⟩
      rw [hnone, Option.none_or]
    case isFalse => simp

namespace Json

variable {α : Type}

/-! ## Order -/

/-- The items of an array are in order if it is. -/
theorem SortedItems.of_mem {items : List Json} (h : SortedItems items) {x : Json} (hx : x ∈ items) :
    x.Sorted := by
  induction items with
  | nil => cases hx
  | cons head rest ih =>
    rcases List.mem_cons.mp hx with rfl | hx
    · exact h.1
    · exact ih h.2 hx

/-- The value of a field is in order if the fields of its object are. -/
theorem SortedFields.of_mem {fields : List (String × Json)} (h : SortedFields fields)
    {entry : String × Json} (hentry : entry ∈ fields) : entry.2.Sorted := by
  induction fields with
  | nil => cases hentry
  | cons head rest ih =>
    rcases List.mem_cons.mp hentry with rfl | hentry
    · exact h.1
    · exact ih h.2 hentry

/-- What is read of a field is in order if the object is. -/
theorem Sorted.of_field? {v x : Json} {name : String} (hv : v.Sorted)
    (h : v.field? name = some x) : x.Sorted := by
  cases v with
  | object fields => exact SortedFields.of_mem hv.2 (Entries.mem_of_get? h)
  | _ => cases h

/-! ## The whole record -/

/-- An object is read as a record if every name occurs in it once. -/
theorem recordFields?_object (names : List String) {fields : List (String × Json)}
    (h : (fields.map (·.1)).Nodup) : (object fields).recordFields? names = some fields := by
  have hnames : (names.any fun name => 1 < fields.countP (·.1 == name)) = false := by
    refine List.any_eq_false.mpr fun name _ => ?_
    have hcount := List.nodup_iff_count_le_one.mp h name
    rw [List.count, List.countP_map] at hcount
    have hle : fields.countP (·.1 == name) ≤ 1 := hcount
    simpa using hle
  rw [recordFields?, hnames]
  rfl

/-- A written record is read as a record, whatever names are asked for: its fields stand in order,
so that none occurs twice. -/
theorem recordFields?_record (names : List String) (fields : List (String × Json)) :
    (record fields).recordFields? names = some (Entries.ofList fields) :=
  recordFields?_object names (Entries.nodup_keys (Entries.ascending_ofList fields))

/-- An optional field is there if it has a value. -/
theorem get?_optionField (key name : String) (write : α → Json) (value : Option α) :
    Entries.get? key (optionField name write value) =
      if key = name then value.map write else none := by
  cases value with
  | none => simp [optionField]
  | some a => rw [optionField, Entries.get?_cons]; rfl

/-! ## Fields -/

section fields

variable {fields : List (String × Json)} {name : String} {read : Json → Option α}

/-- A field that is there is read without its default. -/
theorem withDefault_eq {v : Json} (hget : Entries.get? name fields = some v) (default : α) :
    withDefault fields name read default = read v := by
  rw [withDefault, hget]

/-- An optional field is read back, unless its value is written as null. -/
theorem optional_eq (write : α → Json) {value : Option α}
    (hget : Entries.get? name fields = value.map write)
    (hread : ∀ a ∈ value, read (write a) = some a) (hnull : ∀ a, write a ≠ .null) :
    optional fields name read = some value := by
  cases value with
  | none => rw [optional, hget]; rfl
  | some a =>
    rw [Option.map_some] at hget
    rw [optional, hget]
    split
    case h_1 heq => cases heq
    case h_2 heq => exact absurd (Option.some.inj heq) (hnull a)
    case h_3 v hne heq =>
      obtain rfl := Option.some.inj heq
      rw [hread a rfl, Option.map_some]

/-- What has been read of an optional field has been read of its value. -/
theorem optional_eq_some {a : α} (h : optional fields name read = some (some a)) :
    ∃ v, Entries.get? name fields = some v ∧ read v = some a := by
  rw [optional] at h
  split at h
  case h_1 => cases h
  case h_2 => cases h
  case h_3 v _ hget =>
    obtain ⟨x, hx, heq⟩ := Option.map_eq_some_iff.mp h
    cases heq
    exact ⟨v, hget, hx⟩

/-- An optional field that has no value is absent or null. -/
theorem optional_eq_none (h : optional fields name read = some none) :
    Entries.get? name fields = none ∨ Entries.get? name fields = some .null := by
  rw [optional] at h
  split at h
  case h_1 hget => exact .inl hget
  case h_2 hget => exact .inr hget
  case h_3 v _ _ =>
    obtain ⟨x, -, heq⟩ := Option.map_eq_some_iff.mp h
    cases heq

/-- A field whose value is written in one way only is known from what has been read. -/
theorem get?_of_required {write : α → Json} (hwrite : ∀ v a, read v = some a → v = write a) {a : α}
    (h : required fields name read = some a) : Entries.get? name fields = some (write a) := by
  obtain ⟨v, hget, hread⟩ := Option.bind_eq_some_iff.mp h
  rw [hget, hwrite v a hread]

end fields

/-! ## Values -/

/-- The items of a list are read back one by one. -/
theorem list?_map {read : Json → Option α} {write : α → Json} {items : List α}
    (h : ∀ a ∈ items, read (write a) = some a) :
    list? read (.array (items.map write)) = some items := by
  rw [list?]
  induction items with
  | nil => rfl
  | cons head rest ih =>
    rw [List.map_cons, List.mapM_cons, h head List.mem_cons_self,
      ih fun a ha => h a (List.mem_cons_of_mem _ ha)]
    rfl

/-- What has been read of a list has been read of its items. -/
theorem list?_eq_some {read : Json → Option α} {v : Json} {items : List α}
    (h : list? read v = some items) : ∀ a ∈ items, ∃ x, read x = some a := by
  cases v with
  | array xs =>
    rw [list?] at h
    induction xs generalizing items with
    | nil =>
      cases h
      exact fun a ha => absurd ha List.not_mem_nil
    | cons x xs ih =>
      rw [List.mapM_cons] at h
      obtain ⟨head, hhead, h⟩ := Option.bind_eq_some_iff.mp h
      obtain ⟨rest, hrest, h⟩ := Option.bind_eq_some_iff.mp h
      cases h
      intro a ha
      rcases List.mem_cons.mp ha with rfl | ha
      · exact ⟨x, hhead⟩
      · exact ih hrest a ha
  | _ => cases h

/-- A natural number below a bound is read back from its document. -/
theorem natBelow?_nat {bound n : Nat} (h : n < bound) : natBelow? bound (nat n) = some n := by
  simp [natBelow?, nat, int?, h]

/-- An integer of 64 bits is read back from its document. -/
theorem signed?_int {i : Int} (h : Word.isSigned i = true) : signed? (int i) = some i := by
  simp [signed?, int, int?, h]

/-- A number that has been read with a bound is below it. -/
theorem lt_of_natBelow? {bound n : Nat} {v : Json} (h : natBelow? bound v = some n) :
    n < bound := by
  rw [natBelow?] at h
  obtain ⟨i, -, h⟩ := Option.bind_eq_some_iff.mp h
  split at h
  case isTrue hi =>
    cases h
    exact hi.2
  case isFalse => cases h

/-! ## Written in one way only -/

/-- A text is written in one way only. -/
theorem eq_string_of_string? (v : Json) (s : String) (h : string? v = some s) : v = .string s := by
  cases v with
  | string value => cases h; rfl
  | _ => cases h

/-- A natural number is written in one way only. -/
theorem eq_nat_of_natBelow? {bound : Nat} (v : Json) (n : Nat) (h : natBelow? bound v = some n) :
    v = nat n := by
  rw [natBelow?] at h
  obtain ⟨i, hint, h⟩ := Option.bind_eq_some_iff.mp h
  split at h
  case isTrue hi =>
    cases h
    cases v with
    | number value =>
      cases value with
      | int value =>
        cases hint
        rw [nat, Int.toNat_of_nonneg hi.1]
      | double value => cases hint
    | _ => cases hint
  case isFalse => cases h

/-- A list is written in one way only if each of its items is. -/
theorem eq_array_of_list? {read : Json → Option α} {write : α → Json}
    (hwrite : ∀ v a, read v = some a → v = write a) (v : Json) (items : List α)
    (h : list? read v = some items) : v = .array (items.map write) := by
  cases v with
  | array xs =>
    rw [list?] at h
    congr 1
    induction xs generalizing items with
    | nil => cases h; rfl
    | cons x xs ih =>
      rw [List.mapM_cons] at h
      obtain ⟨head, hhead, h⟩ := Option.bind_eq_some_iff.mp h
      obtain ⟨rest, hrest, h⟩ := Option.bind_eq_some_iff.mp h
      cases h
      rw [List.map_cons, ← hwrite x head hhead, ← ih rest hrest]
  | _ => cases h

/-! ## Records as lists of parts -/

/-- The first part of a record gives a field if it has a value. -/
theorem present_cons (name : String) (value : Option Json) (parts : List (String × Option Json)) :
    present ((name, value) :: parts) = optionField name id value ++ present parts := by
  cases value <;> rfl

/-- The fields of a record stand in the order of its parts, some of them left out. -/
theorem keys_present_sublist (parts : List (String × Option Json)) :
    ((present parts).map (·.1)).Sublist (parts.map (·.1)) := by
  induction parts with
  | nil => exact .slnil
  | cons head rest ih =>
    obtain ⟨name, value⟩ := head
    cases value with
    | none => exact ih.cons name
    | some v => exact ih.cons_cons name

/-- Where the names of the parts differ, every part is found under its name, or nothing is. -/
theorem get?_present {parts : List (String × Option Json)} (h : (parts.map (·.1)).Nodup)
    {name : String} {value : Option Json} (hpart : (name, value) ∈ parts) :
    Entries.get? name (present parts) = value := by
  induction parts with
  | nil => cases hpart
  | cons head rest ih =>
    obtain ⟨k, v⟩ := head
    obtain ⟨hk, hrest⟩ := List.nodup_cons.mp h
    rw [present_cons, Entries.get?_append, get?_optionField, Option.map_id]
    rcases List.mem_cons.mp hpart with heq | hmem
    · obtain ⟨rfl, rfl⟩ := Prod.mk.inj heq
      have hnone : Entries.get? name (present rest) = none := by
        refine Option.eq_none_iff_forall_not_mem.mpr fun x hx => hk ?_
        have hmem := List.mem_map_of_mem (f := (·.1)) (Entries.mem_of_get? hx)
        exact (keys_present_sublist rest).subset hmem
      rw [if_pos rfl, hnone, Option.or_none]
      rfl
    · have hne : name ≠ k := fun heq => hk (heq ▸ List.mem_map_of_mem (f := (·.1)) hmem)
      rw [if_neg hne, Option.none_or, ih hrest hmem]

/-- Where the names of the parts differ, those of the fields do. -/
theorem nodup_present {parts : List (String × Option Json)} (h : (parts.map (·.1)).Nodup) :
    ((present parts).map (·.1)).Nodup := h.sublist (keys_present_sublist parts)

/-- A written record has its parts under their names. -/
theorem get?_ofList_present {parts : List (String × Option Json)} (h : (parts.map (·.1)).Nodup)
    {name : String} {value : Option Json} (hpart : (name, value) ∈ parts) :
    Entries.get? name (Entries.ofList (present parts)) = value := by
  rw [Entries.get?_ofList_of_nodup (nodup_present h), get?_present h hpart]

/-! ## What has been read -/

/-- Whatever has been read is read back when it is written. -/
def ReadsBack (read : Json → Option α) (write : α → Json) : Prop :=
  ∀ v a, read v = some a → read (write a) = some a

/-- A text is read back. -/
theorem readsBack_string : ReadsBack string? .string := fun _ _ _ => rfl

/-- A truth value is read back. -/
theorem readsBack_bool : ReadsBack bool? .bool := fun _ _ _ => rfl

/-- A double is read back. -/
theorem readsBack_double : ReadsBack double? .double := fun _ _ _ => rfl

/-- A value of any kind is read back as it is. -/
theorem readsBack_value : ReadsBack some id := fun _ _ _ => rfl

/-- A list of values of any kind is an array. -/
theorem list?_some : list? some = array? := by
  funext v
  cases v with
  | array items =>
    have hitems : list? some (.array (items.map id)) = some items := list?_map fun _ _ => rfl
    rwa [List.map_id] at hitems
  | _ => rfl

/-- A natural number is read back if it has been read with the bound. -/
theorem readsBack_nat (bound : Nat) : ReadsBack (natBelow? bound) nat :=
  fun _ _ h => natBelow?_nat (lt_of_natBelow? h)

/-- A list of things that are read back is read back. -/
theorem ReadsBack.list {read : Json → Option α} {write : α → Json} (h : ReadsBack read write) :
    ReadsBack (list? read) fun items => .array (items.map write) := by
  intro v items hitems
  refine list?_map fun a ha => ?_
  obtain ⟨x, hx⟩ := list?_eq_some hitems a ha
  exact h x a hx

section back

variable {fields written : List (String × Json)} {name : String} {read : Json → Option α}
  {write : α → Json}

/-- A required field is read back. -/
theorem ReadsBack.required (h : ReadsBack read write) {a : α}
    (hread : required fields name read = some a)
    (hwritten : Entries.get? name written = some (write a)) :
    Json.required written name read = some a := by
  obtain ⟨v, -, hv⟩ := Option.bind_eq_some_iff.mp hread
  rw [Json.required, hwritten, Option.bind_some, h v a hv]

/-- A field with a default is read back if the default is. -/
theorem ReadsBack.withDefault (h : ReadsBack read write) {a default : α}
    (hread : withDefault fields name read default = some a)
    (hdefault : read (write default) = some default)
    (hwritten : Entries.get? name written = some (write a)) :
    Json.withDefault written name read default = some a := by
  rw [withDefault_eq hwritten]
  unfold Json.withDefault at hread
  split at hread
  · cases hread
    exact hdefault
  · exact h _ a hread

/-- A list that is not written has no items. -/
theorem ReadsBack.withDefault_list (h : ReadsBack read write) {items : List α}
    (hread : Json.withDefault fields name (list? read) [] = some items)
    (hwritten : Entries.get? name written = listValue write items) :
    Json.withDefault written name (list? read) [] = some items := by
  cases items with
  | nil => rw [Json.withDefault, hwritten]; rfl
  | cons head rest => exact h.list.withDefault hread rfl hwritten

/-- An optional field is read back, as null is never read as a value. -/
theorem ReadsBack.optional (h : ReadsBack read write)
    (hnull : ∀ v a, v ≠ .null → read v = some a → write a ≠ .null) {value : Option α}
    (hread : optional fields name read = some value)
    (hwritten : Entries.get? name written = value.map write) :
    Json.optional written name read = some value := by
  cases value with
  | none => rw [Json.optional, hwritten]; rfl
  | some a =>
    unfold Json.optional at hread
    split at hread
    case h_1 => cases hread
    case h_2 => cases hread
    case h_3 v hne _ =>
      obtain ⟨x, hx, heq⟩ := Option.map_eq_some_iff.mp hread
      cases heq
      rw [Json.optional, hwritten, Option.map_some]
      split
      case h_1 heq => cases heq
      case h_2 heq => exact absurd (Option.some.inj heq) (hnull v a hne hx)
      case h_3 heq =>
        obtain rfl := Option.some.inj heq
        rw [h v a hx, Option.map_some]

end back

/-- A value other than null is not written as null. -/
theorem ne_null_of_value (v a : Json) (h : v ≠ .null) (hv : some v = some a) : id a ≠ .null :=
  Option.some.inj hv ▸ h

end Json

end Workflow
