/-!
# Tables: finite maps from texts, in ascending order of their keys

A table is a list of entries with strictly ascending keys. Keys are ordered by their code points,
which is also the order of their UTF-8 bytes. Being in order makes a table the only list with its
contents: tables that answer every question alike are equal.

* `Entries.put`, `Entries.remove`, `Entries.get?`: the operations on bare lists of entries.
* `Ascending`: the order, kept by the operations.
* `Table`: a list of entries together with its order, and the operations on it.
* `Table.ext_get?`: tables with the same answers are equal.
-/

namespace Workflow

/-- Keys ascend strictly along the list, so none occurs twice. -/
def Ascending {α : Type} (entries : List (String × α)) : Prop :=
  entries.Pairwise fun a b => a.1 < b.1

namespace Entries

variable {α : Type}

/-! ## Operations on bare lists -/

/-- Enters a value under a key, in place of the one that stands there. -/
def put (key : String) (value : α) : List (String × α) → List (String × α)
  | [] => [(key, value)]
  | (k, v) :: rest =>
    if key < k then (key, value) :: (k, v) :: rest
    else if key = k then (key, value) :: rest
    else (k, v) :: put key value rest

/-- Removes a key; nothing happens if it is absent. -/
def remove (key : String) (entries : List (String × α)) : List (String × α) :=
  entries.filter fun entry => entry.1 != key

/-- The value under a key. -/
def get? (key : String) (entries : List (String × α)) : Option α := entries.lookup key

/-- Enters a list of values from left to right. -/
def ofList (entries : List (String × α)) : List (String × α) :=
  entries.foldl (fun acc entry => put entry.1 entry.2 acc) []

/-! ## Their laws -/

/-- The empty list ascends. -/
theorem ascending_nil : Ascending ([] : List (String × α)) := List.Pairwise.nil

/-- A key of the list after an entry is the entered key or a key of the list before. -/
theorem mem_put {key : String} {value : α} {entries : List (String × α)} {entry : String × α}
    (h : entry ∈ put key value entries) : entry = (key, value) ∨ entry ∈ entries := by
  induction entries with
  | nil => simpa [put] using h
  | cons head rest ih =>
    obtain ⟨k, v⟩ := head
    rw [put] at h
    split at h
    · simpa using h
    · split at h
      · rcases List.mem_cons.mp h with h | h
        · exact .inl h
        · exact .inr (List.mem_cons_of_mem _ h)
      · rcases List.mem_cons.mp h with h | h
        · exact .inr (h ▸ List.mem_cons_self)
        · exact (ih h).imp_right (List.mem_cons_of_mem _)

/-- An ascending list ascends with one more entry. -/
theorem ascending_put {key : String} {value : α} {entries : List (String × α)}
    (h : Ascending entries) : Ascending (put key value entries) := by
  induction entries with
  | nil => exact List.pairwise_singleton _ _
  | cons head rest ih =>
    obtain ⟨k, v⟩ := head
    obtain ⟨hk, hrest⟩ := List.pairwise_cons.mp h
    rw [put]
    split
    case isTrue hlt =>
      refine List.pairwise_cons.mpr ⟨?_, h⟩
      intro entry hmem
      rcases List.mem_cons.mp hmem with rfl | hmem
      · exact hlt
      · exact String.lt_trans hlt (hk entry hmem)
    case isFalse hnlt =>
      split
      case isTrue heq =>
        subst heq
        exact List.pairwise_cons.mpr ⟨hk, hrest⟩
      case isFalse hne =>
        refine List.pairwise_cons.mpr ⟨?_, ih hrest⟩
        intro entry hmem
        rcases mem_put hmem with rfl | hmem
        · exact Std.lt_of_le_of_ne (String.not_lt.mp hnlt) (Ne.symm hne)
        · exact hk entry hmem

/-- An ascending list ascends with an entry less. -/
theorem ascending_remove {key : String} {entries : List (String × α)} (h : Ascending entries) :
    Ascending (remove key entries) := List.Pairwise.filter _ h

/-- An ascending list ascends after any number of entries. -/
theorem ascending_foldl_put (entries : List (String × α)) {acc : List (String × α)}
    (h : Ascending acc) :
    Ascending (entries.foldl (fun acc entry => put entry.1 entry.2 acc) acc) := by
  induction entries generalizing acc with
  | nil => exact h
  | cons head rest ih => exact ih (ascending_put h)

/-- A list that is entered from left to right ascends. -/
theorem ascending_ofList (entries : List (String × α)) : Ascending (ofList entries) :=
  ascending_foldl_put entries ascending_nil

/-- A value that was entered is there. -/
theorem get?_put_self (key : String) (value : α) (entries : List (String × α)) :
    get? key (put key value entries) = some value := by
  induction entries with
  | nil => simp [put, get?]
  | cons head rest ih =>
    obtain ⟨k, v⟩ := head
    rw [put]
    split
    · simp [get?]
    · split
      · simp [get?]
      · rename_i hne
        simpa [get?, List.lookup_cons, beq_eq_false_iff_ne.mpr hne] using ih

/-- Entering a value under one key leaves the others alone. -/
theorem get?_put_of_ne {key other : String} (h : other ≠ key) (value : α)
    (entries : List (String × α)) : get? other (put key value entries) = get? other entries := by
  induction entries with
  | nil => simp [put, get?, List.lookup_cons, beq_eq_false_iff_ne.mpr h]
  | cons head rest ih =>
    obtain ⟨k, v⟩ := head
    rw [put]
    split
    · simp [get?, List.lookup_cons, beq_eq_false_iff_ne.mpr h]
    · split
      · rename_i heq
        subst heq
        simp [get?, List.lookup_cons, beq_eq_false_iff_ne.mpr h]
      · simp only [get?, List.lookup_cons] at ih ⊢
        rw [ih]

/-- A removed key is absent. -/
theorem get?_remove_self (key : String) (entries : List (String × α)) :
    get? key (remove key entries) = none := by
  induction entries with
  | nil => rfl
  | cons head rest ih =>
    obtain ⟨k, v⟩ := head
    by_cases h : k = key
    · simpa [remove, h] using ih
    · have hkey : (key == k) = false := beq_eq_false_iff_ne.mpr (Ne.symm h)
      simpa [remove, h, get?, List.lookup_cons, hkey] using ih

/-- Removing one key leaves the others alone. -/
theorem get?_remove_of_ne {key other : String} (h : other ≠ key) (entries : List (String × α)) :
    get? other (remove key entries) = get? other entries := by
  induction entries with
  | nil => rfl
  | cons head rest ih =>
    obtain ⟨k, v⟩ := head
    by_cases hk : k = key
    · subst hk
      simpa [remove, get?, List.lookup_cons, beq_eq_false_iff_ne.mpr h] using ih
    · simp only [remove, get?] at ih ⊢
      simp only [List.filter_cons, List.lookup_cons, bne_iff_ne, ne_eq, hk, not_false_eq_true,
        if_true]
      rw [ih]

/-- Below the first key of an ascending list nothing is found. -/
theorem get?_eq_none_of_lt {key : String} {entries : List (String × α)}
    (h : ∀ entry ∈ entries, key < entry.1) : get? key entries = none := by
  induction entries with
  | nil => rfl
  | cons head rest ih =>
    obtain ⟨k, v⟩ := head
    have hne : (key == k) = false := by
      refine beq_eq_false_iff_ne.mpr fun heq => ?_
      exact String.lt_irrefl k (heq ▸ h (k, v) List.mem_cons_self)
    have := ih fun entry hmem => h entry (List.mem_cons_of_mem _ hmem)
    simpa [get?, List.lookup_cons, hne] using this

/-- Ascending lists with the same answers are equal. -/
theorem eq_of_get?_eq {a b : List (String × α)} (ha : Ascending a) (hb : Ascending b)
    (h : ∀ key, get? key a = get? key b) : a = b := by
  induction a generalizing b with
  | nil =>
    cases b with
    | nil => rfl
    | cons head rest =>
      obtain ⟨k, v⟩ := head
      have := h k
      simp [get?] at this
  | cons head rest ih =>
    obtain ⟨k, v⟩ := head
    obtain ⟨hk, hrest⟩ := List.pairwise_cons.mp ha
    cases b with
    | nil =>
      have := h k
      simp [get?] at this
    | cons head' rest' =>
      obtain ⟨k', v'⟩ := head'
      obtain ⟨hk', hrest'⟩ := List.pairwise_cons.mp hb
      have hkk : k = k' := by
        apply String.le_antisymm
        · refine String.not_lt.mp fun hlt => ?_
          have hnone : get? k' ((k, v) :: rest) = none := by
            refine get?_eq_none_of_lt fun entry hmem => ?_
            rcases List.mem_cons.mp hmem with rfl | hmem
            · exact hlt
            · exact String.lt_trans hlt (hk entry hmem)
          rw [h k'] at hnone
          simp [get?] at hnone
        · refine String.not_lt.mp fun hlt => ?_
          have hnone : get? k ((k', v') :: rest') = none := by
            refine get?_eq_none_of_lt fun entry hmem => ?_
            rcases List.mem_cons.mp hmem with rfl | hmem
            · exact hlt
            · exact String.lt_trans hlt (hk' entry hmem)
          rw [← h k] at hnone
          simp [get?] at hnone
      subst hkk
      have hv : v = v' := by
        have := h k
        simpa [get?, List.lookup_cons] using this
      subst hv
      congr 1
      refine ih hrest hrest' fun key => ?_
      by_cases hkey : key = k
      · subst hkey
        rw [get?_eq_none_of_lt hk, get?_eq_none_of_lt hk']
      · have := h key
        simpa [get?, List.lookup_cons, beq_eq_false_iff_ne.mpr hkey] using this

end Entries

/-! ## Tables -/

/-- Entries in ascending order of their keys. -/
structure Table (α : Type) where
  entries : List (String × α) := []
  ascending : Ascending entries := by exact Entries.ascending_nil

namespace Table

variable {α : Type}

/-- The table without entries. -/
def empty : Table α := {}

instance : Inhabited (Table α) := ⟨empty⟩

instance [DecidableEq α] : DecidableEq (Table α) := fun a b =>
  if h : a.entries = b.entries then isTrue (by cases a; cases b; subst h; rfl)
  else isFalse fun hab => h (hab ▸ rfl)

/-- The value under a key. -/
def get? (t : Table α) (key : String) : Option α := Entries.get? key t.entries

/-- Enters a value, in place of the one under the same key. -/
def put (t : Table α) (key : String) (value : α) : Table α :=
  ⟨Entries.put key value t.entries, Entries.ascending_put t.ascending⟩

/-- Removes a key; nothing happens if it is absent. -/
def remove (t : Table α) (key : String) : Table α :=
  ⟨Entries.remove key t.entries, Entries.ascending_remove t.ascending⟩

/-- Enters a list of values from left to right. -/
def ofList (entries : List (String × α)) : Table α :=
  ⟨Entries.ofList entries, Entries.ascending_ofList entries⟩

/-- The keys, ascending. -/
def keys (t : Table α) : List String := t.entries.map (·.1)

/-- The number of entries. -/
def size (t : Table α) : Nat := t.entries.length

/-- In the empty table nothing is found. -/
@[simp] theorem get?_empty (key : String) : (empty : Table α).get? key = none := rfl

/-- A value that was entered into a table is there. -/
@[simp] theorem get?_put_self (t : Table α) (key : String) (value : α) :
    (t.put key value).get? key = some value := Entries.get?_put_self key value t.entries

/-- Entering a value under one key of a table leaves the others alone. -/
theorem get?_put_of_ne (t : Table α) {key other : String} (h : other ≠ key) (value : α) :
    (t.put key value).get? other = t.get? other := Entries.get?_put_of_ne h value t.entries

/-- A removed key is absent from a table. -/
@[simp] theorem get?_remove_self (t : Table α) (key : String) : (t.remove key).get? key = none :=
  Entries.get?_remove_self key t.entries

/-- Removing one key from a table leaves the others alone. -/
theorem get?_remove_of_ne (t : Table α) {key other : String} (h : other ≠ key) :
    (t.remove key).get? other = t.get? other := Entries.get?_remove_of_ne h t.entries

/-- Tables with the same answers are equal. -/
theorem ext_get? {a b : Table α} (h : ∀ key, a.get? key = b.get? key) : a = b := by
  obtain ⟨a, ha⟩ := a
  obtain ⟨b, hb⟩ := b
  have : a = b := Entries.eq_of_get?_eq ha hb h
  subst this
  rfl

end Table

end Workflow
