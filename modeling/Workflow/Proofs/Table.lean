import Workflow.Table

/-!
# Laws of tables

What a question to a table answers after each operation, each as one equation:

* **Bare lists** (`Entries.get?_cons`, `get?_append`, `get?_filter`, `get?_map`): a question goes
  through the list operations.
* **Entering** (`Entries.get?_put`, `get?_ofList`, `put_of_forall_lt`): of several values of one key
  the last one entered counts, and a key behind all others is entered at the end.
* **Order** (`Entries.nodup_keys`, `get?_reverse`, `get?_eq_some_iff`): in an ascending list every
  key occurs once, so the direction of the search does not matter, and every entry is found.
* **Tables** (`Table.get?_put`, `get?_remove`, `mem_keys`): the same for tables.
-/

namespace Workflow

namespace Entries

variable {α β : Type}

/-! ## Questions and list operations -/

/-- In the empty list nothing is found. -/
@[simp] theorem get?_nil (key : String) : get? key ([] : List (String × α)) = none := rfl

/-- The first entry of a list is found under its own key, and the others where it is not. -/
theorem get?_cons (key k : String) (v : α) (rest : List (String × α)) :
    get? key ((k, v) :: rest) = if key = k then some v else get? key rest := by
  rw [get?, List.lookup_cons]
  by_cases h : key = k
  · simp [h]
  · rw [if_neg h, beq_eq_false_iff_ne.mpr h, get?]

/-- A search in two lists goes on to the second where the first has nothing. -/
theorem get?_append (key : String) (a b : List (String × α)) :
    get? key (a ++ b) = (get? key a).or (get? key b) := by
  induction a with
  | nil => simp
  | cons head rest ih =>
    obtain ⟨k, v⟩ := head
    rw [List.cons_append, get?_cons, get?_cons, ih]
    split <;> rfl

/-- A value that is found stands in the list under its key. -/
theorem mem_of_get? {key : String} {v : α} {entries : List (String × α)}
    (h : get? key entries = some v) : (key, v) ∈ entries := by
  induction entries with
  | nil => simp at h
  | cons head rest ih =>
    obtain ⟨k, x⟩ := head
    rw [get?_cons] at h
    split at h
    case isTrue heq =>
      obtain rfl : x = v := Option.some.inj h
      exact heq ▸ List.mem_cons_self
    case isFalse => exact List.mem_cons_of_mem _ (ih h)

/-- A condition on keys keeps the answers for the keys that meet it and no others. -/
theorem get?_filter (p : String → Bool) (key : String) (entries : List (String × α)) :
    get? key (entries.filter fun entry => p entry.1) =
      if p key then get? key entries else none := by
  induction entries with
  | nil => simp
  | cons head rest ih =>
    obtain ⟨k, v⟩ := head
    rw [List.filter_cons, get?_cons]
    by_cases hkey : key = k
    · subst hkey
      by_cases hp : p key
      · rw [if_pos hp, get?_cons, if_pos rfl, if_pos rfl, if_pos hp]
      · rw [if_neg hp, ih, if_neg hp, if_neg hp]
    · by_cases hp : p k
      · rw [if_pos hp, get?_cons, if_neg hkey, if_neg hkey, ih]
      · rw [if_neg hp, if_neg hkey, ih]

/-- What is found in a list with changed values is the changed value of what is found in the
list. -/
theorem get?_map (f : α → β) (key : String) (entries : List (String × α)) :
    get? key (entries.map fun (k, v) => (k, f v)) = (get? key entries).map f := by
  induction entries with
  | nil => rfl
  | cons head rest ih =>
    obtain ⟨k, v⟩ := head
    rw [List.map_cons, get?_cons, get?_cons, ih]
    split <;> rfl

/-! ## Order -/

/-- Some entries of an ascending list ascend. -/
theorem ascending_filter {entries : List (String × α)} (p : String × α → Bool)
    (h : Ascending entries) : Ascending (entries.filter p) := List.Pairwise.filter p h

/-- An ascending list with changed values ascends. -/
theorem ascending_map {entries : List (String × α)} (f : α → β) (h : Ascending entries) :
    Ascending (entries.map fun (k, v) => (k, f v)) := List.Pairwise.map _ (fun _ _ hlt => hlt) h

/-- The keys of an ascending list all differ. -/
theorem nodup_keys {entries : List (String × α)} (h : Ascending entries) :
    (entries.map (·.1)).Nodup := by
  refine List.pairwise_map.mpr (List.Pairwise.imp (fun hlt heq => ?_) h)
  rw [heq] at hlt
  exact String.lt_irrefl _ hlt

/-- As every key occurs once, an ascending list can be searched from either end. -/
theorem get?_reverse {entries : List (String × α)} (h : Ascending entries) (key : String) :
    get? key entries.reverse = get? key entries := by
  induction entries with
  | nil => rfl
  | cons head rest ih =>
    obtain ⟨k, v⟩ := head
    obtain ⟨hk, hrest⟩ := List.pairwise_cons.mp h
    rw [List.reverse_cons, get?_append, ih hrest, get?_cons, get?_cons]
    by_cases heq : key = k
    · subst heq
      simp [get?_eq_none_of_lt hk]
    · simp [heq]

/-- In an ascending list every entry is found under its key. -/
theorem get?_eq_some_iff {entries : List (String × α)} (h : Ascending entries) {key : String}
    {v : α} : get? key entries = some v ↔ (key, v) ∈ entries := by
  refine ⟨mem_of_get?, fun hmem => ?_⟩
  induction entries with
  | nil => cases hmem
  | cons head rest ih =>
    obtain ⟨k, x⟩ := head
    obtain ⟨hk, hrest⟩ := List.pairwise_cons.mp h
    rw [get?_cons]
    rcases List.mem_cons.mp hmem with heq | hmem
    · obtain ⟨rfl, rfl⟩ := Prod.mk.inj heq
      rw [if_pos rfl]
    · have hne : key ≠ k := fun heq => String.lt_irrefl k (heq ▸ hk (key, v) hmem)
      rw [if_neg hne, ih hrest hmem]

/-- In an ascending list at most one entry has a given key. -/
theorem filter_key {entries : List (String × α)} (h : Ascending entries)
    (key : String) : (entries.filter fun entry => key == entry.1).map (·.2) =
      (get? key entries).toList := by
  induction entries with
  | nil => rfl
  | cons head rest ih =>
    obtain ⟨k, v⟩ := head
    obtain ⟨hk, hrest⟩ := List.pairwise_cons.mp h
    rw [List.filter_cons, get?_cons]
    by_cases hkey : key = k
    · subst hkey
      have hnone : get? key rest = none := get?_eq_none_of_lt hk
      have hnil := ih hrest
      rw [hnone] at hnil
      simp [hnil]
    · simpa [hkey] using ih hrest

/-! ## Entering -/

/-- A value that is entered into a list is found under its key, and under all others what was found
before. -/
theorem get?_put (key other : String) (value : α) (entries : List (String × α)) :
    get? other (put key value entries) =
      if other = key then some value else get? other entries := by
  split
  case isTrue h => rw [h, get?_put_self]
  case isFalse h => exact get?_put_of_ne h value entries

/-- When entries are entered one after the other, the last one with a key is found, or else what was
found before. -/
theorem get?_foldl_put (key : String) (entries acc : List (String × α)) :
    get? key (entries.foldl (fun acc entry => put entry.1 entry.2 acc) acc) =
      (get? key entries.reverse).or (get? key acc) := by
  induction entries generalizing acc with
  | nil => simp
  | cons head rest ih =>
    obtain ⟨k, v⟩ := head
    rw [List.foldl_cons, ih, List.reverse_cons, get?_append, get?_put, get?_cons]
    cases get? key rest.reverse with
    | some _ => rfl
    | none => split <;> simp

/-- Of the values entered under one key the last one counts. -/
theorem get?_ofList (key : String) (entries : List (String × α)) :
    get? key (ofList entries) = get? key entries.reverse := by
  rw [ofList, get?_foldl_put]
  simp

/-- A key behind all others is entered at the end. -/
theorem put_of_forall_lt {entries : List (String × α)} {key : String} (value : α)
    (h : ∀ entry ∈ entries, entry.1 < key) :
    put key value entries = entries ++ [(key, value)] := by
  induction entries with
  | nil => rfl
  | cons head rest ih =>
    obtain ⟨k, v⟩ := head
    have hlt : k < key := h (k, v) List.mem_cons_self
    have hne : key ≠ k := fun heq => String.lt_irrefl k (heq ▸ hlt)
    rw [put, if_neg (String.lt_asymm hlt), if_neg hne,
      ih fun entry hentry => h entry (List.mem_cons_of_mem _ hentry), List.cons_append]

end Entries

namespace Table

variable {α : Type}

/-! ## Tables -/

/-- A value that is entered into a table is found under its key, and under all others what was found
before. -/
theorem get?_put (t : Table α) (key other : String) (value : α) :
    (t.put key value).get? other = if other = key then some value else t.get? other :=
  Entries.get?_put key other value t.entries

/-- A key that is removed from a table is not found any more, and all others as before. -/
theorem get?_remove (t : Table α) (key other : String) :
    (t.remove key).get? other = if other = key then none else t.get? other := by
  split
  case isTrue h => rw [h, get?_remove_self]
  case isFalse h => exact get?_remove_of_ne t h

/-- Of the values that a table is made of under one key the last one counts. -/
theorem get?_ofList (entries : List (String × α)) (key : String) :
    (ofList entries).get? key = Entries.get? key entries.reverse := Entries.get?_ofList key entries

/-- The keys of a table are those under which something is found. -/
theorem mem_keys (t : Table α) (key : String) : key ∈ t.keys ↔ (t.get? key).isSome := by
  rw [keys, get?]
  generalize t.entries = entries
  induction entries with
  | nil => simp
  | cons head rest ih =>
    obtain ⟨k, v⟩ := head
    rw [List.map_cons, List.mem_cons, ih, Entries.get?_cons]
    by_cases h : key = k <;> simp [h]

end Table

end Workflow
