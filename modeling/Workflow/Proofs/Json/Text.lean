import Mathlib.Tactic.Common
import Workflow.Json.Selective
import Workflow.Proofs.Json.Number
import Workflow.Proofs.Table
import Workflow.Text.Blank

/-!
# Reading written texts

A document is read back from the text that is written of it, as long as its numbers are legible and
the reader allows for its depth.

* **Strings** (`Json.Reader.stringBody_escape`, `Json.Reader.stringBody_quoted`): every character is
  read back from the way it is written, and so is the whole string.
* **Documents** (`Json.depth`, `Json.Legible`, `Json.Reader.value_chars`): by recursion over the
  document, its items and its fields. Two steps of the reader for every character suffice.
* **Whole texts** (`Json.document?_text`, `Json.recordDocument?_text`): nothing is left over, also
  where only known fields are read.
* **Values** (`Json.canonical_of_sorted`, `Json.ofText?_text`): what is in order already is read as
  it was written.
-/

namespace Workflow

namespace Json

namespace Reader

/-! ## Strings -/

/-- A character is read back from the way it is written. -/
theorem stringBody_escape (acc : List Char) (c : Char) (rest : List Char) :
    stringBody acc (escape c ++ rest) = stringBody (c :: acc) rest := by
  unfold escape
  split_ifs with hquote hbackslash hb hf hn hr ht hcontrol
  -- a character with an escape of its own
  iterate 7
    · subst c
      rfl
  -- any other control character
  · have hhex : ∀ m < 0x20, hexUnit? '0' '0' (hexDigit (m / 16)) (hexDigit m) = some m := by
      decide
    have hbound : c.toNat < 0xD800 ∨ 0xE000 ≤ c.toNat := .inl (by omega)
    simp only [List.cons_append, List.nil_append]
    rw [stringBody.eq_3, hhex c.toNat hcontrol]
    simp only [if_pos hbound, Char.ofNat_toNat]
  -- a character that stands for itself
  · rw [List.singleton_append, stringBody.eq_5 _ _ _ hquote (fun _ _ _ _ _ h => absurd h hbackslash)
      (fun _ _ h => absurd h hbackslash), if_neg hcontrol]

/-- Characters are read back from the way they are written, up to the closing quotation mark. -/
theorem stringBody_flatMap (acc cs rest : List Char) :
    stringBody acc (cs.flatMap escape ++ '"' :: rest) =
      some (String.ofList (acc.reverse ++ cs), rest) := by
  induction cs generalizing acc with
  | nil => rw [List.flatMap_nil, List.nil_append, stringBody, List.append_nil]
  | cons c cs ih =>
    rw [List.flatMap_cons, List.append_assoc, stringBody_escape, ih, List.reverse_cons,
      List.append_assoc, List.singleton_append]

/-- A string is read back. -/
theorem stringBody_quoted (s : String) (rest : List Char) :
    stringBody [] (s.toList.flatMap escape ++ '"' :: rest) = some (s, rest) := by
  rw [stringBody_flatMap, List.reverse_nil, List.nil_append, String.ofList_toList]

/-- A string in quotes begins with a mark, and ends with one before what follows. -/
theorem quoted_append (s : String) (rest : List Char) :
    quoted s ++ rest = '"' :: (s.toList.flatMap escape ++ '"' :: rest) := by
  simp [quoted]

end Reader

/-! ## Depth and legibility -/

mutual

/-- How deeply the arrays and objects of a document are nested. -/
def depth : Json → Nat
  | .array items => depthItems items + 1
  | .object fields => depthFields fields + 1
  | .null | .bool _ | .number _ | .string _ => 0

/-- The depth of the deepest item. -/
def depthItems : List Json → Nat
  | [] => 0
  | x :: xs => max x.depth (depthItems xs)

/-- The depth of the deepest field. -/
def depthFields : List (String × Json) → Nat
  | [] => 0
  | (_, x) :: xs => max x.depth (depthFields xs)

end

mutual

/-- All numbers of a document are legible. -/
def Legible : Json → Prop
  | .number n => n.IsLegible
  | .array items => LegibleItems items
  | .object fields => LegibleFields fields
  | .null | .bool _ | .string _ => True

/-- All numbers of the items are legible. -/
def LegibleItems : List Json → Prop
  | [] => True
  | x :: xs => x.Legible ∧ LegibleItems xs

/-- All numbers of the fields are legible. -/
def LegibleFields : List (String × Json) → Prop
  | [] => True
  | (_, x) :: xs => x.Legible ∧ LegibleFields xs

end

namespace Reader

/-! ## The ends of a document -/

/-- What follows an item of an array stops a number. -/
theorem stops_moreItems (xs : List Json) (rest : List Char) : Stops (moreItems xs ++ rest) := by
  cases xs with
  | nil =>
    rintro c ⟨⟩
    exact .inr (.inl rfl)
  | cons x xs =>
    rintro c ⟨⟩
    exact .inl rfl

/-- What follows a field of an object stops a number. -/
theorem stops_moreFields (xs : List (String × Json)) (rest : List Char) :
    Stops (moreFields xs ++ rest) := by
  rcases xs with _ | ⟨⟨name, x⟩, xs⟩
  · rintro c ⟨⟩
    exact .inr (.inr rfl)
  · rintro c ⟨⟩
    exact .inl rfl

/-- At least the closing bracket is written after an item. -/
theorem length_moreItems_pos (xs : List Json) : 0 < (moreItems xs).length := by
  cases xs <;> exact Nat.succ_pos _

/-- At least the closing brace is written after a field. -/
theorem length_moreFields_pos (xs : List (String × Json)) : 0 < (moreFields xs).length := by
  rcases xs with _ | ⟨⟨name, x⟩, xs⟩ <;> exact Nat.succ_pos _

/-- Only white space is skipped. -/
theorem skipSpace_cons {c : Char} (h : Text.isBlank c = false) (cs : List Char) :
    skipSpace (c :: cs) = c :: cs := by
  have hspace : (c == ' ' || c == '\n' || c == '\r' || c == '\t') = false := by
    by_contra hc
    simp only [Bool.not_eq_false, Bool.or_eq_true, beq_iff_eq] at hc
    rcases hc with ((rfl | rfl) | rfl) | rfl <;> exact absurd h (by decide)
  rw [skipSpace, List.dropWhile_cons, if_neg (by rw [hspace]; decide)]

/-- What a number begins with is no white space. -/
theorem isBlank_eq_false_of_number {c : Char} (h : c = '-' ∨ c.isDigit = true) :
    Text.isBlank c = false := by
  rcases h with rfl | h
  · decide
  · simp only [Char.isDigit, Bool.and_eq_true, decide_eq_true_eq] at h
    obtain ⟨hlow, hhigh⟩ := h
    have hlow : 48 ≤ c.toNat := hlow
    have hhigh : c.toNat ≤ 57 := hhigh
    simp only [Text.isBlank, Bool.or_eq_false_iff, Bool.and_eq_false_iff, beq_eq_false_iff_ne,
      decide_eq_false_iff_not]
    omega

end Reader

/-- A document begins with a character that is no white space and closes nothing. -/
theorem exists_head_of_chars {v : Json} (h : v.Legible) :
    ∃ c more, v.chars = c :: more ∧ Text.isBlank c = false ∧ c ≠ ']' := by
  cases v with
  | null => exact ⟨_, _, rfl, by decide⟩
  | bool b => cases b <;> exact ⟨_, _, rfl, by decide⟩
  | number n =>
    obtain ⟨c, more, hcs, hc⟩ := Reader.exists_head_of_number (Number.IsLegible.number h)
    refine ⟨c, more, hcs, Reader.isBlank_eq_false_of_number hc, ?_⟩
    rintro rfl
    exact absurd hc (by decide)
  | string s => exact ⟨_, _, rfl, by decide⟩
  | array items => cases items <;> exact ⟨_, _, rfl, by decide⟩
  | object fields => cases fields <;> exact ⟨_, _, rfl, by decide⟩

/-- The text of a legible document is not white space throughout. -/
theorem allBlank_text {v : Json} (h : v.Legible) : Text.allBlank v.text.toList = false := by
  obtain ⟨c, more, hchars, hc, -⟩ := exists_head_of_chars h
  rw [text, String.toList_ofList, hchars, Text.allBlank, List.all_cons, hc, Bool.false_and]

namespace Reader

/-! ## One step of the reader -/

section steps

variable {fuel depth : Nat} {cs rest : List Char} {x : Json} {name : String}

/-- A number is read back as a value. -/
theorem value_number {n : Number} (h : n.IsLegible) (hrest : Stops rest) :
    value (fuel + 1) depth (n.text.toList ++ rest) = some (.number n, rest) := by
  have hnumber : number (n.text.toList ++ rest) = some (n, rest) := by
    rw [halts_number _ rest hrest, h.number]
    rfl
  obtain ⟨c, more, hcs, hc⟩ := exists_head_of_number hnumber
  rw [value, hcs, skipSpace_cons (isBlank_eq_false_of_number hc)]
  -- the other kinds of values begin with neither a sign nor a digit
  split
  all_goals first
    | next heq =>
      obtain ⟨rfl, -⟩ := List.cons.inj heq
      exact absurd hc (by decide)
    | skip
  rw [← hcs, hnumber]
  rfl

/-- An array with items is read back if its items are. -/
theorem value_array {xs : List Json} {c : Char} {more : List Char} (hcs : cs = c :: more)
    (hspace : Text.isBlank c = false) (hclose : c ≠ ']')
    (h : items fuel depth cs = some (xs, rest)) :
    value (fuel + 1) (depth + 1) ('[' :: cs) = some (.array xs, rest) := by
  subst hcs
  rw [value, skipSpace_cons (by decide)]
  simp only [Nat.add_one_ne_zero, if_false, skipSpace_cons hspace, Nat.add_sub_cancel]
  split
  · next heq => exact absurd (List.cons.inj heq).1 hclose
  · rw [h]
    rfl

/-- An object with fields is read back if its fields are. -/
theorem value_object {xs : List (String × Json)}
    (h : fields fuel depth ('"' :: cs) = some (xs, rest)) :
    value (fuel + 1) (depth + 1) ('{' :: '"' :: cs) = some (.object xs, rest) := by
  rw [value, skipSpace_cons (by decide)]
  simp only [Nat.add_one_ne_zero, if_false, skipSpace_cons (c := '"') (by decide),
    Nat.add_sub_cancel]
  change Option.map _ (fields fuel depth ('"' :: cs)) = _
  rw [h]
  rfl

/-- The only, or the last, item is read up to the closing bracket. -/
theorem items_last (h : value fuel depth cs = some (x, ']' :: rest)) :
    items (fuel + 1) depth cs = some ([x], rest) := by
  rw [items, h]
  rfl

/-- An item that others follow is read, and then the others. -/
theorem items_more {xs : List Json} {more : List Char}
    (h : value fuel depth cs = some (x, ',' :: more))
    (hxs : items fuel depth more = some (xs, rest)) :
    items (fuel + 1) depth cs = some (x :: xs, rest) := by
  rw [items, h]
  simp only [skipSpace_cons (c := ',') (by decide), hxs]
  rfl

/-- The only, or the last, field is read up to the closing brace. -/
theorem fields_last (h : value fuel depth cs = some (x, '}' :: rest)) :
    fields (fuel + 1) depth (quoted name ++ ':' :: cs) = some ([(name, x)], rest) := by
  rw [quoted_append, fields, skipSpace_cons (by decide)]
  simp only [stringBody_quoted, skipSpace_cons (c := ':') (by decide), h]
  rfl

/-- A field that others follow is read, and then the others. -/
theorem fields_more {xs : List (String × Json)} {more : List Char}
    (h : value fuel depth cs = some (x, ',' :: more))
    (hxs : fields fuel depth more = some (xs, rest)) :
    fields (fuel + 1) depth (quoted name ++ ':' :: cs) = some ((name, x) :: xs, rest) := by
  rw [quoted_append, fields, skipSpace_cons (by decide)]
  simp only [stringBody_quoted, skipSpace_cons (c := ':') (by decide), h,
    skipSpace_cons (c := ',') (by decide), hxs]
  rfl

/-- The only, or the last, known field is read up to the closing brace. -/
theorem knownFields_last {names : List String} (hname : name ∈ names)
    (h : value fuel depth cs = some (x, '}' :: rest)) :
    knownFields names (fuel + 1) depth (quoted name ++ ':' :: cs) = some ([(name, x)], rest) := by
  rw [quoted_append, knownFields, skipSpace_cons (by decide)]
  simp only [stringBody_quoted, Option.map_some, skipSpace_cons (c := ':') (by decide), knownField,
    if_pos hname, h]
  rfl

/-- A known field that others follow is read, and then the others. -/
theorem knownFields_more {names : List String} {xs : List (String × Json)} {more : List Char}
    (hname : name ∈ names) (h : value fuel depth cs = some (x, ',' :: more))
    (hxs : knownFields names fuel depth more = some (xs, rest)) :
    knownFields names (fuel + 1) depth (quoted name ++ ':' :: cs) =
      some ((name, x) :: xs, rest) := by
  rw [quoted_append, knownFields, skipSpace_cons (by decide)]
  simp only [stringBody_quoted, Option.map_some, skipSpace_cons (c := ':') (by decide), knownField,
    if_pos hname, h, skipSpace_cons (c := ',') (by decide), hxs]
  rfl

end steps

/-! ## Documents -/

/-- Behind the comma stand the next item and what follows it. -/
theorem tail_moreItems_append (x : Json) (xs : List Json) (rest : List Char) :
    (moreItems (x :: xs)).tail ++ rest = x.chars ++ (moreItems xs ++ rest) := by
  rw [moreItems, List.cons_append, List.tail_cons, List.append_assoc]

/-- Behind the comma stand the next name, its value and what follows. -/
theorem tail_moreFields_append (name : String) (x : Json) (xs : List (String × Json))
    (rest : List Char) :
    (moreFields ((name, x) :: xs)).tail ++ rest =
      quoted name ++ ':' :: (x.chars ++ (moreFields xs ++ rest)) := by
  simp [moreFields]

mutual

/-- A document is read back, and whatever follows is left alone. -/
theorem value_chars : (v : Json) → (fuel depth : Nat) → (rest : List Char) → v.Legible →
    v.depth ≤ depth → 2 * v.chars.length ≤ fuel + 1 → Stops rest →
    value (fuel + 1) depth (v.chars ++ rest) = some (v, rest)
  | .null, _, _, _, _, _, _, _ => rfl
  | .bool true, _, _, _, _, _, _, _ => rfl
  | .bool false, _, _, _, _, _, _, _ => rfl
  | .number _, _, _, _, hlegible, _, _, hrest => value_number hlegible hrest
  | .string s, fuel, depth, rest, _, _, _, _ => by
    rw [chars, quoted_append, value, skipSpace_cons (by decide)]
    simp only [stringBody_quoted]
    rfl
  | .array items, fuel, depth, rest, hlegible, hdepth, hfuel, _ => by
    obtain ⟨depth, rfl⟩ := Nat.exists_eq_add_of_le' (Nat.le_trans (Nat.le_add_left 1 _) hdepth)
    match items with
    | [] => rfl
    | x :: xs =>
      simp only [chars, List.length_append, List.length_cons] at hfuel
      obtain ⟨fuel, rfl⟩ : ∃ more, fuel = more + 1 := ⟨fuel - 1, by omega⟩
      have hxs := items_chars (x :: xs) fuel depth rest (List.cons_ne_nil x xs) hlegible
        (Nat.le_of_succ_le_succ hdepth)
        (by simp only [moreItems, List.length_append, List.length_cons]; omega)
      obtain ⟨c, more, hx, hspace, hclose⟩ := exists_head_of_chars hlegible.1
      have hhead : (moreItems (x :: xs)).tail ++ rest = c :: (more ++ (moreItems xs ++ rest)) := by
        rw [tail_moreItems_append, hx, List.cons_append]
      exact value_array hhead hspace hclose hxs
  | .object fields, fuel, depth, rest, hlegible, hdepth, hfuel, _ => by
    obtain ⟨depth, rfl⟩ := Nat.exists_eq_add_of_le' (Nat.le_trans (Nat.le_add_left 1 _) hdepth)
    match fields with
    | [] => rfl
    | (name, x) :: xs =>
      simp only [chars, List.length_append, List.length_cons] at hfuel
      obtain ⟨fuel, rfl⟩ : ∃ more, fuel = more + 1 := ⟨fuel - 1, by omega⟩
      have hxs := fields_chars ((name, x) :: xs) fuel depth rest (List.cons_ne_nil _ xs) hlegible
        (Nat.le_of_succ_le_succ hdepth)
        (by simp only [moreFields, List.length_append, List.length_cons]; omega)
      exact value_object hxs

/-- The items of an array are read back up to the closing bracket, and whatever follows is left
alone. -/
theorem items_chars : (xs : List Json) → (fuel depth : Nat) → (rest : List Char) → xs ≠ [] →
    LegibleItems xs → depthItems xs ≤ depth → 2 * (moreItems xs).length ≤ fuel + 2 →
    items (fuel + 1) depth ((moreItems xs).tail ++ rest) = some (xs, rest)
  | [], _, _, _, h, _, _, _ => absurd rfl h
  | x :: xs, fuel, depth, rest, _, hlegible, hdepth, hfuel => by
    simp only [moreItems, List.length_append, List.length_cons] at hfuel
    have hpos := length_moreItems_pos xs
    obtain ⟨fuel, rfl⟩ : ∃ more, fuel = more + 1 := ⟨fuel - 1, by omega⟩
    have hx := value_chars x fuel depth (moreItems xs ++ rest) hlegible.1
      (Nat.le_trans (Nat.le_max_left _ _) hdepth) (by omega) (stops_moreItems xs rest)
    rw [tail_moreItems_append]
    match xs with
    | [] => exact items_last hx
    | y :: ys =>
      have hxs := items_chars (y :: ys) fuel depth rest (List.cons_ne_nil y ys) hlegible.2
        (Nat.le_trans (Nat.le_max_right _ _) hdepth) (by omega)
      exact items_more hx hxs

/-- The fields of an object are read back up to the closing brace, and whatever follows is left
alone. -/
theorem fields_chars : (xs : List (String × Json)) → (fuel depth : Nat) → (rest : List Char) →
    xs ≠ [] → LegibleFields xs → depthFields xs ≤ depth →
    2 * (moreFields xs).length ≤ fuel + 2 →
    fields (fuel + 1) depth ((moreFields xs).tail ++ rest) = some (xs, rest)
  | [], _, _, _, h, _, _, _ => absurd rfl h
  | (name, x) :: xs, fuel, depth, rest, _, hlegible, hdepth, hfuel => by
    simp only [moreFields, List.length_append, List.length_cons] at hfuel
    have hpos := length_moreFields_pos xs
    obtain ⟨fuel, rfl⟩ : ∃ more, fuel = more + 1 := ⟨fuel - 1, by omega⟩
    have hx := value_chars x fuel depth (moreFields xs ++ rest) hlegible.1
      (Nat.le_trans (Nat.le_max_left _ _) hdepth) (by omega) (stops_moreFields xs rest)
    rw [tail_moreFields_append]
    match xs with
    | [] => exact fields_last hx
    | y :: ys =>
      have hxs := fields_chars (y :: ys) fuel depth rest (List.cons_ne_nil y ys) hlegible.2
        (Nat.le_trans (Nat.le_max_right _ _) hdepth) (by omega)
      exact fields_more hx hxs

end

/-- Where all fields are known, they are read back as well. -/
theorem knownFields_chars {names : List String} (xs : List (String × Json)) (fuel depth : Nat)
    (rest : List Char) (hne : xs ≠ []) (hnames : ∀ field ∈ xs, field.1 ∈ names)
    (hlegible : LegibleFields xs) (hdepth : depthFields xs ≤ depth)
    (hfuel : 2 * (moreFields xs).length ≤ fuel + 2) :
    knownFields names (fuel + 1) depth ((moreFields xs).tail ++ rest) = some (xs, rest) := by
  induction xs generalizing fuel with
  | nil => exact absurd rfl hne
  | cons field xs ih =>
    obtain ⟨name, x⟩ := field
    simp only [moreFields, List.length_append, List.length_cons] at hfuel
    have hpos := length_moreFields_pos xs
    obtain ⟨fuel, rfl⟩ : ∃ more, fuel = more + 1 := ⟨fuel - 1, by omega⟩
    have hname : name ∈ names := hnames (name, x) List.mem_cons_self
    have hx := value_chars x fuel depth (moreFields xs ++ rest) hlegible.1
      (Nat.le_trans (Nat.le_max_left _ _) hdepth) (by omega) (stops_moreFields xs rest)
    rw [tail_moreFields_append]
    cases xs with
    | nil => exact knownFields_last hname hx
    | cons y ys =>
      have hxs := ih fuel (List.cons_ne_nil y ys)
        (fun field hfield => hnames field (List.mem_cons_of_mem _ hfield)) hlegible.2
        (Nat.le_trans (Nat.le_max_right _ _) hdepth) (by omega)
      exact knownFields_more hname hx hxs

end Reader

/-! ## Whole texts -/

section texts

variable {depth : Nat}

/-- A whole text is read as the document that it was written for. -/
theorem document?_text {v : Json} (hlegible : v.Legible) (hdepth : v.depth ≤ depth) :
    document? depth v.text.toList = some v := by
  have hvalue := Reader.value_chars v (2 * v.chars.length + 1) depth [] hlegible hdepth (by omega)
    (fun c hc => by cases hc)
  rw [List.append_nil] at hvalue
  rw [text, String.toList_ofList, document?, hvalue]
  rfl

/-- The text of an object with fields, of which only the known ones are read. -/
theorem recordDocument?_of_knownFields {names : List String} {cs : List Char}
    {fields : List (String × Json)}
    (h : Reader.knownFields names (2 * ('{' :: '"' :: cs).length + 2) (depth - 1) ('"' :: cs) =
      some (fields, [])) :
    recordDocument? names depth ('{' :: '"' :: cs) = some (.object fields) := by
  rw [recordDocument?, Reader.skipSpace_cons (by decide)]
  simp only [Reader.skipSpace_cons (c := '"') (by decide)]
  split
  · next heq => exact absurd (List.cons.inj heq).1 (by decide)
  · rw [h]
    rfl

/-- A text of which only known fields are read is read as the record that it was written for, if all
its fields are known. -/
theorem recordDocument?_text {names : List String} {fields : List (String × Json)}
    (hnames : ∀ field ∈ fields, field.1 ∈ names) (hlegible : (object fields).Legible)
    (hdepth : (object fields).depth ≤ depth) :
    recordDocument? names depth (object fields).text.toList = some (.object fields) := by
  match fields with
  | [] => exact document?_text hlegible hdepth
  | (name, x) :: xs =>
    have htail : (moreFields ((name, x) :: xs)).tail =
        '"' :: (name.toList.flatMap escape ++ '"' :: ':' :: (x.chars ++ moreFields xs)) := by
      simp [moreFields, quoted]
    have hchars : (object ((name, x) :: xs)).chars =
        '{' :: '"' :: (name.toList.flatMap escape ++ '"' :: ':' :: (x.chars ++ moreFields xs)) :=
      congrArg ('{' :: ·) htail
    have hlength : (moreFields ((name, x) :: xs)).length =
        (object ((name, x) :: xs)).chars.length := rfl
    have hfields := Reader.knownFields_chars ((name, x) :: xs)
      (2 * (object ((name, x) :: xs)).chars.length + 1) (depth - 1) [] (List.cons_ne_nil _ xs)
      hnames hlegible (Nat.le_sub_of_add_le hdepth) (by rw [hlength]; omega)
    rw [List.append_nil, htail, hchars] at hfields
    rw [text, String.toList_ofList, hchars]
    exact recordDocument?_of_knownFields hfields

end texts

/-! ## Values -/

mutual

/-- What is in order already is its own value. -/
theorem canonical_of_sorted : (v : Json) → v.Sorted → v.canonical = v
  | .null, _ => rfl
  | .bool _, _ => rfl
  | .number _, _ => rfl
  | .string _, _ => rfl
  | .array items, h => congrArg array (canonicalItems_of_sorted items h)
  | .object fields, h => congrArg object (canonicalFields_of_sorted fields [] h.2 h.1)

/-- Items in order are their own values. -/
theorem canonicalItems_of_sorted : (xs : List Json) → SortedItems xs → canonicalItems xs = xs
  | [], _ => rfl
  | x :: xs, h => by
    rw [canonicalItems, canonical_of_sorted x h.1, canonicalItems_of_sorted xs h.2]

/-- Fields in order are their own values, behind others that come before them. -/
theorem canonicalFields_of_sorted : (xs acc : List (String × Json)) → SortedFields xs →
    Ascending (acc ++ xs) → canonicalFields xs acc = acc ++ xs
  | [], acc, _, _ => (List.append_nil acc).symm
  | (name, x) :: xs, acc, h, hascending => by
    have hlast : ∀ entry ∈ acc, entry.1 < name := fun entry hentry =>
      (List.pairwise_append.mp hascending).2.2 entry hentry (name, x) List.mem_cons_self
    have happend : acc ++ (name, x) :: xs = acc ++ [(name, x)] ++ xs := by simp
    rw [happend] at hascending ⊢
    rw [canonicalFields, canonical_of_sorted x h.1, Entries.put_of_forall_lt x hlast,
      canonicalFields_of_sorted xs _ h.2 hascending]

end

/-- A value is read back from its text. -/
theorem ofText?_text {v : Json} (hsorted : v.Sorted) (hlegible : v.Legible)
    (hdepth : v.depth ≤ maxDepth) : ofText? v.text = some v := by
  rw [ofText?, document?_text hlegible hdepth, Option.map_some, canonical_of_sorted v hsorted]

end Json

end Workflow
