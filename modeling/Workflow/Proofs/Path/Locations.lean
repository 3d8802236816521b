import Mathlib.Data.List.Lex
import Mathlib.Tactic.Common
import Workflow.Path
import Workflow.Proofs.Json.Record

/-!
# Locations in a document

A location is where a value stands in a document: the steps that lead down to it from the root. A
path describes locations. What it selects are the values there, as a walk through the document comes
upon them.

* **Locations** (`Json.Step`, `Json.Location`, `Json.at?`): a step leads to a child, steps to a
  value.
* **Branches** (`Json.branches`): the children of a value with the steps that lead to them. In a
  value that is in order every child has a step of its own (`Json.mem_branches`), and the steps
  ascend (`Json.pairwise_branches`).
* **The walk** (`Json.walk`): all locations of a document with the values that stand there, a value
  before its children and these in their order. No location is left out (`Json.mem_walk`), and none
  occurs twice, as they ascend (`Json.pairwise_walk`).
* **Descriptions** (`Segment.admits`, `Path.describes`): which locations the steps of a path
  describe.
* **Selection** (`Path.follow_eq_walk`): the path goes through a document level by level and still
  finds the values in the order of the walk; `Path.select_eq_walk` is the whole account.
-/

namespace Workflow

namespace Json

/-! ## Locations -/

/-- A step from a value to one of its children. -/
inductive Step where
  | field (name : String)
  | item (index : Nat)
  deriving DecidableEq, Repr

/-- The steps that lead to a value from the root of a document. -/
abbrev Location := List Step

/-- The child that a step leads to. -/
def child? (v : Json) : Step → Option Json
  | .field name => v.field? name
  | .item index => v.item? index

/-- The value at a location. -/
def at? (v : Json) : Location → Option Json
  | [] => some v
  | step :: rest => (v.child? step).bind fun x => x.at? rest

/-- The order of children: fields by their names, items by their positions. -/
def Step.Before : Step → Step → Prop
  | .field a, .field b => a < b
  | .item i, .item j => i < j
  | .field _, .item _ | .item _, .field _ => False

/-- No step comes before itself. -/
theorem Step.Before.irrefl (step : Step) : ¬step.Before step := by
  cases step with
  | field name => exact String.lt_irrefl name
  | item index => exact Nat.lt_irrefl index

/-- The order of locations: a value comes before all that stands in it, and what stands in one child
before what stands in a later one. -/
def Location.Before (a b : Location) : Prop := List.Lex Step.Before a b

/-- A location differs from those that it comes before. -/
theorem Location.Before.ne {a b : Location} (h : a.Before b) : a ≠ b := by
  rintro rfl
  exact List.lex_irrefl Step.Before.irrefl a h

/-! ## Branches -/

/-- The children of a value, each with the step that leads to it. -/
def branches : Json → List (Step × Json)
  | array items => items.zipIdx.map fun (x, index) => (.item index, x)
  | object fields => fields.map fun (name, x) => (.field name, x)
  | null | bool _ | number _ | string _ => []

/-- The branches of a value lead to its children, in order. -/
theorem map_branches (v : Json) : v.branches.map (·.2) = v.children := by
  cases v with
  | array items =>
    rw [branches, children, List.map_map]
    exact List.zipIdx_map_fst 0 items
  | object fields =>
    rw [branches, children, List.map_map]
    rfl
  | _ => rfl

/-- The children of a value in order are in order. -/
theorem Sorted.of_mem_branches {v : Json} (hv : v.Sorted) {branch : Step × Json}
    (h : branch ∈ v.branches) : branch.2.Sorted := by
  cases v with
  | array items =>
    obtain ⟨⟨x, index⟩, hmem, rfl⟩ := List.mem_map.mp h
    exact SortedItems.of_mem hv (List.fst_mem_of_mem_zipIdx hmem)
  | object fields =>
    obtain ⟨entry, hmem, rfl⟩ := List.mem_map.mp h
    exact SortedFields.of_mem hv.2 hmem
  | _ => cases h

/-- In a value in order the branches are the children that steps lead to. -/
theorem mem_branches {v : Json} (hv : v.Sorted) {step : Step} {x : Json} :
    (step, x) ∈ v.branches ↔ v.child? step = some x := by
  cases v with
  | array items =>
    cases step with
    | field name => simp [branches, child?, field?]
    | item index => simp [branches, child?, item?, List.mk_mem_zipIdx_iff_getElem?]
  | object fields =>
    cases step with
    | field name => simp [branches, child?, field?, Entries.get?_eq_some_iff hv.1]
    | item index => simp [branches, child?, item?]
  | _ => cases step <;> simp [branches, child?, field?, item?]

/-- The steps to the children ascend. -/
theorem pairwise_branches {v : Json} (hv : v.Sorted) :
    v.branches.Pairwise fun a b => a.1.Before b.1 := by
  cases v with
  | array items =>
    have hindices : (items.zipIdx.map (·.2)).Pairwise (· < ·) := by
      rw [List.zipIdx_map_snd]
      exact List.pairwise_lt_range'
    rw [branches, List.pairwise_map]
    exact (List.pairwise_map.mp hindices).imp id
  | object fields =>
    rw [branches, List.pairwise_map]
    exact hv.1
  | _ => exact List.Pairwise.nil

/-! ## The walk -/

/-- What stands below a child, seen from its parent. -/
def under (step : Step) (places : List (Location × Json)) : List (Location × Json) :=
  places.map fun (location, x) => (step :: location, x)

mutual

/-- All locations of a document with what stands there, as a walk in depth comes upon them. -/
def walk : Json → List (Location × Json)
  | array items => ([], array items) :: walkItems 0 items
  | object fields => ([], object fields) :: walkFields fields
  | null => [([], null)]
  | bool b => [([], bool b)]
  | number n => [([], number n)]
  | string s => [([], string s)]

/-- The walk through items from a position on. -/
def walkItems : Nat → List Json → List (Location × Json)
  | _, [] => []
  | index, x :: xs => under (.item index) x.walk ++ walkItems (index + 1) xs

/-- The walk through fields. -/
def walkFields : List (String × Json) → List (Location × Json)
  | [] => []
  | (name, x) :: xs => under (.field name) x.walk ++ walkFields xs

end

/-- The walk through items goes through one item after the other. -/
theorem walkItems_eq (items : List Json) (index : Nat) :
    walkItems index items =
      (items.zipIdx index).flatMap fun (x, i) => under (.item i) x.walk := by
  induction items generalizing index with
  | nil => rfl
  | cons x xs ih => rw [walkItems, ih, List.zipIdx_cons, List.flatMap_cons]

/-- The walk through fields goes through one field after the other. -/
theorem walkFields_eq (fields : List (String × Json)) :
    walkFields fields = fields.flatMap fun (name, x) => under (.field name) x.walk := by
  induction fields with
  | nil => rfl
  | cons entry rest ih => rw [walkFields, ih, List.flatMap_cons]

/-- The walk begins with the value and goes through its branches in order. -/
theorem walk_eq (v : Json) :
    v.walk = ([], v) :: v.branches.flatMap fun (step, x) => under step x.walk := by
  cases v with
  | array items => rw [walk, walkItems_eq, branches, List.flatMap_map]
  | object fields => rw [walk, walkFields_eq, branches, List.flatMap_map]
  | _ => rw [walk, branches, List.flatMap_nil]

/-- The walk comes upon every location, and finds there what stands there. -/
theorem mem_walk {v : Json} (hv : v.Sorted) {location : Location} {x : Json} :
    (location, x) ∈ v.walk ↔ v.at? location = some x := by
  induction location generalizing v with
  | nil => simp [walk_eq v, under, at?, eq_comm]
  | cons step rest ih =>
    have hunder : (step :: rest, x) ∈ v.walk ↔
        ∃ y, (step, y) ∈ v.branches ∧ (rest, x) ∈ y.walk := by
      simp [walk_eq v, under]
    rw [hunder, at?, Option.bind_eq_some_iff]
    refine exists_congr fun y => ?_
    rw [mem_branches hv, and_congr_right_iff]
    intro hchild
    exact ih (hv.of_mem_branches ((mem_branches hv).mpr hchild))

/-- A child is smaller than its parent. -/
theorem sizeOf_lt_of_mem_branches {v : Json} {branch : Step × Json} (h : branch ∈ v.branches) :
    sizeOf branch.2 < sizeOf v := by
  cases v with
  | array items =>
    obtain ⟨⟨x, index⟩, hmem, rfl⟩ := List.mem_map.mp h
    have hx := List.sizeOf_lt_of_mem (List.fst_mem_of_mem_zipIdx hmem)
    simp only [array.sizeOf_spec] at hx ⊢
    omega
  | object fields =>
    obtain ⟨⟨name, x⟩, hmem, rfl⟩ := List.mem_map.mp h
    have hx := List.sizeOf_lt_of_mem hmem
    simp only [Prod.mk.sizeOf_spec, object.sizeOf_spec] at hx ⊢
    omega
  | _ => cases h

/-- The locations of the walk ascend, so that it comes upon each of them once. -/
theorem pairwise_walk (v : Json) (hv : v.Sorted) :
    v.walk.Pairwise fun a b => a.1.Before b.1 := by
  rw [walk_eq, List.pairwise_cons]
  refine ⟨?root, List.pairwise_flatMap.mpr ⟨?inside, ?across⟩⟩
  case root =>
    intro place hplace
    obtain ⟨⟨step, x⟩, -, hplace⟩ := List.mem_flatMap.mp hplace
    obtain ⟨inner, -, rfl⟩ := List.mem_map.mp hplace
    exact .nil
  case inside =>
    intro ⟨step, x⟩ hbranch
    have hx := pairwise_walk x (hv.of_mem_branches hbranch)
    exact List.pairwise_map.mpr (hx.imp List.Lex.cons)
  case across =>
    refine (pairwise_branches hv).imp fun hstep a ha b hb => ?_
    obtain ⟨inner, -, rfl⟩ := List.mem_map.mp ha
    obtain ⟨other, -, rfl⟩ := List.mem_map.mp hb
    exact .rel hstep
termination_by sizeOf v
decreasing_by exact sizeOf_lt_of_mem_branches hbranch

/-- The walk comes upon no location twice. -/
theorem nodup_walk {v : Json} (hv : v.Sorted) : (v.walk.map (·.1)).Nodup :=
  List.pairwise_map.mpr ((pairwise_walk v hv).imp fun h => h.ne)

end Json

/-! ## Descriptions -/

/-- Whether a step of a path leads along a step of a location. -/
def Segment.admits : Segment → Json.Step → Bool
  | field name, .field other => name == other
  | index position, .item other => position == other
  | wildcard, _ => true
  | field _, .item _ | index _, .field _ => false

namespace Path

/-- Whether the steps of a path describe a location: step by step each of them leads along it. -/
def describes : List Segment → Json.Location → Bool
  | [], [] => true
  | segment :: rest, step :: steps => segment.admits step && describes rest steps
  | [], _ :: _ | _ :: _, [] => false

end Path

/-- A list has at most one item at a position. -/
theorem filter_zipIdx {α : Type} (items : List α) (position start : Nat) :
    ((items.zipIdx start).filter fun entry => position + start == entry.2).map (·.1) =
      items[position]?.toList := by
  induction items generalizing position start with
  | nil => rfl
  | cons x xs ih =>
    rw [List.zipIdx_cons, List.filter_cons]
    cases position with
    | zero =>
      have hnone : ((xs.zipIdx (start + 1)).filter fun entry => start == entry.2) = [] := by
        refine List.filter_eq_nil_iff.mpr fun entry hentry => ?_
        have hle := List.le_snd_of_mem_zipIdx hentry
        simp only [beq_iff_eq]
        omega
      rw [Nat.zero_add, if_pos (beq_self_eq_true start), hnone]
      rfl
    | succ position =>
      have hrest := ih position (start + 1)
      have hsum : position + (start + 1) = position + 1 + start := by omega
      rw [hsum] at hrest
      simpa using hrest

/-- A step of a path leads to the branches that it admits. -/
theorem Segment.next_eq_branches (segment : Segment) {v : Json} (hv : v.Sorted) :
    segment.next v = (v.branches.filter fun branch => segment.admits branch.1).map (·.2) := by
  cases segment with
  | wildcard =>
    have hall : (v.branches.filter fun branch => wildcard.admits branch.1) = v.branches :=
      List.filter_eq_self.mpr fun _ _ => rfl
    rw [next, hall, Json.map_branches]
  | field name =>
    cases v with
    | object fields =>
      rw [next, Json.field?, ← Entries.filter_key hv.1, Json.branches, List.filter_map,
        List.map_map]
      rfl
    | array items => simp [next, Json.field?, Json.branches, admits, List.filter_map]
    | _ => rfl
  | index position =>
    cases v with
    | object fields => simp [next, Json.item?, Json.branches, admits, List.filter_map]
    | array items =>
      rw [next, Json.item?, ← filter_zipIdx items position 0, Json.branches, List.filter_map,
        List.map_map]
      rfl
    | _ => rfl

namespace Path

/-! ## Selection -/

/-- A path follows its first step, and then the others. -/
theorem follow_cons (segment : Segment) (rest : List Segment) (reached : List Json) :
    follow (segment :: rest) reached = follow rest (reached.flatMap segment.next) := rfl

/-- What is reached from several values is reached from one after the other. -/
theorem follow_eq_flatMap (segments : List Segment) (reached : List Json) :
    follow segments reached = reached.flatMap fun v => follow segments [v] := by
  induction segments generalizing reached with
  | nil => simp [follow]
  | cons segment rest ih =>
    simp only [follow_cons]
    rw [ih, List.flatMap_assoc]
    refine List.flatMap_congr fun v _ => ?_
    rw [List.flatMap_singleton, ← ih]

/-- A path that goes on with further steps follows them from where it has led. -/
theorem follow_append (segments more : List Segment) (reached : List Json) :
    follow (segments ++ more) reached = follow more (follow segments reached) := List.foldl_append

/-- To go through some items of a list is to go through all and leave out the others. -/
theorem flatMap_filter {α β : Type} (p : α → Bool) (f : α → List β) (l : List α) :
    (l.filter p).flatMap f = l.flatMap fun x => if p x then f x else [] := by
  induction l with
  | nil => rfl
  | cons x xs ih =>
    rw [List.filter_cons, List.flatMap_cons]
    cases p x <;> simp [ih]

/-- From what stands below a child, a description keeps what its rest describes in the child, if its
first step admits the child. -/
theorem filter_under (segment : Segment) (rest : List Segment) (step : Json.Step)
    (places : List (Json.Location × Json)) :
    ((Json.under step places).filter fun place => describes (segment :: rest) place.1).map (·.2) =
      if segment.admits step then
        (places.filter fun place => describes rest place.1).map (·.2)
      else [] := by
  rw [Json.under, List.filter_map, List.map_map]
  cases hadmits : segment.admits step with
  | true => simp [Function.comp_def, describes, hadmits]
  | false => simp [Function.comp_def, describes, hadmits]

/-- Level by level a path comes to the values at the locations that it describes, in the order of
the walk. -/
theorem follow_eq_walk (segments : List Segment) {v : Json} (hv : v.Sorted) :
    follow segments [v] = (v.walk.filter fun place => describes segments place.1).map (·.2) := by
  induction segments generalizing v with
  | nil =>
    have hnone : ((v.branches.flatMap fun (step, x) => Json.under step x.walk).filter
        fun place => describes [] place.1) = [] := by
      refine List.filter_eq_nil_iff.mpr fun place hplace => ?_
      obtain ⟨⟨step, x⟩, -, hplace⟩ := List.mem_flatMap.mp hplace
      obtain ⟨inner, -, rfl⟩ := List.mem_map.mp hplace
      simp [describes]
    rw [v.walk_eq, List.filter_cons_of_pos rfl, hnone]
    rfl
  | cons segment rest ih =>
    -- Both sides go through the branches: the path through those that its first step admits, the
    -- walk through all of them, of which the description keeps nothing if the step does not.
    rw [follow_cons, follow_eq_flatMap, List.flatMap_singleton, segment.next_eq_branches hv,
      v.walk_eq, List.filter_cons_of_neg (by simp [describes]), List.filter_flatMap,
      List.map_flatMap, List.flatMap_map, flatMap_filter]
    refine List.flatMap_congr fun ⟨step, x⟩ hbranch => ?_
    rw [filter_under, ih (hv.of_mem_branches hbranch)]

/-- A path without wildcards comes to one value at most. -/
theorem length_follow_le_one {segments : List Segment} (h : .wildcard ∉ segments) (v : Json) :
    (follow segments [v]).length ≤ 1 := by
  induction segments generalizing v with
  | nil => exact Nat.le_refl 1
  | cons segment rest ih =>
    have hsegment : segment ≠ .wildcard := (List.ne_of_not_mem_cons h).symm
    have hrest : .wildcard ∉ rest := List.not_mem_of_not_mem_cons h
    have hnext : ∃ reached : Option Json, segment.next v = reached.toList := by
      cases segment with
      | field name => exact ⟨v.field? name, rfl⟩
      | index position => exact ⟨v.item? position, rfl⟩
      | wildcard => exact absurd rfl hsegment
    obtain ⟨reached, hreached⟩ := hnext
    rw [follow_cons, List.flatMap_singleton, hreached]
    cases reached with
    | none =>
      rw [Option.toList_none, follow_eq_flatMap]
      exact Nat.zero_le 1
    | some x => exact ih hrest x

/-- A path selects the values at the locations that it describes, each once, in the order of a walk
through the document in depth: the walk comes upon every location of the document once, a value
before what stands in it, fields by their names and items by their positions. Going on with another
path leads from each of these values, in order, to those that the other path selects there. And a
path without wildcards selects one value at most, so that the first does not depend on the order. -/
theorem select_eq_walk (path : Path) {data : Json} (hdata : data.Sorted) :
    path.select data =
        (data.walk.filter fun place => describes path.segments place.1).map (·.2) ∧
      (∀ location v, (location, v) ∈ data.walk ↔ data.at? location = some v) ∧
      (data.walk.map (·.1)).Nodup ∧
      (data.walk.map (·.1)).Pairwise Json.Location.Before ∧
      (∀ next whole : Path, whole.segments = path.segments ++ next.segments →
        whole.select data = (path.select data).flatMap next.select) ∧
      (.wildcard ∉ path.segments → (path.select data).length ≤ 1 ∧
        ∀ values, List.Perm values (path.select data) → values.head? = path.first? data) := by
  refine ⟨follow_eq_walk path.segments hdata, fun location v => Json.mem_walk hdata,
    Json.nodup_walk hdata, List.pairwise_map.mpr (Json.pairwise_walk data hdata), ?_, ?_⟩
  · intro next whole hwhole
    rw [select, hwhole, follow_append, follow_eq_flatMap]
    rfl
  · intro hplain
    have hlength : (path.select data).length ≤ 1 := length_follow_le_one hplain data
    refine ⟨hlength, fun values hperm => ?_⟩
    rw [first?]
    generalize path.select data = selected at hlength hperm ⊢
    rcases selected with _ | ⟨v, _ | ⟨other, more⟩⟩
    · rw [hperm.eq_nil]
    · rw [List.perm_singleton.mp hperm]
    · simp at hlength

/-! ### An order -/

/-- A document with an order of two items. -/
def orderDocument : Json :=
  .object [
    ("id", .string "o-1"),
    ("order", .object [("items", .array [
      .object [("qty", .nat 2), ("sku", .string "a")],
      .object [("qty", .nat 5), ("sku", .string "b")]])]),
    ("total", .nat 7)]

/-- In `orderDocument`, two wildcards select the fields of all items, item by item. -/
theorem select_orderDocument :
    orderDocument.Sorted ∧
      (⟨"$.order.items[*].*", [.field "order", .field "items", .wildcard, .wildcard]⟩ :
        Path).select orderDocument = [.nat 2, .string "a", .nat 5, .string "b"] := by
  have hsorted : orderDocument.Sorted := by
    simp only [orderDocument, Json.Sorted, Json.SortedFields, Json.SortedItems, Ascending, Json.nat]
    decide +kernel
  refine ⟨hsorted, (select_eq_walk _ hsorted).1.trans ?_⟩
  decide +kernel

end Path

end Workflow
