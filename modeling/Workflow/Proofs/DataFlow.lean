import Workflow.Proofs.Path.Grammar
import Workflow.Proofs.Table

/-!
# Results keep what the input has

A result that is entered along a path is entered under the name in which the path ends, and only if
the input has no field of that name. So no field of the input is lost or changed, and entering a
second result along the same path changes nothing.

The path is used in two ways: its last step is the name, and the path as a whole is looked up in the
result. Only for a path of one step are the two the same place, so that what was entered is found
again along it.

* **Filling in** (`Entries.FilledIn`, `Entries.filledIn_unless`): a list of fields that has one more
  name, and all values that it had.
* **Names** (`Path.lastField?_eq_some_iff`, `Path.IsPlain`, `Path.parse_point_iff`): where a path
  ends, and which names make a path of one step when they are written after a point.
* **Refusals** (`Selector.NotEntered`, `Selector.exists_notEntered`): why a result is not entered
  along a path, and that nothing else is in the way.
* **Entering** (`Selector.mergeResult_object`, `Selector.mergeResult_path`): the input with the
  result entered, what is found in it along the path, and the errors in all other cases.
-/

namespace Workflow

/-! ## Filling in -/

namespace Entries

variable {α : Type}

/-- The second list has all values of the first one, and a value under the name; it is this one if
the first list has none there. -/
structure FilledIn (name : String) (value : α) (before after : List (String × α)) : Prop where
  keys : ∀ other, (get? other after).isSome ↔ other = name ∨ (get? other before).isSome
  kept : ∀ other v, get? other before = some v → get? other after = some v
  entered : get? name before = none → get? name after = some value
  ascending : Ascending before → Ascending after

/-- A value is filled in by entering it, unless there is one. -/
theorem filledIn_unless (name : String) (value : α) (fields : List (String × α)) :
    FilledIn name value fields
      (if (get? name fields).isSome then fields else put name value fields) := by
  split
  case isTrue hsome =>
    refine ⟨fun other => ?_, fun _ _ h => h, fun hnone => ?_, id⟩
    · refine ⟨.inr, fun h => ?_⟩
      rcases h with rfl | h
      · exact hsome
      · exact h
    · rw [hnone] at hsome
      cases hsome
  case isFalse hsome =>
    have hnone : get? name fields = none := Option.not_isSome_iff_eq_none.mp hsome
    refine ⟨fun other => ?_, fun other v h => ?_, fun _ => get?_put_self name value fields,
      ascending_put⟩
    · rw [get?_put]
      by_cases heq : other = name <;> simp [heq]
    · have hne : other ≠ name := by
        rintro rfl
        rw [hnone] at h
        cases h
      rw [get?_put_of_ne hne, h]

end Entries

/-! ## Names -/

namespace Path

/-- The last step of a path is a field if the path ends in this field. -/
theorem lastField?_eq_some_iff {path : Path} {name : String} :
    path.lastField? = some name ↔ ∃ steps, path.segments = steps ++ [.field name] := by
  rw [← List.getLast?_eq_some_iff, lastField?]
  cases path.segments.getLast? with
  | none => simp
  | some segment => cases segment <;> simp

/-- A path has no last field if it does not end in a field. -/
theorem lastField?_eq_none_iff {path : Path} :
    path.lastField? = none ↔ ∀ steps name, path.segments ≠ steps ++ [.field name] := by
  rw [Option.eq_none_iff_forall_ne_some]
  simp only [ne_eq, lastField?_eq_some_iff, not_exists]
  exact forall_comm

/-- The names that can be written after a point at the end of a path: not empty, without points and
opening brackets, not beginning with an asterisk and not ending with white space. -/
structure IsPlain (name : String) : Prop where
  nonempty : name.toList ≠ []
  unended : ∀ c ∈ name.toList, c ≠ '.' ∧ c ≠ '['
  unstarred : name.toList.head? ≠ some '*'
  unblank : ∀ c ∈ name.toList.getLast?, Text.isBlank c = false

/-- A text is a path exactly if it can be read as this path. -/
theorem parse_eq_ok_iff {expression : String} {path : Path} :
    parse expression = .ok path ↔ ofText? expression = .ok path := by
  rw [parse]
  cases ofText? expression <;> simp [Except.mapError]

/-- The characters of a path of one step: the root, a point and the name. -/
theorem toList_point (name : String) : ("$." ++ name).toList = '$' :: '.' :: name.toList := by
  simp

/-- After a point a field is written as its name, which is not empty, does not begin with an
asterisk, and has no point or opening bracket. -/
theorem spelled_point_iff {name : String} {cs : List Char} :
    Segment.Spelled (.field name) ('.' :: cs) ↔
      cs = name.toList ∧ cs ≠ [] ∧ (∀ c ∈ cs, c ≠ '.' ∧ c ≠ '[') ∧ cs.head? ≠ some '*' := by
  constructor
  · intro h
    generalize htext : '.' :: cs = text at h
    generalize hsegment : Segment.field name = segment at h
    cases h with
    | point nonempty unended unstarred =>
      cases htext
      cases hsegment
      exact ⟨String.toList_ofList.symm, nonempty, unended, unstarred⟩
    | quoted => cases htext
    | pointed | bracketed | index => cases hsegment
  · rintro ⟨rfl, nonempty, unended, unstarred⟩
    have hspelled := Segment.Spelled.point nonempty unended unstarred
    rwa [String.ofList_toList] at hspelled

/-- Exactly the plain names make a path of one step after the root and a point. -/
theorem parse_point_iff {name : String} :
    parse ("$." ++ name) = .ok ⟨"$." ++ name, [.field name]⟩ ↔ IsPlain name := by
  rw [parse_eq_ok_iff, ofText?_eq_ok_iff, and_iff_right rfl, toList_point]
  constructor
  case mp =>
    rintro ⟨texts, hspelled, htrim⟩
    obtain ⟨text, rfl⟩ : ∃ text, texts = [text] := List.length_eq_one_iff.mp hspelled.length_eq.symm
    obtain ⟨hspelled, -⟩ := List.forall₂_cons.mp hspelled
    rw [List.flatten_singleton] at htrim
    obtain ⟨before, after, hcut, hbefore, -, -, hlast⟩ := Text.trim_eq_iff.mp htrim
    -- The root is not white space, so that nothing has been cut off before it.
    obtain rfl : before = [] := by
      cases before with
      | nil => rfl
      | cons c before =>
        obtain ⟨rfl, -⟩ := List.cons.inj hcut
        exact absurd (hbefore '$' List.mem_cons_self) (by decide)
    obtain ⟨c, cs, rfl, -⟩ := exists_cons_of_spelled hspelled
    simp only [List.nil_append, List.cons_append, List.cons.injEq, true_and] at hcut
    obtain ⟨rfl, hname⟩ := hcut
    obtain ⟨rfl, nonempty, unended, unstarred⟩ := spelled_point_iff.mp hspelled
    refine ⟨nonempty, unended, unstarred, fun c hc => hlast c ?_⟩
    rwa [List.getLast?_cons_cons, List.getLast?_cons_of_ne_nil nonempty]
  case mpr =>
    rintro ⟨nonempty, unended, unstarred, unblank⟩
    have hspelled := spelled_point_iff.mpr ⟨rfl, nonempty, unended, unstarred⟩
    refine ⟨['.' :: name.toList], .cons hspelled .nil, ?_⟩
    rw [List.flatten_singleton]
    refine Text.trim_eq_iff.mpr ⟨[], [], by simp, by simp, by simp, ?_, ?_⟩
    · rintro c ⟨⟩
      decide
    · rwa [List.getLast?_cons_cons, List.getLast?_cons_of_ne_nil nonempty]

end Path

namespace Selector

/-! ## Refusals -/

/-- Why a result is not entered into an input along a path: the text is no path, the path does not
end in a field, or the input is no object. -/
inductive NotEntered (expression : String) (raw : Json) : PathError → Prop
  | noPath {fault : PathFault} (unread : Path.ofText? expression = .error fault) :
      NotEntered expression raw (.invalidPath expression fault)
  | noName {path : Path} (read : Path.ofText? expression = .ok path)
      (unnamed : ∀ steps name, path.segments ≠ steps ++ [.field name]) :
      NotEntered expression raw (.notAField expression)
  | noObject {path : Path} {steps : List Segment} {name : String}
      (read : Path.ofText? expression = .ok path) (named : path.segments = steps ++ [.field name])
      (unfit : ∀ fields, raw ≠ .object fields) :
      NotEntered expression raw (.notAnObject expression)

/-- Each reason for a refusal has its error. -/
theorem mergeResult_of_notEntered {expression : String} {raw : Json} {error : PathError}
    (h : NotEntered expression raw error) (result : Json) :
    mergeResult (.path expression) raw result = .error error := by
  cases h with
  | noPath unread =>
    simp only [mergeResult, Path.parse, unread, Except.mapError, bind, Except.bind]
  | noName read unnamed =>
    have hread := Path.parse_eq_ok_iff.mpr read
    have hlast := Path.lastField?_eq_none_iff.mpr unnamed
    simp only [mergeResult, hread, hlast, bind, Except.bind]
  | @noObject path steps name read named unfit =>
    have hread := Path.parse_eq_ok_iff.mpr read
    have hlast : path.lastField? = some name := Path.lastField?_eq_some_iff.mpr ⟨steps, named⟩
    cases raw with
    | object fields => exact absurd rfl (unfit fields)
    | null | bool | number | string | array =>
      simp only [mergeResult, hread, hlast, bind, Except.bind]

/-- Without a path that ends in a field, or without an object, there is a reason for a refusal. -/
theorem exists_notEntered {expression : String} {raw : Json}
    (h : ∀ path steps name fields, Path.parse expression = .ok path →
      path.segments = steps ++ [.field name] → raw ≠ .object fields) :
    ∃ error, NotEntered expression raw error := by
  cases hread : Path.ofText? expression with
  | error fault => exact ⟨_, .noPath hread⟩
  | ok path =>
    by_cases hnamed : ∃ steps name, path.segments = steps ++ [.field name]
    · obtain ⟨steps, name, hnamed⟩ := hnamed
      exact ⟨_, .noObject hread hnamed fun fields =>
        h path steps name fields (Path.parse_eq_ok_iff.mpr hread) hnamed⟩
    · exact ⟨_, .noName hread fun steps name heq => hnamed ⟨steps, name, heq⟩⟩

/-! ## Entering -/

/-- Entering a result along a path that ends in a field, in an input that is an object. -/
theorem mergeResult_object {expression : String} {path : Path} {steps : List Segment}
    {name : String} (hread : Path.parse expression = .ok path)
    (hnamed : path.segments = steps ++ [.field name]) (fields : List (String × Json))
    (result : Json) :
    mergeResult (.path expression) (.object fields) result =
      .ok (.object (if (Entries.get? name fields).isSome then fields
        else Entries.put name ((path.first? result).getD result) fields)) := by
  have hlast : path.lastField? = some name := Path.lastField?_eq_some_iff.mpr ⟨steps, hnamed⟩
  simp only [mergeResult, hread, hlast, bind, Except.bind]

/-- A field that is in the input is not entered again. -/
theorem mergeResult_of_isSome {expression : String} {path : Path} {steps : List Segment}
    {name : String} (hread : Path.parse expression = .ok path)
    (hnamed : path.segments = steps ++ [.field name]) {fields : List (String × Json)}
    (hsome : (Entries.get? name fields).isSome) (result : Json) :
    mergeResult (.path expression) (.object fields) result = .ok (.object fields) := by
  rw [mergeResult_object hread hnamed, if_pos hsome]

/-- What a path of one step leads to in an object is the field that it names. -/
theorem cutOutput_field {expression : String} {path : Path} {name : String}
    (hread : Path.parse expression = .ok path) (hnamed : path.segments = [.field name])
    {fields : List (String × Json)} {value : Json}
    (hvalue : Entries.get? name fields = some value) :
    cutOutput (.path expression) (.object fields) = .ok value := by
  have hfirst : path.first? (.object fields) = some value := by
    simp [Path.first?, Path.select, Path.follow, hnamed, Segment.next, Json.field?, hvalue]
  simp only [cutOutput, hread, hfirst, bind, Except.bind]

/-- A result is entered along a path, in an input that is an object, under the name in which the
path ends: the value is what the path leads to in the result, or else the whole result, and no field
of the input is lost or changed. Entering another result along the same path then changes nothing;
and if the path has this one step and the input did not have the field, the value is found along the
path. There is such a path for every plain name. In all other cases the result is refused. -/
theorem mergeResult_path :
    (∀ expression path steps name fields result, Path.parse expression = .ok path →
      path.segments = steps ++ [.field name] →
      ∃ merged, mergeResult (.path expression) (.object fields) result = .ok (.object merged) ∧
        Entries.FilledIn name ((path.first? result).getD result) fields merged ∧
        (∀ another,
          mergeResult (.path expression) (.object merged) another = .ok (.object merged)) ∧
        (steps = [] → Entries.get? name fields = none →
          cutOutput (.path expression) (.object merged) =
            .ok ((path.first? result).getD result))) ∧
    (∀ name, Path.parse ("$." ++ name) = .ok ⟨"$." ++ name, [.field name]⟩ ↔ Path.IsPlain name) ∧
    ∀ expression raw result,
      (∀ path steps name fields, Path.parse expression = .ok path →
        path.segments = steps ++ [.field name] → raw ≠ .object fields) →
      ∃ error, NotEntered expression raw error ∧
        mergeResult (.path expression) raw result = .error error := by
  refine ⟨fun expression path steps name fields result hread hnamed => ?_,
    fun _ => Path.parse_point_iff, fun expression raw result h => ?_⟩
  · have hfilled := Entries.filledIn_unless name ((path.first? result).getD result) fields
    refine ⟨_, mergeResult_object hread hnamed fields result, hfilled, fun another => ?_,
      fun hsteps hnone => ?_⟩
    · exact mergeResult_of_isSome hread hnamed ((hfilled.keys name).mpr (.inl rfl)) another
    · exact cutOutput_field hread (by rw [hnamed, hsteps, List.nil_append]) (hfilled.entered hnone)
  · obtain ⟨error, herror⟩ := exists_notEntered h
    exact ⟨error, herror, mergeResult_of_notEntered herror result⟩

/-- The whole path is looked up in the result, but its last step alone names the new field; a plain
name is found again; and nothing is entered into an array. -/
theorem mergeResult_reportTitle :
    (∃ merged,
      mergeResult (.path "$.report.title") (.object [("id", .bool true)])
        (.object [("report", .object [("title", .string "done")])]) = .ok (.object merged) ∧
      Entries.FilledIn "title" (.string "done") [("id", .bool true)] merged) ∧
    (∃ merged,
      mergeResult (.path "$.title") (.object [("id", .bool true)]) (.string "done") =
        .ok (.object merged) ∧
      cutOutput (.path "$.title") (.object merged) = .ok (.string "done")) ∧
    mergeResult (.path "$.title") (.array []) (.string "done") =
      .error (.notAnObject "$.title") := by
  have hplain : Path.IsPlain "title" := by
    refine ⟨by decide, by simp, by decide, ?_⟩
    rintro c ⟨⟩
    decide
  have hread : Path.parse "$.title" = .ok ⟨"$.title", [.field "title"]⟩ :=
    mergeResult_path.2.1 "title" |>.mpr hplain
  refine ⟨?_, ?_, ?_⟩
  · obtain ⟨merged, hmerged, hfilled, -⟩ := mergeResult_path.1 "$.report.title"
      ⟨"$.report.title", [.field "report", .field "title"]⟩ [.field "report"] "title"
      [("id", .bool true)] (.object [("report", .object [("title", .string "done")])])
      (by decide +kernel) rfl
    exact ⟨merged, hmerged, hfilled⟩
  · obtain ⟨merged, hmerged, -, -, hback⟩ := mergeResult_path.1 "$.title" _ [] "title"
      [("id", .bool true)] (.string "done") hread rfl
    exact ⟨merged, hmerged, hback rfl rfl⟩
  · obtain ⟨error, herror, hrefused⟩ := mergeResult_path.2.2 "$.title" (.array []) (.string "done")
      (fun _ _ _ _ _ _ => nofun)
    rw [Path.parse_eq_ok_iff] at hread
    rw [hrefused]
    cases herror with
    | noPath unread => rw [hread] at unread; cases unread
    | noName read unnamed =>
      rw [hread] at read
      cases read
      exact absurd rfl (unnamed [] "title")
    | noObject => rfl

end Selector

end Workflow
