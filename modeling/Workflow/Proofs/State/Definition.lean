import Workflow.Proofs.Json.Record
import Workflow.State.Definition

/-!
# Definitions that are read back

The body of a state can be written in many ways: as an object or as an array, with null for what is
absent or without it, with its defaults or without them. Written anew it has one form, from which
the same body is read again.

* **Parts** (`RetryPolicy.readsBack`, `CatchPolicy.readsBack`, `BranchDefinition.readsBack`,
  `BranchLineage.readsBack`, `StateBody.readsBack`): whatever has been read of a policy, a branch, a
  lineage or a body is read back when it is written.
* **Acceptance** (`Definition.exists_of_ofJson`, `Definition.ofJson_of_body`): what an accepted
  definition is made of, and that nothing else is needed.
* **Definitions** (`Definition.ofJson_toJson_body`): an accepted definition is accepted again in the
  form in which its body is written, and is the same.
-/

namespace Workflow

/-! ## Policies -/

/-- A selector that has been read is read back: a path that is `$` has been read as everything. -/
theorem Selector.readsBack : Json.ReadsBack ofJson? toJson := by
  intro v selector h
  cases v with
  | null => cases h; rfl
  | string s =>
    simp only [ofJson?, Option.some.injEq] at h
    split at h
    · cases h; rfl
    · next hs => cases h; simp [ofJson?, toJson, hs]
  | _ => cases h

namespace RetryPolicy

/-- A written retry policy has each of its parts under the name of the part. -/
theorem get?_parts (p : RetryPolicy) {name : String} {value : Option Json}
    (h : (name, value) ∈ p.parts) :
    Entries.get? name (Entries.ofList (Json.present p.parts)) = value :=
  Json.get?_ofList_present (show (p.parts.map (·.1)).Nodup from
    (by decide : fieldNames.Nodup)) h

/-- A retry policy that has been read is read back. -/
theorem readsBack : Json.ReadsBack ofJson? toJson := by
  intro v p h
  simp only [ofJson?, bind, pure, Option.bind_eq_some_iff, Option.some.injEq] at h
  obtain ⟨fields, -, errorEquals, herrors, maxAttempts, hattempts, interval, hinterval, rate, hrate,
    hp⟩ := h
  replace herrors := Json.readsBack_string.list.required herrors
    (p.get?_parts (by simp [parts, ← hp, Json.strings]))
  replace hattempts := (Json.readsBack_nat _).withDefault hattempts rfl
    (p.get?_parts (by simp [parts, ← hp]))
  replace hinterval := Json.readsBack_double.withDefault hinterval rfl
    (p.get?_parts (by simp [parts, ← hp]))
  replace hrate := Json.readsBack_double.withDefault hrate rfl
    (p.get?_parts (by simp [parts, ← hp]))
  rw [toJson, ofJson?, Json.recordFields?_record]
  simp only [Option.bind_some, herrors, hattempts, hinterval, hrate, hp, bind, pure]

end RetryPolicy

namespace CatchPolicy

/-- A written catch policy has each of its parts under the name of the part. -/
theorem get?_parts (p : CatchPolicy) {name : String} {value : Option Json}
    (h : (name, value) ∈ p.parts) :
    Entries.get? name (Entries.ofList (Json.present p.parts)) = value :=
  Json.get?_ofList_present (show (p.parts.map (·.1)).Nodup from
    (by decide : fieldNames.Nodup)) h

/-- A catch policy that has been read is read back. -/
theorem readsBack : Json.ReadsBack ofJson? toJson := by
  intro v p h
  simp only [ofJson?, bind, pure, Option.bind_eq_some_iff, Option.some.injEq] at h
  obtain ⟨fields, -, errorEquals, herrors, next, hnext, path, hpath, hp⟩ := h
  replace herrors := Json.readsBack_string.list.required herrors
    (p.get?_parts (by simp [parts, ← hp, Json.strings]))
  replace hnext := Json.readsBack_string.required hnext (p.get?_parts (by simp [parts, ← hp]))
  replace hpath := Selector.readsBack.withDefault hpath rfl (p.get?_parts (by simp [parts, ← hp]))
  rw [toJson, ofJson?, Json.recordFields?_record]
  simp only [Option.bind_some, herrors, hnext, hpath, hp, bind, pure]

end CatchPolicy

namespace BranchDefinition

/-- A branch that has been read is read back, with its states or without any. -/
theorem readsBack : Json.ReadsBack ofJson? toJson := by
  intro v b h
  simp only [ofJson?, bind, pure, Option.bind_eq_some_iff, Option.some.injEq] at h
  obtain ⟨fields, -, startAt, hstart, states, hstates, hb⟩ := h
  have hget {name : String} {value : Option Json} (hpart : (name, value) ∈ b.parts) :=
    Json.get?_ofList_present (show (b.parts.map (·.1)).Nodup from
      (by decide : ["StartAt", "States"].Nodup)) hpart
  replace hstart := Json.readsBack_string.required hstart (hget (by simp [parts, ← hb]))
  replace hstates := Json.readsBack_value.optional Json.ne_null_of_value hstates
    (hget (by simp [parts, ← hb]))
  rw [toJson, ofJson?, Json.recordFields?_record]
  simp only [Option.bind_some, hstart, hstates, hb, bind, pure]

end BranchDefinition

namespace BranchLineage

/-- A lineage that has been read is read back. -/
theorem readsBack : Json.ReadsBack ofJson? toJson := by
  intro v l h
  simp only [ofJson?, bind, pure, Option.bind_eq_some_iff, Option.some.injEq] at h
  obtain ⟨fields, -, name, hname, branch, hbranch, hl⟩ := h
  have hget {name : String} {value : Option Json} (hpart : (name, value) ∈ l.parts) :=
    Json.get?_ofList_present (show (l.parts.map (·.1)).Nodup from
      (by decide : ["Name", "BranchCounter"].Nodup)) hpart
  replace hname := Json.readsBack_string.required hname (hget (by simp [parts, ← hl]))
  replace hbranch := (Json.readsBack_nat _).required hbranch (hget (by simp [parts, ← hl]))
  rw [toJson, ofJson?, Json.recordFields?_record]
  simp only [Option.bind_some, hname, hbranch, hl, bind, pure]

end BranchLineage

namespace StateBody

/-- A written body has each of its parts under the name of the part, or nothing there if the part
has no value. -/
theorem get?_parts (b : StateBody) {name : String} {value : Option Json}
    (h : (name, value) ∈ b.parts) :
    Entries.get? name (Entries.ofList (Json.present b.parts)) = value :=
  Json.get?_ofList_present (show (b.parts.map (·.1)).Nodup from
    (by decide : fieldNames.Nodup)) h

section parts

variable (b : StateBody) {fields : List (String × Json)} {name : String}

/-- A text that has been read of a body is read back, or is absent again. -/
theorem optional_text {value : Option String}
    (hread : Json.optional fields name Json.string? = some value)
    (hpart : (name, value.map Json.string) ∈ b.parts) :
    Json.optional (Entries.ofList (Json.present b.parts)) name Json.string? = some value :=
  Json.readsBack_string.optional (fun _ _ _ _ h => by cases h) hread (b.get?_parts hpart)

/-- A value that has been read of a body is read back, or is absent again. -/
theorem optional_value {value : Option Json} (hread : Json.optional fields name some = some value)
    (hpart : (name, value) ∈ b.parts) :
    Json.optional (Entries.ofList (Json.present b.parts)) name some = some value :=
  Json.readsBack_value.optional Json.ne_null_of_value hread
    ((b.get?_parts hpart).trans (Option.map_id_apply).symm)

/-- A selector that has been read of a body is read back: it is written also where it was absent. -/
theorem withDefault_selector {value : Selector}
    (hread : Json.withDefault fields name Selector.ofJson? .identity = some value)
    (hpart : (name, some value.toJson) ∈ b.parts) :
    Json.withDefault (Entries.ofList (Json.present b.parts)) name Selector.ofJson? .identity =
      some value :=
  Selector.readsBack.withDefault hread rfl (b.get?_parts hpart)

end parts

/-- A body that has been read is read back: each of its fields is, those that are not written by
their defaults. -/
theorem readsBack : Json.ReadsBack ofJson? toJson := by
  intro v b h
  dsimp only [ofJson?, bind, pure] at h
  -- from the outermost step inwards, as every step contains all those behind it
  simp only [↓Option.bind_eq_some_iff, Option.some.injEq] at h
  obtain ⟨fields, -, typeName, htype, next, hnext, isEnd, hend, comment, hcomment, inputPath,
    hinput, outputPath, houtput, resultPath, hresultPath, retriers, hretriers, catchers, hcatchers,
    choices, hchoices, fallback, hfallback, result, hresult, error, herror, cause, hcause, seconds,
    hseconds, secondsPath, hsecondsPath, timestamp, htimestamp, timestampPath, htimestampPath,
    branches, hbranches, branchCount, hcount, lineage, hlineage, hb⟩ := h
  rw [← Json.list?_some] at hchoices
  replace htype := b.optional_text htype (by simp [parts, ← hb])
  replace hnext := b.optional_text hnext (by simp [parts, ← hb])
  replace hend := Json.readsBack_bool.withDefault hend rfl (b.get?_parts (by simp [parts, ← hb]))
  replace hcomment := b.optional_text hcomment (by simp [parts, ← hb])
  replace hinput := b.withDefault_selector hinput (by simp [parts, ← hb])
  replace houtput := b.withDefault_selector houtput (by simp [parts, ← hb])
  replace hresultPath := b.withDefault_selector hresultPath (by simp [parts, ← hb])
  replace hretriers :=
    RetryPolicy.readsBack.withDefault_list hretriers (b.get?_parts (by simp [parts, ← hb]))
  replace hcatchers :=
    CatchPolicy.readsBack.withDefault_list hcatchers (b.get?_parts (by simp [parts, ← hb]))
  replace hchoices :=
    Json.readsBack_value.withDefault_list hchoices (b.get?_parts (by simp [parts, ← hb]))
  replace hfallback := b.optional_text hfallback (by simp [parts, ← hb])
  replace hresult := b.optional_value hresult (by simp [parts, ← hb])
  replace herror := b.optional_text herror (by simp [parts, ← hb])
  replace hcause := b.optional_text hcause (by simp [parts, ← hb])
  replace hseconds := b.optional_value hseconds (by simp [parts, ← hb])
  replace hsecondsPath := b.optional_text hsecondsPath (by simp [parts, ← hb])
  replace htimestamp := b.optional_text htimestamp (by simp [parts, ← hb])
  replace htimestampPath := b.optional_text htimestampPath (by simp [parts, ← hb])
  replace hbranches :=
    BranchDefinition.readsBack.withDefault_list hbranches (b.get?_parts (by simp [parts, ← hb]))
  replace hcount := (Json.readsBack_nat _).optional (fun _ _ _ _ h => by cases h) hcount
    (b.get?_parts (by simp [parts, ← hb]))
  replace hlineage := BranchLineage.readsBack.optional (fun _ _ _ _ h => by cases h) hlineage
    (b.get?_parts (by simp [parts, ← hb]))
  rw [Json.list?_some] at hchoices
  dsimp only [toJson, ofJson?, bind, pure]
  simp only [↓Option.bind_eq_some_iff, Option.some.injEq]
  exact ⟨_, Json.recordFields?_record _ _, _, htype, _, hnext, _, hend, _, hcomment, _, hinput, _,
    houtput, _, hresultPath, _, hretriers, _, hcatchers, _, hchoices, _, hfallback, _, hresult, _,
    herror, _, hcause, _, hseconds, _, hsecondsPath, _, htimestamp, _, htimestampPath, _, hbranches,
    _, hcount, _, hlineage, hb⟩

end StateBody

/-! ## Definitions -/

namespace Definition

variable {typeName name : String} {document : Json} {d : Definition}

/-- A definition that has been accepted is a bare task, or its body has been read from the document,
says of which type it is, and has passed both checks. -/
theorem exists_of_ofJson (h : ofJson typeName name document = .ok d) :
    typeName = StateKind.bareTask ∧ d = bareTask name ∨
      typeName ≠ StateKind.bareTask ∧ ∃ kind body,
        StateKind.ofName? typeName = some kind ∧ StateBody.ofJson? document = some body ∧
          body.typeName = some typeName ∧ d = ⟨name, kind, document, body⟩ ∧
          d.checkBranches = .ok () ∧ d.checkLineage = .ok () := by
  unfold ofJson at h
  split at h
  case h_1 => cases h
  case h_2 kind hkind =>
    split at h
    case isTrue hbare =>
      cases h
      exact .inl ⟨hbare, rfl⟩
    case isFalse hbare =>
      split at h
      case h_1 => cases h
      case h_2 body hbody =>
        split at h
        case isTrue => cases h
        case isFalse htype =>
          cases hbranches : checkBranches ⟨name, kind, document, body⟩ with
          | error e =>
            simp only [hbranches] at h
            cases h
          | ok checked =>
            cases hlineage : checkLineage ⟨name, kind, document, body⟩ with
            | error e =>
              simp only [hbranches, hlineage] at h
              cases h
            | ok checked =>
              simp only [hbranches, hlineage] at h
              cases h
              exact .inr ⟨hbare, kind, body, hkind, hbody, not_not.mp htype, rfl, hbranches,
                hlineage⟩

/-- A document is accepted if it says which type it is of, its body can be read, and the body passes
both checks. -/
theorem ofJson_of_body {kind : StateKind} {body : StateBody} (hbare : typeName ≠ StateKind.bareTask)
    (hkind : StateKind.ofName? typeName = some kind)
    (hbody : StateBody.ofJson? document = some body)
    (htype : body.typeName = some typeName)
    (hbranches : checkBranches ⟨name, kind, document, body⟩ = .ok ())
    (hlineage : checkLineage ⟨name, kind, document, body⟩ = .ok ()) :
    ofJson typeName name document = .ok ⟨name, kind, document, body⟩ := by
  simp only [ofJson, hkind, if_neg hbare, hbody, htype, ne_eq, not_true_eq_false, if_false,
    hbranches, hlineage]
  rfl

/-- The body of a bare task has all its defaults, and is read back as well. -/
theorem ofJson?_toJson_empty : StateBody.ofJson? (StateBody.toJson {}) = some {} :=
  StateBody.readsBack .emptyObject {} rfl

/-- The body of an accepted definition is read back when it is written, and with it the definition:
it is accepted again, under the same name, of the same kind and with the same body. -/
theorem ofJson_toJson_body (h : ofJson typeName name document = .ok d) :
    StateBody.ofJson? d.body.toJson = some d.body ∧
      ∃ again, ofJson typeName name d.body.toJson = .ok again ∧
        again.name = d.name ∧ again.kind = d.kind ∧ again.body = d.body := by
  rcases exists_of_ofJson h with ⟨rfl, rfl⟩ |
    ⟨hbare, kind, body, hkind, hbody, htype, rfl, hbranches, hlineage⟩
  · exact ⟨ofJson?_toJson_empty, bareTask name, rfl, rfl, rfl, rfl⟩
  · have hback := StateBody.readsBack document body hbody
    -- the checks look at the body and not at the document
    exact ⟨hback, ⟨name, kind, body.toJson, body⟩,
      ofJson_of_body hbare hkind hback htype hbranches hlineage, rfl, rfl, rfl⟩

/-! ### A document of many forms -/

/-- The document of a Parallel state within a branch, in which a policy, a branch and the lineage
are arrays, and some fields are null. -/
def sortingDocument : Json :=
  .object [
    ("BranchCount", .nat 2),
    ("Branches", .array [
      .array [.string "Left"], .object [("StartAt", .string "Right"), ("States", .null)]]),
    ("InputPath", .null),
    ("Next", .null),
    ("OutputPath", .string "$.sorted"),
    ("ParentParallelInfo", .array [.string "Outer", .nat 3]),
    ("Result", .null),
    ("Retry", .array [.array [.array [.string "Timeout"]]]),
    ("Type", .string "Parallel")]

/-- The state that is read from `sortingDocument`. -/
def sorting : Definition where
  name := "Sort"
  kind := .parallel
  document := sortingDocument
  body := {
    typeName := some "Parallel"
    inputPath := .empty
    outputPath := .path "$.sorted"
    retriers := [{ errorEquals := ["Timeout"] }]
    branches := [⟨"Left", none⟩, ⟨"Right", none⟩]
    branchCount := some 2
    lineage := some ⟨"Outer", 3⟩ }

/-- The document `sortingDocument` is read as the definition `sorting`. -/
theorem ofJson_sortingDocument :
    ofJson "Parallel" "Sort" sortingDocument = .ok sorting := by
  rfl

/-- The state `sorting` is read back from its body, which is written otherwise than in
`sortingDocument`. -/
theorem sorting_read_back :
    ofJson "Parallel" "Sort" sortingDocument = .ok sorting ∧
      sorting.body.toJson ≠ sortingDocument ∧
      ∃ again, ofJson "Parallel" "Sort" sorting.body.toJson = .ok again ∧
        again.name = "Sort" ∧ again.kind = .parallel ∧ again.body = sorting.body := by
  obtain ⟨-, hagain⟩ := ofJson_toJson_body ofJson_sortingDocument
  exact ⟨ofJson_sortingDocument, by decide +kernel, hagain⟩

end Definition

end Workflow
