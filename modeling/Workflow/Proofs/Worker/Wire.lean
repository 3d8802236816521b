import Mathlib.Data.List.Forall2
import Mathlib.Tactic.Common
import Workflow.FanOut.Trigger
import Workflow.Proofs.Json.Characters
import Workflow.Proofs.Json.Record
import Workflow.Proofs.Json.Text
import Workflow.Worker.Session

/-!
# Messages on the wire

Whatever is written to a channel is one document on one line: the input of a task, the frames of its
worker and the answers to them, and in the same way the trigger of a join. What has been written,
one message after the other, is heard line by line as it was told.

* **Lines** (`rawLines_append`, `linesOf_flatMap_frameBytes`): the bytes of a document hold neither
  a newline nor a carriage return, so there is a line for each document, with its text.
* **Frames, answers and triggers** (`WorkerFrame.ofJson?_toJson`, `CallbackResponse.ofJson?_toJson`,
  `JoinTrigger.ofJson?_document`): they are read back from their documents, field by field, if their
  numbers fit into words.
* **Messages** (`Message`, `Message.IsSendable`, `Message.read?_text`): a message is read back from
  its text if its values are in order, its numbers are legible and it is not nested too deeply.
* **What is heard** (`readLine_frame`, `heardLines`, `Message.sent_read_back`): a session takes a
  frame as it was meant, and of any number of messages each is heard on one line.
-/

namespace Workflow

/-! ## Lines -/

/-- A line is closed by the end of line behind it. -/
theorem rawLines_append {bytes : List UInt8} (h : ∀ b ∈ bytes, b ≠ 10) (read more : List UInt8) :
    rawLines read (bytes ++ 10 :: more) =
      closeLine (bytes.reverse ++ read) :: rawLines [] more := by
  induction bytes generalizing read with
  | nil => rfl
  | cons b bytes ih =>
    obtain ⟨hb, hbytes⟩ := List.forall_mem_cons.mp h
    rw [List.cons_append, rawLines.eq_3 _ _ _ hb, ih hbytes, List.reverse_cons, List.append_assoc,
      List.singleton_append]

/-- A line without a carriage return is closed as it is. -/
theorem closeLine_reverse {bytes : List UInt8} (h : ∀ b ∈ bytes, b ≠ 13) :
    closeLine bytes.reverse = bytes := by
  cases hreverse : bytes.reverse with
  | nil =>
    rw [List.reverse_eq_nil_iff.mp hreverse]
    rfl
  | cons b rest =>
    have hb : b ≠ 13 := h b (List.mem_reverse.mp (hreverse ▸ List.mem_cons_self))
    rw [closeLine.eq_2 _ (fun _ heq => hb (List.cons.inj heq).1), ← hreverse,
      List.reverse_reverse]

/-- A text is read back from its bytes. -/
theorem utf8Text?_toUTF8 (s : String) : utf8Text? s.toUTF8.data.toList = some s := by
  rw [utf8Text?, Array.toArray_toList, String.fromUTF8?]
  exact dif_pos s.isValidUTF8

/-- The lines of documents that have been sent are their texts. -/
theorem linesOf_flatMap_frameBytes (documents : List Json) :
    linesOf (documents.flatMap frameBytes) = documents.map fun v => some v.text := by
  induction documents with
  | nil => rfl
  | cons v rest ih =>
    have hcontrol {control : UInt8} (h : control.toNat < 0x20) :
        ∀ b ∈ v.text.toUTF8.data.toList, b ≠ control := by
      rintro b hb rfl
      exact Nat.not_le.mpr h (v.isPrintedByte_text b hb)
    rw [linesOf] at ih ⊢
    rw [List.flatMap_cons, frameBytes, List.append_assoc, List.singleton_append,
      rawLines_append (hcontrol (by decide)), List.append_nil,
      closeLine_reverse (hcontrol (by decide)), List.map_cons, utf8Text?_toUTF8, ih, List.map_cons]

/-! ## Requests and frames -/

namespace Json

/-- A natural number of 64 bits is legible. -/
theorem legible_nat {n : Nat} (h : n < Word.count64) : (nat n).Legible := by
  have hword : Word.isInteger n = true := by
    simp only [Word.isInteger, Bool.and_eq_true, decide_eq_true_eq]
    simp only [Word.count64] at h
    omega
  exact hword

/-- An integer of 64 bits is legible. -/
theorem legible_int {i : Int} (h : Word.isSigned i = true) : (int i).Legible := by
  have hword : Word.isInteger i = true := by
    simp only [Word.isInteger, Word.isSigned, Bool.and_eq_true, decide_eq_true_eq] at h ⊢
    omega
  exact hword

/-- A list is legible if each of its items is. -/
theorem legibleItems_map {α : Type} {write : α → Json} {items : List α}
    (h : ∀ a ∈ items, (write a).Legible) : LegibleItems (items.map write) := by
  induction items with
  | nil => exact trivial
  | cons a rest ih =>
    obtain ⟨ha, hrest⟩ := List.forall_mem_cons.mp h
    exact ⟨ha, ih hrest⟩

end Json

namespace CallbackRequest

/-- The value that a request carries, if it carries one. -/
def values : CallbackRequest → List Json
  | put _ value | dispatch _ value => [value]
  | get _ | delete _ | createSet _ | addMember _ _ | members _ | deleteSet _ => []

/-- A value in order is read as it is where any value may stand. -/
theorem anyValue_of_sorted {v : Json} (h : v.Sorted) : anyValue v = some v :=
  congrArg some (Json.canonical_of_sorted v h)

/-- A request is read back, whichever it is. -/
theorem ofJson?_toJson {r : CallbackRequest} (h : ∀ v ∈ r.values, v.Sorted) :
    ofJson? r.toJson = some r := by
  cases r with
  | put key value | dispatch key value =>
    have hvalue := anyValue_of_sorted (h value List.mem_cons_self)
    simp [toJson, ofJson?, Json.tagged?, operation?, Json.recordFields?, Json.required,
      Entries.get?_cons, Json.string?, hvalue]
  | get _ | delete _ | createSet _ | addMember _ _ | members _ | deleteSet _ => rfl

/-- The document of a request is legible if the value is that it carries. -/
theorem legible_toJson {r : CallbackRequest} (h : ∀ v ∈ r.values, v.Legible) :
    r.toJson.Legible := by
  cases r with
  | put key value | dispatch key value =>
    exact ⟨trivial, trivial, h value List.mem_cons_self, trivial⟩
  | addMember key member => exact ⟨trivial, trivial, trivial, trivial⟩
  | get _ | delete _ | createSet _ | members _ | deleteSet _ => exact ⟨trivial, trivial, trivial⟩

end CallbackRequest

namespace WorkerFrame

/-- The values that a frame carries. -/
def values : WorkerFrame → List Json
  | callback _ request => request.values
  | completed _ result _ _ => [result]

/-- The number of a callback fits into a word. -/
def InRange : WorkerFrame → Prop
  | callback id _ => id < Word.count64
  | completed _ _ _ _ => True

/-- A frame is read back: the tag of the request does not come in the way of its own. -/
theorem ofJson?_toJson {f : WorkerFrame} (hrange : f.InRange) (h : ∀ v ∈ f.values, v.Sorted) :
    ofJson? f.toJson = some f := by
  cases f with
  | callback id request =>
    have hid : Json.natBelow? Word.count64 (.nat id) = some id := Json.natBelow?_nat hrange
    have hrequest := CallbackRequest.ofJson?_toJson h
    simp [toJson, ofJson?, Json.tagged?, Json.recordFields?, Json.required, Entries.get?_cons, hid,
      hrequest]
  | completed hasError result errorType errorTrace =>
    have hresult := CallbackRequest.anyValue_of_sorted (h result List.mem_cons_self)
    simp [toJson, ofJson?, Json.tagged?, Json.recordFields?, Json.required, Json.withDefault,
      Entries.get?_cons, Json.bool?, Json.string?, hresult]

/-- The document of a frame is legible if its number fits into a word and its values are legible. -/
theorem legible_toJson {f : WorkerFrame} (hrange : f.InRange) (h : ∀ v ∈ f.values, v.Legible) :
    f.toJson.Legible := by
  cases f with
  | callback id request =>
    exact ⟨trivial, Json.legible_nat hrange, CallbackRequest.legible_toJson h, trivial⟩
  | completed hasError result errorType errorTrace =>
    exact ⟨trivial, trivial, h result List.mem_cons_self, trivial, trivial, trivial⟩

/-- A frame is read back from its text. -/
theorem ofText?_text {f : WorkerFrame} (hrange : f.InRange) (hsorted : ∀ v ∈ f.values, v.Sorted)
    (hlegible : f.toJson.Legible) (hdepth : f.toJson.depth ≤ Json.maxDepth) :
    ofText? f.toJson.text = some f := by
  rw [ofText?, Json.document?_text hlegible hdepth, Option.bind_some,
    ofJson?_toJson hrange hsorted]

end WorkerFrame

/-! ## Answers -/

namespace CallbackResponse

/-- The fields of an answer stand in the order of their declaration, some of them left out. -/
theorem keys_sublist (r : CallbackResponse) : (r.fields.map (·.1)).Sublist fieldNames := by
  obtain ⟨id, isOk, value, error⟩ := r
  cases error with
  | none => exact List.sublist_append_left ["id", "ok", "value"] ["error"]
  | some text => exact .refl fieldNames

/-- An answer is read back, also if its error has no words. -/
theorem ofJson?_toJson {r : CallbackResponse} (hid : r.id < Word.count64) (h : r.value.Sorted) :
    ofJson? r.toJson = some r := by
  have herror : Json.optional r.fields "error" Json.string? = some r.error := by
    refine Json.optional_eq .string ?_ (fun _ _ => rfl) fun _ h => by cases h
    rw [fields, Entries.get?_append, Json.get?_optionField]
    simp [Entries.get?_cons]
  rw [ofJson?, toJson, Json.recordFields?_object fieldNames (.sublist r.keys_sublist (by decide))]
  simp only [bind, Option.bind_some, herror]
  simp [fields, Json.required, Json.withDefault, Entries.get?_cons, Json.natBelow?_nat hid,
    CallbackRequest.anyValue_of_sorted h, Json.bool?]

/-- The document of an answer is legible if its number fits into a word and its value is legible. -/
theorem legible_toJson {r : CallbackResponse} (hid : r.id < Word.count64) (h : r.value.Legible) :
    r.toJson.Legible := by
  obtain ⟨id, isOk, value, error⟩ := r
  cases error with
  | none => exact ⟨Json.legible_nat hid, trivial, h, trivial⟩
  | some text => exact ⟨Json.legible_nat hid, trivial, h, trivial, trivial⟩

/-- An answer is read back from its text. -/
theorem ofText?_text {r : CallbackResponse} (hid : r.id < Word.count64) (hsorted : r.value.Sorted)
    (hlegible : r.toJson.Legible) (hdepth : r.toJson.depth ≤ Json.maxDepth) :
    ofText? r.toJson.text = some r := by
  have hrecord : Json.recordDocument? fieldNames Json.maxDepth r.toJson.text.toList =
      some r.toJson :=
    Json.recordDocument?_text (fun _ h => r.keys_sublist.subset (List.mem_map_of_mem h)) hlegible
      hdepth
  rw [ofText?, hrecord, Option.bind_some, ofJson?_toJson hid hsorted]

end CallbackResponse

/-! ## Triggers -/

namespace JoinTrigger

/-- The numbers of a trigger fit into words. -/
structure InRange (t : JoinTrigger) : Prop where
  counterValue : Word.isSigned t.counterValue = true
  thresholds : ∀ k ∈ t.thresholds, k < Word.count64
  totalBranches : t.totalBranches < Word.count64

/-- The fields of a trigger stand in the order of their declaration, some of them left out. -/
theorem keys_sublist (t : JoinTrigger) : (t.fields.map (·.1)).Sublist fieldNames := by
  obtain ⟨action, isAsync, key, counter, thresholds, total, id, topic, endpoint⟩ := t
  cases endpoint with
  | none => exact List.dropLast_sublist fieldNames
  | some text => exact .refl fieldNames

/-- A trigger is read back from a document of its own. -/
theorem ofJson?_document {t : JoinTrigger} (h : t.InRange) : ofJson? t.document = some t := by
  have hendpoint : Json.optional t.fields "Endpoint" Json.string? = some t.endpoint := by
    refine Json.optional_eq .string ?_ (fun _ _ => rfl) fun _ h => by cases h
    rw [fields, Entries.get?_append, Json.get?_optionField]
    simp [Entries.get?_cons]
  have haction : StateAction.ofJson? t.action.toJson = some t.action := by
    cases t.action <;> rfl
  have hthresholds : Json.list? (Json.natBelow? Word.count64) (.array (t.thresholds.map .nat)) =
      some t.thresholds := Json.list?_map fun k hk => Json.natBelow?_nat (h.thresholds k hk)
  have htotal := Json.natBelow?_nat h.totalBranches
  have hcounter := Json.signed?_int h.counterValue
  rw [ofJson?, document, Json.recordFields?_object fieldNames (.sublist t.keys_sublist (by decide))]
  simp only [bind, Option.bind_some, hendpoint]
  simp [fields, Json.required, Json.withDefault, Entries.get?_cons, haction, hthresholds, htotal,
    hcounter, Json.bool?, Json.string?]

/-- The document of a trigger is legible if its numbers fit into words. -/
theorem legible_document {t : JoinTrigger} (h : t.InRange) : t.document.Legible := by
  obtain ⟨action, isAsync, key, counter, thresholds, total, id, topic, endpoint⟩ := t
  have hthresholds := Json.legibleItems_map fun k hk => Json.legible_nat (h.thresholds k hk)
  have hcounter := Json.legible_int h.counterValue
  have htotal := Json.legible_nat h.totalBranches
  cases endpoint with
  | none =>
    exact ⟨trivial, trivial, trivial, hcounter, hthresholds, htotal, trivial, trivial, trivial⟩
  | some text =>
    exact ⟨trivial, trivial, trivial, hcounter, hthresholds, htotal, trivial, trivial, trivial,
      trivial⟩

/-- A trigger is read back from the text of its document. -/
theorem ofText?_text {t : JoinTrigger} (h : t.InRange) (hdepth : t.document.depth ≤ Json.maxDepth) :
    ofText? t.document.text = some t := by
  have hrecord : Json.recordDocument? fieldNames Json.maxDepth t.document.text.toList =
      some t.document :=
    Json.recordDocument?_text (fun _ h => t.keys_sublist.subset (List.mem_map_of_mem h))
      (legible_document h) hdepth
  rw [ofText?, hrecord, Option.bind_some, ofJson?_document h]

end JoinTrigger

/-! ## Messages -/

/-- What is told on a channel: the input of a task, a frame of its worker, the answer to a callback,
or the trigger of a join. -/
inductive Message where
  | input (value : Json)
  | frame (f : WorkerFrame)
  | response (r : CallbackResponse)
  | trigger (t : JoinTrigger)
  deriving DecidableEq, Repr

/-- What a reader of a line expects. -/
inductive MessageKind where
  | input
  | frame
  | response
  | trigger
  deriving DecidableEq, Repr

/-- Reads the text of a line. -/
def MessageKind.read? (kind : MessageKind) (text : String) : Option Message :=
  match kind with
  | input => (Json.ofText? text).map .input
  | frame => (WorkerFrame.ofText? text).map .frame
  | response => (CallbackResponse.ofText? text).map .response
  | trigger => (JoinTrigger.ofText? text).map .trigger

namespace Message

/-- The kind of a message. -/
def kind : Message → MessageKind
  | input _ => .input
  | frame _ => .frame
  | response _ => .response
  | trigger _ => .trigger

/-- The document of a message. -/
def document : Message → Json
  | input value => value
  | frame f => f.toJson
  | response r => r.toJson
  | trigger t => t.document

/-- The bytes of a message. -/
def bytes (m : Message) : List UInt8 := frameBytes m.document

/-- The values that a message carries. -/
def values : Message → List Json
  | input value => [value]
  | frame f => f.values
  | response r => [r.value]
  | trigger _ => []

/-- The numbers of a message, other than those of its values, fit into words. -/
def InRange : Message → Prop
  | input _ => True
  | frame f => f.InRange
  | response r => r.id < Word.count64
  | trigger t => t.InRange

/-- A message that can be told: its numbers fit into words, its values are in order, as are all that
have been made or read, and legible, and its document is not nested too deeply for a reader. -/
structure IsSendable (m : Message) : Prop where
  inRange : m.InRange
  sorted : ∀ v ∈ m.values, v.Sorted
  legible : ∀ v ∈ m.values, v.Legible
  shallow : m.document.depth ≤ Json.maxDepth

variable {m : Message}

/-- The document of a message that can be sent is legible. -/
theorem IsSendable.legible_document (h : m.IsSendable) : m.document.Legible := by
  cases m with
  | input value => exact h.legible value List.mem_cons_self
  | frame f => exact WorkerFrame.legible_toJson h.inRange h.legible
  | response r => exact CallbackResponse.legible_toJson h.inRange (h.legible _ List.mem_cons_self)
  | trigger t => exact JoinTrigger.legible_document h.inRange

/-- A message is read back from its text. -/
theorem read?_text (h : m.IsSendable) : m.kind.read? m.document.text = some m := by
  have hlegible := h.legible_document
  cases m with
  | input value =>
    have hvalue := Json.ofText?_text (h.sorted value List.mem_cons_self) hlegible h.shallow
    simp only [kind, MessageKind.read?, document, hvalue, Option.map_some]
  | frame f =>
    have hframe := WorkerFrame.ofText?_text h.inRange h.sorted hlegible h.shallow
    simp only [kind, MessageKind.read?, document, hframe, Option.map_some]
  | response r =>
    have hsorted := h.sorted r.value List.mem_cons_self
    have hresponse := CallbackResponse.ofText?_text h.inRange hsorted hlegible h.shallow
    simp only [kind, MessageKind.read?, document, hresponse, Option.map_some]
  | trigger t =>
    have htrigger := JoinTrigger.ofText?_text h.inRange h.shallow
    simp only [kind, MessageKind.read?, document, htrigger, Option.map_some]

end Message

/-! ## What is heard -/

/-- What a frame means to the reader of a session. -/
def WorkerFrame.reading : WorkerFrame → Reading
  | callback id request => .callback ⟨id, request⟩
  | completed hasError result errorType errorTrace =>
    .over (completion hasError result errorType errorTrace)

/-- The reader of a session takes the line of a frame as it was meant. -/
theorem readLine_frame {f : WorkerFrame} (h : (Message.frame f).IsSendable) :
    readLine (some f.toJson.text) = f.reading := by
  have hblank := Json.allBlank_text h.legible_document
  have hframe := WorkerFrame.ofText?_text h.inRange h.sorted h.legible_document h.shallow
  rw [Message.document] at hblank
  rw [readLine, hblank, hframe]
  cases f <;> rfl

/-- Whether a line means nothing. -/
def Reading.isBlank : Reading → Bool
  | .blank => true
  | .callback _ | .over _ => false

/-- A line is skipped exactly if it is white space throughout. -/
theorem isBlank_readLine (text : String) :
    (readLine (some text)).isBlank = Text.allBlank text.toList := by
  rw [readLine]
  split
  · next h => rw [h, Reading.isBlank]
  · next h =>
    rw [Bool.eq_false_iff.mpr h]
    split <;> rfl

/-- The lines that the reader of a session does not skip. -/
def heardLines (bytes : List UInt8) : List Line :=
  (linesOf bytes).filter fun line => !(readLine line).isBlank

namespace Message

/-- No message is skipped. -/
theorem isBlank_readLine_text {m : Message} (h : m.IsSendable) :
    (readLine (some m.document.text)).isBlank = false := by
  rw [isBlank_readLine, Json.allBlank_text h.legible_document]

/-- Of messages that have been sent one line each is heard. -/
theorem heardLines_flatMap_bytes {messages : List Message} (h : ∀ m ∈ messages, m.IsSendable) :
    heardLines (messages.flatMap bytes) = messages.map fun m => some m.document.text := by
  have hlines : linesOf (messages.flatMap bytes) = messages.map fun m => some m.document.text := by
    have hdocuments := linesOf_flatMap_frameBytes (messages.map document)
    rw [List.flatMap_map, List.map_map] at hdocuments
    exact hdocuments
  rw [heardLines, hlines]
  refine List.filter_eq_self.mpr fun line hline => ?_
  obtain ⟨m, hm, rfl⟩ := List.mem_map.mp hline
  rw [isBlank_readLine_text (h m hm)]
  rfl

/-- Messages that have been sent, one after the other, are heard on one line each, in their order,
and every line is read as the message that it was written for. -/
theorem sent_read_back {messages : List Message} (h : ∀ m ∈ messages, m.IsSendable) :
    List.Forall₂ (fun line m => line.bind m.kind.read? = some m)
      (heardLines (messages.flatMap bytes)) messages := by
  rw [heardLines_flatMap_bytes h, List.forall₂_map_left_iff, List.forall₂_same]
  exact fun m hm => read?_text (h m hm)

/-- Messages of every kind, with one half as a double, an empty string, null and ends of lines. -/
def mixed : List Message :=
  [.input (.object [("note", .string "one\r\ntwo"),
      ("share", .double (.finite false (Nat.pow 2 1073)))]),
    .frame (.callback 7 (.put "order" (.array [.string "", .null, .int (-2)]))),
    .response ⟨7, false, .null, some ""⟩,
    .frame (.completed false (.string "\n") "" ""),
    .trigger ⟨.join, false, "metadata", 2, [2], 2, "execution", "topic", none⟩]

/-- The messages of `mixed` can be sent, and are heard. -/
theorem mixed_read_back : (∀ m ∈ mixed, m.IsSendable) ∧
    List.Forall₂ (fun line m => line.bind m.kind.read? = some m)
      (heardLines (mixed.flatMap bytes)) mixed := by
  have hhalf : (Number.double (.finite false (Nat.pow 2 1073))).IsLegible := by
    change Json.Reader.number _ = _
    decide +kernel
  have hinput : IsSendable (.input (.object [("note", .string "one\r\ntwo"),
      ("share", .double (.finite false (Nat.pow 2 1073)))])) :=
    { inRange := trivial
      sorted := List.forall_mem_singleton.mpr
        ⟨List.pairwise_pair.mpr (by decide), trivial, trivial, trivial⟩
      legible := List.forall_mem_singleton.mpr ⟨trivial, hhalf, trivial⟩
      shallow := by decide }
  have hcallback : IsSendable
      (.frame (.callback 7 (.put "order" (.array [.string "", .null, .int (-2)])))) :=
    { inRange := (by decide : 7 < Word.count64)
      sorted := List.forall_mem_singleton.mpr ⟨trivial, trivial, trivial, trivial⟩
      legible := List.forall_mem_singleton.mpr
        ⟨trivial, trivial, Json.legible_int (by decide), trivial⟩
      shallow := by decide }
  have hresponse : IsSendable (.response ⟨7, false, .null, some ""⟩) :=
    { inRange := (by decide : 7 < Word.count64)
      sorted := List.forall_mem_singleton.mpr trivial
      legible := List.forall_mem_singleton.mpr trivial
      shallow := by decide }
  have hcompleted : IsSendable (.frame (.completed false (.string "\n") "" "")) :=
    { inRange := trivial
      sorted := List.forall_mem_singleton.mpr trivial
      legible := List.forall_mem_singleton.mpr trivial
      shallow := by decide }
  have htrigger : IsSendable
      (.trigger ⟨.join, false, "metadata", 2, [2], 2, "execution", "topic", none⟩) :=
    { inRange := ⟨rfl, by decide, by decide⟩
      sorted := fun _ hv => absurd hv List.not_mem_nil
      legible := fun _ hv => absurd hv List.not_mem_nil
      shallow := by decide }
  have h : ∀ m ∈ mixed, m.IsSendable := by
    simp only [mixed, List.forall_mem_cons]
    exact ⟨hinput, hcallback, hresponse, hcompleted, htrigger,
      fun _ hm => absurd hm List.not_mem_nil⟩
  exact ⟨h, sent_read_back h⟩

end Message

end Workflow
