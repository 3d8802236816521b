import Mathlib.Tactic.Common
import Workflow.Json.Printer

/-!
# Characters of a document

The text of a document is written without control characters, so that none of its bytes can end a
line.

* **Characters** (`Text.IsPrinted`, `Json.isPrinted_chars`): numbers, strings and what stands
  between them have no control characters.
* **Bytes** (`IsPrintedByte`, `Json.isPrintedByte_text`): nor has the text in UTF-8.
-/

namespace Workflow

namespace Text

/-- Whether a character is no control character. -/
def IsPrinted (c : Char) : Prop := 0x20 ≤ c.toNat

instance : DecidablePred IsPrinted := fun c => inferInstanceAs (Decidable (0x20 ≤ c.toNat))

/-! ## Numbers -/

/-- The characters of a text are printed if the test of each of them says so. -/
theorem isPrinted_of_all {cs : List Char} (h : (cs.all fun c => 0x20 ≤ c.toNat) = true) :
    ∀ c ∈ cs, IsPrinted c := fun c hc => of_decide_eq_true (List.all_eq_true.mp h c hc)

/-- A decimal digit is a printed character. -/
theorem isPrinted_of_isDigit {c : Char} (h : c.isDigit = true) : IsPrinted c := by
  simp only [Char.isDigit, Bool.and_eq_true, decide_eq_true_eq] at h
  exact Nat.le_trans (by decide) h.1

/-- A natural number is written in printed characters. -/
theorem isPrinted_natDigits (n : Nat) : ∀ c ∈ natDigits n, IsPrinted c := fun _ hc =>
  isPrinted_of_isDigit (Nat.isDigit_of_mem_toDigits (by decide) (by decide) hc)

end Text

namespace Double

/-- A double written with a decimal point is written in printed characters, if its digits are. -/
theorem isPrinted_positional {digits : List Char} (h : ∀ c ∈ digits, Text.IsPrinted c)
    (point : Int) : ∀ c ∈ positional digits point, Text.IsPrinted c := by
  intro c hc
  rw [positional] at hc
  split at hc
  · simp only [List.mem_append, List.mem_cons, List.mem_replicate] at hc
    rcases hc with (rfl | rfl | ⟨-, rfl⟩) | hc
    · decide
    · decide
    · decide
    · exact h c hc
  · simp only [List.mem_append, List.mem_cons, List.mem_replicate] at hc
    rcases hc with (hc | ⟨-, rfl⟩) | rfl | hc
    · exact h c (List.mem_of_mem_take hc)
    · decide
    · decide
    · split at hc
      · rcases List.mem_singleton.mp hc with rfl
        decide
      · exact h c (List.mem_of_mem_drop hc)

/-- A double written with an exponent is written in printed characters, if its digits are. -/
theorem isPrinted_scientific {digits : List Char} (h : ∀ c ∈ digits, Text.IsPrinted c)
    (exponent : Int) : ∀ c ∈ scientific digits exponent, Text.IsPrinted c := by
  intro c hc
  simp only [scientific, List.mem_append, List.mem_cons] at hc
  rcases hc with (hc | hc) | rfl | hc | hc
  · exact h c (List.mem_of_mem_take hc)
  · split at hc
    · cases hc
    · rcases List.mem_cons.mp hc with rfl | hc
      · decide
      · exact h c (List.mem_of_mem_drop hc)
  · decide
  · split at hc <;> subst hc <;> decide
  · exact Text.isPrinted_natDigits _ c hc

/-- A decimal is laid out in printed characters, in either form. -/
theorem isPrinted_layout (d : Decimal) : ∀ c ∈ layout d, Text.IsPrinted c := by
  rw [layout]
  split
  · exact isPrinted_positional (Text.isPrinted_natDigits d.digits) _
  · exact isPrinted_scientific (Text.isPrinted_natDigits d.digits) _

/-- The text of a double is made of printed characters. -/
theorem isPrinted_text (x : Double) : ∀ c ∈ x.text.toList, Text.IsPrinted c := by
  cases x with
  | finite negative units =>
    have hmagnitude : ∀ c ∈ if units = 0 then ['0', '.', '0'] else layout (shortest units),
        Text.IsPrinted c := by
      split
      · exact Text.isPrinted_of_all rfl
      · exact isPrinted_layout _
    intro c hc
    rw [text, String.toList_ofList] at hc
    split at hc
    · rcases List.mem_cons.mp hc with rfl | hc
      · decide
      · exact hmagnitude c hc
    · exact hmagnitude c hc
  | infinite negative | nan =>
    exact (Text.isPrinted_of_all (by decide) : ∀ c ∈ "null".toList, Text.IsPrinted c)

end Double

/-- The text of a number is made of printed characters. -/
theorem Number.isPrinted_text (n : Number) : ∀ c ∈ n.text.toList, Text.IsPrinted c := by
  cases n with
  | double x => exact x.isPrinted_text
  | int i =>
    intro c hc
    rw [Number.text, Text.intText] at hc
    split at hc
    · rw [String.toList_append, Text.natText] at hc
      rcases List.mem_append.mp hc with hc | hc
      · rcases List.mem_singleton.mp hc with rfl
        decide
      · rw [String.toList_ofList] at hc
        exact Text.isPrinted_natDigits _ c hc
    · rw [Text.natText, String.toList_ofList] at hc
      exact Text.isPrinted_natDigits _ c hc

namespace Json

/-! ## Documents -/

/-- A character inside a string is written in printed characters: the others are escaped. -/
theorem isPrinted_escape (c : Char) : ∀ d ∈ escape c, Text.IsPrinted d := by
  have hhex : ∀ m < 16, Text.IsPrinted (Nat.digitChar m) := by decide
  unfold escape
  split_ifs with hquote hbackslash hb hf hn hr ht hcontrol
  iterate 7 · exact Text.isPrinted_of_all rfl
  · simp only [List.forall_mem_cons]
    refine ⟨by decide, by decide, by decide, by decide, hhex _ (Nat.mod_lt _ (by decide)),
      hhex _ (Nat.mod_lt _ (by decide)), nofun⟩
  · intro d hd
    rcases List.mem_singleton.mp hd with rfl
    exact Nat.not_lt.mp hcontrol

/-- A string in quotes is made of printed characters. -/
theorem isPrinted_quoted (s : String) : ∀ c ∈ quoted s, Text.IsPrinted c := by
  intro c hc
  simp only [quoted, List.cons_append, List.mem_cons, List.mem_append, List.mem_flatMap,
    List.not_mem_nil, or_false] at hc
  rcases hc with rfl | ⟨d, -, hc⟩ | rfl
  · decide
  · exact isPrinted_escape d c hc
  · decide

mutual

/-- No text of a document has control characters. -/
theorem isPrinted_chars : (v : Json) → ∀ c ∈ v.chars, Text.IsPrinted c
  | .null => Text.isPrinted_of_all rfl
  | .bool true => Text.isPrinted_of_all rfl
  | .bool false => Text.isPrinted_of_all rfl
  | .number n => n.isPrinted_text
  | .string s => isPrinted_quoted s
  | .array [] => Text.isPrinted_of_all rfl
  | .array (x :: xs) => by
    rw [chars, List.cons_append]
    exact List.forall_mem_cons.mpr ⟨by decide, List.forall_mem_append.mpr
      ⟨isPrinted_chars x, isPrinted_moreItems xs⟩⟩
  | .object [] => Text.isPrinted_of_all rfl
  | .object ((name, x) :: xs) => by
    have hx := isPrinted_chars x
    have hxs := isPrinted_moreFields xs
    have hname := isPrinted_quoted name
    simp only [chars, List.cons_append, List.forall_mem_cons, List.forall_mem_append]
    exact ⟨by decide, ⟨hname, by decide, hx⟩, hxs⟩

/-- The further items of an array are written in printed characters. -/
theorem isPrinted_moreItems : (xs : List Json) → ∀ c ∈ moreItems xs, Text.IsPrinted c
  | [] => Text.isPrinted_of_all rfl
  | x :: xs => by
    rw [moreItems, List.cons_append]
    exact List.forall_mem_cons.mpr ⟨by decide, List.forall_mem_append.mpr
      ⟨isPrinted_chars x, isPrinted_moreItems xs⟩⟩

/-- The further fields of an object are written in printed characters. -/
theorem isPrinted_moreFields : (xs : List (String × Json)) → ∀ c ∈ moreFields xs, Text.IsPrinted c
  | [] => Text.isPrinted_of_all rfl
  | (name, x) :: xs => by
    have hx := isPrinted_chars x
    have hxs := isPrinted_moreFields xs
    have hname := isPrinted_quoted name
    simp only [moreFields, List.cons_append, List.forall_mem_cons, List.forall_mem_append]
    exact ⟨by decide, ⟨hname, by decide, hx⟩, hxs⟩

end

end Json

/-! ## Bytes -/

/-- Whether a byte is no control character. -/
def IsPrintedByte (b : UInt8) : Prop := 0x20 ≤ b.toNat

/-- A number from 32 on that fits a byte is a printed byte. -/
theorem isPrintedByte_ofNat {n : Nat} (hlow : 0x20 ≤ n) (hhigh : n < 0x100) :
    IsPrintedByte (.ofNat n) := by
  rw [IsPrintedByte, UInt8.toNat_ofNat', Nat.mod_eq_of_lt hhigh]
  exact hlow

/-- A character that is no control character has none in UTF-8. -/
theorem isPrintedByte_utf8EncodeChar {c : Char} (h : Text.IsPrinted c) :
    ∀ b ∈ String.utf8EncodeChar c, IsPrintedByte b := by
  have hc : 0x20 ≤ c.val.toNat := h
  rw [String.utf8EncodeChar]
  split_ifs with hone htwo hthree
  all_goals
    simp only [List.forall_mem_cons]
    repeat' apply And.intro
  all_goals first
    | exact isPrintedByte_ofNat (by omega) (by omega)
    | exact nofun

/-- The text of a document has no control characters in UTF-8. -/
theorem Json.isPrintedByte_text (v : Json) :
    ∀ b ∈ v.text.toUTF8.data.toList, IsPrintedByte b := by
  have hbytes : v.text.toUTF8.data.toList = v.chars.flatMap String.utf8EncodeChar := by
    simp [text, String.toUTF8, List.utf8Encode]
  intro b hb
  rw [hbytes] at hb
  obtain ⟨c, hc, hb⟩ := List.mem_flatMap.mp hb
  exact isPrintedByte_utf8EncodeChar (v.isPrinted_chars c hc) b hb

end Workflow
