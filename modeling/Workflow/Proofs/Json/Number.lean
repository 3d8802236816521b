import Mathlib.Data.List.TakeWhile
import Mathlib.Tactic.Common
import Workflow.Json.Printer
import Workflow.Json.Reader

/-!
# Reading written numbers

A number is written as digits, and for a double with a point, an exponent or both. In a document it
is followed by a comma or a closing bracket, none of which can belong to it.

* **Halting** (`Json.Reader.Halts`, `Json.Reader.halts_number`): what a reader of numbers makes of a
  text does not depend on what follows the number, part by part: the digits, the exponent, what
  follows the whole part, and the sign.
* **Integers** (`Json.Reader.unsigned_natDigits`, `Number.number_intText`): an integer that a word
  holds is read back from its digits.
* **Legible numbers** (`Number.IsLegible`, `Number.IsLegible.number`): an integer of a word is
  legible. A double is if the reader, which rounds twice, finds it again.
-/

namespace Workflow

namespace Json.Reader

/-- What follows a value in a text: nothing, a comma, or a closing bracket or brace. -/
def Stops (rest : List Char) : Prop := ∀ c ∈ rest.head?, c = ',' ∨ c = ']' ∨ c = '}'

/-- What follows a value is nothing, or begins with a comma, a bracket or a brace. -/
theorem Stops.cases {rest : List Char} (h : Stops rest) :
    rest = [] ∨ ∃ more, rest = ',' :: more ∨ rest = ']' :: more ∨ rest = '}' :: more := by
  cases rest with
  | nil => exact .inl rfl
  | cons c more =>
    refine .inr ⟨more, ?_⟩
    rcases h c rfl with rfl | rfl | rfl
    · exact .inl rfl
    · exact .inr (.inl rfl)
    · exact .inr (.inr rfl)

/-- A reader of numbers or of their parts leaves alone whatever follows. -/
def Halts {α : Type} (read : List Char → Option (α × List Char)) : Prop :=
  ∀ cs rest, Stops rest → read (cs ++ rest) = (read cs).map fun (a, more) => (a, more ++ rest)

variable {rest : List Char}

/-! ## Digits and exponents -/

/-- What follows a number adds no digit to those at its end. -/
theorem spanDigits_append_of_stops (h : Stops rest) (cs : List Char) :
    Text.spanDigits (cs ++ rest) = ((Text.spanDigits cs).1, (Text.spanDigits cs).2 ++ rest) := by
  induction cs with
  | nil => rcases h.cases with rfl | ⟨more, rfl | rfl | rfl⟩ <;> rfl
  | cons c cs ih =>
    simp only [Text.spanDigits, List.cons_append, Prod.mk.injEq] at ih ⊢
    cases hc : c.isDigit with
    | true => simp [hc, ih]
    | false => simp [hc]

/-- Reads an exponent without its sign. -/
def exponentDigits (negative : Bool) (cs : List Char) : Option (Int × List Char) :=
  let (digits, rest) := Text.spanDigits cs
  if digits.isEmpty then none
  else
    let n : Int := Text.digitsValue digits
    some (if negative then -n else n, rest)

/-- An exponent without a sign is read like one with a plus. -/
theorem exponent_of_unsigned {c : Char} {cs : List Char} (hminus : c ≠ '-') (hplus : c ≠ '+') :
    exponent (c :: cs) = exponentDigits false (c :: cs) := by
  simp only [exponent]
  split
  · next h => exact absurd (List.cons.inj h).1 hminus
  · next h => exact absurd (List.cons.inj h).1 hplus
  · rfl

/-- The reader of an exponent without its sign leaves alone what follows the number. -/
theorem halts_exponentDigits (negative : Bool) : Halts (exponentDigits negative) := by
  intro cs rest h
  simp only [exponentDigits, spanDigits_append_of_stops h]
  split <;> rfl

/-- The reader of an exponent leaves alone what follows the number. -/
theorem halts_exponent : Halts exponent := by
  intro cs rest h
  cases cs with
  | nil => rcases h.cases with rfl | ⟨more, rfl | rfl | rfl⟩ <;> rfl
  | cons c cs =>
    by_cases hminus : c = '-'
    · subst hminus
      exact halts_exponentDigits true cs rest h
    by_cases hplus : c = '+'
    · subst hplus
      exact halts_exponentDigits false cs rest h
    rw [List.cons_append, exponent_of_unsigned hminus hplus, exponent_of_unsigned hminus hplus]
    exact halts_exponentDigits false (c :: cs) rest h

/-! ## Fractions -/

/-- A literal with an exponent is scaled by its places and the exponent. -/
theorem scaled_exponent (negative : Bool) (word : Nat) (places : Int) {c : Char}
    (hc : c = 'e' ∨ c = 'E') (cs : List Char) :
    scaled negative word places (c :: cs) = (exponent cs).bind fun (shift, rest) =>
      (scale word (places + shift)).map fun x =>
        (.double (if negative then x.neg else x), rest) := by
  rcases hc with rfl | rfl
  all_goals
    simp only [scaled, bind, pure, Option.map_eq_bind]
    rfl

/-- A literal without an exponent is scaled by its places alone. -/
theorem scaled_plain (negative : Bool) (word : Nat) (places : Int) {cs : List Char}
    (hcs : ∀ c ∈ cs.head?, ¬(c = 'e' ∨ c = 'E')) :
    scaled negative word places cs =
      (scale word (places + 0)).map fun x => (.double (if negative then x.neg else x), cs) := by
  simp only [scaled, bind, pure, Option.map_eq_bind]
  split
  · exact absurd (.inl rfl) (hcs 'e' rfl)
  · exact absurd (.inr rfl) (hcs 'E' rfl)
  · rfl

/-- What follows a number does not begin like an exponent. -/
theorem Stops.not_exponent (h : Stops rest) : ∀ c ∈ rest.head?, ¬(c = 'e' ∨ c = 'E') := by
  rcases h.cases with rfl | ⟨more, rfl | rfl | rfl⟩ <;> simp

/-- The reader of an exponent that may be absent leaves alone what follows the number. -/
theorem halts_scaled (negative : Bool) (word : Nat) (places : Int) :
    Halts (scaled negative word places) := by
  intro cs rest h
  cases cs with
  | nil =>
    rw [List.nil_append, scaled_plain negative word places h.not_exponent,
      scaled_plain negative word places (by simp), Option.map_map]
    rfl
  | cons c cs =>
    by_cases hc : c = 'e' ∨ c = 'E'
    · rw [List.cons_append, scaled_exponent negative word places hc,
        scaled_exponent negative word places hc, halts_exponent cs rest h]
      cases exponent cs with
      | none => rfl
      | some found =>
        simp only [Option.map_some, Option.bind_some, Option.map_map]
        rfl
    · rw [List.cons_append, scaled_plain negative word places (by simpa using hc),
        scaled_plain negative word places (by simpa using hc), Option.map_map]
      rfl

/-- Behind the whole part, a point is followed by at least one digit, which are gathered into the
word. -/
theorem afterWhole_point (negative : Bool) (word leftOver : Nat) (cs : List Char) :
    afterWhole negative word leftOver ('.' :: cs) =
      if (Text.spanDigits cs).1.isEmpty then none
      else scaled negative (gather word (Text.spanDigits cs).1).1
        (leftOver - ((Text.spanDigits cs).1.length -
          (gather word (Text.spanDigits cs).1).2 : Nat)) (Text.spanDigits cs).2 := rfl

/-- If neither a point nor an exponent follows the whole part, the number is whole. -/
theorem afterWhole_plain (negative : Bool) (word leftOver : Nat) {cs : List Char}
    (hcs : ∀ c ∈ cs.head?, ¬(c = '.' ∨ c = 'e' ∨ c = 'E')) :
    afterWhole negative word leftOver cs =
      (whole negative word leftOver).map fun n => (n, cs) := by
  unfold afterWhole
  split
  · exact absurd (.inl rfl) (hcs '.' rfl)
  · exact absurd (.inr (.inl rfl)) (hcs 'e' rfl)
  · exact absurd (.inr (.inr rfl)) (hcs 'E' rfl)
  · rfl

/-- Behind the whole part, an exponent scales the word. -/
theorem afterWhole_exponent (negative : Bool) (word leftOver : Nat) {c : Char}
    (hc : c = 'e' ∨ c = 'E') (cs : List Char) :
    afterWhole negative word leftOver (c :: cs) = scaled negative word leftOver (c :: cs) := by
  rcases hc with rfl | rfl <;> rfl

/-- The reader of fraction and exponent leaves alone what follows the number. -/
theorem halts_afterWhole (negative : Bool) (word leftOver : Nat) :
    Halts (afterWhole negative word leftOver) := by
  intro cs rest h
  cases cs with
  | nil =>
    have hrest : ∀ c ∈ rest.head?, ¬(c = '.' ∨ c = 'e' ∨ c = 'E') := by
      rcases h.cases with rfl | ⟨more, rfl | rfl | rfl⟩ <;> simp
    rw [List.nil_append, afterWhole_plain negative word leftOver hrest,
      afterWhole_plain negative word leftOver (by simp), Option.map_map]
    rfl
  | cons c cs =>
    rw [List.cons_append]
    by_cases hpoint : c = '.'
    · subst hpoint
      simp only [afterWhole_point, spanDigits_append_of_stops h]
      split
      · rfl
      · exact halts_scaled _ _ _ _ rest h
    by_cases hexponent : c = 'e' ∨ c = 'E'
    · rw [afterWhole_exponent _ _ _ hexponent, afterWhole_exponent _ _ _ hexponent]
      exact halts_scaled _ _ _ (c :: cs) rest h
    · have hplain : ¬(c = '.' ∨ c = 'e' ∨ c = 'E') := not_or.mpr ⟨hpoint, hexponent⟩
      rw [afterWhole_plain negative word leftOver (by simpa using hplain),
        afterWhole_plain negative word leftOver (by simpa using hplain), Option.map_map]
      rfl

/-! ## Whole numbers -/

/-- Reads a number without its sign. -/
def unsigned (negative : Bool) (cs : List Char) : Option (Number × List Char) :=
  match (Text.spanDigits cs).1 with
  | [] => none
  | '0' :: _ :: _ => none
  | digits => afterWhole negative (gather 0 digits).1 (gather 0 digits).2 (Text.spanDigits cs).2

/-- A number with a minus is read like one without, and negated. -/
theorem number_minus (cs : List Char) : number ('-' :: cs) = unsigned true cs := by
  unfold number
  split
  next heq =>
    cases heq
    unfold unsigned
    cases Text.spanDigits cs with
    | mk digits rest => rfl

/-- A number that does not begin with a minus is read without a sign. -/
theorem number_of_unsigned {c : Char} (hminus : c ≠ '-') (cs : List Char) :
    number (c :: cs) = unsigned false (c :: cs) := by
  unfold number
  split
  next heq =>
    split at heq
    · next hc => exact absurd (List.cons.inj hc).1 hminus
    · cases heq
      unfold unsigned
      cases Text.spanDigits (c :: cs) with
      | mk digits rest => rfl

/-- The reader of a number without a sign leaves alone what follows it. -/
theorem halts_unsigned (negative : Bool) : Halts (unsigned negative) := by
  intro cs rest h
  unfold unsigned
  rw [spanDigits_append_of_stops h]
  generalize (Text.spanDigits cs).1 = digits
  generalize (Text.spanDigits cs).2 = more
  split
  · rfl
  · rfl
  · exact halts_afterWhole _ _ _ more rest h

/-- The reader of a number leaves alone what follows it. -/
theorem halts_number : Halts number := by
  intro cs rest h
  cases cs with
  | nil => rcases h.cases with rfl | ⟨more, rfl | rfl | rfl⟩ <;> rfl
  | cons c cs =>
    by_cases hminus : c = '-'
    · subst hminus
      rw [List.cons_append, number_minus, number_minus]
      exact halts_unsigned true cs rest h
    · rw [List.cons_append, number_of_unsigned hminus, number_of_unsigned hminus]
      exact halts_unsigned false (c :: cs) rest h

/-- A number begins with a sign or a digit. -/
theorem exists_head_of_number {cs : List Char} {found : Number × List Char}
    (h : number cs = some found) : ∃ c rest, cs = c :: rest ∧ (c = '-' ∨ c.isDigit = true) := by
  cases cs with
  | nil =>
    have hnone : number [] = none := rfl
    cases hnone.symm.trans h
  | cons c rest =>
    refine ⟨c, rest, rfl, ?_⟩
    by_contra hc
    obtain ⟨hminus, hdigit⟩ := not_or.mp hc
    rw [number_of_unsigned hminus, unsigned] at h
    have hspan : (Text.spanDigits (c :: rest)).1 = [] := by simp [Text.spanDigits, hdigit]
    rw [hspan] at h
    cases h

/-! ## Integers -/

/-- Digits are gathered as long as a word holds their number. -/
theorem gather_eq {cs : List Char} {word : Nat}
    (h : Nat.ofDigitChars 10 cs word < Word.count64) :
    gather word cs = (Nat.ofDigitChars 10 cs word, 0) := by
  have hle (cs : List Char) (word : Nat) : word ≤ Nat.ofDigitChars 10 cs word := by
    induction cs generalizing word with
    | nil => exact Nat.le_refl _
    | cons c cs ih =>
      rw [Nat.ofDigitChars_cons]
      exact Nat.le_trans (by omega) (ih _)
  induction cs generalizing word with
  | nil => rfl
  | cons c cs ih =>
    rw [Nat.ofDigitChars_cons] at h ⊢
    have hnext : 10 * word + Text.digitValue c < Word.count64 := Nat.lt_of_le_of_lt (hle cs _) h
    rw [gather, if_pos hnext]
    exact ih h

/-- The digits of a natural number begin with zero only if there are no others. -/
theorem natDigits_ne_zero {n : Nat} (hn : 0 < n) {cs : List Char} :
    Text.natDigits n ≠ '0' :: cs := by
  induction n using Nat.strongRecOn generalizing cs with
  | ind n ih =>
    intro h
    rw [Text.natDigits] at h
    by_cases hten : n < 10
    · rw [Nat.toDigits_of_lt_base hten] at h
      have hdigit : ∀ m < 10, 0 < m → Nat.digitChar m ≠ '0' := by decide
      exact hdigit n hten hn (List.cons.inj h).1
    · rw [Nat.toDigits_of_base_le (by decide) (by omega)] at h
      cases hdigits : Nat.toDigits 10 (n / 10) with
      | nil => exact absurd hdigits Nat.toDigits_ne_nil
      | cons c more =>
        rw [hdigits] at h
        obtain ⟨rfl, -⟩ := List.cons.inj h
        exact ih (n / 10) (by omega) (by omega) hdigits

/-- The digits of a natural number that a word holds are read as that number. -/
theorem unsigned_natDigits (negative : Bool) {n : Nat} (h : n < Word.count64) :
    unsigned negative (Text.natDigits n) = (whole negative n 0).map fun x => (x, []) := by
  have hdigits : ∀ c ∈ Text.natDigits n, c.isDigit = true := fun c hc =>
    Nat.isDigit_of_mem_toDigits (by decide) (by decide) hc
  have hspan : Text.spanDigits (Text.natDigits n) = (Text.natDigits n, []) := by
    rw [Text.spanDigits, List.dropWhile_eq_nil_iff.mpr hdigits,
      List.takeWhile_eq_self_iff.mpr hdigits]
  have hgather : gather 0 (Text.natDigits n) = (n, 0) := by
    rw [Text.natDigits, gather_eq] <;> rw [Nat.ofDigitChars_ten_toDigits]
    exact h
  unfold unsigned
  rw [hspan]
  split
  · next hnil => exact absurd hnil Nat.toDigits_ne_nil
  · next hzero =>
    rcases Nat.eq_zero_or_pos n with rfl | hn
    · cases hzero
    · exact absurd hzero (natDigits_ne_zero hn)
  · rw [hgather]
    exact afterWhole_plain negative n 0 (by simp)

end Json.Reader

namespace Number

open Json.Reader

/-- Whether a number can be written so that it is read back. A word holds an integer that can; a
double is written with the fewest digits for which it is the nearest, and the reader has to find it
again, which it does not always do. -/
def IsLegible : Number → Prop
  | .int i => Word.isInteger i = true
  | .double x => number x.text.toList = some (.double x, [])

/-- The decimal text of an integer that fits the words of the reader is read back as that
integer. -/
theorem number_intText {i : Int} (h : Word.isInteger i = true) :
    number (Text.intText i).toList = some (.int i, []) := by
  simp only [Word.isInteger, Bool.and_eq_true, decide_eq_true_eq] at h
  rw [Text.intText]
  split
  · next hi =>
    have htext : ("-" ++ Text.natText i.natAbs).toList = '-' :: Text.natDigits i.natAbs := by
      simp [Text.natText]
    have hword : 0 < i.natAbs ∧ i.natAbs ≤ Word.count64 / 2 := by
      simp only [Word.count64]
      omega
    have hint : -((i.natAbs : Nat) : Int) = i := by omega
    rw [htext, number_minus, unsigned_natDigits true (by simp only [Word.count64]; omega), whole,
      if_neg (Nat.lt_irrefl 0), if_neg (by decide), if_pos hword, hint]
    rfl
  · next hi =>
    have hint : ((i.natAbs : Nat) : Int) = i := by omega
    rw [Text.natText, String.toList_ofList]
    cases hdigits : Text.natDigits i.natAbs with
    | nil => exact absurd hdigits Nat.toDigits_ne_nil
    | cons c rest =>
      have hc : c.isDigit = true :=
        Nat.isDigit_of_mem_toDigits (by decide) (by decide) (hdigits ▸ List.mem_cons_self)
      have hminus : c ≠ '-' := by
        rintro rfl
        exact absurd hc (by decide)
      rw [number_of_unsigned hminus, ← hdigits,
        unsigned_natDigits false (by simp only [Word.count64]; omega), whole,
        if_neg (Nat.lt_irrefl 0), if_pos (by decide), hint]
      rfl

/-- The text of a legible number is read back as that number. -/
theorem IsLegible.number {n : Number} (h : n.IsLegible) :
    number n.text.toList = some (n, []) := by
  cases n with
  | int i => exact number_intText h
  | double x => exact h

end Number

end Workflow
