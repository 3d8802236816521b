import Mathlib.Data.List.Forall2
import Mathlib.Data.List.TakeWhile
import Mathlib.Tactic.Common
import Workflow.DataFlow

/-!
# The grammar of paths

A path is written as `$` and one text after the other for its steps. The reader of paths looks for
the first character that can end a name or a bracket; it accepts exactly the texts that are made in
this way, and finds the only steps that they can be made of.

* **Cutting** (`Text.cut_append`, `Text.trim_eq_iff`, `Text.natural?_eq_some_iff`): what is cut off
  a text at the first character of some kind, the text between white space, and the numbers.
* **Texts of steps** (`Segment.Spelled`, `Path.Spelled`): how steps and paths may be written.
* **One step** (`Path.bracket?_sound`, `Path.bracket?_complete`, `Path.firstSegment`): what stands
  in brackets, and the first step of a text. What follows a name must not go on with it.
* **All steps** (`Path.readSegments_eq_ok_iff`): exactly the texts of steps are read.
* **Brackets** (`Segment.brackets`, `Segment.spelled_brackets`): every step has a text in brackets,
  unless it is a field whose name has both quotation marks.
* **Reading** (`Path.parse_eq_ok_iff_spelled`): what is read as a path, and as which.
-/

namespace Workflow

namespace Text

/-! ## Cutting -/

/-- A text is cut where its first part ends, if that part meets the condition and what follows does
not begin with a character that does. -/
theorem cut_append (p : Char → Bool) (first rest : List Char) (hfirst : ∀ c ∈ first, p c = true)
    (hrest : ∀ c ∈ rest.head?, p c = false) :
    (first ++ rest).takeWhile p = first ∧ (first ++ rest).dropWhile p = rest := by
  rw [List.takeWhile_append_of_pos hfirst, List.dropWhile_append_of_pos hfirst]
  cases rest with
  | nil => simp
  | cons c rest =>
    have hc : p c = false := hrest c rfl
    simp [hc]

/-- Where a text is cut, the condition fails. -/
theorem cut_head {p : Char → Bool} {cs rest : List Char} {c : Char}
    (h : cs.dropWhile p = c :: rest) : p c = false := by
  have hne : cs.dropWhile p ≠ [] := by simp [h]
  have hhead := List.head_dropWhile_not p hne
  simpa [h] using hhead

/-- White space is trimmed up to a character that is none. -/
theorem trimLeft_append {blanks cs : List Char} (hblanks : ∀ c ∈ blanks, isBlank c = true)
    (hcs : ∀ c ∈ cs.head?, isBlank c = false) : trimLeft (blanks ++ cs) = cs :=
  (cut_append isBlank blanks cs hblanks hcs).2

/-- Trimming leaves the text between the white space at the ends. -/
theorem trim_eq_iff {cs inner : List Char} :
    trim cs = inner ↔ ∃ before after, cs = before ++ inner ++ after ∧
      (∀ c ∈ before, isBlank c = true) ∧ (∀ c ∈ after, isBlank c = true) ∧
      (∀ c ∈ inner.head?, isBlank c = false) ∧ ∀ c ∈ inner.getLast?, isBlank c = false := by
  constructor
  case mp =>
    rintro rfl
    have hblank (cs : List Char) : ∀ c ∈ cs.takeWhile isBlank, isBlank c = true :=
      fun c hc => List.mem_takeWhile_imp hc
    have hcut (cs : List Char) : cs.takeWhile isBlank ++ trimLeft cs = cs :=
      List.takeWhile_append_dropWhile
    have hright : trimLeft cs =
        trim cs ++ ((trimLeft cs).reverse.takeWhile isBlank).reverse := by
      rw [trim, ← List.reverse_append, hcut, List.reverse_reverse]
    refine ⟨cs.takeWhile isBlank, ((trimLeft cs).reverse.takeWhile isBlank).reverse, ?_,
      hblank cs, fun c hc => hblank _ c (List.mem_reverse.mp hc), fun c hc => ?_, fun c hc => ?_⟩
    · rw [List.append_assoc, ← hright, hcut]
    · obtain ⟨rest, hrest⟩ := List.head?_eq_some_iff.mp hc
      rw [hrest, List.cons_append] at hright
      exact cut_head hright
    · rw [trim, List.getLast?_reverse] at hc
      obtain ⟨rest, hrest⟩ := List.head?_eq_some_iff.mp hc
      exact cut_head hrest
  case mpr =>
    rintro ⟨before, after, rfl, hbefore, hafter, hhead, hlast⟩
    rcases inner with _ | ⟨c, inner⟩
    · have hall : trimLeft (before ++ [] ++ after) = [] := by
        refine List.dropWhile_eq_nil_iff.mpr fun c hc => ?_
        simp only [List.append_nil, List.mem_append] at hc
        exact hc.elim (hbefore c) (hafter c)
      rw [trim, hall]
      rfl
    · have hleft : trimLeft (before ++ (c :: inner ++ after)) = c :: inner ++ after :=
        trimLeft_append hbefore hhead
      have hright : trimLeft (after.reverse ++ (c :: inner).reverse) = (c :: inner).reverse :=
        trimLeft_append (fun c hc => hafter c (List.mem_reverse.mp hc))
          (by rwa [List.head?_reverse])
      rw [trim, List.append_assoc, hleft, List.reverse_append, hright, List.reverse_reverse]

/-- A digit is no white space. -/
theorem isBlank_of_isDigit {c : Char} (h : c.isDigit = true) : isBlank c = false := by
  have hrange : 48 ≤ c.toNat ∧ c.toNat ≤ 57 := by
    simpa [Char.isDigit, UInt32.le_iff_toNat_le] using h
  simp only [isBlank, Bool.or_eq_false_iff, Bool.and_eq_false_iff, decide_eq_false_iff_not,
    beq_eq_false_iff_ne]
  omega

/-- A number is read from its digits, at least one, which may stand after a plus sign. -/
theorem natural?_eq_some_iff {bound n : Nat} {cs : List Char} :
    natural? bound cs = some n ↔ ∃ sign digits, cs = sign ++ digits ∧ (sign = [] ∨ sign = ['+']) ∧
      digits ≠ [] ∧ (∀ c ∈ digits, c.isDigit = true) ∧ digitsValue digits = n ∧ n < bound := by
  have hread (digits : List Char) :
      (if digits.isEmpty || !digits.all Char.isDigit then none
        else if digitsValue digits < bound then some (digitsValue digits) else none) = some n ↔
      digits ≠ [] ∧ (∀ c ∈ digits, c.isDigit = true) ∧ digitsValue digits = n ∧ n < bound := by
    by_cases hdecimal : digits ≠ [] ∧ ∀ c ∈ digits, c.isDigit = true
    · have hnone : (digits.isEmpty || !digits.all Char.isDigit) = false := by
        simpa using hdecimal
      rw [hnone, ← and_assoc, and_iff_right hdecimal]
      simp only [Bool.false_eq_true, if_false, Option.ite_none_right_eq_some, Option.some.injEq]
      constructor
      · rintro ⟨hlt, rfl⟩
        exact ⟨rfl, hlt⟩
      · rintro ⟨rfl, hlt⟩
        exact ⟨hlt, rfl⟩
    · have hsome : (digits.isEmpty || !digits.all Char.isDigit) = true := by
        simpa [imp_iff_not_or] using hdecimal
      rw [hsome, if_pos rfl]
      exact ⟨nofun, fun h => absurd ⟨h.1, h.2.1⟩ hdecimal⟩
  constructor
  case mp =>
    intro h
    simp only [natural?] at h
    split at h
    · next rest => exact ⟨['+'], rest, rfl, .inr rfl, (hread rest).mp h⟩
    · next => exact ⟨[], cs, rfl, .inl rfl, (hread cs).mp h⟩
  case mpr =>
    rintro ⟨sign, digits, rfl, rfl | rfl, hdigits⟩
    · simp only [natural?]
      split
      · next rest heq =>
        have hplus := hdigits.2.1 '+' (by simp_all)
        simp at hplus
      · exact (hread digits).mpr hdigits
    · exact (hread digits).mpr hdigits

end Text

/-! ## Texts of steps -/

/-- How a step may be written: a name after a point, which does not begin with an asterisk; an
asterisk after a point or in brackets; a name in brackets between marks that do not occur in it; or
the digits of a position in brackets, with white space around them and a plus sign before them. -/
inductive Segment.Spelled : Segment → List Char → Prop
  | point {name : List Char} (nonempty : name ≠ []) (unended : ∀ c ∈ name, c ≠ '.' ∧ c ≠ '[')
      (unstarred : name.head? ≠ some '*') : Spelled (.field (String.ofList name)) ('.' :: name)
  | pointed : Spelled .wildcard ['.', '*']
  | bracketed : Spelled .wildcard ['[', '*', ']']
  | quoted {mark : Char} {name : List Char} (isMark : mark = '"' ∨ mark = '\x27')
      (unmarked : mark ∉ name) :
      Spelled (.field (String.ofList name)) ('[' :: mark :: (name ++ [mark, ']']))
  | index {before sign digits after : List Char}
      (blank : ∀ c ∈ before ++ after, Text.isBlank c = true) (isSign : sign = [] ∨ sign = ['+'])
      (nonempty : digits ≠ []) (decimal : ∀ c ∈ digits, c.isDigit = true)
      (bounded : Text.digitsValue digits < Word.count64) :
      Spelled (.index (Text.digitsValue digits))
        ('[' :: (before ++ (sign ++ digits) ++ after ++ [']']))

namespace Path

/-- How the steps of a path may be written: after the root one text after the other. -/
def Spelled (segments : List Segment) (cs : List Char) : Prop :=
  ∃ texts, List.Forall₂ Segment.Spelled segments texts ∧ cs = '$' :: texts.flatten

/-! ## One step -/

/-- What may follow the text of a step. -/
def Begins (cs : List Char) : Prop := ∀ c ∈ cs.head?, endsName c = true

/-- The text of a step begins with a point or a bracket. -/
theorem exists_cons_of_spelled {segment : Segment} {text : List Char} (h : segment.Spelled text) :
    ∃ c rest, text = c :: rest ∧ endsName c = true := by
  cases h <;> exact ⟨_, _, rfl, rfl⟩

/-- What has been read in brackets is the text of a step. -/
theorem bracket?_sound {cs rest : List Char} {segment : Segment}
    (h : bracket? cs = some (segment, rest)) :
    ∃ text, segment.Spelled ('[' :: text) ∧ cs = text ++ rest := by
  rw [bracket?.eq_def] at h
  split at h
  case h_1 more =>
    cases h
    exact ⟨['*', ']'], .bracketed, rfl⟩
  case h_2 => cases h
  case h_3 c more _ =>
    split at h
    case isTrue hmark =>
      split at h
      case h_1 last _ hdrop =>
        cases h
        obtain rfl : last = c := by simpa using Text.cut_head hdrop
        have hmore : more.takeWhile (· != last) ++ last :: ']' :: rest = more := by
          rw [← hdrop]
          exact List.takeWhile_append_dropWhile
        refine ⟨last :: (more.takeWhile (· != last) ++ [last, ']']), .quoted ?_ ?_, ?_⟩
        · simpa [isQuote] using hmark
        · exact fun hmem => by simpa using List.mem_takeWhile_imp hmem
        · conv_lhs => rw [← hmore]
          simp
      case h_2 => cases h
    case isFalse =>
      split at h
      case h_1 last more' hdrop =>
        obtain rfl : last = ']' := by simpa using Text.cut_head hdrop
        obtain ⟨n, hn, heq⟩ := Option.map_eq_some_iff.mp h
        cases heq
        obtain ⟨sign, digits, hinner, hsign, hne, hdigits, rfl, hlt⟩ :=
          Text.natural?_eq_some_iff.mp hn
        obtain ⟨before, after, hspan, hbefore, hafter, -, -⟩ := Text.trim_eq_iff.mp hinner
        refine ⟨before ++ (sign ++ digits) ++ after ++ [']'],
          .index (List.forall_mem_append.mpr ⟨hbefore, hafter⟩) hsign hne hdigits hlt, ?_⟩
        rw [← hspan, List.append_assoc, List.singleton_append, ← hdrop]
        exact List.takeWhile_append_dropWhile.symm
      case h_2 => cases h

/-- White space, signs and digits are neither marks nor anything else that means something in
brackets. -/
theorem of_position {c : Char} (h : Text.isBlank c = true ∨ c = '+' ∨ c.isDigit = true) :
    isQuote c = false ∧ c ≠ '*' ∧ c ≠ ']' := by
  refine ⟨?_, ?_, ?_⟩
  · by_contra hmark
    have hcases : c = '"' ∨ c = '\x27' := by
      simpa [isQuote, or_iff_not_imp_left] using hmark
    rcases hcases with rfl | rfl <;> revert h <;> decide
  · rintro rfl
    revert h
    decide
  · rintro rfl
    revert h
    decide

/-- The text of a step in brackets is read as this step, whatever follows. -/
theorem bracket?_complete {text : List Char} {segment : Segment} (h : segment.Spelled ('[' :: text))
    (rest : List Char) : bracket? (text ++ rest) = some (segment, rest) := by
  generalize hcs : '[' :: text = cs at h
  cases h with
  | point => cases hcs
  | pointed => cases hcs
  | bracketed =>
    cases hcs
    rfl
  | @quoted mark name isMark unmarked =>
    cases hcs
    have hmark : isQuote mark = true := by simpa [isQuote] using isMark
    have hstar : mark ≠ '*' := by rintro rfl; cases hmark
    obtain ⟨htake, hdrop⟩ := Text.cut_append (· != mark) name (mark :: ']' :: rest)
      (fun c hc => by simpa using fun heq : c = mark => unmarked (heq ▸ hc))
      (by simp)
    have happend : mark :: (name ++ [mark, ']']) ++ rest =
        mark :: (name ++ mark :: ']' :: rest) := by simp
    rw [happend, bracket?.eq_3 _ _ fun _ heq => absurd heq hstar, if_pos hmark]
    simp only [htake, hdrop]
  | @index before sign digits after blank isSign nonempty decimal bounded =>
    cases hcs
    obtain ⟨hbefore, hafter⟩ := List.forall_mem_append.mp blank
    -- So nothing in the brackets is taken for a mark or an asterisk, or for the end.
    have hinner : ∀ c ∈ before ++ (sign ++ digits) ++ after,
        isQuote c = false ∧ c ≠ '*' ∧ c ≠ ']' := by
      intro c hc
      refine of_position ?_
      simp only [List.mem_append] at hc
      rcases hc with (hc | hc | hc) | hc
      · exact .inl (hbefore c hc)
      · rcases isSign with rfl | rfl
        · cases hc
        · exact .inr (.inl (List.mem_singleton.mp hc))
      · exact .inr (.inr (decimal c hc))
      · exact .inl (hafter c hc)
    have hnumber : ∀ c ∈ sign ++ digits, Text.isBlank c = false := by
      intro c hc
      rcases List.mem_append.mp hc with hc | hc
      · rcases isSign with rfl | rfl
        · cases hc
        · rw [List.mem_singleton.mp hc]
          decide
      · exact Text.isBlank_of_isDigit (decimal c hc)
    have htrim : Text.trim (before ++ (sign ++ digits) ++ after) = sign ++ digits :=
      Text.trim_eq_iff.mpr ⟨before, after, rfl, hbefore, hafter,
        fun c hc => hnumber c (List.mem_of_mem_head? hc),
        fun c hc => hnumber c (List.mem_of_mem_getLast? hc)⟩
    have hread : Text.natural? Word.count64 (sign ++ digits) = some (Text.digitsValue digits) :=
      Text.natural?_eq_some_iff.mpr ⟨sign, digits, rfl, isSign, nonempty, decimal, rfl, bounded⟩
    obtain ⟨htake, hdrop⟩ := Text.cut_append (· != ']')
      (before ++ (sign ++ digits) ++ after) (']' :: rest)
      (fun c hc => by simpa using (hinner c hc).2.2) (by simp)
    obtain ⟨c, more, hcons⟩ : ∃ c more, before ++ (sign ++ digits) ++ after = c :: more :=
      List.exists_cons_of_ne_nil (by simp [nonempty])
    rw [hcons] at hinner htrim htake hdrop ⊢
    obtain ⟨hmark, hstar, -⟩ := hinner c List.mem_cons_self
    rw [List.append_assoc, List.singleton_append]
    rw [List.cons_append] at htake hdrop ⊢
    rw [bracket?.eq_3 _ _ fun _ heq => absurd heq hstar, if_neg (by simp [hmark])]
    simp only [htake, hdrop, htrim, hread, Option.map_some]

/-- Reads the first step of a text. -/
def firstSegment : List Char → Except PathFault (Segment × List Char)
  | '.' :: '*' :: rest => .ok (.wildcard, rest)
  | '.' :: rest =>
    let name := rest.takeWhile (!endsName ·)
    if name.isEmpty then .error .emptyName
    else .ok (.field (String.ofList name), rest.dropWhile (!endsName ·))
  | '[' :: rest =>
    match bracket? rest with
    | some found => .ok found
    | none => .error .malformedBracket
  | _ => .error .noSelector

/-- The steps of a text are the first one and those of the rest. -/
theorem readSegments_succ (steps : Nat) (c : Char) (cs : List Char) :
    readSegments (steps + 1) (c :: cs) = (firstSegment (c :: cs)).bind fun (segment, rest) =>
      (readSegments steps rest).map (segment :: ·) := by
  rw [firstSegment.eq_def]
  split
  case h_1 rest heq =>
    rw [heq]
    rfl
  case h_2 rest hstar heq =>
    rw [heq, readSegments.eq_4 _ _ hstar]
    dsimp only
    split <;> rfl
  case h_3 rest heq =>
    rw [heq, readSegments.eq_5]
    cases bracket? rest <;> rfl
  case h_4 hstarred hpoint hbracket =>
    rw [readSegments.eq_6 _ _ _ (fun rest hc hcs => hstarred rest (hc ▸ hcs ▸ rfl))
      (fun hc => hpoint cs (hc ▸ rfl)) (fun hc => hbracket cs (hc ▸ rfl))]
    rfl

/-- What has been read as the first step is the text of one. -/
theorem firstSegment_sound {cs rest : List Char} {segment : Segment}
    (h : firstSegment cs = .ok (segment, rest)) :
    ∃ text, segment.Spelled text ∧ cs = text ++ rest := by
  rw [firstSegment.eq_def] at h
  split at h
  case h_1 more =>
    cases h
    exact ⟨['.', '*'], .pointed, rfl⟩
  case h_2 more hstar =>
    dsimp only at h
    split at h
    case isTrue => cases h
    case isFalse hname =>
      cases h
      refine ⟨'.' :: more.takeWhile (!endsName ·), .point ?_ ?_ ?_, ?_⟩
      · simpa using hname
      · intro c hc
        have hends : endsName c = false := by simpa using List.mem_takeWhile_imp hc
        simpa [endsName] using hends
      · intro hhead
        obtain ⟨name, hname⟩ := List.head?_eq_some_iff.mp hhead
        refine hstar (name ++ more.dropWhile (!endsName ·)) ?_
        rw [← List.cons_append, ← hname]
        exact List.takeWhile_append_dropWhile.symm
      · rw [List.cons_append, List.takeWhile_append_dropWhile]
  case h_3 more =>
    cases hbracket : bracket? more with
    | none =>
      rw [hbracket] at h
      cases h
    | some found =>
      rw [hbracket] at h
      cases h
      obtain ⟨text, hspelled, rfl⟩ := bracket?_sound hbracket
      exact ⟨'[' :: text, hspelled, rfl⟩
  case h_4 => cases h

/-- The text of a step is read as this step, if what follows does not go on with a name. -/
theorem firstSegment_complete {segment : Segment} {text rest : List Char}
    (h : segment.Spelled text) (hrest : Begins rest) :
    firstSegment (text ++ rest) = .ok (segment, rest) := by
  have hbrackets {text : List Char} (h : segment.Spelled ('[' :: text)) :
      firstSegment ('[' :: text ++ rest) = .ok (segment, rest) := by
    rw [List.cons_append, firstSegment, bracket?_complete h rest]
  cases h with
  | pointed => rfl
  | bracketed => exact hbrackets .bracketed
  | quoted isMark unmarked => exact hbrackets (.quoted isMark unmarked)
  | index blank isSign nonempty decimal bounded =>
    exact hbrackets (.index blank isSign nonempty decimal bounded)
  | @point name nonempty unended unstarred =>
    obtain ⟨htake, hdrop⟩ := Text.cut_append (!endsName ·) name rest
      (fun c hc => by simpa [endsName] using unended c hc) (fun c hc => by simp [hrest c hc])
    obtain ⟨c, more, rfl⟩ := List.exists_cons_of_ne_nil nonempty
    have hstar : c ≠ '*' := fun heq => unstarred (heq ▸ rfl)
    rw [List.cons_append, firstSegment.eq_2 (c :: more ++ rest) fun _ heq =>
      hstar (List.cons.inj heq).1]
    simp only [htake, hdrop]
    rfl

/-! ## All steps -/

/-- The texts of steps one after the other begin like one, if they are not empty. -/
theorem begins_flatten {segments : List Segment} {texts : List (List Char)}
    (h : List.Forall₂ Segment.Spelled segments texts) : Begins texts.flatten := by
  cases h with
  | nil => exact fun c hc => by cases hc
  | cons hfirst _ =>
    obtain ⟨c, rest, rfl, hc⟩ := exists_cons_of_spelled hfirst
    rintro d ⟨⟩
    exact hc

/-- Only of no texts nothing can be made. -/
theorem readSegments_nil (steps : Nat) {segments : List Segment} :
    readSegments steps [] = .ok segments ↔
      ∃ texts, List.Forall₂ Segment.Spelled segments texts ∧ [] = texts.flatten := by
  have hread : readSegments steps [] = .ok [] := by rw [readSegments.eq_def]
  rw [hread]
  constructor
  · intro h
    cases h
    exact ⟨[], .nil, rfl⟩
  · rintro ⟨texts, hspelled, hflatten⟩
    cases hspelled with
    | nil => rfl
    | cons hfirst _ =>
      obtain ⟨c, rest, rfl, -⟩ := exists_cons_of_spelled hfirst
      cases hflatten

/-- With a step for every character, exactly the texts of steps are read, as these steps. -/
theorem readSegments_eq_ok_iff {cs : List Char} {steps : Nat} (hsteps : cs.length ≤ steps)
    {segments : List Segment} : readSegments steps cs = .ok segments ↔
      ∃ texts, List.Forall₂ Segment.Spelled segments texts ∧ cs = texts.flatten := by
  induction steps generalizing cs segments with
  | zero =>
    obtain rfl := List.length_eq_zero_iff.mp (Nat.le_zero.mp hsteps)
    exact readSegments_nil 0
  | succ steps ih =>
    rcases cs with _ | ⟨c, cs⟩
    · exact readSegments_nil (steps + 1)
    rw [readSegments_succ]
    constructor
    case mp =>
      intro h
      cases hfirst : firstSegment (c :: cs) with
      | error fault =>
        rw [hfirst] at h
        cases h
      | ok found =>
        obtain ⟨segment, rest⟩ := found
        obtain ⟨text, hspelled, happend⟩ := firstSegment_sound hfirst
        -- The text of a step is not empty, so that the steps suffice for the rest.
        have hrest : rest.length ≤ steps := by
          obtain ⟨d, more, rfl, -⟩ := exists_cons_of_spelled hspelled
          have hlength := congrArg List.length happend
          simp only [List.length_cons, List.length_append] at hlength hsteps
          omega
        rw [hfirst] at h
        change (readSegments steps rest).map (segment :: ·) = .ok segments at h
        cases hread : readSegments steps rest with
        | error fault =>
          rw [hread] at h
          cases h
        | ok others =>
          rw [hread] at h
          cases h
          obtain ⟨texts, hall, rfl⟩ := (ih hrest).mp hread
          exact ⟨text :: texts, .cons hspelled hall, happend⟩
    case mpr =>
      rintro ⟨texts, hspelled, happend⟩
      cases hspelled with
      | nil => cases happend
      | @cons segment text others texts hfirst hall =>
        have hrest : texts.flatten.length ≤ steps := by
          obtain ⟨d, more, rfl, -⟩ := exists_cons_of_spelled hfirst
          have hlength := congrArg List.length happend
          simp only [List.flatten_cons, List.length_cons, List.length_append] at hlength hsteps
          omega
        rw [happend, List.flatten_cons, firstSegment_complete hfirst (begins_flatten hall)]
        change (readSegments steps texts.flatten).map (segment :: ·) = _
        rw [(ih hrest).mpr ⟨texts, hall, rfl⟩]
        rfl

/-! ## Brackets -/

end Path

/-- Whether a step has a text in brackets: a field only if its name lacks one of the marks, and a
position if it fits a word. -/
def Segment.HasBrackets : Segment → Prop
  | field name => '"' ∉ name.toList ∨ '\x27' ∉ name.toList
  | index position => position < Word.count64
  | wildcard => True

/-- The text of a step in brackets. -/
def Segment.brackets : Segment → List Char
  | field name =>
    let mark := if '\x27' ∈ name.toList then '"' else '\x27'
    '[' :: mark :: (name.toList ++ [mark, ']'])
  | index position => '[' :: (Text.natDigits position ++ [']'])
  | wildcard => ['[', '*', ']']

/-- The text of a step in brackets is one of its texts, if it has one in brackets. -/
theorem Segment.spelled_brackets {segment : Segment} (h : segment.HasBrackets) :
    segment.Spelled segment.brackets := by
  cases segment with
  | wildcard => exact .bracketed
  | field name =>
    have hspelled := @Spelled.quoted (if '\x27' ∈ name.toList then '"' else '\x27') name.toList
      (by split <;> simp) (by split <;> simp_all [HasBrackets])
    rwa [String.ofList_toList] at hspelled
  | index position =>
    have hvalue : Text.digitsValue (Text.natDigits position) = position :=
      Nat.ofDigitChars_ten_toDigits
    have hspelled := @Spelled.index [] [] (Text.natDigits position) [] (by simp) (.inl rfl)
      Nat.toDigits_ne_nil (fun c hc => Nat.isDigit_of_mem_toDigits (by decide) (by decide) hc)
      (hvalue.symm ▸ h)
    rw [hvalue] at hspelled
    simpa [brackets] using hspelled

/-- The text of a step in brackets ends with the closing bracket. -/
theorem Segment.exists_brackets (segment : Segment) :
    ∃ text, segment.brackets = text ++ [']'] := by
  cases segment with
  | wildcard => exact ⟨['[', '*'], rfl⟩
  | field name =>
    let mark := if '\x27' ∈ name.toList then '"' else '\x27'
    exact ⟨'[' :: mark :: (name.toList ++ [mark]), by simp [brackets, mark]⟩
  | index position => exact ⟨'[' :: Text.natDigits position, rfl⟩

/-- The text of a path with all steps in brackets. -/
def Path.bracketText (segments : List Segment) : String :=
  String.ofList ('$' :: segments.flatMap Segment.brackets)

namespace Path

/-- The text of a path in brackets has no white space around it. -/
theorem trim_bracketText (segments : List Segment) :
    Text.trim (bracketText segments).toList = (bracketText segments).toList := by
  rw [bracketText, String.toList_ofList]
  refine Text.trim_eq_iff.mpr ⟨[], [], by simp, by simp, by simp, ?_, fun c hc => ?_⟩
  · rintro c ⟨⟩
    decide
  · rcases List.eq_nil_or_concat segments with rfl | ⟨before, last, rfl⟩
    · cases hc
      decide
    · obtain ⟨text, htext⟩ := last.exists_brackets
      rw [List.concat_eq_append, List.flatMap_append, List.flatMap_singleton, htext,
        ← List.append_assoc, ← List.cons_append, List.getLast?_concat] at hc
      cases hc
      decide

/-- The text of a path in brackets spells its steps, if each of them has a text in brackets. -/
theorem spelled_bracketText {segments : List Segment}
    (h : ∀ segment ∈ segments, segment.HasBrackets) :
    Spelled segments (Text.trim (bracketText segments).toList) := by
  refine ⟨segments.map Segment.brackets, ?_, ?_⟩
  · rw [List.forall₂_map_right_iff, List.forall₂_same]
    exact fun segment hsegment => Segment.spelled_brackets (h segment hsegment)
  · rw [trim_bracketText, bracketText, String.toList_ofList, List.flatMap_def]

/-! ## Reading -/

/-- A path is read from the root and the texts of its steps. -/
theorem ofText?_eq_ok_iff {expression : String} {path : Path} :
    ofText? expression = .ok path ↔
      path.expression = expression ∧ Spelled path.segments (Text.trim expression.toList) := by
  obtain ⟨text, segments⟩ := path
  rw [ofText?]
  split
  case h_1 rest heq =>
    have hspelled : Spelled segments (Text.trim expression.toList) ↔
        readSegments rest.length rest = .ok segments := by
      rw [readSegments_eq_ok_iff (Nat.le_refl _), heq]
      simp [Spelled]
    simp only [hspelled]
    cases readSegments rest.length rest with
    | error fault => exact ⟨nofun, fun h => absurd h.2 nofun⟩
    | ok found =>
      constructor
      · rintro ⟨⟩
        exact ⟨rfl, rfl⟩
      · rintro ⟨rfl, ⟨⟩⟩
        rfl
  case h_2 hroot =>
    refine ⟨nofun, fun h => ?_⟩
    obtain ⟨-, texts, -, heq⟩ := h
    exact absurd heq (hroot _)

/-- A text is read as a path exactly if, without the white space around it, it is the root and the
texts of steps; the path has these steps, and there are no others that the text could be made of.
Every other text is refused by its name. And every list of steps that have texts in brackets is read
back from these. -/
theorem parse_eq_ok_iff_spelled (expression : String) :
    (∀ path, parse expression = .ok path ↔
      path.expression = expression ∧ Spelled path.segments (Text.trim expression.toList)) ∧
    (∀ segments others, Spelled segments (Text.trim expression.toList) →
      Spelled others (Text.trim expression.toList) → segments = others) ∧
    ((∀ segments, ¬Spelled segments (Text.trim expression.toList)) ↔
      ∃ fault, parse expression = .error (.invalidPath expression fault)) ∧
    (∀ segments, (∀ segment ∈ segments, segment.HasBrackets) →
      parse (bracketText segments) = .ok ⟨bracketText segments, segments⟩) := by
  have hparse (expression : String) (path : Path) : parse expression = .ok path ↔
      path.expression = expression ∧ Spelled path.segments (Text.trim expression.toList) := by
    rw [← ofText?_eq_ok_iff, parse]
    cases ofText? expression with
    | error fault => exact ⟨nofun, nofun⟩
    | ok found => simp [Except.mapError]
  refine ⟨hparse expression, fun segments others h h' => ?_, ?_, fun segments h => ?_⟩
  · have hread := (hparse expression ⟨expression, segments⟩).mpr ⟨rfl, h⟩
    rw [(hparse expression ⟨expression, others⟩).mpr ⟨rfl, h'⟩] at hread
    cases hread
    rfl
  · constructor
    · intro hnone
      cases hread : ofText? expression with
      | error fault => exact ⟨fault, by rw [parse, hread]; rfl⟩
      | ok path => exact absurd (ofText?_eq_ok_iff.mp hread).2 (hnone _)
    · rintro ⟨fault, hfault⟩ segments hspelled
      rw [(hparse expression ⟨expression, segments⟩).mpr ⟨rfl, hspelled⟩] at hfault
      cases hfault
  · exact (hparse _ _).mpr ⟨rfl, spelled_bracketText h⟩

/-- White space belongs to a name unless it stands at an end of the whole text, points and brackets
only in quotation marks; and a name with one of the marks can be written with the other. -/
theorem parse_shelfPath :
    parse " $.top shelf['a.b[0]'][ +07].* " =
        .ok ⟨" $.top shelf['a.b[0]'][ +07].* ",
          [.field "top shelf", .field "a.b[0]", .index 7, .wildcard]⟩ ∧
      bracketText [.field "don't", .wildcard, .index 7] = "$[\"don't\"][*][7]" ∧
      parse (bracketText [.field "don't", .wildcard, .index 7]) =
        .ok ⟨bracketText [.field "don't", .wildcard, .index 7],
          [.field "don't", .wildcard, .index 7]⟩ := by
  refine ⟨?_, by decide +kernel, ?_⟩
  · refine ((parse_eq_ok_iff_spelled _).1 _).mpr ⟨rfl, ?_⟩
    refine ⟨[".top shelf".toList, "['a.b[0]']".toList, "[ +07]".toList, ".*".toList], ?_,
      by decide +kernel⟩
    refine .cons ?_ (.cons ?_ (.cons ?_ (.cons .pointed .nil)))
    · exact @Segment.Spelled.point "top shelf".toList (by decide) (by simp) (by decide)
    · exact @Segment.Spelled.quoted '\x27' "a.b[0]".toList (by decide) (by decide)
    · exact @Segment.Spelled.index [' '] ['+'] ['0', '7'] [] (List.all_eq_true.mp (by decide))
        (by decide) (by decide) (List.all_eq_true.mp (by decide)) (by decide)
  · refine (parse_eq_ok_iff_spelled "").2.2.2 _ ?_
    simp [Segment.HasBrackets, Word.count64]

end Path

end Workflow
