import Mathlib.Data.Prod.Lex
import Mathlib.Data.String.Basic
import Mathlib.Order.BooleanAlgebra.Basic
import Workflow.Choice

/-!
# What the rules of a choice say

The rules are read here as they stand in their document, without compiling them: combinations are
gone through from left to right, as far as they matter, and a comparison looks for the first match
of its variable. What is no rule holds of nothing; compiling a document that has such a thing fails.

* **Comparisons** (`Relation.relates`, `Operator.judges`): a value and a literal of the same kind
  are related on the order of their kind. An operand that was read from the literal comes to the
  same judgement (`Operator.judges_eq`).
* **Rules** (`ChoiceReading.holds`, `ChoiceReading.target`): whether a rule holds of an input, and
  where a list of rules leads.
* **Trees** (`Condition.holds`, `Condition.firstTarget?`): the same for the trees of the rules.
  Reading the trees first makes no difference (`ChoiceReading.reading_eq`,
  `ChoiceReading.target_eq`), by induction over the rules that are read (`Condition.read_induct`).
-/

namespace Workflow

section results

variable {ε α β : Type} {e : Except ε α} {b : β}

/-- A changed result that is there was there before it was changed. -/
theorem exists_of_map_eq_ok {f : α → β} (h : e.map f = .ok b) : ∃ a, e = .ok a ∧ f a = b := by
  cases e with
  | error error => cases h
  | ok a => exact ⟨a, rfl, Except.ok.inj h⟩

/-- A sequence that has succeeded has succeeded in its first part and in the rest. -/
theorem exists_of_bind_eq_ok {f : α → Except ε β} (h : (e >>= f) = .ok b) :
    ∃ a, e = .ok a ∧ f a = .ok b := by
  cases e with
  | error error => cases h
  | ok a => exact ⟨a, rfl, h⟩

end results

/-! ## Comparisons -/

namespace Relation

section order

variable {α : Type} [LinearOrder α]

/-- Whether `x` is related to `y`. -/
def relates : Relation → α → α → Bool
  | equals, x, y => decide (x = y)
  | greater, x, y => decide (y < x)
  | greaterOrEqual, x, y => decide (y ≤ x)
  | less, x, y => decide (x < y)
  | lessOrEqual, x, y => decide (x ≤ y)

/-- How two things compare decides how they are related. -/
theorem accepts_compare (r : Relation) (x y : α) : r.accepts (compare x y) = r.relates x y := by
  rcases lt_trichotomy x y with h | h | h
  · rw [compare_lt_iff_lt.mpr h]
    cases r <;> simp [accepts, relates, h, h.le, h.ne, h.not_gt]
  · rw [compare_eq_iff_eq.mpr h]
    cases r <;> simp [accepts, relates, h]
  · rw [compare_gt_iff_gt.mpr h]
    cases r <;> simp [accepts, relates, h, h.le, h.ne', h.not_gt]

/-- Whether two values are of a kind, and the first is related to the second. -/
def relatesAs (r : Relation) (kind : Json → Option α) (actual literal : Json) : Bool :=
  match kind actual, kind literal with
  | some x, some y => r.relates x y
  | _, _ => false

end order

end Relation

namespace Json

/-- The position of a number on the number line. -/
def onNumberLine? (v : Json) : Option Int := v.double?.bind Double.position?

/-- The moment that a text names, by its seconds and then by its nanoseconds. -/
def onTimeLine? (v : Json) : Option (Int ×ₗ Nat) :=
  (v.string?.bind Moment.ofRfc3339?).map fun (m, _) => toLex (m.seconds, m.nanos)

end Json

/-- What an operator says of a value and a literal, as they stand in their documents. -/
def Operator.judges : Operator → (actual literal : Json) → Bool
  | booleanEquals => Relation.equals.relatesAs Json.bool?
  | numeric r => r.relatesAs Json.onNumberLine?
  | string r => r.relatesAs Json.string?
  | timestamp r => r.relatesAs Json.onTimeLine?

namespace Operator

variable {literal : Json} {operand : Operand}

/-- What an operator says of a value and an operand. -/
def judgesOperand (op : Operator) (operand : Operand) (actual : Json) : Bool :=
  match operand.compare? actual with
  | some outcome => op.accepts outcome
  | none => false

/-- An operand stands for the literal that it was read from. -/
theorem judges_eq (actual : Json) {op : Operator}
    (h : Operand.ofLiteral? op literal = some operand) :
    op.judges actual literal = op.judgesOperand operand actual := by
  cases op with
  | booleanEquals =>
    obtain ⟨expected, hliteral, rfl⟩ := Option.map_eq_some_iff.mp h
    simp only [judges, judgesOperand, Relation.relatesAs, Operand.compare?, hliteral]
    cases actual.bool? with
    | none => rfl
    | some b => cases b <;> cases expected <;> rfl
  | numeric r =>
    obtain ⟨expected, hliteral, rfl⟩ := Option.map_eq_some_iff.mp h
    simp only [judges, judgesOperand, Relation.relatesAs, Operand.compare?, Json.onNumberLine?,
      hliteral, Option.bind_some]
    cases actual.double? with
    | none => rfl
    | some x =>
      simp only [Option.bind_some, Double.compare?]
      cases x.position? with
      | none => rfl
      | some p =>
        cases expected.position? with
        | none => rfl
        | some q => exact (r.accepts_compare p q).symm
  | string r =>
    obtain ⟨expected, hliteral, rfl⟩ := Option.map_eq_some_iff.mp h
    simp only [judges, judgesOperand, Relation.relatesAs, Operand.compare?, hliteral]
    cases actual.string? with
    | none => rfl
    | some text => exact (r.accepts_compare text expected).symm
  | timestamp r =>
    obtain ⟨⟨expected, offset⟩, hliteral, rfl⟩ := Option.map_eq_some_iff.mp h
    simp only [judges, judgesOperand, Relation.relatesAs, Operand.compare?, Json.onTimeLine?,
      hliteral, Option.map_some]
    cases actual.string?.bind Moment.ofRfc3339? with
    | none => rfl
    | some read => exact (r.accepts_compare _ _).symm

end Operator

/-! ## Rules -/

namespace ChoiceReading

variable (input : Json)

/-- The first match of a variable. -/
def firstMatch? (variableText : String) : Option Json :=
  match Path.ofText? variableText with
  | .ok path => path.first? input
  | .error _ => none

/-- Whether a comparison holds; an error if its variable matches nothing. -/
def comparison (fields : List (String × Json)) : Except ChoiceError Bool :=
  match (Entries.get? "Variable" fields).bind Json.string?, Comparison.operatorField? fields with
  | some variableText, some (op, literal) =>
    match firstMatch? input variableText with
    | some actual => .ok (op.judges actual literal)
    | none => .error (.variableNotFound variableText)
  | _, _ => .ok false

mutual

/-- Whether a rule holds. -/
def holds (fields : List (String × Json)) : Except ChoiceError Bool :=
  match _hAnd : Entries.get? "And" fields with
  | some (.array items) => allHold items
  | some _ => .ok false
  | none =>
    match _hOr : Entries.get? "Or" fields with
    | some (.array items) => anyHolds items
    | some _ => .ok false
    | none =>
      match _hNot : Entries.get? "Not" fields with
      | some (.object inner) => (holds inner).map (!·)
      | some _ => .ok false
      | none => comparison input fields
termination_by sizeOf fields
decreasing_by
  · have := Entries.sizeOf_lt_of_get? _hAnd
    simp only [Json.array.sizeOf_spec] at this
    omega
  · have := Entries.sizeOf_lt_of_get? _hOr
    simp only [Json.array.sizeOf_spec] at this
    omega
  · have := Entries.sizeOf_lt_of_get? _hNot
    simp only [Json.object.sizeOf_spec] at this
    omega

/-- Whether all rules of a list hold. The first that does not ends the reading. -/
def allHold : List Json → Except ChoiceError Bool
  | [] => .ok true
  | .object fields :: rest => do
    if ← holds fields then allHold rest else return false
  | _ :: _ => .ok false
termination_by items => sizeOf items

/-- Whether a rule of a list holds. The first that does ends the reading. -/
def anyHolds : List Json → Except ChoiceError Bool
  | [] => .ok false
  | .object fields :: rest => do
    if ← holds fields then return true else anyHolds rest
  | _ :: _ => .ok false
termination_by items => sizeOf items

end

/-- Where a list of rules leads: to the target of the first that holds, or else to the fallback. -/
def target (fallback : Option String) : List Json → Except ChoiceError String
  | [] =>
    match fallback with
    | some next => .ok next
    | none => .error .noMatch
  | .object fields :: rest => do
    if ← holds input fields then
      match (Entries.get? "Next" fields).bind Json.string? with
      | some next => return next
      | none => target fallback rest
    else target fallback rest
  | _ :: rest => target fallback rest

end ChoiceReading

/-! ## Trees -/

namespace Condition

mutual

/-- Whether a condition holds. -/
def holds (input : Json) : Condition → Except ChoiceError Bool
  | .leaf comparison => comparison.holds input
  | .all conditions => allHold input conditions
  | .any conditions => anyHolds input conditions
  | .not condition => (holds input condition).map (!·)

/-- Whether all of the conditions hold. -/
def allHold (input : Json) : List Condition → Except ChoiceError Bool
  | [] => .ok true
  | condition :: rest => do
    if ← holds input condition then allHold input rest else return false

/-- Whether one of the conditions holds. -/
def anyHolds (input : Json) : List Condition → Except ChoiceError Bool
  | [] => .ok false
  | condition :: rest => do
    if ← holds input condition then return true else anyHolds input rest

end

/-- The target of the first of the conditions that holds. -/
def firstTarget? (input : Json) : List (Condition × String) → Except ChoiceError (Option String)
  | [] => .ok none
  | (condition, next) :: rest => do
    if ← condition.holds input then return some next else firstTarget? input rest

/-- The combination that a rule is, or else its comparison. -/
theorem ofFields_eq (fields : List (String × Json)) :
    ofFields fields =
      match Entries.get? "And" fields with
      | some (.array (x :: xs)) => (ofItems (x :: xs)).map .all
      | some _ => .error (.emptyChildren "And")
      | none =>
        match Entries.get? "Or" fields with
        | some (.array (x :: xs)) => (ofItems (x :: xs)).map .any
        | some _ => .error (.emptyChildren "Or")
        | none =>
          match Entries.get? "Not" fields with
          | some (.object inner) => (ofFields inner).map .not
          | some _ => .error .negatesNoObject
          | none => (Comparison.ofFields fields).map .leaf := by
  rw [ofFields]
  split
  · next hAnd => rw [hAnd]
  · split <;> grind
  · next hAnd =>
    rw [hAnd]
    simp only
    split
    · next hOr => rw [hOr]
    · split <;> grind
    · next hOr =>
      rw [hOr]
      simp only
      split
      · next hNot => rw [hNot]
      · split <;> grind
      · next hNot => rw [hNot]

/-- Induction over the rules that are read: a property of rules and their conditions, with one of
lists of rules, holds of all that is read if the combinations, the negation and the comparison have
it, each with the fields that it was read from, and the lists that are put together. -/
theorem read_induct {motive : List (String × Json) → Condition → Prop}
    {motiveItems : List Json → List Condition → Prop}
    (all : ∀ fields x xs conditions, Entries.get? "And" fields = some (.array (x :: xs)) →
      motiveItems (x :: xs) conditions → motive fields (.all conditions))
    (any : ∀ fields x xs conditions, Entries.get? "And" fields = none →
      Entries.get? "Or" fields = some (.array (x :: xs)) →
      motiveItems (x :: xs) conditions → motive fields (.any conditions))
    (not : ∀ fields inner condition, Entries.get? "And" fields = none →
      Entries.get? "Or" fields = none → Entries.get? "Not" fields = some (.object inner) →
      motive inner condition → motive fields (.not condition))
    (leaf : ∀ fields comparison, Entries.get? "And" fields = none →
      Entries.get? "Or" fields = none → Entries.get? "Not" fields = none →
      Comparison.ofFields fields = .ok comparison → motive fields (.leaf comparison))
    (nil : motiveItems [] [])
    (cons : ∀ fields rest condition conditions, motive fields condition →
      motiveItems rest conditions →
      motiveItems (.object fields :: rest) (condition :: conditions)) :
    (∀ fields c, ofFields fields = .ok c → motive fields c) ∧
      ∀ items conditions, ofItems items = .ok conditions → motiveItems items conditions := by
  apply ofFields.mutual_induct
  -- the combinations, each with the documents in its place that are refused
  case case1 =>
    intro fields x xs hAnd ih c h
    rw [ofFields_eq, hAnd] at h
    obtain ⟨conditions, hconditions, rfl⟩ := exists_of_map_eq_ok h
    exact all fields x xs conditions hAnd (ih conditions hconditions)
  case case2 =>
    intro fields v hother hAnd c h
    rw [ofFields_eq, hAnd] at h
    split at h <;> grind
  case case3 =>
    intro fields hAnd x xs hOr ih c h
    rw [ofFields_eq, hAnd, hOr] at h
    obtain ⟨conditions, hconditions, rfl⟩ := exists_of_map_eq_ok h
    exact any fields x xs conditions hAnd hOr (ih conditions hconditions)
  case case4 =>
    intro fields hAnd v hother hOr c h
    rw [ofFields_eq, hAnd, hOr] at h
    grind
  case case5 =>
    intro fields hAnd hOr inner hNot ih c h
    rw [ofFields_eq, hAnd, hOr, hNot] at h
    obtain ⟨condition, hcondition, rfl⟩ := exists_of_map_eq_ok h
    exact not fields inner condition hAnd hOr hNot (ih condition hcondition)
  case case6 =>
    intro fields hAnd hOr v hother hNot c h
    rw [ofFields_eq, hAnd, hOr, hNot] at h
    grind
  -- a comparison
  case case7 =>
    intro fields hAnd hOr hNot c h
    rw [ofFields_eq, hAnd, hOr, hNot] at h
    obtain ⟨comparison, hcomparison, rfl⟩ := exists_of_map_eq_ok h
    exact leaf fields comparison hAnd hOr hNot hcomparison
  -- lists of rules
  case case8 =>
    intro conditions h
    rw [ofItems] at h
    cases h
    exact nil
  case case9 =>
    intro fields rest ih ihrest conditions h
    rw [ofItems] at h
    obtain ⟨condition, hcondition, h⟩ := exists_of_bind_eq_ok h
    obtain ⟨others, hothers, h⟩ := exists_of_bind_eq_ok h
    cases h
    exact cons fields rest condition others (ih condition hcondition) (ihrest others hothers)
  case case10 =>
    intro v rest hother conditions h
    rw [ofItems] at h
    · cases h
    · exact hother

end Condition

namespace ChoiceReading

variable (input : Json)

/-- A rule holds as the field says that its condition is taken from: `And` before `Or` before `Not`,
and else its comparison. -/
theorem holds_eq_match (fields : List (String × Json)) :
    holds input fields =
      match Entries.get? "And" fields with
      | some (.array items) => allHold input items
      | some _ => .ok false
      | none =>
        match Entries.get? "Or" fields with
        | some (.array items) => anyHolds input items
        | some _ => .ok false
        | none =>
          match Entries.get? "Not" fields with
          | some (.object inner) => (holds input inner).map (!·)
          | some _ => .ok false
          | none => comparison input fields := by
  rw [holds]
  split
  · next hAnd => rw [hAnd]
  · split <;> grind
  · next hAnd =>
    rw [hAnd]
    simp only
    split
    · next hOr => rw [hOr]
    · split <;> grind
    · next hOr =>
      rw [hOr]
      simp only
      split
      · next hNot => rw [hNot]
      · split <;> grind
      · next hNot => rw [hNot]

/-- A path keeps the text that it was read from. -/
theorem expression_of_ofText? {expression : String} {path : Path}
    (h : Path.ofText? expression = .ok path) : path.expression = expression := by
  unfold Path.ofText? at h
  split at h
  · next rest _ =>
    cases hsegments : Path.readSegments rest.length rest with
    | error fault =>
      rw [hsegments] at h
      cases h
    | ok segments =>
      rw [hsegments] at h
      cases h
      rfl
  · cases h

/-- A comparison that was read has a variable, an operator and a literal. -/
theorem exists_of_comparison_ofFields {fields : List (String × Json)} {c : Comparison}
    (h : Comparison.ofFields fields = .ok c) :
    ∃ variableText op literal,
      (Entries.get? "Variable" fields).bind Json.string? = some variableText ∧
      Path.ofText? variableText = .ok c.variablePath ∧
      Comparison.operatorField? fields = some (op, literal) ∧ c.operator = op ∧
      Operand.ofLiteral? op literal = some c.operand := by
  unfold Comparison.ofFields at h
  cases hvariable : (Entries.get? "Variable" fields).bind Json.string? with
  | none =>
    rw [hvariable] at h
    cases h
  | some variableText =>
    simp only [hvariable, Path.parse] at h
    cases hpath : Path.ofText? variableText with
    | error fault =>
      rw [hpath] at h
      cases h
    | ok path =>
      simp only [hpath, Except.mapError] at h
      split at h
      · cases h
      · next op literal hfield =>
        split at h
        · cases h
        · next operand hoperand =>
          cases h
          exact ⟨variableText, op, literal, rfl, hpath, hfield, rfl, hoperand⟩

/-- A comparison that was read holds where its fields say so. -/
theorem comparison_eq {fields : List (String × Json)} {c : Comparison}
    (h : Comparison.ofFields fields = .ok c) : comparison input fields = c.holds input := by
  obtain ⟨variableText, op, literal, hvariable, hpath, hfield, hop, hoperand⟩ :=
    exists_of_comparison_ofFields h
  have hjudges (actual : Json) := Operator.judges_eq actual hoperand
  simp only [comparison, hvariable, hfield, firstMatch?, hpath, Comparison.holds,
    expression_of_ofText? hpath, hop, hjudges]
  cases c.variablePath.first? input <;> rfl

/-- Reading the tree of a rule first, or those of a list, makes no difference. -/
theorem reading_eq :
    (∀ fields c, Condition.ofFields fields = .ok c → holds input fields = c.holds input) ∧
      ∀ items conditions, Condition.ofItems items = .ok conditions →
        allHold input items = Condition.allHold input conditions ∧
          anyHolds input items = Condition.anyHolds input conditions := by
  apply Condition.read_induct
  case all =>
    intro fields x xs conditions hAnd ih
    rw [holds_eq_match, hAnd, Condition.holds]
    exact ih.1
  case any =>
    intro fields x xs conditions hAnd hOr ih
    rw [holds_eq_match, hAnd, hOr, Condition.holds]
    exact ih.2
  case not =>
    intro fields inner condition hAnd hOr hNot ih
    rw [holds_eq_match, hAnd, hOr, hNot, Condition.holds]
    exact congrArg (Except.map _) ih
  case leaf =>
    intro fields c hAnd hOr hNot hcomparison
    rw [holds_eq_match, hAnd, hOr, hNot, Condition.holds]
    exact comparison_eq input hcomparison
  case nil => simp only [allHold, anyHolds, Condition.allHold, Condition.anyHolds, and_self]
  case cons =>
    intro fields rest condition conditions ih ihrest
    rw [allHold, anyHolds, Condition.allHold, Condition.anyHolds, ih, ihrest.1, ihrest.2]
    exact ⟨rfl, rfl⟩

/-- A list of rules that was read leads where the trees of its rules lead. -/
theorem target_eq {fallback : Option String} {index : Nat} {choices : List Json}
    {rules : List (Condition × String)} (h : ChoiceRules.readRules index choices = .ok rules) :
    target input fallback choices = (do
      match ← Condition.firstTarget? input rules with
      | some next => return next
      | none => target input fallback []) := by
  induction choices generalizing index rules with
  | nil =>
    cases h
    rfl
  | cons v rest ih =>
    obtain ⟨⟨condition, next⟩, hrule, h⟩ := exists_of_bind_eq_ok h
    obtain ⟨others, hothers, h⟩ := exists_of_bind_eq_ok h
    cases h
    cases v with
    | object fields =>
      unfold ChoiceRules.readRule at hrule
      cases hnext : (Entries.get? "Next" fields).bind Json.string? with
      | none =>
        simp only [hnext] at hrule
        cases hrule
      | some found =>
        simp only [hnext] at hrule
        obtain ⟨read, hread, heq⟩ := exists_of_map_eq_ok hrule
        cases heq
        simp only [target, hnext, ih hothers, Condition.firstTarget?,
          (reading_eq input).1 fields condition hread]
        cases condition.holds input with
        | error error => rfl
        | ok isTrue => cases isTrue <;> rfl
    | null => cases hrule
    | bool b => cases hrule
    | number n => cases hrule
    | string s => cases hrule
    | array items => cases hrule

end ChoiceReading

end Workflow
