import Mathlib.Data.List.Forall2
import Workflow.Proofs.Choice.Compilation
import Workflow.Proofs.Table

/-!
# The form of rules

A rule is an object, and its condition is taken from one of its fields: the array of a combination,
the object of a negation or the literal of a comparison. Which field that is can be asked in two
ways. The compiler goes by an order of precedence; a reader of the document expects that there is
just one field to choose from.

* **Combinators** (`Combinator`): what `And` and `Or` have in common.
* **Fields** (`RuleObject.leading?`, `RuleObject.only?`): the field that comes first in the order of
  precedence, and the only one that states a condition. The only one comes first
  (`RuleObject.leading?_of_only?`).
* **Form** (`RuleObject.HasForm`, `RuleObject.IsRule`): what a rule must have in this field, and its
  parts in theirs, whichever way the fields are chosen.
* **Reading** (`RuleObject.hasForm_of_ofFields`): what is read has the form, with the fields of
  precedence.
* **Lists** (`ChoiceRules.Reads`, `ChoiceRules.compile_eq_ok_iff`): a list is compiled rule by rule.
-/

namespace Workflow

/-- If every item of a list is related to something, the list is to a list. -/
theorem exists_forall₂_iff {α β : Type} {r : α → β → Prop} {items : List α} :
    (∃ others, List.Forall₂ r items others) ↔ ∀ item ∈ items, ∃ other, r item other := by
  induction items with
  | nil => simp
  | cons item rest ih =>
    rw [List.forall_mem_cons, ← ih]
    constructor
    · rintro ⟨others, h⟩
      cases h with
      | cons hitem hrest => exact ⟨⟨_, hitem⟩, _, hrest⟩
    · rintro ⟨⟨other, hitem⟩, others, hrest⟩
      exact ⟨other :: others, .cons hitem hrest⟩

/-- A path is read as it is, apart from the words of the error. -/
theorem Path.ofText?_of_parse {expression : String} {path : Path}
    (h : Path.parse expression = .ok path) : Path.ofText? expression = .ok path := by
  unfold Path.parse at h
  cases hread : Path.ofText? expression with
  | error fault =>
    rw [hread] at h
    cases h
  | ok found =>
    rw [hread] at h
    cases h
    rfl

/-- A field holds a text if it is a string. -/
theorem Entries.get?_bind_string?_eq_some_iff {name text : String}
    {fields : List (String × Json)} :
    (Entries.get? name fields).bind Json.string? = some text ↔
      Entries.get? name fields = some (.string text) := by
  cases Entries.get? name fields with
  | none => simp
  | some v => cases v <;> simp [Json.string?]

namespace Operator

/-- The literals that an operator can be given. -/
def Takes : Operator → Json → Prop
  | booleanEquals, v => ∃ b, v = .bool b
  | numeric _, v => ∃ n, v = .number n
  | string _, v => ∃ s, v = .string s
  | timestamp _, v => ∃ s moment, v = .string s ∧ Moment.ofRfc3339? s = some moment

/-- An operator takes a literal if and only if the literal is read as an operand of it. -/
theorem takes_iff (op : Operator) (literal : Json) :
    op.Takes literal ↔ ∃ operand, Operand.ofLiteral? op literal = some operand := by
  cases op <;> cases literal <;>
    simp [Takes, Operand.ofLiteral?, Json.bool?, Json.double?, Json.string?]

/-- A name is read as an operator if and only if it is the name of that operator. -/
theorem ofName?_eq_some_iff {name : String} {op : Operator} :
    ofName? name = some op ↔ op.name = name := by
  constructor
  · intro h
    simpa using List.find?_some h
  · rintro rfl
    exact ofName?_name op

/-- Different operators have different names. -/
theorem name_injective : Function.Injective name := by
  intro op other h
  have heq := ofName?_eq_some_iff.mpr h
  rw [ofName?_name] at heq
  exact (Option.some.inj heq).symm

/-- The list of all operators misses none. -/
theorem mem_all (op : Operator) : op ∈ all := by
  rcases op with _ | r | r | r
  · decide
  all_goals cases r <;> decide

/-- No combinator is named like an operator. -/
theorem name_notMem (op : Operator) : op.name ∉ ["And", "Or", "Not"] := by
  rcases op with _ | r | r | r
  · decide
  all_goals cases r <;> decide

end Operator

/-- A combination of rules: all of them have to hold, or one. -/
inductive Combinator where
  | all
  | any

namespace Combinator

/-- The name of a combinator. -/
def key : Combinator → String
  | all => "And"
  | any => "Or"

/-- What a combination is read as. -/
def condition : Combinator → List Condition → Condition
  | all => .all
  | any => .any

/-- The node of a combination. -/
def node : Combinator → List Nat → ConditionNode
  | all => .all
  | any => .any

/-- A combination is entered behind its parts. -/
theorem place_condition (k : Combinator) (conditions : List Condition)
    (nodes : List ConditionNode) :
    ((k.condition conditions).place nodes).1 =
      (Condition.placeAll conditions nodes).1 ++
        [k.node (Condition.placeAll conditions nodes).2] := by
  cases k <;> rfl

/-- The name of a combinator is not that of an operator. -/
theorem key_ne_operator (k : Combinator) (op : Operator) : k.key ≠ op.name := by
  intro h
  have hname := op.name_notMem
  rw [← h] at hname
  cases k <;> simp [key] at hname

end Combinator

/-! ## The form of a rule -/

namespace RuleObject

/-- The names under which a rule states a condition. -/
def conditionKeys : List String := ["And", "Or", "Not"] ++ Operator.all.map Operator.name

/-- The fields of a rule that state a condition. -/
def conditions (fields : List (String × Json)) : List (String × Json) :=
  fields.filter fun (key, _) => key ∈ conditionKeys

/-- The field of a name. -/
def field? (key : String) (fields : List (String × Json)) : Option (String × Json) :=
  (Entries.get? key fields).map fun v => (key, v)

/-- The field that the condition of a rule is taken from: a combinator before an operator, `And`
before `Or` before `Not`, and of several operators the first. -/
def leading? (fields : List (String × Json)) : Option (String × Json) :=
  (field? "And" fields).or <| (field? "Or" fields).or <| (field? "Not" fields).or <|
    (Comparison.operatorField? fields).map fun (op, literal) => (op.name, literal)

/-- The one field of a rule that states a condition, if there is just one. -/
def only? (fields : List (String × Json)) : Option (String × Json) :=
  match conditions fields with
  | [field] => some field
  | _ => none

/-- Whether a rule has the required form at every level, where `select` gives the field that its
condition is taken from. -/
inductive HasForm (select : List (String × Json) → Option (String × Json)) :
    List (String × Json) → Prop
  | combination {fields : List (String × Json)} {parts : List (List (String × Json))}
      {k : Combinator} (selected : select fields = some (k.key, .array (parts.map .object)))
      (nonempty : parts ≠ []) (each : ∀ part ∈ parts, HasForm select part) : HasForm select fields
  | negation {fields part : List (String × Json)}
      (selected : select fields = some ("Not", .object part)) (form : HasForm select part) :
      HasForm select fields
  | comparison {fields : List (String × Json)} {op : Operator} {literal : Json}
      {expression : String} {path : Path}
      (selected : select fields = some (op.name, literal))
      (variableText : Entries.get? "Variable" fields = some (.string expression))
      (parsed : Path.parse expression = .ok path) (takes : op.Takes literal) :
      HasForm select fields

/-- Whether a rule of a list has the required form: it also has a target. -/
def IsRule (select : List (String × Json) → Option (String × Json)) (v : Json) : Prop :=
  ∃ fields next, v = .object fields ∧ Entries.get? "Next" fields = some (.string next) ∧
    HasForm select fields

/-! ### The field that counts -/

section leading

variable {fields : List (String × Json)} {v literal : Json} {op : Operator}

/-- The field `And` leads wherever it stands. -/
theorem leading?_and (h : Entries.get? "And" fields = some v) :
    leading? fields = some ("And", v) := by
  simp [leading?, field?, h]

/-- The field `Or` leads where there is no `And`. -/
theorem leading?_or (hAnd : Entries.get? "And" fields = none)
    (h : Entries.get? "Or" fields = some v) : leading? fields = some ("Or", v) := by
  simp [leading?, field?, hAnd, h]

/-- The field `Not` leads where there is neither `And` nor `Or`. -/
theorem leading?_not (hAnd : Entries.get? "And" fields = none)
    (hOr : Entries.get? "Or" fields = none) (h : Entries.get? "Not" fields = some v) :
    leading? fields = some ("Not", v) := by
  simp [leading?, field?, hAnd, hOr, h]

/-- The first operator leads where there is no combinator. -/
theorem leading?_operator (hAnd : Entries.get? "And" fields = none)
    (hOr : Entries.get? "Or" fields = none) (hNot : Entries.get? "Not" fields = none)
    (h : Comparison.operatorField? fields = some (op, literal)) :
    leading? fields = some (op.name, literal) := by
  simp [leading?, field?, hAnd, hOr, hNot, h]

/-- The field that the condition of a rule is taken from is `And`, `Or`, `Not` or the first
operator, those before it being absent. -/
theorem leading?_cases {key : String} (h : leading? fields = some (key, v)) :
    (key = "And" ∧ Entries.get? "And" fields = some v) ∨
      (key = "Or" ∧ Entries.get? "And" fields = none ∧ Entries.get? "Or" fields = some v) ∨
      (key = "Not" ∧ Entries.get? "And" fields = none ∧ Entries.get? "Or" fields = none ∧
        Entries.get? "Not" fields = some v) ∨
      (∃ op, key = op.name ∧ Entries.get? "And" fields = none ∧
        Entries.get? "Or" fields = none ∧ Entries.get? "Not" fields = none ∧
        Comparison.operatorField? fields = some (op, v)) := by
  unfold leading? field? at h
  cases hAnd : Entries.get? "And" fields with
  | some w => simp_all
  | none =>
    cases hOr : Entries.get? "Or" fields with
    | some w => simp_all
    | none =>
      cases hNot : Entries.get? "Not" fields with
      | some w => simp_all
      | none =>
        simp only [hAnd, hOr, hNot, Option.map_none, Option.none_or, Option.map_eq_some_iff] at h
        obtain ⟨⟨op, literal⟩, hfield, heq⟩ := h
        cases heq
        exact .inr (.inr (.inr ⟨op, rfl, rfl, rfl, rfl, hfield⟩))

/-- If `Not` leads, there is neither `And` nor `Or`. -/
theorem get?_of_leading?_not (h : leading? fields = some ("Not", v)) :
    Entries.get? "And" fields = none ∧ Entries.get? "Or" fields = none ∧
      Entries.get? "Not" fields = some v := by
  rcases leading?_cases h with ⟨h, -⟩ | ⟨h, -⟩ | ⟨-, h⟩ | ⟨op, h, -⟩
  · simp at h
  · simp at h
  · exact h
  · exact absurd (h ▸ op.name_notMem) (by simp)

/-- If an operator leads, there is no combinator, and it is the first operator. -/
theorem get?_of_leading?_operator (h : leading? fields = some (op.name, literal)) :
    Entries.get? "And" fields = none ∧ Entries.get? "Or" fields = none ∧
      Entries.get? "Not" fields = none ∧
      Comparison.operatorField? fields = some (op, literal) := by
  have hname := op.name_notMem
  rcases leading?_cases h with ⟨h, -⟩ | ⟨h, -⟩ | ⟨h, -⟩ | ⟨found, h, hfound⟩
  · simp [h] at hname
  · simp [h] at hname
  · simp [h] at hname
  · obtain rfl := Operator.name_injective h
    exact hfound

/-- The field that counts states a condition. -/
theorem mem_conditions_of_leading? {key : String} (hleading : leading? fields = some (key, v)) :
    (key, v) ∈ conditions fields := by
  suffices (key, v) ∈ fields ∧ key ∈ conditionKeys by simpa [conditions] using this
  rcases leading?_cases hleading with
    ⟨rfl, h⟩ | ⟨rfl, -, h⟩ | ⟨rfl, -, -, h⟩ | ⟨op, rfl, -, -, -, h⟩
  · exact ⟨Entries.mem_of_get? h, by simp [conditionKeys]⟩
  · exact ⟨Entries.mem_of_get? h, by simp [conditionKeys]⟩
  · exact ⟨Entries.mem_of_get? h, by simp [conditionKeys]⟩
  · obtain ⟨⟨name, literal⟩, hmem, hname⟩ := List.exists_of_findSome?_eq_some h
    simp only [Option.map_eq_some_iff, Prod.mk.injEq] at hname
    obtain ⟨found, hfound, rfl, rfl⟩ := hname
    rw [Operator.ofName?_eq_some_iff.mp hfound]
    refine ⟨hmem, List.mem_append_right _ ?_⟩
    rw [← Operator.ofName?_eq_some_iff.mp hfound]
    exact List.mem_map_of_mem found.mem_all

end leading

/-! ### The only condition -/

section only

variable {fields before after : List (String × Json)} {key : String} {v : Json}

/-- A condition is the only one if no other field states one. -/
theorem only?_eq_some_iff (hkey : key ∈ conditionKeys) :
    only? (before ++ (key, v) :: after) = some (key, v) ↔
      conditions before = [] ∧ conditions after = [] := by
  have hconditions : conditions (before ++ (key, v) :: after) =
      conditions before ++ (key, v) :: conditions after := by
    simp [conditions, hkey]
  rw [only?, hconditions]
  cases conditions before with
  | nil =>
    cases conditions after with
    | nil => simp
    | cons other rest => simp
  | cons other rest => cases rest <;> simp

/-- Of fields that state one condition at each level, any condition stated is the only one. -/
theorem HasForm.only?_eq (h : HasForm only? fields) (hstated : (key, v) ∈ conditions fields) :
    only? fields = some (key, v) := by
  obtain ⟨field, hselected⟩ : ∃ field, only? fields = some field := by
    cases h with
    | combination selected => exact ⟨_, selected⟩
    | negation selected => exact ⟨_, selected⟩
    | comparison selected => exact ⟨_, selected⟩
  unfold only? at hselected ⊢
  split at hselected
  · next other hother =>
    rw [hother] at hstated
    rw [List.mem_singleton.mp hstated]
  · cases hselected

end only

/-- Without a field that counts no condition is stated. -/
theorem conditions_eq_nil_of_leading? {fields : List (String × Json)}
    (h : leading? fields = none) : conditions fields = [] := by
  simp only [leading?, field?, Option.or_eq_none_iff, Option.map_eq_none_iff, Entries.get?,
    List.lookup_eq_none_iff, Comparison.operatorField?, List.findSome?_eq_none_iff] at h
  obtain ⟨hAnd, hOr, hNot, hOperator⟩ := h
  rw [conditions, List.filter_eq_nil_iff]
  rintro ⟨key, v⟩ hmem hkey
  simp only [conditionKeys, List.mem_append, List.mem_cons, List.not_mem_nil, or_false,
    List.mem_map, decide_eq_true_eq] at hkey
  rcases hkey with (rfl | rfl | rfl) | ⟨op, -, rfl⟩
  · simpa using hAnd _ hmem
  · simpa using hOr _ hmem
  · simpa using hNot _ hmem
  · simpa [Operator.ofName?_name] using hOperator _ hmem

/-- The only condition of a rule is the one that counts. -/
theorem leading?_of_only? {fields : List (String × Json)} {field : String × Json}
    (h : only? fields = some field) : leading? fields = some field := by
  have hconditions : conditions fields = [field] := by
    unfold only? at h
    split at h
    · next found hfound => rw [hfound, Option.some.inj h]
    · cases h
  rcases hleading : leading? fields with _ | ⟨key, v⟩
  · rw [conditions_eq_nil_of_leading? hleading] at hconditions
    cases hconditions
  · have hmem := mem_conditions_of_leading? hleading
    rw [hconditions] at hmem
    rw [List.mem_singleton.mp hmem]

/-- A rule with a single condition at every level has the required form. -/
theorem HasForm.leading {fields : List (String × Json)} (h : HasForm only? fields) :
    HasForm leading? fields := by
  induction h with
  | combination selected nonempty _ ih =>
    exact .combination (leading?_of_only? selected) nonempty ih
  | negation selected _ ih => exact .negation (leading?_of_only? selected) ih
  | comparison selected variableText parsed takes =>
    exact .comparison (leading?_of_only? selected) variableText parsed takes

/-! ### What a rule of a form has -/

section shape

variable {select : List (String × Json) → Option (String × Json)}
  {fields part : List (String × Json)}

/-- Where `And` or `Or` is selected, the fields have the form if it combines at least one part and
all its parts have the form. -/
theorem hasForm_iff_of_combination {k : Combinator} {parts : List (List (String × Json))}
    (h : select fields = some (k.key, .array (parts.map .object))) :
    HasForm select fields ↔ parts ≠ [] ∧ ∀ part ∈ parts, HasForm select part := by
  refine ⟨fun form => ?_, fun ⟨nonempty, each⟩ => .combination h nonempty each⟩
  cases form with
  | combination selected nonempty each =>
    rw [h] at selected
    simp only [Option.some.injEq, Prod.mk.injEq, Json.array.injEq] at selected
    have hinjective : Function.Injective Json.object := fun _ _ => Json.object.inj
    rw [List.map_injective_iff.mpr hinjective selected.2]
    exact ⟨nonempty, each⟩
  | negation selected => simp [h] at selected
  | @comparison _ op _ _ _ selected =>
    rw [h] at selected
    simp only [Option.some.injEq, Prod.mk.injEq] at selected
    exact absurd selected.1 (k.key_ne_operator op)

/-- Where `Not` is selected, the fields have the form if the part it negates has. -/
theorem hasForm_iff_of_negation (h : select fields = some ("Not", .object part)) :
    HasForm select fields ↔ HasForm select part := by
  refine ⟨fun form => ?_, .negation h⟩
  cases form with
  | combination selected => simp [h] at selected
  | negation selected form =>
    rw [h] at selected
    cases selected
    exact form
  | @comparison _ op _ _ _ selected =>
    rw [h] at selected
    have hname := op.name_notMem
    simp only [Option.some.injEq, Prod.mk.injEq] at selected
    rw [← selected.1] at hname
    simp at hname

end shape

/-! ### Rules that are read -/

/-- A rule that is read has the required form. -/
theorem hasForm_of_ofFields :
    (∀ fields c, Condition.ofFields fields = .ok c → HasForm leading? fields) ∧
      ∀ items conditions, Condition.ofItems items = .ok conditions →
        ∃ parts : List (List (String × Json)), items = parts.map .object ∧
          ∀ part ∈ parts, HasForm leading? part := by
  apply Condition.read_induct
  case all =>
    rintro fields x xs conditions hAnd ⟨parts, hparts, each⟩
    rw [hparts] at hAnd
    refine .combination (k := .all) (leading?_and hAnd) ?_ each
    rintro rfl
    cases hparts
  case any =>
    rintro fields x xs conditions hAnd hOr ⟨parts, hparts, each⟩
    rw [hparts] at hOr
    refine .combination (k := .any) (leading?_or hAnd hOr) ?_ each
    rintro rfl
    cases hparts
  case not =>
    intro fields inner condition hAnd hOr hNot ih
    exact .negation (leading?_not hAnd hOr hNot) ih
  case leaf =>
    intro fields comparison hAnd hOr hNot hcomparison
    obtain ⟨expression, op, literal, hvariable, hpath, hfield, -, hoperand⟩ :=
      ChoiceReading.exists_of_comparison_ofFields hcomparison
    have hparsed : Path.parse expression = .ok comparison.variablePath := by
      rw [Path.parse, hpath]
      rfl
    exact .comparison (leading?_operator hAnd hOr hNot hfield)
      (Entries.get?_bind_string?_eq_some_iff.mp hvariable) hparsed
      ((op.takes_iff literal).mpr ⟨_, hoperand⟩)
  case nil => exact ⟨[], rfl, by simp⟩
  case cons =>
    rintro fields rest condition conditions ih ⟨parts, rfl, each⟩
    exact ⟨fields :: parts, rfl, List.forall_mem_cons.mpr ⟨ih, each⟩⟩

section combinations

variable {fields : List (String × Json)}

/-- A rule that goes by a combination is read as that of its parts. -/
theorem ofFields_of_combination {k : Combinator} {parts : List (List (String × Json))}
    (h : leading? fields = some (k.key, .array (parts.map .object))) (hne : parts ≠ []) :
    Condition.ofFields fields = (Condition.ofItems (parts.map .object)).map k.condition := by
  obtain ⟨x, xs, rfl⟩ := List.exists_cons_of_ne_nil hne
  rw [List.map_cons] at h ⊢
  rcases leading?_cases h with ⟨hkey, hAnd⟩ | ⟨hkey, hAnd, hOr⟩ | ⟨hkey, -⟩ | ⟨op, hkey, -⟩
  · cases k with
    | all => rw [Condition.ofFields_eq, hAnd, Combinator.condition]
    | any => simp [Combinator.key] at hkey
  · cases k with
    | all => simp [Combinator.key] at hkey
    | any => rw [Condition.ofFields_eq, hAnd, hOr, Combinator.condition]
  · cases k <;> simp [Combinator.key] at hkey
  · exact absurd hkey (k.key_ne_operator op)

/-- Where `Not` leads, the condition read is the negation of the one read from its part. -/
theorem ofFields_of_not {part : List (String × Json)}
    (h : leading? fields = some ("Not", .object part)) :
    Condition.ofFields fields = (Condition.ofFields part).map .not := by
  obtain ⟨hAnd, hOr, hNot⟩ := get?_of_leading?_not h
  rw [Condition.ofFields_eq, hAnd, hOr, hNot]

/-- Where an operator leads, the condition read compares the value at the path of `Variable` with
its operand. -/
theorem ofFields_of_operator {op : Operator} {literal : Json} {operand : Operand}
    {expression : String} {path : Path} (h : leading? fields = some (op.name, literal))
    (hvariable : Entries.get? "Variable" fields = some (.string expression))
    (hparsed : Path.parse expression = .ok path)
    (hoperand : Operand.ofLiteral? op literal = some operand) :
    Condition.ofFields fields = .ok (.leaf ⟨path, op, operand⟩) := by
  obtain ⟨hAnd, hOr, hNot, hfield⟩ := get?_of_leading?_operator h
  have htext := Entries.get?_bind_string?_eq_some_iff.mpr hvariable
  rw [Condition.ofFields_eq, hAnd, hOr, hNot]
  simp only [Comparison.ofFields, htext, hparsed, hfield, hoperand]
  rfl

end combinations

end RuleObject

namespace ChoiceRules

/-! ### Lists of rules -/

/-- Whether a rule of a list is read as a condition and a target. -/
def Reads (v : Json) (rule : Condition × String) : Prop :=
  ∃ fields, v = .object fields ∧ Entries.get? "Next" fields = some (.string rule.2) ∧
    Condition.ofFields fields = .ok rule.1

/-- A rule is accepted as a condition and a state if and only if its document says so. -/
theorem readRule_eq_ok_iff {index : Nat} {v : Json} {rule : Condition × String} :
    readRule index v = .ok rule ↔ Reads v rule := by
  obtain ⟨c, next⟩ := rule
  constructor
  · intro h
    cases v with
    | object fields =>
      rw [readRule] at h
      split at h
      · cases h
      · next found hfound =>
        obtain ⟨read, hread, heq⟩ := exists_of_map_eq_ok h
        cases heq
        exact ⟨fields, rfl, Entries.get?_bind_string?_eq_some_iff.mp hfound, hread⟩
    | null | bool | number | string | array => cases h
  · rintro ⟨fields, rfl, hnext, hread⟩
    rw [readRule, Entries.get?_bind_string?_eq_some_iff.mpr hnext]
    simp only [hread]
    rfl

/-- Whether a list of rules is read does not depend on where the count begins. -/
theorem readRules_eq_ok_iff {index : Nat} {choices : List Json}
    {read : List (Condition × String)} :
    readRules index choices = .ok read ↔ List.Forall₂ Reads choices read := by
  induction choices generalizing index read with
  | nil =>
    rw [List.forall₂_nil_left_iff]
    exact ⟨fun h => (Except.ok.inj h).symm, fun h => h ▸ rfl⟩
  | cons v rest ih =>
    constructor
    · intro h
      obtain ⟨rule, hrule, h⟩ := exists_of_bind_eq_ok h
      obtain ⟨rules, hrules, h⟩ := exists_of_bind_eq_ok h
      cases h
      exact .cons (readRule_eq_ok_iff.mp hrule) (ih.mp hrules)
    · intro h
      cases h with
      | cons hrule hrules =>
        rw [readRules, readRule_eq_ok_iff.mpr hrule, ih.mpr hrules]
        rfl

/-- A list of rules is compiled if and only if each of them is accepted, and the arena is made by
placing what they are read as, one after the other. -/
theorem compile_eq_ok_iff {choices : List Json} {fallback : Option String} {rules : ChoiceRules} :
    compile choices fallback = .ok rules ↔ ∃ read, List.Forall₂ Reads choices read ∧
      rules = ⟨(placeRules read []).1, (placeRules read []).2, fallback⟩ := by
  unfold compile
  constructor
  · intro h
    cases hread : readRules 0 choices with
    | error fault =>
      rw [hread] at h
      cases h
    | ok read =>
      rw [hread] at h
      exact ⟨read, readRules_eq_ok_iff.mp hread, (Except.ok.inj h).symm⟩
  · rintro ⟨read, hread, rfl⟩
    rw [readRules_eq_ok_iff.mpr hread]

end ChoiceRules

end Workflow
