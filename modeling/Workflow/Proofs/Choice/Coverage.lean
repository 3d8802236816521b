import Mathlib.Tactic.Tauto
import Workflow.Proofs.Choice.Form

/-!
# Which rules are accepted, and which of their conditions count

A document can state more conditions than its rules go by: an object with two comparisons, or with a
comparison beside a combination, is accepted like any other, and only one of its fields counts.

* **Conditions** (`RuleObject.statedAmong`, `RuleObject.countedAmong`): those that a document
  states, at every level, and those that its rules go by, each behind those of its parts.
* **Nodes** (`RuleObject.StandsFor`, `RuleObject.Represents`): what a node stands for, and nodes
  that stand for all that counts.
* **Accepted rules** (`RuleObject.HasForm.isRead`, `ChoiceRules.exists_compile_iff`): every rule of
  the form is read, and its nodes stand for the conditions it goes by.
* **Coverage** (`ChoiceRules.compile_represents`): the nodes of accepted rules stand for all
  conditions of the document just if no object states two.
* **A range** (`ChoiceRules.compile_rangeFields`): an accepted rule that loses its upper bound.
-/

namespace Workflow

namespace RuleObject

/-! ## Conditions of a document -/

/-- What a rule goes by is smaller than the rule. -/
theorem sizeOf_lt_of_leading? {fields : List (String × Json)} {key : String} {v : Json}
    (h : leading? fields = some (key, v)) : sizeOf v < sizeOf fields := by
  have hmem : (key, v) ∈ fields := List.mem_of_mem_filter (mem_conditions_of_leading? h)
  have hlt := List.sizeOf_lt_of_mem hmem
  simp only [Prod.mk.sizeOf_spec] at hlt
  omega

/-- A field of a rule that states a condition, with all fields of the rule. -/
structure Statement where
  fields : List (String × Json)
  key : String
  value : Json

mutual

/-- The conditions that a rule states in some of its fields, each behind those of its parts. -/
def statedBy (fields : List (String × Json)) : List (String × Json) → List Statement
  | [] => []
  | (key, value) :: rest =>
    (if key ∈ conditionKeys then statedBelow key value ++ [⟨fields, key, value⟩] else []) ++
      statedBy fields rest

/-- The conditions that the parts of a combination state. -/
def statedBelow (key : String) : Json → List Statement
  | .array items => if key = "And" ∨ key = "Or" then statedAmong items else []
  | .object inner => if key = "Not" then statedBy inner inner else []
  | _ => []

/-- The conditions that the rules of a list state. -/
def statedAmong : List Json → List Statement
  | [] => []
  | v :: rest => statedIn v ++ statedAmong rest

/-- The conditions that a rule states. -/
def statedIn : Json → List Statement
  | .object fields => statedBy fields fields
  | _ => []

end

mutual

/-- The conditions that a rule goes by, each behind those of its parts. -/
def countedBy (fields : List (String × Json)) : List Statement :=
  match _hleading : leading? fields with
  | some (key, value) => countedBelow key value ++ [⟨fields, key, value⟩]
  | none => []
termination_by sizeOf fields
decreasing_by exact sizeOf_lt_of_leading? _hleading

/-- The conditions that the parts of a combination go by. -/
def countedBelow (key : String) : Json → List Statement
  | .array items => if key = "And" ∨ key = "Or" then countedAmong items else []
  | .object inner => if key = "Not" then countedBy inner else []
  | _ => []
termination_by v => sizeOf v

/-- The conditions that the rules of a list go by. -/
def countedAmong : List Json → List Statement
  | [] => []
  | v :: rest => countedIn v ++ countedAmong rest
termination_by items => sizeOf items

/-- The conditions that a rule goes by. -/
def countedIn : Json → List Statement
  | .object fields => countedBy fields
  | _ => []
termination_by v => sizeOf v

end

/-! ### Below a field -/

/-- The conditions in the parts of a combination are those of the rules in its list. -/
theorem below_of_combination (k : Combinator) (items : List Json) :
    countedBelow k.key (.array items) = countedAmong items ∧
      statedBelow k.key (.array items) = statedAmong items := by
  cases k <;> simp [countedBelow, statedBelow, Combinator.key]

/-- The conditions in the part of a negation are those of the rule in it. -/
theorem below_of_negation (inner : List (String × Json)) :
    countedBelow "Not" (.object inner) = countedBy inner ∧
      statedBelow "Not" (.object inner) = statedBy inner inner := by
  simp [countedBelow, statedBelow]

/-- A literal has no conditions. -/
theorem below_of_operator (op : Operator) (literal : Json) :
    countedBelow op.name literal = [] ∧ statedBelow op.name literal = [] := by
  have := op.name_notMem
  cases literal <;> simp_all [countedBelow, statedBelow]

/-! ### The conditions of a rule -/

/-- The conditions that a rule goes by are those in the parts of the field that leads, and this
field. -/
theorem countedBy_of_leading? {fields : List (String × Json)} {key : String} {v : Json}
    (h : leading? fields = some (key, v)) :
    countedBy fields = countedBelow key v ++ [⟨fields, key, v⟩] := by
  rw [countedBy]
  split
  · next hfound =>
    rw [h] at hfound
    cases hfound
    rfl
  · next hnone =>
    rw [h] at hnone
    cases hnone

/-- The conditions in some fields and in further fields are stated one after the other. -/
theorem statedBy_append (fields before after : List (String × Json)) :
    statedBy fields (before ++ after) = statedBy fields before ++ statedBy fields after := by
  induction before with
  | nil => rfl
  | cons field rest ih =>
    obtain ⟨key, v⟩ := field
    rw [List.cons_append, statedBy, statedBy, ih, List.append_assoc]

/-- Fields that state nothing have no conditions. -/
theorem statedBy_eq_nil_iff {fields part : List (String × Json)} :
    statedBy fields part = [] ↔ conditions part = [] := by
  induction part with
  | nil => simp [statedBy, conditions]
  | cons field rest ih =>
    obtain ⟨key, v⟩ := field
    unfold conditions at ih ⊢
    by_cases hkey : key ∈ conditionKeys <;> simp [statedBy, hkey, ih]

/-! ## What the nodes stand for -/

/-- Whether a node stands for a condition that a document states. -/
def StandsFor : ConditionNode → Statement → Prop
  | .leaf c, s =>
    s.key = c.operator.name ∧ Operand.ofLiteral? c.operator s.value = some c.operand ∧
      Entries.get? "Variable" s.fields = some (.string c.variablePath.expression) ∧
      Path.parse c.variablePath.expression = .ok c.variablePath
  | .all children, s =>
    s.key = "And" ∧ ∃ items, s.value = .array items ∧ children.length = items.length ∧ items ≠ []
  | .any children, s =>
    s.key = "Or" ∧ ∃ items, s.value = .array items ∧ children.length = items.length ∧ items ≠ []
  | .not _, s => s.key = "Not" ∧ ∃ inner, s.value = .object inner

/-- Whether nodes stand, one for one and in their order, for the conditions that count among those
that are stated. These are all of them just if `complete` is true. -/
structure Represents (nodes : List ConditionNode) (counted stated : List Statement)
    (complete : Prop) : Prop where
  stands : List.Forall₂ StandsFor nodes counted
  sublist : counted.Sublist stated
  complete_iff : counted = stated ↔ complete

/-- A node of a combination that stands for a condition has parts. -/
theorem StandsFor.parts_ne_nil {children : List Nat} {node : ConditionNode} {s : Statement}
    (h : StandsFor node s) (hnode : node = .all children ∨ node = .any children) :
    children ≠ [] := by
  rcases hnode with rfl | rfl
  all_goals
    obtain ⟨-, items, -, hlength, hne⟩ := h
    exact List.length_pos_iff.mp (hlength ▸ List.length_pos_iff.mpr hne)

section represents

variable {nodes others : List ConditionNode} {counted stated more further : List Statement}
  {p q : Prop}

/-- No nodes stand for no conditions, which are all that are stated if none is. -/
theorem represents_nothing (stated : List Statement) : Represents [] [] stated (stated = []) where
  stands := .nil
  sublist := List.nil_sublist _
  complete_iff := eq_comm

/-- A node stands for the one condition that is stated, if it stands for it. -/
theorem represents_singleton {node : ConditionNode} {s : Statement} (h : StandsFor node s) :
    Represents [node] [s] [s] True where
  stands := .cons h .nil
  sublist := List.Sublist.refl _
  complete_iff := by simp

/-- Nodes and further nodes stand for the conditions of the ones and then of the others. -/
theorem Represents.append (h : Represents nodes counted stated p)
    (hothers : Represents others more further q) :
    Represents (nodes ++ others) (counted ++ more) (stated ++ further) (p ∧ q) where
  stands := List.rel_append h.stands hothers.stands
  sublist := h.sublist.append hothers.sublist
  complete_iff := by
    rw [← h.complete_iff, ← hothers.complete_iff]
    constructor
    · intro heq
      have hlength := congrArg List.length heq
      rw [List.length_append, List.length_append] at hlength
      have hle := h.sublist.length_le
      have hle' := hothers.sublist.length_le
      exact ⟨h.sublist.eq_of_length (by omega), hothers.sublist.eq_of_length (by omega)⟩
    · rintro ⟨heq, heq'⟩
      rw [heq, heq']

/-- Each of the nodes stands for some condition. -/
theorem Represents.exists_standsFor (h : Represents nodes counted stated p) {node : ConditionNode}
    (hnode : node ∈ nodes) : ∃ s, StandsFor node s := by
  obtain ⟨position, hlt, rfl⟩ := List.mem_iff_getElem.mp hnode
  exact ⟨_, h.stands.get hlt (h.stands.length_eq ▸ hlt)⟩

/-- What nodes stand for does not depend on how it is said that they stand for all. -/
theorem Represents.congr (h : Represents nodes counted stated p) (hpq : p ↔ q) :
    Represents nodes counted stated q :=
  ⟨h.stands, h.sublist, h.complete_iff.trans hpq⟩

/-- A field of a rule, with the conditions of its parts before it. -/
theorem Represents.within {fields : List (String × Json)} {key : String} {v : Json}
    {node : ConditionNode} (h : Represents nodes (countedBelow key v) (statedBelow key v) p)
    (hleading : leading? fields = some (key, v)) (hnode : StandsFor node ⟨fields, key, v⟩) :
    Represents (nodes ++ [node]) (countedBy fields) (statedBy fields fields)
      (only? fields = some (key, v) ∧ p) := by
  obtain ⟨hmem, hkey⟩ : (key, v) ∈ fields ∧ key ∈ conditionKeys := by
    simpa [conditions] using mem_conditions_of_leading? hleading
  obtain ⟨before, after, hfields⟩ := List.append_of_mem hmem
  have hsplit : statedBy fields (before ++ (key, v) :: after) = statedBy fields before ++
      ((statedBelow key v ++ [⟨fields, key, v⟩]) ++ statedBy fields after) := by
    rw [statedBy_append, statedBy, if_pos hkey]
  have hbefore := represents_nothing (statedBy fields before)
  have hafter := represents_nothing (statedBy fields after)
  have hfield := h.append (represents_singleton hnode)
  have := hbefore.append (hfield.append hafter)
  rw [List.nil_append, List.append_nil, List.nil_append, List.append_nil,
    ← countedBy_of_leading? hleading, ← hsplit, ← hfields] at this
  refine this.congr ?_
  rw [statedBy_eq_nil_iff, statedBy_eq_nil_iff]
  have honly : only? fields = some (key, v) ↔ conditions before = [] ∧ conditions after = [] :=
    hfields ▸ only?_eq_some_iff hkey
  rw [honly]
  tauto

end represents

/-! ## Rules of the required form -/

/-- A rule is read, and wherever its tree is entered, its nodes stand for what the rule states. -/
def IsRead (fields : List (String × Json)) : Prop :=
  ∃ c, Condition.ofFields fields = .ok c ∧ ∀ nodes, ∃ added, (c.place nodes).1 = nodes ++ added ∧
    Represents added (countedBy fields) (statedBy fields fields) (HasForm only? fields)

/-- The parts of a combination are read if each of them is, and wherever they are entered, their
nodes stand for what they state. -/
theorem exists_ofItems {parts : List (List (String × Json))} (each : ∀ part ∈ parts, IsRead part) :
    ∃ conditions, Condition.ofItems (parts.map .object) = .ok conditions ∧
      ∀ nodes, ∃ added, (Condition.placeAll conditions nodes).1 = nodes ++ added ∧
        (Condition.placeAll conditions nodes).2.length = parts.length ∧
        Represents added (countedAmong (parts.map .object)) (statedAmong (parts.map .object))
          (∀ part ∈ parts, HasForm only? part) := by
  induction parts with
  | nil =>
    refine ⟨[], by rw [List.map_nil, Condition.ofItems], fun nodes => ?_⟩
    refine ⟨[], (List.append_nil nodes).symm, rfl, ?_⟩
    rw [List.map_nil, countedAmong]
    exact (represents_nothing []).congr (by simp)
  | cons part rest ih =>
    obtain ⟨⟨c, hread, hplaced⟩, hrest⟩ := List.forall_mem_cons.mp each
    obtain ⟨conditions, hreadAll, hplacedAll⟩ := ih hrest
    refine ⟨c :: conditions, ?_, fun nodes => ?_⟩
    · rw [List.map_cons, Condition.ofItems, hread, hreadAll]
      rfl
    · obtain ⟨added, hadded, hrepresents⟩ := hplaced nodes
      obtain ⟨more, hmore, hlength, hrepresentsAll⟩ := hplacedAll (c.place nodes).1
      refine ⟨added ++ more, ?_, ?_, ?_⟩
      · simp only [Condition.placeAll]
        rw [hmore, hadded, List.append_assoc]
      · simp only [Condition.placeAll, List.length_cons, hlength]
      · rw [List.map_cons, countedAmong, countedIn]
        exact (hrepresents.append hrepresentsAll).congr List.forall_mem_cons.symm

variable {fields : List (String × Json)}

/-- A combination is read if its parts are. -/
theorem isRead_combination {k : Combinator} {parts : List (List (String × Json))}
    (selected : leading? fields = some (k.key, .array (parts.map .object))) (nonempty : parts ≠ [])
    (each : ∀ part ∈ parts, IsRead part) : IsRead fields := by
  obtain ⟨conditions, hitems, hplaced⟩ := exists_ofItems each
  refine ⟨k.condition conditions, ?_, fun nodes => ?_⟩
  · rw [ofFields_of_combination selected nonempty, hitems]
    rfl
  obtain ⟨added, hadded, hlength, hrepresents⟩ := hplaced nodes
  obtain ⟨hcounted, hstated⟩ := below_of_combination k (parts.map .object)
  rw [← hcounted, ← hstated] at hrepresents
  have hnode : StandsFor (k.node (Condition.placeAll conditions nodes).2)
      ⟨fields, k.key, .array (parts.map .object)⟩ := by
    have hitems : parts.map Json.object ≠ [] := by simpa using nonempty
    rw [← List.length_map Json.object] at hlength
    cases k
    · exact ⟨rfl, _, rfl, hlength, hitems⟩
    · exact ⟨rfl, _, rfl, hlength, hitems⟩
  refine ⟨added ++ [k.node _], by rw [k.place_condition, hadded, List.append_assoc], ?_⟩
  refine (hrepresents.within selected hnode).congr ⟨?_, fun h => ?_⟩
  · rintro ⟨honly, h⟩
    exact .combination honly nonempty h
  · have honly := h.only?_eq (mem_conditions_of_leading? selected)
    exact ⟨honly, ((hasForm_iff_of_combination honly).mp h).2⟩

/-- A rule of the required form is read. -/
theorem HasForm.isRead {fields : List (String × Json)} (h : HasForm leading? fields) :
    IsRead fields := by
  induction h with
  | combination selected nonempty _ ih => exact isRead_combination selected nonempty ih
  | @negation fields part selected form ih =>
    obtain ⟨c, hread, hplaced⟩ := ih
    refine ⟨.not c, by rw [ofFields_of_not selected, hread]; rfl, fun nodes => ?_⟩
    obtain ⟨added, hadded, hrepresents⟩ := hplaced nodes
    obtain ⟨hcounted, hstated⟩ := below_of_negation part
    rw [← hcounted, ← hstated] at hrepresents
    have hnode (child : Nat) : StandsFor (.not child) ⟨fields, "Not", .object part⟩ :=
      ⟨rfl, part, rfl⟩
    refine ⟨added ++ [.not (c.place nodes).2], ?_, ?_⟩
    · simp only [Condition.place, hadded, List.append_assoc]
    · refine (hrepresents.within selected (hnode _)).congr ⟨?_, fun h => ?_⟩
      · rintro ⟨honly, h⟩
        exact .negation honly h
      · have honly := h.only?_eq (mem_conditions_of_leading? selected)
        exact ⟨honly, (hasForm_iff_of_negation honly).mp h⟩
  | @comparison fields op literal expression path selected variableText parsed takes =>
    obtain ⟨operand, hoperand⟩ := (op.takes_iff literal).mp takes
    refine ⟨.leaf ⟨path, op, operand⟩,
      ofFields_of_operator selected variableText parsed hoperand, fun nodes => ?_⟩
    have hexpression : path.expression = expression :=
      ChoiceReading.expression_of_ofText? (Path.ofText?_of_parse parsed)
    have hnode : StandsFor (.leaf ⟨path, op, operand⟩) ⟨fields, op.name, literal⟩ := by
      refine ⟨rfl, hoperand, ?_, ?_⟩
      · rw [hexpression, variableText]
      · rw [hexpression, parsed]
    obtain ⟨hcounted, hstated⟩ := below_of_operator op literal
    have hrepresents : Represents [] (countedBelow op.name literal) (statedBelow op.name literal)
        (statedBelow op.name literal = []) := hcounted ▸ represents_nothing _
    refine ⟨[.leaf ⟨path, op, operand⟩], rfl, ?_⟩
    refine (hrepresents.within selected hnode).congr ⟨fun h => ?_, fun h => ?_⟩
    · exact .comparison h.1 variableText parsed takes
    · exact ⟨h.only?_eq (mem_conditions_of_leading? selected), hstated⟩

/-- A rule is read as a condition exactly if it has the required form at every level. -/
theorem exists_ofFields_iff (fields : List (String × Json)) :
    (∃ c, Condition.ofFields fields = .ok c) ↔ HasForm leading? fields := by
  refine ⟨fun ⟨c, hc⟩ => hasForm_of_ofFields.1 fields c hc, fun h => ?_⟩
  obtain ⟨c, hc, -⟩ := h.isRead
  exact ⟨c, hc⟩

end RuleObject

namespace ChoiceRules

open RuleObject

/-- A rule of a list is read exactly if it has the required form and a target. -/
theorem exists_reads_iff (v : Json) : (∃ rule, Reads v rule) ↔ IsRule leading? v := by
  constructor
  · rintro ⟨⟨c, next⟩, fields, rfl, hnext, hread⟩
    exact ⟨fields, next, rfl, hnext, hasForm_of_ofFields.1 fields c hread⟩
  · rintro ⟨fields, next, rfl, hnext, form⟩
    obtain ⟨c, hread⟩ := (exists_ofFields_iff fields).mpr form
    exact ⟨(c, next), fields, rfl, hnext, hread⟩

/-- A list of rules is accepted exactly if each of them has the required form and a target. -/
theorem exists_compile_iff (choices : List Json) (fallback : Option String) :
    (∃ rules, compile choices fallback = .ok rules) ↔ ∀ v ∈ choices, IsRule leading? v := by
  have hread : (∃ read, List.Forall₂ Reads choices read) ↔ ∀ v ∈ choices, IsRule leading? v := by
    simp only [exists_forall₂_iff, exists_reads_iff]
  rw [← hread]
  constructor
  · rintro ⟨rules, h⟩
    obtain ⟨read, hread, -⟩ := compile_eq_ok_iff.mp h
    exact ⟨read, hread⟩
  · rintro ⟨read, hread⟩
    exact ⟨_, compile_eq_ok_iff.mpr ⟨read, hread, rfl⟩⟩

/-- The nodes that rules are entered as stand for what the rules state. -/
theorem represents_placeRules {choices : List Json} {read : List (Condition × String)}
    (h : List.Forall₂ Reads choices read) (nodes : List ConditionNode) :
    ∃ added, (placeRules read nodes).1 = nodes ++ added ∧
      Represents added (countedAmong choices) (statedAmong choices)
        (∀ v ∈ choices, IsRule only? v) := by
  induction h generalizing nodes with
  | nil =>
    refine ⟨[], (List.append_nil nodes).symm, ?_⟩
    rw [countedAmong]
    exact (represents_nothing []).congr (by simp)
  | @cons v rule choices read hrule _ ih =>
    obtain ⟨c, next⟩ := rule
    obtain ⟨fields, rfl, hnext, hread⟩ := hrule
    obtain ⟨found, hfound, hplaced⟩ := (hasForm_of_ofFields.1 fields c hread).isRead
    obtain rfl : found = c := Except.ok.inj (hfound.symm.trans hread)
    obtain ⟨added, hadded, hrepresents⟩ := hplaced nodes
    obtain ⟨more, hmore, hrest⟩ := ih (found.place nodes).1
    refine ⟨added ++ more, ?_, ?_⟩
    · simp only [placeRules]
      rw [hmore, hadded, List.append_assoc]
    · rw [countedAmong, countedIn]
      refine (hrepresents.append hrest).congr ?_
      rw [List.forall_mem_cons]
      refine and_congr_left' ⟨fun form => ⟨fields, next, rfl, hnext, form⟩, ?_⟩
      rintro ⟨inner, -, heq, -, form⟩
      cases heq
      exact form

/-- Which lists of rules are accepted, and what of them counts. A list is accepted just if the
field that the condition of a rule is taken from has the required form, in every rule and at every
level; so it is if there is no other condition beside it. The nodes then stand for the conditions
in these fields, in order, and for all conditions just if there is no other anywhere. -/
theorem compile_represents (choices : List Json) (fallback : Option String) :
    ((∃ rules, compile choices fallback = .ok rules) ↔ ∀ v ∈ choices, IsRule leading? v) ∧
      ((∀ v ∈ choices, IsRule only? v) → ∃ rules, compile choices fallback = .ok rules) ∧
      ∀ rules, compile choices fallback = .ok rules →
        Represents rules.nodes (countedAmong choices) (statedAmong choices)
          (∀ v ∈ choices, IsRule only? v) := by
  refine ⟨exists_compile_iff choices fallback, fun h => ?_, fun rules h => ?_⟩
  · refine (exists_compile_iff choices fallback).mpr fun v hv => ?_
    obtain ⟨fields, next, hfields, hnext, form⟩ := h v hv
    exact ⟨fields, next, hfields, hnext, form.leading⟩
  · obtain ⟨read, hread, rfl⟩ := compile_eq_ok_iff.mp h
    obtain ⟨added, hadded, hrepresents⟩ := represents_placeRules hread []
    rw [hadded]
    exact hrepresents

/-- The rules of the shelf state one condition at every level, and `shelfRules` have a node for
each. -/
theorem shelfRules_represent :
    (∀ v ∈ shelfChoices, IsRule only? v) ∧ compile shelfChoices (some "Stock") = .ok shelfRules ∧
      Represents shelfRules.nodes (countedAmong shelfChoices) (statedAmong shelfChoices)
        (∀ v ∈ shelfChoices, IsRule only? v) := by
  have hrepresents :=
    (compile_represents shelfChoices (some "Stock")).2.2 shelfRules compile_shelfChoices
  refine ⟨?_, compile_shelfChoices, hrepresents⟩
  have hlength : shelfRules.nodes.length = (statedAmong shelfChoices).length := by decide
  rw [hrepresents.stands.length_eq] at hlength
  exact hrepresents.complete_iff.mp (hrepresents.sublist.eq_of_length hlength)

/-! ### A range -/

/-- A rule that states two comparisons of a number. -/
def rangeFields : List (String × Json) :=
  [("Next", .string "Between"), ("NumericGreaterThan", .nat 1), ("NumericLessThan", .nat 5),
    ("Variable", .string "$.n")]

/-- The rules that are compiled from `rangeFields`. -/
def rangeRules : ChoiceRules where
  nodes := [.leaf ⟨⟨"$.n", [.field "n"]⟩, .numeric .greater, .number (.ofNat 1)⟩]
  rules := [⟨0, "Between"⟩]
  fallback := none

/-- The rule of `rangeFields` is accepted, but no node stands for its second comparison, and so it
holds of numbers outside the range. -/
theorem compile_rangeFields :
    compile [.object rangeFields] none = .ok rangeRules ∧
      ¬ HasForm only? rangeFields ∧
      (∃ s ∈ statedAmong [.object rangeFields], ∀ node ∈ rangeRules.nodes, ¬ StandsFor node s) ∧
      rangeRules.evaluate (.object [("n", .nat 9)]) = .ok "Between" := by
  refine ⟨by decide +kernel, fun form => ?_, ?_, by decide +kernel⟩
  · have honly := @HasForm.only?_eq _ "NumericGreaterThan" (.nat 1) form (by decide)
    exact absurd honly (by decide)
  · have hstated : statedAmong [.object rangeFields] = [
        ⟨rangeFields, "NumericGreaterThan", .nat 1⟩,
        ⟨rangeFields, "NumericLessThan", .nat 5⟩] := rfl
    rw [hstated]
    refine ⟨_, List.mem_cons_of_mem _ (List.mem_singleton_self _), fun node hnode hstands => ?_⟩
    rw [List.mem_singleton.mp hnode] at hstands
    exact absurd hstands.1 (by decide)

end ChoiceRules

end Workflow
