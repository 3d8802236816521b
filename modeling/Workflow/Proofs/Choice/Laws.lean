import Workflow.Proofs.Choice.Forest

/-!
# Boolean laws of rules

Parts of a combination are looked at from left to right and only as far as they matter, and a
variable that matches nothing ends the evaluation with an error. The laws of Boolean algebra that
keep the parts in their order hold all the same, errors included.

* **Going through parts** (`ChoiceRules.GoesAlong.map_not`, `ChoiceRules.GoesAlong.flatten`): a
  negation turns going on into stopping, and parts can be replaced by their own parts.
* **Combinators** (`Combinator.goesAlong`, `Combinator.holds_not_condition`): how `And` and `Or` go
  through their parts, and that each is the negation of the other.
* **Rules in a list** (`RuleObject.EvaluateAlike`, `RuleObject.evaluateAlike_of_holds`): rules whose
  conditions hold alike can stand for each other in every list of rules.
* **The laws** (`RuleObject.boolean_laws`): those of De Morgan, of double negation and of nested
  combinations.
-/

namespace Workflow

/-! ## Going through parts -/

namespace ChoiceRules

section along

variable {α : Type} {on : Bool} {look : α → Except ChoiceError Bool}
  {along : List α → Except ChoiceError Bool}

/-- Going through a list of one part is looking at it. -/
theorem GoesAlong.singleton (h : GoesAlong on look along) (part : α) :
    along [part] = look part := by
  by_cases hon : look part = .ok on
  · rw [h.next part [] hon, h.done, hon]
  · exact h.stop part [] hon

/-- Going through two lists: the second is looked at if the first does not end the evaluation. -/
theorem GoesAlong.append (h : GoesAlong on look along) (parts more : List α) :
    along (parts ++ more) = if along parts = .ok on then along more else along parts := by
  induction parts with
  | nil => rw [List.nil_append, h.done, if_pos rfl]
  | cons part rest ih =>
    rw [List.cons_append]
    by_cases hon : look part = .ok on
    · rw [h.next part _ hon, h.next part _ hon, ih]
    · rw [h.stop part _ hon, h.stop part _ hon, if_neg hon]

/-- Parts can be replaced by lists of parts that come to the same. -/
theorem GoesAlong.flatten (h : GoesAlong on look along) {parts : List α} {pieces : List (List α)}
    (hpieces : List.Forall₂ (fun part pieces => look part = along pieces) parts pieces) :
    along parts = along pieces.flatten := by
  induction hpieces with
  | nil => rfl
  | @cons part pieces parts more hpart _ ih =>
    rw [List.flatten_cons, h.append, ← hpart, ← ih]
    by_cases hon : look part = .ok on
    · rw [h.next part parts hon, if_pos hon]
    · rw [h.stop part parts hon, if_neg hon]

/-- A negated result is one truth value if the result is the other. -/
theorem map_not_eq_ok_iff {result : Except ChoiceError Bool} :
    result.map (!·) = .ok (!on) ↔ result = .ok on := by
  rcases result with error | isTrue
  · simp [Except.map]
  · cases isTrue <;> cases on <;> simp [Except.map]

/-- Negating what comes of the parts is going through the negated parts the other way. -/
theorem GoesAlong.map_not (h : GoesAlong on look along) {other : List α → Except ChoiceError Bool}
    (hother : GoesAlong (!on) look other) {negate : α → α}
    (hnegate : ∀ part, look (negate part) = (look part).map (!·)) (parts : List α) :
    (along parts).map (!·) = other (parts.map negate) := by
  induction parts with
  | nil =>
    rw [h.done, List.map_nil, hother.done]
    rfl
  | cons part rest ih =>
    rw [List.map_cons]
    by_cases hon : look part = .ok on
    · rw [h.next part rest hon, ih, hother.next]
      rw [hnegate, map_not_eq_ok_iff, hon]
    · rw [h.stop part rest hon, hother.stop, hnegate]
      rwa [hnegate, ne_eq, map_not_eq_ok_iff]

end along

end ChoiceRules

open ChoiceRules RuleObject

/-! ## Combinators -/

namespace Combinator

/-- The combinator that takes the place of another one when the parts are negated. -/
def dual : Combinator → Combinator
  | all => any
  | any => all

/-- What a part has to come to for the next one to be looked at. -/
def goesOn : Combinator → Bool
  | all => true
  | any => false

/-- A combination of rules as a rule. -/
def rule (k : Combinator) (parts : List (List (String × Json))) : List (String × Json) :=
  [(k.key, .array (parts.map .object))]

/-- A combination goes through its parts. -/
theorem goesAlong (k : Combinator) (input : Json) :
    GoesAlong k.goesOn (Condition.holds input) fun parts => (k.condition parts).holds input := by
  cases k with
  | all =>
    refine goesAlong_of_cons rfl fun part rest => ?_
    simp only [condition, Condition.holds, Condition.allHold]
    rcases part.holds input with error | (- | -) <;> rfl
  | any =>
    refine goesAlong_of_cons rfl fun part rest => ?_
    simp only [condition, Condition.holds, Condition.anyHolds]
    rcases part.holds input with error | (- | -) <;> rfl

/-- The negation of a combination is the other combination of the negations. -/
theorem holds_not_condition (k : Combinator) (parts : List Condition) (input : Json) :
    (Condition.not (k.condition parts)).holds input =
      (k.dual.condition (parts.map .not)).holds input := by
  have hdual := k.dual.goesAlong input
  rw [show k.dual.goesOn = !k.goesOn by cases k <;> rfl] at hdual
  rw [Condition.holds]
  exact (k.goesAlong input).map_not hdual (fun _ => rfl) parts

end Combinator

namespace RuleObject

/-! ## Reading combinations -/

/-- The negation of a rule. -/
def negation (part : List (String × Json)) : List (String × Json) := [("Not", .object part)]

/-- Whether a rule is read as a condition. -/
def ReadAs (fields : List (String × Json)) (c : Condition) : Prop :=
  Condition.ofFields fields = .ok c

section reading

variable {fields part : List (String × Json)} {parts : List (List (String × Json))} {c : Condition}
  {conditions : List Condition} {k : Combinator}

/-- A list of parts is read as conditions exactly if each part is. -/
theorem ofItems_eq_ok_iff : Condition.ofItems (parts.map .object) = .ok conditions ↔
    List.Forall₂ ReadAs parts conditions := by
  induction parts generalizing conditions with
  | nil =>
    rw [List.forall₂_nil_left_iff, List.map_nil, Condition.ofItems]
    exact ⟨fun h => (Except.ok.inj h).symm, fun h => h ▸ rfl⟩
  | cons part rest ih =>
    rw [List.map_cons, Condition.ofItems]
    constructor
    · intro h
      obtain ⟨c, hc, h⟩ := exists_of_bind_eq_ok h
      obtain ⟨others, hothers, h⟩ := exists_of_bind_eq_ok h
      cases h
      exact .cons hc (ih.mp hothers)
    · rintro (_ | ⟨hc, hothers⟩)
      rw [ReadAs] at hc
      rw [hc, ih.mpr hothers]
      rfl

/-- The negation of a rule is read as the negation of what the rule is read as. -/
theorem readAs_negation (h : ReadAs part c) : ReadAs (negation part) (.not c) := by
  have hleading : leading? (negation part) = some ("Not", .object part) := rfl
  rw [ReadAs] at h ⊢
  rw [ofFields_of_not hleading, h]
  rfl

/-- A rule in which a combination leads is read as that of what its parts are read as. -/
theorem readAs_combination (h : List.Forall₂ ReadAs parts conditions) (hne : parts ≠ [])
    (hleading : leading? fields = some (k.key, .array (parts.map .object))) :
    ReadAs fields (k.condition conditions) := by
  rw [ReadAs, ofFields_of_combination hleading hne, ofItems_eq_ok_iff.mpr h]
  rfl

/-- In a combination of rules as a rule, the combination leads. -/
theorem leading?_rule (k : Combinator) (parts : List (List (String × Json))) :
    leading? (k.rule parts) = some (k.key, .array (parts.map .object)) := by
  cases k <;> rfl

/-- What is read of a combination has been read of its parts. -/
theorem exists_of_readAs_combination (h : ReadAs fields c)
    (hleading : leading? fields = some (k.key, .array (parts.map .object))) :
    parts ≠ [] ∧
      ∃ conditions, List.Forall₂ ReadAs parts conditions ∧ c = k.condition conditions := by
  have hform := hasForm_of_ofFields.1 fields c h
  have hne := ((hasForm_iff_of_combination hleading).mp hform).1
  rw [ReadAs, ofFields_of_combination hleading hne] at h
  obtain ⟨conditions, hconditions, rfl⟩ := exists_of_map_eq_ok h
  exact ⟨hne, conditions, ofItems_eq_ok_iff.mp hconditions, rfl⟩

/-- Whether a part of a combination is kept as it is, or is such a combination itself and is
replaced by its own parts. -/
def Spreads (k : Combinator) (part : List (String × Json))
    (pieces : List (List (String × Json))) : Prop :=
  pieces = [part] ∨ leading? part = some (k.key, .array (pieces.map .object))

/-- A part comes to the same as what replaces it. -/
theorem exists_of_spreads {pieces : List (List (String × Json))} (h : Spreads k part pieces)
    (hread : ReadAs part c) :
    pieces ≠ [] ∧ ∃ conditions, List.Forall₂ ReadAs pieces conditions ∧
      ∀ input, c.holds input = (k.condition conditions).holds input := by
  rcases h with rfl | h
  · exact ⟨by simp, [c], .cons hread .nil, fun input => ((k.goesAlong input).singleton c).symm⟩
  · obtain ⟨hne, conditions, hconditions, rfl⟩ := exists_of_readAs_combination hread h
    exact ⟨hne, conditions, hconditions, fun _ => rfl⟩

/-- A list of parts comes to the same as what replaces them. -/
theorem exists_of_spreadsAll {pieces : List (List (List (String × Json)))}
    (h : List.Forall₂ (Spreads k) parts pieces) (hread : List.Forall₂ ReadAs parts conditions) :
    (∀ piece ∈ pieces, piece ≠ []) ∧ ∃ spread, List.Forall₂ (List.Forall₂ ReadAs) pieces spread ∧
      ∀ input, List.Forall₂ (fun c piece => c.holds input = (k.condition piece).holds input)
        conditions spread := by
  induction h generalizing conditions with
  | nil =>
    cases hread
    exact ⟨by simp, [], .nil, fun _ => .nil⟩
  | cons hpart _ ih =>
    rcases hread with _ | ⟨hc, hrest⟩
    obtain ⟨hne, piece, hpiece, hholds⟩ := exists_of_spreads hpart hc
    obtain ⟨hneRest, spread, hspread, hholdsRest⟩ := ih hrest
    exact ⟨List.forall_mem_cons.mpr ⟨hne, hneRest⟩, piece :: spread, .cons hpiece hspread,
      fun input => .cons (hholds input) (hholdsRest input)⟩

end reading

/-! ## Rules in a list -/

/-- A rule with a target, as it stands in a list of rules. -/
def withNext (next : String) (fields : List (String × Json)) : Json :=
  .object (Entries.put "Next" (.string next) fields)

/-- The target of a rule plays no part in its condition. -/
theorem operatorField?_put_next (v : Json) (fields : List (String × Json)) :
    Comparison.operatorField? (Entries.put "Next" v fields) = Comparison.operatorField? fields := by
  have hnext : Operator.ofName? "Next" = none := by decide
  induction fields with
  | nil => simp [Entries.put, Comparison.operatorField?, hnext]
  | cons field rest ih =>
    obtain ⟨key, w⟩ := field
    unfold Comparison.operatorField? at ih ⊢
    rw [Entries.put]
    split
    · simp [hnext]
    · split
      · next heq => simp [← heq, hnext]
      · simp only [List.findSome?_cons, ih]

/-- The target of a rule plays no part in what its condition is read as. -/
theorem ofFields_put_next (v : Json) (fields : List (String × Json)) :
    Condition.ofFields (Entries.put "Next" v fields) = Condition.ofFields fields := by
  rw [Condition.ofFields_eq, Condition.ofFields_eq]
  simp only [Comparison.ofFields, operatorField?_put_next,
    Entries.get?_put_of_ne (show "And" ≠ "Next" by decide),
    Entries.get?_put_of_ne (show "Or" ≠ "Next" by decide),
    Entries.get?_put_of_ne (show "Not" ≠ "Next" by decide),
    Entries.get?_put_of_ne (show "Variable" ≠ "Next" by decide)]

/-- A rule with a target is read as what the rule is read as, and the target. -/
theorem reads_withNext {fields : List (String × Json)} {c : Condition} (h : ReadAs fields c)
    (next : String) : Reads (withNext next fields) (c, next) := by
  refine ⟨_, rfl, Entries.get?_put_self .., ?_⟩
  rw [ofFields_put_next]
  exact h

end RuleObject

namespace ChoiceRules

/-- What each of the rules comes to on an input. -/
def verdicts (rules : ChoiceRules) (input : Json) : List (Except ChoiceError Bool) :=
  rules.rules.map fun rule => holdsAt rules.nodes input (rule.root + 1) rule.root

/-- Each rule of a list comes to what its condition does, in every extension of the nodes. -/
theorem map_placeRules (input : Json) {read : List (Condition × String)}
    {nodes later : List ConditionNode} (hlater : (placeRules read nodes).1 <+: later) :
    ((placeRules read nodes).2.map fun rule => holdsAt later input (rule.root + 1) rule.root) =
      read.map fun rule => rule.1.holds input := by
  induction read generalizing nodes with
  | nil => rfl
  | cons rule rest ih =>
    obtain ⟨condition, next⟩ := rule
    have hrest : (placeRules rest (condition.place nodes).1).1 <+: later := hlater
    have hplaced := (prefix_placeRules rest (condition.place nodes).1).trans hrest
    have hkeeps : Keeps input condition nodes := holdsAt_place.1 condition nodes
    have hholds := hkeeps later _ hplaced (condition.position_place nodes).ge
    simp only [placeRules, List.map_cons, ih hrest, hholds]

/-- Compiled rules come to what the conditions that were read do. -/
theorem exists_of_reads {choices : List Json} {read : List (Condition × String)}
    (h : List.Forall₂ Reads choices read) (fallback : Option String) :
    ∃ rules, compile choices fallback = .ok rules ∧
      ∀ input, rules.verdicts input = read.map fun rule => rule.1.holds input :=
  ⟨_, compile_eq_ok_iff.mpr ⟨read, h, rfl⟩, fun input => map_placeRules input List.prefix_rfl⟩

/-- Only the verdict and the target of a rule play a part in where a list of rules leads. -/
theorem target_append_congr {input : Json} {fallback : Option String}
    {fields others : List (String × Json)} {before after : List Json}
    (hholds : ChoiceReading.holds input fields = ChoiceReading.holds input others)
    (hnext : Entries.get? "Next" fields = Entries.get? "Next" others) :
    ChoiceReading.target input fallback (before ++ .object fields :: after) =
      ChoiceReading.target input fallback (before ++ .object others :: after) := by
  induction before with
  | nil => simp only [List.nil_append, ChoiceReading.target, hholds, hnext]
  | cons v rest ih => cases v <;> simp only [List.cons_append, ChoiceReading.target, ih]

end ChoiceRules

namespace RuleObject

/-- Whether two rules evaluate alike: where other rules are accepted, either can be put among them,
each rule of the list comes to the same answer with both, and so the list leads to the same end. -/
def EvaluateAlike (fields others : List (String × Json)) : Prop :=
  ∀ (before after : List Json) (next : String) (fallback : Option String),
    (∃ rules, compile (before ++ after) fallback = .ok rules) →
    ∃ rules rules',
      compile (before ++ withNext next fields :: after) fallback = .ok rules ∧
      compile (before ++ withNext next others :: after) fallback = .ok rules' ∧
      ∀ input, rules.verdicts input = rules'.verdicts input ∧
        (∀ verdict ∈ rules.verdicts input, IsAnswer verdict) ∧
        rules.evaluate input = rules'.evaluate input

/-- Rules evaluate alike if what they are read as does. -/
theorem evaluateAlike_of_holds {fields others : List (String × Json)} {c d : Condition}
    (hc : ReadAs fields c) (hd : ReadAs others d)
    (hholds : ∀ input, c.holds input = d.holds input) : EvaluateAlike fields others := by
  rintro before after next fallback ⟨accepted, haccepted⟩
  obtain ⟨read, hread, -⟩ := compile_eq_ok_iff.mp haccepted
  obtain ⟨hbefore, hafter⟩ :=
    List.forall_mem_append.mp (exists_forall₂_iff.mp ⟨read, hread⟩)
  obtain ⟨readBefore, hbefore⟩ := exists_forall₂_iff.mpr hbefore
  obtain ⟨readAfter, hafter⟩ := exists_forall₂_iff.mpr hafter
  have hlist := List.rel_append hbefore (.cons (reads_withNext hc next) hafter)
  have hlist' := List.rel_append hbefore (.cons (reads_withNext hd next) hafter)
  obtain ⟨rules, hcompile, hverdicts⟩ := exists_of_reads hlist fallback
  obtain ⟨rules', hcompile', hverdicts'⟩ := exists_of_reads hlist' fallback
  refine ⟨rules, rules', hcompile, hcompile', fun input => ⟨?_, ?_, ?_⟩⟩
  · simp only [hverdicts, hverdicts', List.map_append, List.map_cons, hholds]
  · exact List.forall_mem_map.mpr ((isForest_of_compile hcompile).isAnswer input)
  · rw [evaluate_eq_target input hcompile, evaluate_eq_target input hcompile']
    refine target_append_congr ?_ ?_
    · have hreading := (ChoiceReading.reading_eq input).1
      rw [hreading _ c (by rw [ofFields_put_next]; exact hc), hholds,
        hreading _ d (by rw [ofFields_put_next]; exact hd)]
    · rw [Entries.get?_put_self, Entries.get?_put_self]

/-! ## The laws -/

/-- For rules that are read, a negation of `And` evaluates as `Or` of the negations and the other
way round, a double negation as the rule itself, and a combination of which parts are such
combinations themselves as that of all their parts. -/
theorem boolean_laws (k : Combinator) {parts : List (List (String × Json))} (hne : parts ≠ [])
    (hparts : ∀ part ∈ parts, ∃ c, ReadAs part c) :
    EvaluateAlike (negation (k.rule parts)) (k.dual.rule (parts.map negation)) ∧
      (∀ part ∈ parts, EvaluateAlike (negation (negation part)) part) ∧
      ∀ pieces, List.Forall₂ (Spreads k) parts pieces →
        EvaluateAlike (k.rule parts) (k.rule pieces.flatten) := by
  obtain ⟨conditions, hread⟩ := exists_forall₂_iff.mpr hparts
  have hrule := readAs_combination hread hne (leading?_rule k parts)
  refine ⟨?_, fun part hpart => ?_, fun pieces hpieces => ?_⟩
  · have hnegations : List.Forall₂ ReadAs (parts.map negation) (conditions.map .not) := by
      rw [List.forall₂_map_left_iff, List.forall₂_map_right_iff]
      exact hread.imp fun _ _ => readAs_negation
    have hother := readAs_combination hnegations (by simpa using hne) (leading?_rule k.dual _)
    exact evaluateAlike_of_holds (readAs_negation hrule) hother (k.holds_not_condition conditions)
  · obtain ⟨c, hc⟩ := hparts part hpart
    refine evaluateAlike_of_holds (readAs_negation (readAs_negation hc)) hc fun input => ?_
    rw [Condition.holds, Condition.holds]
    rcases c.holds input with error | (- | -) <;> rfl
  · obtain ⟨hpiecesNe, spread, hspread, hholds⟩ := exists_of_spreadsAll hpieces hread
    have hflatten : pieces.flatten ≠ [] := by
      cases hpieces with
      | nil => exact absurd rfl hne
      | cons _ _ =>
        have hfirst := List.forall_mem_cons.mp hpiecesNe
        exact List.append_ne_nil_of_left_ne_nil hfirst.1 _
    have hother := readAs_combination (List.rel_flatten hspread) hflatten (leading?_rule k _)
    exact evaluateAlike_of_holds hrule hother fun input =>
      (k.goesAlong input).flatten (hholds input)

/-- What a book in the vault is. -/
def vaultParts : List (List (String × Json)) :=
  [[("StringEquals", .string "book"), ("Variable", .string "$.kind")],
    [("Not", .object [("NumericLessThan", .nat 10), ("Variable", .string "$.price")])]]

/-- What has a title. -/
def titleFields : List (String × Json) :=
  [("StringGreaterThanEquals", .string "A"), ("Variable", .string "$.title")]

/-- For a book of `vaultParts` with a title: not being such a book is not being in the vault or
having no title; and a combination in the combination can be spread. -/
theorem boolean_laws_shelf :
    (∀ part ∈ [Combinator.all.rule vaultParts, titleFields], ∃ c, ReadAs part c) ∧
      EvaluateAlike (negation (Combinator.all.rule [Combinator.all.rule vaultParts, titleFields]))
        (Combinator.any.rule [negation (Combinator.all.rule vaultParts), negation titleFields]) ∧
      EvaluateAlike (Combinator.all.rule [Combinator.all.rule vaultParts, titleFields])
        (Combinator.all.rule (vaultParts ++ [titleFields])) := by
  have hshelf : shelfChoices =
      [withNext "Vault" (Combinator.all.rule vaultParts), withNext "Shelf" titleFields] := rfl
  have hread : ∀ part ∈ [Combinator.all.rule vaultParts, titleFields], ∃ c, ReadAs part c := by
    obtain ⟨read, hread, -⟩ := compile_eq_ok_iff.mp compile_shelfChoices
    rw [hshelf] at hread
    rcases hread with _ | ⟨⟨_, hvault, -, hreadVault⟩, _ | ⟨⟨_, htitle, -, hreadTitle⟩, -⟩⟩
    cases hvault
    cases htitle
    rw [ofFields_put_next] at hreadVault hreadTitle
    simp only [List.forall_mem_cons, List.not_mem_nil, false_implies, implies_true, and_true]
    exact ⟨⟨_, hreadVault⟩, _, hreadTitle⟩
  obtain ⟨hnegation, -, hspread⟩ := boolean_laws .all (List.cons_ne_nil _ _) hread
  refine ⟨hread, hnegation, ?_⟩
  exact hspread [vaultParts, [titleFields]] (.cons (.inr rfl) (.cons (.inl rfl) .nil))

end RuleObject

end Workflow
