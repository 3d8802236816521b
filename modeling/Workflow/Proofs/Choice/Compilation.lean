import Workflow.Proofs.Choice.Reading

/-!
# Compiled rules lead where the document leads

All rules share one list of nodes, which grows as their conditions are entered. What stands in it
never moves, so that a condition keeps its meaning whatever is entered later.

* `Condition.prefix_place`, `Condition.position_place`: the nodes are extended, and a condition is
  entered last of its parts.
* `ChoiceRules.Keeps`, `ChoiceRules.holdsAt_place`: at its position the condition holds as its tree
  does, in every extension of the nodes. There is one lemma for each kind of condition.
* `ChoiceRules.firstMatch_placeRules`: the same for the rules of a list.
* `ChoiceRules.evaluate_eq_target`: compiled rules lead where a reading of the document leads.
-/

namespace Workflow

namespace Condition

/-- A condition stands last when it has been entered. -/
theorem position_place (c : Condition) (nodes : List ConditionNode) :
    (c.place nodes).2 + 1 = (c.place nodes).1.length := by
  cases c <;> simp [place]

/-- Entering conditions only extends the nodes. -/
theorem prefix_place :
    (∀ c nodes, nodes <+: (place c nodes).1) ∧
      ∀ conditions nodes, nodes <+: (placeAll conditions nodes).1 := by
  apply place.mutual_induct
  case case1 =>
    intro comparison nodes
    exact List.prefix_append _ _
  case case2 | case3 | case4 =>
    intro parts nodes placed positions hplaced ih
    rw [place, hplaced]
    rw [hplaced] at ih
    exact ih.trans (List.prefix_append _ _)
  case case5 =>
    intro nodes
    exact List.prefix_rfl
  case case6 =>
    intro condition rest nodes placed child hplaced all children hall ih ihrest
    rw [placeAll, hplaced]
    simp only [hall]
    rw [hplaced] at ih
    rw [hall] at ihrest
    exact ih.trans ihrest

end Condition

namespace ChoiceRules

variable {nodes later : List ConditionNode} {node : ConditionNode}

/-- A node that was entered stays where it is, and so do those before it. -/
theorem node_of_prefix {depth : Nat} (hlater : nodes ++ [node] <+: later)
    (hdepth : (nodes ++ [node]).length ≤ depth) :
    ∃ d, depth = d + 1 ∧ nodes.length ≤ d ∧ nodes <+: later ∧ later[nodes.length]? = some node := by
  rw [List.length_append, List.length_singleton] at hdepth
  refine ⟨depth - 1, by omega, by omega, (List.prefix_append _ _).trans hlater, ?_⟩
  obtain ⟨more, rfl⟩ := hlater
  simp

section conditions

variable (input : Json)

/-- Whether a condition that is entered behind the nodes holds at its position as its tree does, in
every extension of the nodes. -/
def Keeps (c : Condition) (nodes : List ConditionNode) : Prop :=
  ∀ later depth, (c.place nodes).1 <+: later → (c.place nodes).1.length ≤ depth →
    holdsAt later input depth (c.place nodes).2 = c.holds input

/-- Whether conditions that are entered one after the other hold at their positions as their trees
do, in every extension of the nodes. -/
def KeepsAll (conditions : List Condition) (nodes : List ConditionNode) : Prop :=
  ∀ later depth, (Condition.placeAll conditions nodes).1 <+: later →
    (Condition.placeAll conditions nodes).1.length ≤ depth →
    (Condition.placeAll conditions nodes).2.allM (holdsAt later input depth) =
        Condition.allHold input conditions ∧
      (Condition.placeAll conditions nodes).2.anyM (holdsAt later input depth) =
        Condition.anyHolds input conditions

variable {input} {conditions : List Condition} {condition : Condition}

/-- A comparison holds at its position as it does. -/
theorem keeps_leaf (comparison : Comparison) (nodes : List ConditionNode) :
    Keeps input (.leaf comparison) nodes := by
  intro later depth hlater hdepth
  obtain ⟨d, rfl, -, -, hnode⟩ := node_of_prefix hlater hdepth
  simp only [Condition.place, holdsAt, hnode, Condition.holds]

/-- A conjunction holds at its position as its tree does, if its parts do. -/
theorem keeps_all (h : KeepsAll input conditions nodes) : Keeps input (.all conditions) nodes := by
  intro later depth hlater hdepth
  obtain ⟨d, rfl, hd, hprefix, hnode⟩ := node_of_prefix hlater hdepth
  simp only [Condition.place, holdsAt, hnode, Condition.holds]
  exact (h later d hprefix hd).1

/-- A disjunction holds at its position as its tree does, if its parts do. -/
theorem keeps_any (h : KeepsAll input conditions nodes) : Keeps input (.any conditions) nodes := by
  intro later depth hlater hdepth
  obtain ⟨d, rfl, hd, hprefix, hnode⟩ := node_of_prefix hlater hdepth
  simp only [Condition.place, holdsAt, hnode, Condition.holds]
  exact (h later d hprefix hd).2

/-- A negation holds at its position as its tree does, if its part does. -/
theorem keeps_not (h : Keeps input condition nodes) : Keeps input (.not condition) nodes := by
  intro later depth hlater hdepth
  obtain ⟨d, rfl, hd, hprefix, hnode⟩ := node_of_prefix hlater hdepth
  simp only [Condition.place, holdsAt, hnode, Condition.holds]
  exact congrArg (Except.map _) (h later d hprefix hd)

/-- No conditions hold at their positions as their trees do. -/
theorem keepsAll_nil (nodes : List ConditionNode) : KeepsAll input [] nodes :=
  fun _ _ _ _ => ⟨rfl, rfl⟩

/-- Conditions hold at their positions as their trees do, if the first one does and the others do,
which are entered after it. -/
theorem keepsAll_cons (h : Keeps input condition nodes)
    (hrest : KeepsAll input conditions (condition.place nodes).1) :
    KeepsAll input (condition :: conditions) nodes := by
  intro later depth hlater hdepth
  have hextended := Condition.prefix_place.2 conditions (condition.place nodes).1
  obtain ⟨hall, hany⟩ := hrest later depth hlater hdepth
  have hhead := h later depth (hextended.trans hlater) (hextended.length_le.trans hdepth)
  simp only [Condition.placeAll, List.allM, List.anyM, Condition.allHold, Condition.anyHolds, hhead,
    hall, hany]
  constructor
  · cases condition.holds input with
    | error error => rfl
    | ok isTrue => cases isTrue <;> rfl
  · cases condition.holds input with
    | error error => rfl
    | ok isTrue => cases isTrue <;> rfl

/-- At its position a condition holds as its tree does. -/
theorem holdsAt_place :
    (∀ c nodes, Keeps input c nodes) ∧ ∀ conditions nodes, KeepsAll input conditions nodes := by
  apply Condition.place.mutual_induct
  case case1 =>
    intro comparison nodes
    exact keeps_leaf comparison nodes
  case case2 =>
    intro conditions nodes placed children hplaced ih
    exact keeps_all ih
  case case3 =>
    intro conditions nodes placed children hplaced ih
    exact keeps_any ih
  case case4 =>
    intro condition nodes placed child hplaced ih
    exact keeps_not ih
  case case5 =>
    intro nodes
    exact keepsAll_nil nodes
  case case6 =>
    intro condition rest nodes placed child hplaced all children hall ih ihrest
    rw [show placed = (condition.place nodes).1 by rw [hplaced]] at ihrest
    exact keepsAll_cons ih ihrest

end conditions

/-! ## Rules -/

variable (input : Json)

/-- Entering rules only extends the nodes. -/
theorem prefix_placeRules (rules : List (Condition × String)) (nodes : List ConditionNode) :
    nodes <+: (placeRules rules nodes).1 := by
  induction rules generalizing nodes with
  | nil => exact List.prefix_rfl
  | cons rule rest ih =>
    obtain ⟨condition, next⟩ := rule
    exact (Condition.prefix_place.1 condition nodes).trans (ih (condition.place nodes).1)

/-- The rules of a list lead where their trees lead, in every extension of the nodes. -/
theorem firstMatch_placeRules {rules : List (Condition × String)}
    (hlater : (placeRules rules nodes).1 <+: later) :
    firstMatch? later input (placeRules rules nodes).2 = Condition.firstTarget? input rules := by
  induction rules generalizing nodes with
  | nil => rfl
  | cons rule rest ih =>
    obtain ⟨condition, next⟩ := rule
    have hrest : (placeRules rest (condition.place nodes).1).1 <+: later := hlater
    have hplaced := (prefix_placeRules rest (condition.place nodes).1).trans hrest
    have hkeeps : Keeps input condition nodes := holdsAt_place.1 condition nodes
    have hholds := hkeeps later _ hplaced (condition.position_place nodes).ge
    change (do
      if ← holdsAt later input ((condition.place nodes).2 + 1) (condition.place nodes).2 then
        return some next
      firstMatch? later input (placeRules rest (condition.place nodes).1).2) = _
    rw [hholds, ih hrest]
    rfl

/-- Compiled rules lead where the rules of the document lead. -/
theorem evaluate_eq_target {choices : List Json} {fallback : Option String} {rules : ChoiceRules}
    (h : compile choices fallback = .ok rules) :
    rules.evaluate input = ChoiceReading.target input fallback choices := by
  unfold compile at h
  cases hread : readRules 0 choices with
  | error fault =>
    rw [hread] at h
    cases h
  | ok read =>
    rw [hread] at h
    cases h
    rw [ChoiceReading.target_eq input hread, evaluate]
    simp only
    rw [firstMatch_placeRules input List.prefix_rfl]
    cases Condition.firstTarget? input read with
    | error error => rfl
    | ok found =>
      cases found with
      | some next => rfl
      | none => cases fallback <;> rfl

/-! ### Books -/

/-- Two rules, the first of which looks at a price only if it is that of a book. -/
def shelfChoices : List Json :=
  [.object [
      ("And", .array [
        .object [("StringEquals", .string "book"), ("Variable", .string "$.kind")],
        .object [
          ("Not", .object [("NumericLessThan", .nat 10), ("Variable", .string "$.price")])]]),
      ("Next", .string "Vault")],
    .object [
      ("Next", .string "Shelf"),
      ("StringGreaterThanEquals", .string "A"),
      ("Variable", .string "$.title")]]

/-- The rules that are compiled from `shelfChoices`. -/
def shelfRules : ChoiceRules where
  nodes := [
    .leaf ⟨⟨"$.kind", [.field "kind"]⟩, .string .equals, .string "book"⟩,
    .leaf ⟨⟨"$.price", [.field "price"]⟩, .numeric .less, .number (.ofNat 10)⟩,
    .not 1,
    .all [0, 2],
    .leaf ⟨⟨"$.title", [.field "title"]⟩, .string .greaterOrEqual, .string "A"⟩]
  rules := [⟨3, "Vault"⟩, ⟨4, "Shelf"⟩]
  fallback := some "Stock"

/-- The rules of `shelfChoices` are compiled into `shelfRules`. -/
theorem compile_shelfChoices : compile shelfChoices (some "Stock") = .ok shelfRules := by
  decide +kernel

/-- With `shelfRules` the price of a book is needed, and that of a record is not. -/
theorem evaluate_shelfRules :
    compile shelfChoices (some "Stock") = .ok shelfRules ∧
      shelfRules.evaluate (.object [("kind", .string "book")]) =
        .error (.variableNotFound "$.price") ∧
      shelfRules.evaluate (.object [("kind", .string "record"), ("title", .string "Blue")]) =
        .ok "Shelf" := by
  refine ⟨compile_shelfChoices, ?_, ?_⟩
  · rw [evaluate_eq_target _ compile_shelfChoices]
    decide +kernel
  · rw [evaluate_eq_target _ compile_shelfChoices]
    decide +kernel

end ChoiceRules

end Workflow
