import Workflow.Proofs.Choice.Coverage
import Workflow.Proofs.Double

/-!
# Integers in numeric comparisons

A numeric comparison rounds its literal to a double when the rule is read, and the value of its
variable when it is looked at. Rounding keeps the order of integers, but can make two of them one.

* **Relations** (`Relation.relates_congr`, `Relation.relates_place`): what is asked of two integers
  on the number line of the doubles. They are related there as they are themselves unless they have
  the same double, and then they count as equal.
* **Leaves** (`ChoiceRules.holdsAt_leaf`, `ChoiceRules.integers_compared`): what a leaf with an
  integer as its literal comes to. It decides the integers themselves if one of them has less than
  54 bits or they are more than 2048 apart.
* **Accounts** (`ChoiceRules.compile_accountFields`): two long numbers that are not told apart.
-/

namespace Workflow

namespace Relation

/-- Only the order of two things plays a part in how they are related. -/
theorem relates_congr {α β : Type} [LinearOrder α] [LinearOrder β] (r : Relation) {x y : α}
    {x' y' : β} (hlt : x < y ↔ x' < y') (hgt : y < x ↔ y' < x') :
    r.relates x y = r.relates x' y' := by
  have heq : x = y ↔ x' = y' := by
    rw [eq_iff_le_not_lt, eq_iff_le_not_lt, ← not_lt, ← not_lt, hlt, hgt]
  cases r <;> simp only [relates, ← not_lt, hlt, hgt, heq]

/-- On the number line of the doubles integers are related as they are themselves, except that those
of the same double are equal. -/
theorem relates_place (r : Relation) {a b : Int} (ha : a.natAbs < 2 ^ 64) (hb : b.natAbs < 2 ^ 64) :
    r.relates (Double.place a) (Double.place b) =
      if Double.ofInt a = Double.ofInt b then r.relates b b else r.relates a b := by
  have hplace := Double.place_eq_iff ha hb
  split
  · next h =>
    rw [hplace.mpr h]
    exact r.relates_congr (by simp) (by simp)
  · next h =>
    have hne : Double.place a ≠ Double.place b := fun heq => h (hplace.mp heq)
    exact r.relates_congr (Double.place_lt_iff hne) (Double.place_lt_iff hne.symm)

/-- Two values of a kind are related as what they are of this kind. -/
theorem relatesAs_of_kind {α : Type} [LinearOrder α] (r : Relation) {kind : Json → Option α}
    {v w : Json} {x y : α} (hv : kind v = some x) (hw : kind w = some y) :
    r.relatesAs kind v w = r.relates x y := by
  simp only [relatesAs, hv, hw]

end Relation

/-- An integer of 64 bits lies on the number line at its place. -/
theorem Json.onNumberLine?_int {i : Int} (h : i.natAbs < 2 ^ 64) :
    (Json.int i).onNumberLine? = some (Double.place i) := by
  have hdouble : (Json.int i).double? = some (Double.ofInt i) := rfl
  rw [onNumberLine?, hdouble, Option.bind_some, Double.position_ofInt h]

-- stated of any two values: of two integers, unfolding both sides goes on into their rounding

/-- A numeric operator relates two numbers on the number line. -/
theorem Operator.judges_numeric (r : Relation) (actual literal : Json) :
    (numeric r).judges actual literal = r.relatesAs Json.onNumberLine? actual literal := rfl

namespace ChoiceRules

open RuleObject

variable {nodes : List ConditionNode} {position : Nat} {c : Comparison} {input actual : Json}

/-- A leaf holds as its operator says of the first match and the literal. -/
theorem holdsAt_leaf (depth : Nat) {literal : Json} (hleaf : nodes[position]? = some (.leaf c))
    (hoperand : Operand.ofLiteral? c.operator literal = some c.operand)
    (hactual : c.variablePath.first? input = some actual) :
    holdsAt nodes input (depth + 1) position = .ok (c.operator.judges actual literal) := by
  rw [Operator.judges_eq actual hoperand]
  simp only [holdsAt, hleaf, Comparison.holds, hactual]
  rfl

/-- A leaf that stands for a numeric comparison with an integer `b`, looked at with an integer `a`.
It holds as the two are related, except that integers of the same double count as equal; these are
never two different ones if one of them has less than 54 bits or they are more than 2048 apart. -/
theorem integers_compared {fields : List (String × Json)} {r : Relation} {a b : Int} (depth : Nat)
    (hleaf : nodes[position]? = some (.leaf c))
    (hstands : StandsFor (.leaf c) ⟨fields, (Operator.numeric r).name, Json.int b⟩)
    (hactual : c.variablePath.first? input = some (Json.int a))
    (ha : Word.isInteger a = true) (hb : Word.isInteger b = true) :
    holdsAt nodes input (depth + 1) position =
        .ok (if Double.ofInt a = Double.ofInt b then r.relates b b else r.relates a b) ∧
      (a.natAbs < 2 ^ 53 ∨ b.natAbs < 2 ^ 53 ∨ 2048 < (a - b).natAbs →
        (Double.ofInt a = Double.ofInt b ↔ a = b)) := by
  have hrange {i : Int} (h : Word.isInteger i = true) : i.natAbs < 2 ^ 64 := by
    simp only [Word.isInteger, Bool.and_eq_true, decide_eq_true_eq] at h
    omega
  have ha := hrange ha
  have hb := hrange hb
  constructor
  · obtain ⟨hname, hoperand, -⟩ := hstands
    have hop : c.operator = .numeric r := Operator.name_injective hname.symm
    rw [holdsAt_leaf depth hleaf hoperand hactual, hop, Operator.judges_numeric,
      r.relatesAs_of_kind (Json.onNumberLine?_int ha) (Json.onNumberLine?_int hb),
      r.relates_place ha hb]
  · intro hapart
    refine ⟨fun heq => ?_, fun heq => by rw [heq]⟩
    rcases hapart with hsmall | hsmall | hfar
    · exact Double.ofInt_injective hsmall hb heq
    · exact (Double.ofInt_injective hsmall ha heq.symm).symm
    · exact absurd heq (Double.ofInt_ne_of_far ha hb hfar)

/-! ### Accounts -/

/-- A rule that asks for the number of an account. -/
def accountFields : List (String × Json) :=
  [("Next", .string "Own"), ("NumericEquals", .int 9007199254740992), ("Variable", .string "$.n")]

/-- The rules that are compiled from `accountFields`. -/
def accountRules : ChoiceRules where
  nodes := [.leaf ⟨⟨"$.n", [.field "n"]⟩, .numeric .equals, .number (.ofInt 9007199254740992)⟩]
  rules := [⟨0, "Own"⟩]
  fallback := some "Other"

/-- With `accountRules` another account is taken for the own one. -/
theorem compile_accountFields :
    compile [.object accountFields] (some "Other") = .ok accountRules ∧
      accountRules.evaluate (.object [("n", .int 9007199254740993)]) = .ok "Own" ∧
      (9007199254740993 : Int) ≠ 9007199254740992 := by
  refine ⟨by decide +kernel, by decide +kernel, by decide⟩

/-- With `accountRules` an account that is far enough away is told apart from the own one. -/
theorem integers_compared_account :
    holdsAt accountRules.nodes (.object [("n", .int 9007199254743041)]) 1 0 = .ok false := by
  have hoperand : StandsFor (.leaf ⟨⟨"$.n", [.field "n"]⟩, .numeric .equals,
      .number (.ofInt 9007199254740992)⟩)
      ⟨accountFields, (Operator.numeric .equals).name, Json.int 9007199254740992⟩ :=
    ⟨rfl, rfl, rfl, by decide +kernel⟩
  obtain ⟨hholds, happart⟩ := @integers_compared accountRules.nodes 0 _
    (.object [("n", .int 9007199254743041)]) _ _ 9007199254743041 _ 0 rfl hoperand (by decide)
    (by decide) (by decide)
  rw [hholds, if_neg ((happart (by decide)).not.mpr (by decide))]
  rfl

end ChoiceRules

end Workflow
