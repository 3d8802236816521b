import Workflow.Choice.Operator
import Workflow.DataFlow

/-!
# Conditions of choice rules

A rule is an object: a comparison of a variable with a literal, or a combination of rules by `And`,
`Or` or `Not`.

* `Comparison`, `Condition`: a comparison, and the tree that a rule stands for.
* `RuleFault`, `ChoiceError`: why a rule is refused, and why a choice fails.
* `Comparison.ofFields`, `Condition.ofFields`: reading a rule from the fields of its object. Of
  several operators in one object the first in the order of names counts.
* `Comparison.holds`: whether a comparison holds of an input.
-/

namespace Workflow

/-- A comparison of the first match of a path with a literal.
Source: `Comparison`. -/
structure Comparison where
  variablePath : Path
  operator : Operator
  operand : Operand
  deriving DecidableEq, Repr

/-- A condition on an input. -/
inductive Condition where
  | leaf (comparison : Comparison)
  | all (conditions : List Condition)
  | any (conditions : List Condition)
  | not (condition : Condition)
  deriving Repr

/-- What is wrong with a rule.
Source: the reasons of `ChoiceError`. -/
inductive RuleFault where
  | notAnObject (value : Json)
  | noNext (index : Nat)
  | emptyChildren (combinator : String)
  | negatesNoObject
  | noVariable
  | badVariable (error : PathError)
  | noOperator (expression : String)
  | wrongOperand (operator : Operator) (literal : Json)
  | unknownOperator (name : String)
  | danglingNode (index : Nat)
  deriving DecidableEq, Repr

/-- The fault in words.
Source: the reasons of `ChoiceError`. -/
def RuleFault.message : RuleFault → String
  | notAnObject value => "rule must be an object, got " ++ value.text
  | noNext index => "choice " ++ Text.natText index ++ " has no Next"
  | emptyChildren combinator => combinator ++ " must be a non-empty array"
  | negatesNoObject => "Not must be an object"
  | noVariable => "comparison has no Variable"
  | badVariable error => error.message
  | noOperator expression => "comparison on '" ++ expression ++ "' has no known operator"
  | wrongOperand operator literal =>
    operator.name ++ " expects a " ++ operator.operandKind ++ " operand, got " ++ literal.text
  | unknownOperator name => "unknown operator '" ++ name ++ "'"
  | danglingNode index => "dangling node index " ++ Text.natText index

/-- Why a choice cannot be set up or made.
Source: `ChoiceError`. -/
inductive ChoiceError where
  | noMatch
  | invalidRule (fault : RuleFault)
  | variableNotFound (expression : String)
  deriving DecidableEq, Repr

/-- The error in words. -/
def ChoiceError.message : ChoiceError → String
  | noMatch => "no choice rule matched and no Default is set"
  | invalidRule fault => "invalid choice rule: " ++ fault.message
  | variableNotFound expression =>
    "choice variable '" ++ expression ++ "' matched nothing in the state input"

/-- Reads an operator by its name.
Source: `from_str` of `ComparisonOperator`. -/
def Operator.parse (name : String) : Except ChoiceError Operator :=
  match ofName? name with
  | some op => .ok op
  | none => .error (.invalidRule (.unknownOperator name))

namespace Comparison

/-- The first field that is named by an operator.
Source: the operator in `build_leaf`. -/
def operatorField? (fields : List (String × Json)) : Option (Operator × Json) :=
  fields.findSome? fun (name, literal) => (Operator.ofName? name).map fun op => (op, literal)

/-- Reads a comparison: its variable, its operator and its literal, in this order.
Source: `build_leaf`. -/
def ofFields (fields : List (String × Json)) : Except RuleFault Comparison :=
  match (Entries.get? "Variable" fields).bind Json.string? with
  | none => .error .noVariable
  | some expression =>
    match Path.parse expression with
    | .error error => .error (.badVariable error)
    | .ok path =>
      match operatorField? fields with
      | none => .error (.noOperator expression)
      | some (operator, literal) =>
        match Operand.ofLiteral? operator literal with
        | none => .error (.wrongOperand operator literal)
        | some operand => .ok ⟨path, operator, operand⟩

/-- Whether a comparison holds of an input; an error if its variable matches nothing there.
Source: the leaves of `eval_node`. -/
def holds (c : Comparison) (input : Json) : Except ChoiceError Bool :=
  match c.variablePath.first? input with
  | none => .error (.variableNotFound c.variablePath.expression)
  | some actual =>
    .ok (match c.operand.compare? actual with
      | some outcome => c.operator.accepts outcome
      | none => false)

end Comparison

/-- The value of a field is smaller than the fields. -/
theorem Entries.sizeOf_lt_of_get? {name : String} {fields : List (String × Json)} {v : Json}
    (h : Entries.get? name fields = some v) : sizeOf v < sizeOf fields := by
  induction fields with
  | nil => simp [Entries.get?] at h
  | cons head rest ih =>
    obtain ⟨k, x⟩ := head
    rw [Entries.get?, List.lookup_cons] at h
    split at h
    · obtain rfl : x = v := by simpa using h
      simp only [List.cons.sizeOf_spec, Prod.mk.sizeOf_spec]
      omega
    · have := ih h
      simp only [List.cons.sizeOf_spec]
      omega

namespace Condition

mutual

/-- Reads a rule from the fields of its object. A combinator comes before a comparison, and of
several combinators `And` before `Or` before `Not`.
Source: `build`. -/
def ofFields (fields : List (String × Json)) : Except RuleFault Condition :=
  match _hAnd : Entries.get? "And" fields with
  | some (.array (x :: xs)) => (ofItems (x :: xs)).map .all
  | some _ => .error (.emptyChildren "And")
  | none =>
    match _hOr : Entries.get? "Or" fields with
    | some (.array (x :: xs)) => (ofItems (x :: xs)).map .any
    | some _ => .error (.emptyChildren "Or")
    | none =>
      match _hNot : Entries.get? "Not" fields with
      | some (.object inner) => (ofFields inner).map .not
      | some _ => .error .negatesNoObject
      | none => (Comparison.ofFields fields).map .leaf
termination_by sizeOf fields
decreasing_by
  · have := Entries.sizeOf_lt_of_get? _hAnd
    simp only [Json.array.sizeOf_spec] at this
    omega
  · have := Entries.sizeOf_lt_of_get? _hOr
    simp only [Json.array.sizeOf_spec] at this
    omega
  · have := Entries.sizeOf_lt_of_get? _hNot
    simp only [Json.object.sizeOf_spec] at this
    omega

/-- Reads a list of rules, each of which must be an object.
Source: `build_children`. -/
def ofItems : List Json → Except RuleFault (List Condition)
  | [] => .ok []
  | .object fields :: rest => do
    let condition ← ofFields fields
    let conditions ← ofItems rest
    return condition :: conditions
  | v :: _ => .error (.notAnObject v)
termination_by items => sizeOf items

end

end Condition

end Workflow
