import Workflow.Json.Printer
import Workflow.Moment.Reading

/-!
# Comparison operators of choice rules

A rule compares a value of the input with a literal of the same kind.

* `Relation`, `Operator`: how two things may be related, and the sixteen operators.
* `Operator.name`, `Operator.ofName?`.
* `Operand`: the literal of a rule, read for its operator by `Operand.ofLiteral?`.
* `Operand.compare?`: a value against the literal; a value of another kind does not compare.
* `Operator.accepts`: the outcomes of a comparison for which the operator holds.
-/

namespace Workflow

/-- How a value may be related to a literal. -/
inductive Relation where
  | equals
  | greater
  | greaterOrEqual
  | less
  | lessOrEqual
  deriving DecidableEq, Repr

namespace Relation

/-- All relations. -/
def all : List Relation := [equals, greater, greaterOrEqual, less, lessOrEqual]

/-- The relation as the ending of an operator's name. -/
def ending : Relation → String
  | equals => "Equals"
  | greater => "GreaterThan"
  | greaterOrEqual => "GreaterThanEquals"
  | less => "LessThan"
  | lessOrEqual => "LessThanEquals"

/-- The outcomes of a comparison for which the relation holds. -/
def accepts : Relation → Ordering → Bool
  | equals, o => o == .eq
  | greater, o => o == .gt
  | greaterOrEqual, o => o != .lt
  | less, o => o == .lt
  | lessOrEqual, o => o != .gt

end Relation

/-- An operator that compares a value with a literal. Truth values can only be equal.
Source: `ComparisonOperator`. -/
inductive Operator where
  | booleanEquals
  | numeric (relation : Relation)
  | string (relation : Relation)
  | timestamp (relation : Relation)
  deriving DecidableEq, Repr

namespace Operator

/-- All operators.
Source: `ALL` of `ComparisonOperator`. -/
def all : List Operator :=
  booleanEquals :: Relation.all.map numeric ++ Relation.all.map string
    ++ Relation.all.map timestamp

/-- The name of an operator.
Source: `as_str` of `ComparisonOperator`. -/
def name : Operator → String
  | booleanEquals => "BooleanEquals"
  | numeric relation => "Numeric" ++ relation.ending
  | string relation => "String" ++ relation.ending
  | timestamp relation => "Timestamp" ++ relation.ending

/-- The operator of a name.
Source: `from_str` of `ComparisonOperator`. -/
def ofName? (s : String) : Option Operator := all.find? fun op => op.name == s

/-- The kind of literal that an operator needs.
Source: the reasons in `for_operator`. -/
def operandKind : Operator → String
  | booleanEquals => "boolean"
  | numeric _ => "number"
  | string _ => "string"
  | timestamp _ => "RFC 3339 timestamp"

/-- The outcomes of a comparison for which the operator holds.
Source: `accepts` of `ComparisonOperator`. -/
def accepts : Operator → Ordering → Bool
  | booleanEquals, o => o == .eq
  | numeric relation, o => relation.accepts o
  | string relation, o => relation.accepts o
  | timestamp relation, o => relation.accepts o

/-- Every operator is found by its name. -/
theorem ofName?_name (op : Operator) : ofName? op.name = some op := by
  rcases op with _ | r | r | r
  · decide
  all_goals cases r <;> decide

end Operator

/-- The literal that a rule compares with. A timestamp keeps its offset from UTC.
Source: `Operand`. -/
inductive Operand where
  | boolean (value : Bool)
  | number (value : Double)
  | string (value : String)
  | timestamp (moment : Moment) (offset : Int)
  deriving DecidableEq, Repr

namespace Operand

/-- Reads the literal of an operator. Integers are rounded to doubles.
Source: `for_operator`. -/
def ofLiteral? (op : Operator) (literal : Json) : Option Operand :=
  match op with
  | .booleanEquals => literal.bool?.map boolean
  | .numeric _ => literal.double?.map number
  | .string _ => literal.string?.map string
  | .timestamp _ => (literal.string?.bind Moment.ofRfc3339?).map fun (m, offset) =>
      timestamp m offset

/-- How a value compares with the literal; `none` if it is of another kind. False is before true,
texts are ordered by code points, and timestamps by their moments.
Source: `compare` of `Operand`. -/
def compare? (operand : Operand) (actual : Json) : Option Ordering :=
  match operand with
  | boolean expected => actual.bool?.map fun b => Ord.compare b.toNat expected.toNat
  | number expected => actual.double?.bind fun x => x.compare? expected
  | string expected => actual.string?.map fun s => Ord.compare s expected
  | timestamp expected _ =>
    (actual.string?.bind Moment.ofRfc3339?).map fun (m, _) => m.compare expected

end Operand

end Workflow
