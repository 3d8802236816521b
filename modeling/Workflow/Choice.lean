import Workflow.Choice.Condition
import Workflow.Dispatch

/-!
# Choice states

The rules of a Choice state, compiled into one list of nodes in which a combination refers to its
parts by their positions. A part always stands before the combination that refers to it.

* `ConditionNode`, `ChoiceRule`, `ChoiceRules`: nodes, a rule with its target, and all of them.
* `Condition.place`: enters the nodes of a condition behind those that are there.
* `ChoiceRules.compile`: reads and places the rules of a list.
* `ChoiceRules.holdsAt`, `ChoiceRules.evaluate`: whether a node holds, and the target that the
  first rule that holds leads to.
-/

namespace Workflow

/-- A condition whose parts are named by their positions.
Source: `ConditionNode`. -/
inductive ConditionNode where
  | leaf (comparison : Comparison)
  | all (children : List Nat)
  | any (children : List Nat)
  | not (child : Nat)
  deriving DecidableEq, Repr

/-- The node that a rule starts at, and the state that it leads to.
Source: `ChoiceRule`. -/
structure ChoiceRule where
  root : Nat
  next : String
  deriving DecidableEq, Repr

/-- The compiled rules of a Choice state.
Source: `ChoiceRules`. -/
structure ChoiceRules where
  nodes : List ConditionNode
  rules : List ChoiceRule
  fallback : Option String
  deriving DecidableEq, Repr

namespace Condition

mutual

/-- Enters a condition behind the nodes that are there, its parts first; gives all nodes and the
position of the condition.
Source: `build` and `push`. -/
def place : Condition → List ConditionNode → List ConditionNode × Nat
  | .leaf comparison, nodes => (nodes ++ [.leaf comparison], nodes.length)
  | .all conditions, nodes =>
    let (nodes, children) := placeAll conditions nodes
    (nodes ++ [.all children], nodes.length)
  | .any conditions, nodes =>
    let (nodes, children) := placeAll conditions nodes
    (nodes ++ [.any children], nodes.length)
  | .not condition, nodes =>
    let (nodes, child) := place condition nodes
    (nodes ++ [.not child], nodes.length)

/-- Enters conditions one after the other.
Source: `build_children`. -/
def placeAll : List Condition → List ConditionNode → List ConditionNode × List Nat
  | [], nodes => (nodes, [])
  | condition :: rest, nodes =>
    let (nodes, position) := place condition nodes
    let (nodes, positions) := placeAll rest nodes
    (nodes, position :: positions)

end

end Condition

namespace ChoiceRules

/-! ## Compilation -/

/-- Reads one rule of the list: its object, its target and its condition, in this order.
Source: `as_rule_object` and the loop of `compile`. -/
def readRule (index : Nat) : Json → Except RuleFault (Condition × String)
  | .object fields =>
    match (Entries.get? "Next" fields).bind Json.string? with
    | none => .error (.noNext index)
    | some next => (Condition.ofFields fields).map fun condition => (condition, next)
  | v => .error (.notAnObject v)

/-- Reads the rules of a list, counted from `index`.
Source: the loop of `compile`. -/
def readRules (index : Nat) : List Json → Except RuleFault (List (Condition × String))
  | [] => .ok []
  | v :: rest => do
    let rule ← readRule index v
    let rules ← readRules (index + 1) rest
    return rule :: rules

/-- Enters rules one after the other.
Source: the loop of `compile`. -/
def placeRules : List (Condition × String) → List ConditionNode →
    List ConditionNode × List ChoiceRule
  | [], nodes => (nodes, [])
  | (condition, next) :: rest, nodes =>
    let (nodes, root) := condition.place nodes
    let (nodes, rules) := placeRules rest nodes
    (nodes, ⟨root, next⟩ :: rules)

/-- Compiles the rules of a Choice state.
Source: `compile` of `ChoiceRules`. -/
def compile (choices : List Json) (fallback : Option String) : Except ChoiceError ChoiceRules :=
  match readRules 0 choices with
  | .error fault => .error (.invalidRule fault)
  | .ok rules =>
    let (nodes, rules) := placeRules rules []
    .ok ⟨nodes, rules, fallback⟩

/-! ## Evaluation -/

/-- Whether the node at a position holds of an input. Parts are looked at from left to right, as far
as they matter. As every part stands before its combination, a position is at least as large as the
depth of its condition.
Source: `eval_node`. -/
def holdsAt (nodes : List ConditionNode) (input : Json) :
    (depth : Nat) → (position : Nat) → Except ChoiceError Bool
  | 0, position => .error (.invalidRule (.danglingNode position))
  | depth + 1, position =>
    match nodes[position]? with
    | none => .error (.invalidRule (.danglingNode position))
    | some (.leaf comparison) => comparison.holds input
    | some (.all children) => children.allM (holdsAt nodes input depth)
    | some (.any children) => children.anyM (holdsAt nodes input depth)
    | some (.not child) => (holdsAt nodes input depth child).map (!·)

/-- The target of the first of the rules that holds.
Source: the loop of `evaluate`. -/
def firstMatch? (nodes : List ConditionNode) (input : Json) :
    List ChoiceRule → Except ChoiceError (Option String)
  | [] => .ok none
  | rule :: rest => do
    if ← holdsAt nodes input (rule.root + 1) rule.root then return some rule.next
    firstMatch? nodes input rest

/-- The state that the choice leads to: that of the first rule that holds, or else the fallback.
Source: `evaluate` of `ChoiceRules`. -/
def evaluate (rules : ChoiceRules) (input : Json) : Except ChoiceError String := do
  match ← firstMatch? rules.nodes input rules.rules with
  | some next => return next
  | none =>
    match rules.fallback with
    | some next => return next
    | none => throw .noMatch

end ChoiceRules

/-- What a choice asks of the scheduler: the chosen state with the input.
Source: `choice_results`. -/
def choiceResults (next : String) (value : Json) : List Dispatch := [⟨next, value⟩]

end Workflow
