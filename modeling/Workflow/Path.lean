import Workflow.Json
import Workflow.Text.Blank
import Workflow.Text.Digits

/-!
# Paths into a document

A path names places in a document, starting at its root: `$`, then fields `.name`, `['name']` or
`["name"]`, items `[0]`, and all children `.*` or `[*]`.

* `Segment`, `Path`: one step, and the steps in order with the text they were read from.
* `Path.ofText?`: reads a path; `PathFault` says what is wrong with one that is refused.
* `Segment.next`, `Path.select`: the values that a step, or a whole path, leads to.
* `Path.first?`: the first of them in document order.
* `Path.lastField?`: the field that a path ends in.
-/

namespace Workflow

/-- One step of a path.
Source: `Segment`. -/
inductive Segment where
  | field (name : String)
  | index (position : Nat)
  | wildcard
  deriving DecidableEq, Repr

/-- A path: its steps, and the text that it was read from.
Source: `JsonPath`. -/
structure Path where
  expression : String
  segments : List Segment
  deriving DecidableEq, Repr

/-- What is wrong with a text that is no path.
Source: the reasons of `PathError`. -/
inductive PathFault where
  | noRoot
  | emptyName
  | malformedBracket
  | noSelector
  deriving DecidableEq, Repr

/-- The fault in words. -/
def PathFault.message : PathFault → String
  | noRoot => "must start with '$'"
  | emptyName => "empty field name"
  | malformedBracket => "malformed bracket selector"
  | noSelector => "expected '.' or '['"

namespace Path

/-! ## Reading -/

/-- The marks that may quote a name.
Source: the quotes in `parse_bracket`. -/
def isQuote (c : Char) : Bool := c == '"' || c == '\x27'

/-- Whether a character ends a name that stands after a point.
Source: the names in `compile`. -/
def endsName (c : Char) : Bool := c == '.' || c == '['

/-- Reads a step in brackets, after the opening one. A quoted name extends to the next quote of its
kind; an index may be surrounded by white space.
Source: `parse_bracket`. -/
def bracket? : List Char → Option (Segment × List Char)
  | '*' :: ']' :: rest => some (.wildcard, rest)
  | [] => none
  | c :: rest =>
    if isQuote c then
      let name := rest.takeWhile (· != c)
      match rest.dropWhile (· != c) with
      | _ :: ']' :: rest => some (.field (String.ofList name), rest)
      | _ => none
    else
      let inner := (c :: rest).takeWhile (· != ']')
      match (c :: rest).dropWhile (· != ']') with
      | _ :: rest => (Text.natural? Word.count64 (Text.trim inner)).map fun n => (.index n, rest)
      | [] => none

/-- Reads the steps of a path. Each takes at least one character, so as many steps as there are
characters suffice.
Source: the loop of `compile`. -/
def readSegments : (steps : Nat) → List Char → Except PathFault (List Segment)
  | _, [] => .ok []
  | 0, _ :: _ => .error .noSelector
  | steps + 1, '.' :: '*' :: rest => (readSegments steps rest).map (.wildcard :: ·)
  | steps + 1, '.' :: rest =>
    let name := rest.takeWhile (!endsName ·)
    if name.isEmpty then .error .emptyName
    else (readSegments steps (rest.dropWhile (!endsName ·))).map (.field (String.ofList name) :: ·)
  | steps + 1, '[' :: rest =>
    match bracket? rest with
    | some (segment, rest) => (readSegments steps rest).map (segment :: ·)
    | none => .error .malformedBracket
  | _ + 1, _ :: _ => .error .noSelector

/-- Reads a path; white space around it does not matter, but is kept in its text.
Source: `compile` of `JsonPath`. -/
def ofText? (expression : String) : Except PathFault Path :=
  match Text.trim expression.toList with
  | '$' :: rest => (readSegments rest.length rest).map fun segments => ⟨expression, segments⟩
  | _ => .error .noRoot

/-! ## Selecting -/

end Path

/-- The values that a step leads to: a field only in an object, an item only in an array, and all
children in either.
Source: the steps in `select`. -/
def Segment.next : Segment → Json → List Json
  | field name, v => (v.field? name).toList
  | index position, v => (v.item? position).toList
  | wildcard, v => v.children

namespace Path

/-- The values that a list of steps leads to, taking one step after the other from all values
reached so far.
Source: the loop of `select`. -/
def follow (segments : List Segment) (reached : List Json) : List Json :=
  segments.foldl (fun reached segment => reached.flatMap segment.next) reached

/-- The values at the places that the path names, in document order.
Source: `select`. -/
def select (path : Path) (data : Json) : List Json := follow path.segments [data]

/-- The value at the first of those places.
Source: `first`. -/
def first? (path : Path) (data : Json) : Option Json := (path.select data).head?

/-- The field in which the path ends, if its last step is one.
Source: `last_field`. -/
def lastField? (path : Path) : Option String :=
  match path.segments.getLast? with
  | some (.field name) => some name
  | _ => none

end Path

end Workflow
