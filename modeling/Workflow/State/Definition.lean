import Workflow.Json.Reader
import Workflow.State.Body
import Workflow.State.Kind

/-!
# State definitions

A definition is a named state of a declared kind with its body, checked once when it is read.

* `Definition`: a checked definition. A bare task has the empty body.
* `Definition.ofJson`, `Definition.parse`: reading from a document and from its text.
* `DefinitionError`: why a definition is refused.
* `Definition.endsBranch`: whether the state is the last one of a branch of a Parallel state.
-/

namespace Workflow

/-- Why a definition is refused.
Source: `DefinitionError`. -/
inductive DefinitionError where
  | malformed
  | unknownType (name : String)
  | typeMismatch (state declared : String) (found : Option String)
  | missingBranchCount (state : String)
  | wrongBranchCount (state : String) (declared actual : Nat)
  | noBranches (state : String)
  | branchZero (state : String)
  deriving DecidableEq, Repr

/-- The error in words. A document that cannot be read, and one of another type than declared, are
told apart without words. -/
def DefinitionError.message : DefinitionError → Option String
  | malformed => none
  | unknownType name => some (StateKind.unknownMessage name)
  | typeMismatch _ _ _ => none
  | missingBranchCount state =>
    some ("validation error: Parallel state '" ++ state ++ "' is missing BranchCount")
  | wrongBranchCount state declared actual =>
    some ("validation error: Parallel state '" ++ state ++ "' declares BranchCount "
      ++ Text.natText declared ++ " but has " ++ Text.natText actual ++ " branches")
  | noBranches state => some ("validation error: Parallel state '" ++ state ++ "' has no branches")
  | branchZero state =>
    some ("validation error: state '" ++ state
      ++ "' has BranchCounter 0; branch indices are 1-based")

/-- A checked definition of a state, with the document it was read from.
Source: `StateDefinition`. -/
structure Definition where
  name : String
  kind : StateKind
  document : Json
  body : StateBody
  deriving DecidableEq, Repr

namespace Definition

/-- A task without a definition: its document is empty and every field has its default.
Source: `bare_task`. -/
def bareTask (name : String) : Definition := ⟨name, .task, .emptyObject, {}⟩

/-- A Parallel state declares how many branches it has, and has at least one.
Source: `validate`. -/
def checkBranches (d : Definition) : Except DefinitionError Unit :=
  if d.kind ≠ .parallel then .ok ()
  else match d.body.branchCount with
    | none => .error (.missingBranchCount d.name)
    | some declared =>
      if declared ≠ d.body.branches.length then
        .error (.wrongBranchCount d.name declared d.body.branches.length)
      else if declared = 0 then .error (.noBranches d.name)
      else .ok ()

/-- Branches are counted from one.
Source: `validate`. -/
def checkLineage (d : Definition) : Except DefinitionError Unit :=
  match d.body.lineage with
  | some ⟨_, 0⟩ => .error (.branchZero d.name)
  | _ => .ok ()

/-- Reads a definition of the declared type from a document.
Source: `from_value`. -/
def ofJson (typeName name : String) (document : Json) : Except DefinitionError Definition :=
  match StateKind.ofName? typeName with
  | none => .error (.unknownType typeName)
  | some kind =>
    if typeName = StateKind.bareTask then .ok (bareTask name)
    else match StateBody.ofJson? document with
      | none => .error .malformed
      | some body =>
        if body.typeName ≠ some typeName then
          .error (.typeMismatch name typeName body.typeName)
        else do
          let definition : Definition := ⟨name, kind, document, body⟩
          definition.checkBranches
          definition.checkLineage
          return definition

/-- Reads a definition from the text of its document, which for a bare task is not looked at.
Source: `parse` of `StateDefinition`. -/
def parse (typeName name text : String) : Except DefinitionError Definition :=
  if typeName = StateKind.bareTask then .ok (bareTask name)
  else match Json.ofText? text with
    | none => .error .malformed
    | some document => ofJson typeName name document

/-- Whether the state is the last of a branch, so that its output is the output of the branch.
Source: `is_branch_terminal`. -/
def endsBranch (d : Definition) : Bool := d.body.isEnd && d.body.lineage.isSome

end Definition

end Workflow
