import Workflow.Settings
import Workflow.Toml.Reader
import Workflow.Worker.Line

/-!
# Reading the settings

The settings stand in a TOML document. Whatever is wrong with it, the defaults hold.

* `Settings.ofText?`: the settings of a document.
* `Settings.ofFile`: the settings of a file, if it could be read.
-/

namespace Workflow.Settings

/-- The settings of the worker when they are written as an array: further items do not count. -/
def cutWorker (fields : List (String × Json)) : List (String × Json) :=
  fields.map fun (name, v) =>
    match v with
    | .array items =>
      if name = "worker" then (name, .array (items.take WorkerSettings.fieldNames.length))
      else (name, v)
    | v => (name, v)

/-- The settings of a document. -/
def ofText? (text : String) : Option Settings := do
  let fields ← (← Toml.document? text).object?
  ofJson? (.object (cutWorker fields))

/-- The settings of a file with the given bytes, or of one that cannot be read.
Source: `load_interpreter_config`. -/
def ofFile (bytes : Option (List UInt8)) : Settings :=
  ((bytes.bind utf8Text?).bind ofText?).getD {}

end Workflow.Settings
