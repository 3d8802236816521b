import Workflow.Duration
import Workflow.Json.Record

/-!
# Settings

How patiently a join waits for the outputs of branches, and how the workers of tasks are reached.
Every setting has a default.

* `WorkerSettings`, `Settings`: the settings, with their readers and writers.
* `Settings.pollInterval`, `Settings.pollReads`: how often and how many times an output is read.
* `WorkerSettings.socketPath`, `WorkerSettings.backoff`: where a worker listens, and how long to
  wait for it.
-/

namespace Workflow

/-- How workers are reached.
Source: `WorkerConfig`. -/
structure WorkerSettings where
  socketDirectory : String := "/tmp"
  connectAttempts : Nat := 10
  backoffMillis : Nat := 50
  deriving DecidableEq, Repr

namespace WorkerSettings

/-- The names of the fields, in their order. -/
def fieldNames : List String := ["socket_dir", "connect_attempts", "connect_backoff_ms"]

/-- Reads settings. -/
def ofJson? (v : Json) : Option WorkerSettings := do
  let fields ← v.recordFields? fieldNames
  let defaults : WorkerSettings := {}
  let socketDirectory ←
    Json.withDefault fields "socket_dir" Json.string? defaults.socketDirectory
  let connectAttempts ←
    Json.withDefault fields "connect_attempts" (Json.natBelow? Word.count32) defaults.connectAttempts
  let backoffMillis ←
    Json.withDefault fields "connect_backoff_ms" (Json.natBelow? Word.count64) defaults.backoffMillis
  return { socketDirectory, connectAttempts, backoffMillis }

/-- Settings in a document. -/
def toJson (w : WorkerSettings) : Json :=
  .record [
    ("socket_dir", .string w.socketDirectory),
    ("connect_attempts", .nat w.connectAttempts),
    ("connect_backoff_ms", .nat w.backoffMillis)]

/-- The name of the socket of a state's worker.
Source: `socket_path`. -/
def socketName (state : String) : String := "worker_" ++ state ++ ".uds"

/-- The path of the socket of a state's worker: its name in the directory. An empty directory, or a
slash at its end, needs no slash between.
Source: `socket_path`. -/
def socketPath (w : WorkerSettings) (state : String) : String :=
  let directory := w.socketDirectory
  if directory.isEmpty || directory.toList.getLast? = some '/' then directory ++ socketName state
  else directory ++ "/" ++ socketName state

/-- How long to wait after the given failed attempt, counted from one: the step as many times, as
far as a word of 64 bits can count the milliseconds.
Source: `connect_backoff`. -/
def backoff (w : WorkerSettings) (attempt : Nat) : Duration :=
  .ofMillis (min (w.backoffMillis * attempt) (Word.count64 - 1))

end WorkerSettings

/-- The settings of the interpreter.
Source: `InterpreterConfig`. -/
structure Settings where
  pollMillis : Nat := 100
  pollAttempts : Nat := 600
  worker : WorkerSettings := {}
  deriving DecidableEq, Repr

namespace Settings

/-- The names of the fields, in their order. -/
def fieldNames : List String := ["join_poll_interval_ms", "join_poll_max_attempts", "worker"]

/-- Reads settings. -/
def ofJson? (v : Json) : Option Settings := do
  let fields ← v.recordFields? fieldNames
  let defaults : Settings := {}
  let pollMillis ←
    Json.withDefault fields "join_poll_interval_ms" (Json.natBelow? Word.count64) defaults.pollMillis
  let pollAttempts ←
    Json.withDefault fields "join_poll_max_attempts" (Json.natBelow? Word.count32)
      defaults.pollAttempts
  let worker ← Json.withDefault fields "worker" WorkerSettings.ofJson? defaults.worker
  return { pollMillis, pollAttempts, worker }

/-- Settings in a document. -/
def toJson (s : Settings) : Json :=
  .record [
    ("join_poll_interval_ms", .nat s.pollMillis),
    ("join_poll_max_attempts", .nat s.pollAttempts),
    ("worker", s.worker.toJson)]

/-- The time between two readings of a branch output.
Source: `join_poll_interval`. -/
def pollInterval (s : Settings) : Duration := .ofMillis s.pollMillis

/-- How many times a branch output is read, at least once.
Source: `new` of `ParallelCoordinator`. -/
def pollReads (s : Settings) : Nat := max 1 s.pollAttempts

end Settings

end Workflow
