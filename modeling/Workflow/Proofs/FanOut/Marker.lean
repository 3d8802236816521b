import Workflow.Proofs.FanOut.Nesting

/-!
# The mark of a join

Whether a Parallel state starts its branches or joins them is told by the metadata that it is
invoked with. The mark of a join is entered into them for an invocation that carries a trigger, and
whatever is invoked after that is invoked with the metadata that the invocation has returned.

* **The mark** (`Interpreter.action_of_runs`): no state takes it out, and none puts it in.
* **Paths** (`Interpreter.executeJoin_ne_executeFanOut`): joining is never the same as starting the
  branches.
* **Successions** (`Invocation`, `Handed`, `Handed.isJoin`): invocations each of which has the
  metadata that the one before has returned.
* **Data** (`Handed.data_starts_branches_iff`): a Parallel state invoked with data starts its
  branches, as long as nothing before it has carried a trigger; `again_refuses_data` is the state
  that follows a join.
-/

namespace Workflow

open Activity

variable {σ : Type}

/-! ## The mark -/

namespace Interpreter

section action

variable {i : Interpreter} {task : Task} {input : Json} {run : Run} {environment : Environment σ}
  {s t : σ} {asked : List Request} {outcome : StateOutcome}

/-- A fan-out enters its record into the metadata, and nothing else. -/
theorem action_of_executeFanOut
    (h : Runs environment (i.executeFanOut input run).run s asked (.ok outcome) t) :
    outcome.metadata.action = run.metadata.action := by
  rw [executeFanOut] at h
  obtain ⟨seen, u, before, more, -, hstart, rfl⟩ := h.exists_of_bindOk
  obtain ⟨_, u, before, more, -, hreturn, rfl⟩ := hstart.exists_of_bindOk
  obtain ⟨-, houtcome, -⟩ := hreturn.unique (.done _)
  cases houtcome
  rfl

/-- Every state hands on the mark that it was invoked with. -/
theorem action_of_runs
    (h : Runs environment (i.execute task input run).run s asked (.ok outcome) t) :
    outcome.metadata.action = run.metadata.action := by
  by_cases hkind : i.definition.kind = .parallel
  · cases hjoin : run.metadata.isJoin with
    | true =>
      obtain ⟨_, _, -, -, hmetadata⟩ := exists_of_executeJoin hkind hjoin h
      rw [hmetadata]
    | false =>
      rw [execute, if_pos hkind, hjoin] at h
      exact action_of_executeFanOut h
  · obtain ⟨seen, performance, before, more, u, -, -, hconclude, -⟩ := exists_performed hkind h
    obtain ⟨-, hmetadata, -⟩ := runs_conclude hconclude
    rw [hmetadata]

end action

/-! ## Paths -/

section paths

variable (i : Interpreter) (input : Json) (run : Run)

/-- Without a trigger there is nothing to join. -/
theorem executeJoin_of_none (h : JoinTrigger.ofJson? input = none) :
    (i.executeJoin input run).run = .done (.error .invalidTrigger) := by
  rw [executeJoin, h]
  rfl

/-- A join begins with a reading, if it begins at all. -/
theorem executeJoin_cases :
    (i.executeJoin input run).run = .done (.error .invalidTrigger) ∨
      ∃ key resume, (i.executeJoin input run).run = .ask (.store (.get key)) resume := by
  cases htrigger : JoinTrigger.ofJson? input with
  | none => exact .inl (i.executeJoin_of_none input run htrigger)
  | some trigger =>
    rw [executeJoin, htrigger]
    exact .inr ⟨trigger.metadataKey, _, rfl⟩

/-- A fan-out begins with its counter, if it begins at all. -/
theorem executeFanOut_cases :
    (∃ e, (i.executeFanOut input run).run = .done (.error (.path e))) ∨
      ∃ name resume,
        (i.executeFanOut input run).run = .ask (.store (.createCounter name 0)) resume := by
  rw [executeFanOut]
  cases i.definition.body.inputPath.cutInput input with
  | error e => exact .inl ⟨e, rfl⟩
  | ok seen => exact .inr ⟨_, _, rfl⟩

/-- A state does not do the same when it joins as when it starts its branches. -/
theorem executeJoin_ne_executeFanOut : i.executeJoin input run ≠ i.executeFanOut input run := by
  intro h
  have hrun : (i.executeJoin input run).run = (i.executeFanOut input run).run := congrArg _ h
  rcases i.executeJoin_cases input run with hjoin | ⟨key, resume, hjoin⟩ <;>
    rcases i.executeFanOut_cases input run with ⟨e, hstart⟩ | ⟨name, resume', hstart⟩ <;>
    rw [hjoin, hstart] at hrun <;> cases hrun

/-- A Parallel state starts its branches exactly if its metadata are not marked. -/
theorem execute_eq_executeFanOut_iff {i : Interpreter} (hkind : i.definition.kind = .parallel)
    (task : Task) (input : Json) (run : Run) :
    i.execute task input run = i.executeFanOut input run ↔ run.metadata.isJoin = false := by
  rw [execute, if_pos hkind]
  cases run.metadata.isJoin with
  | true => simp [i.executeJoin_ne_executeFanOut input run]
  | false => simp

end paths

end Interpreter

/-! ## Successions -/

/-- What an invocation carries: data of the run, or the trigger of a join. -/
inductive Carried where
  | data (v : Json)
  | trigger (t : JoinTrigger)

namespace Carried

/-- The input of the invocation. -/
def input : Carried → Json
  | data v => v
  | trigger t => t.toJson

/-- Whether the invocation is to join. -/
def isTrigger : Carried → Bool
  | data _ => false
  | trigger _ => true

/-- The metadata of the invocation: for a trigger, the mark of a join is entered. -/
def mark (c : Carried) (m : Metadata) : Metadata :=
  if c.isTrigger then { m with action := some .join } else m

/-- The metadata of an invocation are marked if they were before, or if it carries a trigger. -/
theorem isJoin_mark (c : Carried) (m : Metadata) :
    (c.mark m).isJoin = (m.isJoin || c.isTrigger) := by
  cases c <;> simp [mark, isTrigger, Metadata.isJoin]

end Carried

/-- An invocation of a state of a run. -/
structure Invocation where
  state : Interpreter
  task : Task
  carried : Carried

/-- What the invocation does, in a run whose metadata are these. -/
def Invocation.activity (v : Invocation) (run : Run) (m : Metadata) :
    Activity (Except StateError StateOutcome) :=
  (v.state.execute v.task v.carried.input (run.withMetadata (v.carried.mark m))).run

/-- Invocations have been made one after the other, each with the metadata that the one before has
returned, and the last one has returned these. -/
inductive Handed (start : Metadata) : List Invocation → Metadata → Prop
  | start : Handed start [] start
  | next {σ : Type} {earlier : List Invocation} {before : Metadata}
      (handed : Handed start earlier before) (v : Invocation) (run : Run)
      {environment : Environment σ} {s t : σ} {asked : List Request} {outcome : StateOutcome}
      (runs : Runs environment (v.activity run before) s asked (.ok outcome) t) :
      Handed start (earlier ++ [v]) outcome.metadata

namespace Handed

variable {start before : Metadata} {earlier : List Invocation}

/-- Metadata are marked once an invocation has carried a trigger, and from then on. -/
theorem isJoin (h : Handed start earlier before) :
    before.isJoin = (start.isJoin || earlier.any fun v => v.carried.isTrigger) := by
  induction h with
  | start => simp
  | @next _ earlier before _ v run _ _ _ _ outcome runs ih =>
    have haction : outcome.metadata.isJoin = (v.carried.mark before).isJoin := by
      rw [Metadata.isJoin, Interpreter.action_of_runs runs]
      rfl
    rw [haction, Carried.isJoin_mark, ih, List.any_append, List.any_cons, List.any_nil,
      Bool.or_false, Bool.or_assoc]

/-! ## Data -/

/-- In a run that has not begun with a join, a Parallel state that is invoked with data starts its
branches exactly if nothing before it has carried a trigger. After a trigger it takes the data for
one, and is refused unless they are. -/
theorem data_starts_branches_iff (hstart : start.isJoin = false) (h : Handed start earlier before)
    {i : Interpreter} (hkind : i.definition.kind = .parallel) (task : Task) (v : Json) (run : Run) :
    (i.execute task v (run.withMetadata before) = i.executeFanOut v (run.withMetadata before) ↔
        ∀ other ∈ earlier, other.carried.isTrigger = false) ∧
      ((∃ other ∈ earlier, other.carried.isTrigger = true) → JoinTrigger.ofJson? v = none →
        (i.execute task v (run.withMetadata before)).run = .done (.error .invalidTrigger)) := by
  have hbefore : (run.withMetadata before).metadata.isJoin =
      earlier.any fun other => other.carried.isTrigger := by
    change before.isJoin = _
    rw [h.isJoin, hstart, Bool.false_or]
  constructor
  · rw [i.execute_eq_executeFanOut_iff hkind, hbefore, List.any_eq_false]
    simp
  · intro htrigger hv
    rw [Interpreter.execute, if_pos hkind, hbefore, if_pos (List.any_eq_true.mpr htrigger)]
    exact i.executeJoin_of_none v _ hv

end Handed

/-! ### A state behind a join -/

namespace Succession

/-- The document of a Parallel state with one branch. -/
def fanDocument : Json :=
  .object [
    ("Type", .string "Parallel"),
    ("Next", .string "Again"),
    ("BranchCount", .nat 1),
    ("Branches", .array [.object [("StartAt", .string "Last")]])]

/-- The document of the only state of the branch. -/
def lastDocument : Json :=
  .object [
    ("Type", .string "Pass"),
    ("End", .bool true),
    ("ParentParallelInfo", .object [("Name", .string "Fan"), ("BranchCounter", .nat 1)])]

/-- The document of a Parallel state that follows. -/
def againDocument : Json :=
  .object [
    ("Type", .string "Parallel"),
    ("End", .bool true),
    ("BranchCount", .nat 1),
    ("Branches", .array [.object [("StartAt", .string "Deep")]])]

/-- The Parallel state that is read from its document. -/
def fan : Interpreter where
  settings := {}
  definition := {
    name := "Fan"
    kind := .parallel
    document := fanDocument
    body := {
      typeName := some "Parallel"
      next := some "Again"
      branches := [⟨"Last", none⟩]
      branchCount := some 1 } }

/-- The state of the branch of `fan`. -/
def last : Interpreter where
  settings := {}
  definition := {
    name := "Last"
    kind := .pass
    document := lastDocument
    body := { typeName := some "Pass", isEnd := true, lineage := some ⟨"Fan", 1⟩ } }

/-- The Parallel state that follows `fan`. -/
def again : Interpreter where
  settings := {}
  definition := {
    name := "Again"
    kind := .parallel
    document := againDocument
    body := {
      typeName := some "Parallel"
      isEnd := true
      branches := [⟨"Deep", none⟩]
      branchCount := some 1 } }

example : Definition.ofJson "Parallel" "Fan" fanDocument = .ok fan.definition := by rfl

example : Definition.ofJson "Pass" "Last" lastDocument = .ok last.definition := by rfl

example : Definition.ofJson "Parallel" "Again" againDocument = .ok again.definition := by rfl

/-- The run, as the state of a name sees it. -/
def runOf (state : String) : Run := .make "run" ("wf_" ++ state)

/-- The metadata once the branch of `fan` has been started. -/
def entered : Metadata := (FanOut.enter fan.definition (runOf "Fan")).metadata

/-- The metadata once the branch of `fan` has been joined. -/
def marked : Metadata := { entered with action := some .join }

/-- The invocation that starts the branch of `fan`. -/
def starts : Invocation := ⟨fan, .echo, .data (.bool true)⟩

/-- The invocation that ends the branch of `fan`. -/
def ends : Invocation := ⟨last, .echo, .data (.bool true)⟩

/-- The invocation that joins the branch of `fan`. -/
def joins : Invocation := ⟨fan, .echo, .trigger (FanOut.finalTrigger (runOf "Fan") 1)⟩

/-- The world once the branch of `fan` has been started. -/
def started : World := (World.perform {} (starts.activity (runOf "Fan") {})).2

/-- The world once the branch of `fan` has ended. -/
def ended : World := (started.perform (ends.activity (runOf "Last") entered)).2

/-- The world once the branch of `fan` has been joined. -/
def joined : World := (ended.perform (joins.activity (runOf "Fan") entered)).2

/-- With its data the state `fan` is dispatched, and its record is entered into the metadata. -/
theorem runs_starts : (World.perform {} (starts.activity (runOf "Fan") {})).1 =
    .ok { output := .bool true, transition := .dispatched, metadata := entered } := by
  decide +kernel

/-- With its branch the state `last` ends, and its metadata are those that it was invoked with. -/
theorem runs_ends : (started.perform (ends.activity (runOf "Last") entered)).1 =
    .ok { output := .bool true, transition := .finish, metadata := entered } := by
  decide +kernel

/-- With the trigger the state `fan` gives the outputs and is dispatched, and the metadata are
marked. -/
theorem runs_joins : (ended.perform (joins.activity (runOf "Fan") entered)).1 =
    .ok { output := .array [.bool true], transition := .dispatched, metadata := marked } := by
  decide +kernel

/-- After the start of the branch the metadata are those with the record. -/
theorem handed_starts : Handed {} [starts] entered :=
  Handed.start.next starts (runOf "Fan") ⟨rfl, Prod.ext runs_starts rfl⟩

/-- After the start, the end of the branch and the join the metadata are marked. -/
theorem handed_joins : Handed {} [starts, ends, joins] marked :=
  (handed_starts.next ends (runOf "Last") ⟨rfl, Prod.ext runs_ends rfl⟩).next joins (runOf "Fan")
    ⟨rfl, Prod.ext runs_joins rfl⟩

end Succession

open Succession

namespace Interpreter

/-- A Parallel state in the branch of another one starts its branches. -/
theorem inner_starts_branches :
    Handed {} [starts] entered ∧
      execute { definition := inner, settings := {} } .echo (.bool true)
          ((runOf "Inner").withMetadata entered) =
        executeFanOut { definition := inner, settings := {} } (.bool true)
          ((runOf "Inner").withMetadata entered) :=
  ⟨handed_starts, (handed_starts.data_starts_branches_iff rfl rfl .echo (.bool true)
    (runOf "Inner")).1.mpr (by decide)⟩

/-- A Parallel state behind a join is handed the list of the outputs and the metadata of the join,
and refuses them. -/
theorem again_refuses_data :
    Handed {} [starts, ends, joins] marked ∧
      joined.queue.getLast? = some ⟨"Again", .array [.bool true]⟩ ∧
      (joined.perform (again.execute .echo (.array [.bool true])
        ((runOf "Again").withMetadata marked)).run).1 = .error .invalidTrigger ∧
      again.execute .echo (.array [.bool true]) ((runOf "Again").withMetadata marked) ≠
        again.executeFanOut (.array [.bool true]) ((runOf "Again").withMetadata marked) :=
  ⟨handed_joins, by decide +kernel, by decide +kernel,
    (execute_eq_executeFanOut_iff rfl .echo _ _).not.mpr (by decide)⟩

end Interpreter

end Workflow
