import Workflow.Proofs.FanOut.BranchEnd
import Workflow.Proofs.FanOut.Join

/-!
# Parallel states within branches

A Parallel state can be the end of a branch of another one. It is ended by its join, which reads and
removes what the inner fan-out has kept and hands the outputs on, and does nothing else: whatever
the state is declared to be, no output is recorded for the outer fan-out.

* **What a join asks for** (`FanOut.join_onlyAsks`): nothing that brings anything into the store.
* **What is handed on** (`FanOut.dispatches_join`): the outputs, if there have been any.
* **The join of an invocation** (`Interpreter.exists_of_executeJoin`,
  `Interpreter.join_records_nothing`).
-/

namespace Workflow

open Activity

variable {σ : Type}

/-! ## What a join asks for -/

namespace FanOut

/-- Whether a request neither brings anything into the store nor hands anything over. -/
def IsGathering (request : Request) : Prop := request.adds = false ∧ request.IsRestrained

/-- To gather outputs brings nothing into the store and hands nothing over. -/
theorem collect_isGathering (settings : Settings) (finished keys : List String) :
    (collect settings finished keys).run.OnlyAsks IsGathering :=
  collect_onlyAsks (fun _ _ => ⟨rfl, rfl⟩) ⟨rfl, rfl⟩ finished

/-- To clean up brings nothing into the store and hands nothing over. -/
theorem cleanUp_isGathering (record : FanOutRecord) (metadataKey : String)
    (consumed : List String) : (cleanUp record metadataKey consumed).run.OnlyAsks IsGathering :=
  cleanUp_onlyAsks fun place _ => by cases place <;> exact ⟨rfl, rfl⟩

/-- A join brings nothing into the store. -/
theorem join_onlyAsks (settings : Settings) (d : Definition) (trigger : JoinTrigger) :
    (join settings d trigger).run.OnlyAsks fun request => request.adds = false := by
  have hgathering (request : Request) (h : IsGathering request) : request.adds = false := h.1
  refine .bindFailing (call_onlyAsks rfl) fun found => ?_
  cases found with
  | none => trivial
  | some stored =>
    refine .bindFailing (.nothing _) fun record => ?_
    refine .bindFailing (call_onlyAsks rfl) fun finished => ?_
    split
    · trivial
    · have hcollect := (collect_isGathering settings finished record.branchOutputs).mono hgathering
      refine .bindFailing hcollect fun outputs => ?_
      have hlast : (proceed d (.array outputs)).OnlyAsks fun request => request.adds = false := by
        rw [proceed_eq]
        exact handAll_onlyAsks fun _ _ => rfl
      split
      · refine .bindFailing ((cleanUp_isGathering record _ _).mono hgathering) fun _ => ?_
        exact .bindFailing hlast.liftM fun _ => trivial
      · exact .bindFailing hlast.liftM fun _ => trivial

/-! ## What is handed on -/

section course

variable {environment : Environment σ} {s t : σ} {asked : List Request}

/-- Requests that are restrained hand nothing to the scheduler. -/
theorem filterMap_dispatch?_eq_nil {α : Type} {a : Activity α} {result : α}
    (h : Runs environment a s asked result t) (ha : a.OnlyAsks IsGathering) :
    asked.filterMap Request.dispatch? = [] := by
  rw [← h.requests]
  exact (ha.mono fun _ h => h.2).dispatches_eq_nil

/-- What follows is handed to the scheduler. -/
theorem dispatches_proceed (environment : Environment σ) (d : Definition) (value : Json) (s : σ) :
    (proceed d value).dispatches environment s = handedOn d value := by
  rw [proceed, handedOn]
  cases d.body.next <;> cases d.body.isEnd <;> rfl

/-- The last step of a join that gives outputs hands these over, and nothing else. -/
theorem dispatches_deliver {d : Definition} {outputs : List Json} {isFinal : Bool}
    {outcome : JoinOutcome}
    (h : Runs environment (do
      proceed d (.array outputs)
      return .joined outputs isFinal : ExceptT FanOutError Activity JoinOutcome).run s asked
        (.ok outcome) t) :
    outcome = .joined outputs isFinal ∧
      asked.filterMap Request.dispatch? = handedOn d (.array outputs) := by
  obtain ⟨_, u, before, more, hproceed, hreturn, rfl⟩ := h.exists_of_bindOk
  obtain ⟨rfl, houtcome, -⟩ := hreturn.unique (.done _)
  cases houtcome
  rw [List.append_nil, ← hproceed.of_liftM.requests]
  exact ⟨rfl, dispatches_proceed environment d (.array outputs) s⟩

/-- A join that has succeeded has handed over its outputs, if it has found any. -/
theorem dispatches_join {settings : Settings} {d : Definition} {trigger : JoinTrigger}
    {outcome : JoinOutcome}
    (h : Runs environment (join settings d trigger).run s asked (.ok outcome) t) :
    asked.filterMap Request.dispatch? =
      match outcome with
      | .joined outputs _ => handedOn d (.array outputs)
      | .alreadyJoined => [] := by
  rw [join] at h
  obtain ⟨found, u, more, -, rfl, hfound⟩ := exists_of_call_bind h
  cases found with
  | none =>
    obtain ⟨rfl, houtcome, -⟩ := hfound.unique (.done _)
    cases houtcome
    rfl
  | some stored =>
    obtain ⟨record, u, before, more, hrecord, hrest, rfl⟩ := hfound.exists_of_bindOk
    obtain ⟨rfl, -, rfl⟩ := hrecord.unique (.done _)
    obtain ⟨finished, u, more, -, rfl, hfinished⟩ := exists_of_call_bind hrest
    split at hfinished
    case isTrue =>
      obtain ⟨_, _, _, _, hempty, -, -⟩ := hfinished.exists_of_bindOk
      obtain ⟨-, hfailed, -⟩ := hempty.unique (.done _)
      cases hfailed
    case isFalse =>
      obtain ⟨outputs, u, reads, more, hcollect, hcollected, rfl⟩ := hfinished.exists_of_bindOk
      -- up to here the join has read and, if it is the final one, it goes on to remove: only the
      -- last step hands anything over
      have hnothing := filterMap_dispatch?_eq_nil hcollect (collect_isGathering settings finished _)
      split at hcollected
      · obtain ⟨_, u, removals, last, hclean, hlast, rfl⟩ := hcollected.exists_of_bindOk
        have hnothing' := filterMap_dispatch?_eq_nil hclean (cleanUp_isGathering _ _ _)
        obtain ⟨rfl, hhanded⟩ := dispatches_deliver hlast
        change (reads ++ (removals ++ last)).filterMap Request.dispatch? = _
        rw [List.filterMap_append, hnothing, List.filterMap_append, hnothing', hhanded]
        rfl
      · obtain ⟨rfl, hhanded⟩ := dispatches_deliver hcollected
        change (reads ++ more).filterMap Request.dispatch? = _
        rw [List.filterMap_append, hnothing, hhanded]
        rfl

end course

end FanOut

/-! ## The join of an invocation -/

namespace Interpreter

section join

variable {i : Interpreter} {task : Task} {input : Json} {run : Run} {environment : Environment σ}
  {s t : σ} {asked : List Request} {outcome : StateOutcome}

/-- What an invocation gives that has joined. -/
def joinOutput : JoinOutcome → Json
  | .joined outputs _ => .array outputs
  | .alreadyJoined => .null

/-- An invocation that is to join asks for what the join asks for, and leaves the metadata of its
run as they are. -/
theorem exists_of_executeJoin (hkind : i.definition.kind = .parallel)
    (hjoin : run.metadata.isJoin = true)
    (h : Runs environment (i.execute task input run).run s asked (.ok outcome) t) :
    ∃ trigger joined,
      Runs environment (FanOut.join i.settings i.definition trigger).run s asked (.ok joined) t ∧
        outcome.output = joinOutput joined ∧ outcome.metadata = run.metadata := by
  rw [execute, if_pos hkind, if_pos hjoin, executeJoin] at h
  cases htrigger : JoinTrigger.ofJson? input with
  | none =>
    rw [htrigger] at h
    obtain ⟨-, hfailed, -⟩ := h.unique (.done _)
    cases hfailed
  | some trigger =>
    rw [htrigger] at h
    obtain ⟨joined, u, before, more, hjoined, hreturn, rfl⟩ := h.exists_of_bindOk
    obtain ⟨rfl, houtcome, rfl⟩ := hreturn.unique (.done _)
    cases houtcome
    rw [List.append_nil]
    exact ⟨trigger, joined, hjoined.of_adapt, by cases joined <;> rfl, rfl⟩

end join

/-- The join of a Parallel state brings nothing into the store, and so records no output, not even
if the state is the end of a branch; what it has joined is handed to the scheduler. -/
theorem join_records_nothing {i : Interpreter} {run : Run} (hkind : i.definition.kind = .parallel)
    (hjoin : run.metadata.isJoin = true) (task : Task) (input : Json) :
    (∀ {σ : Type} (environment : Environment σ) (s t : σ) (asked : List Request)
        (outcome : StateOutcome),
      Runs environment (i.execute task input run).run s asked (.ok outcome) t →
      (∀ request ∈ asked, request.adds = false) ∧
        ∀ outputs, outcome.output = .array outputs →
          asked.filterMap Request.dispatch? = FanOut.handedOn i.definition outcome.output) ∧
      ∀ (w v : World) (outcome : StateOutcome), w.later = [] →
        w.perform (i.execute task input run).run = (.ok outcome, v) →
        v.fired = w.fired ∧
          ∀ record key, ¬ FanOut.BranchRecorded record key outcome.output w v := by
  refine ⟨fun environment s t asked outcome h => ?_, fun w v outcome hw h => ?_⟩
  · obtain ⟨trigger, joined, hjoined, houtput, -⟩ := exists_of_executeJoin hkind hjoin h
    have honly := FanOut.join_onlyAsks i.settings i.definition trigger
    constructor
    · rw [← hjoined.requests]
      exact honly.of_mem_requests
    · intro outputs houtputs
      have hhanded := FanOut.dispatches_join hjoined
      cases joined with
      | joined outputs isFinal =>
        rw [houtput]
        exact hhanded
      | alreadyJoined =>
        rw [houtput] at houtputs
        cases houtputs
  · obtain ⟨trigger, joined, hjoined, -⟩ := exists_of_executeJoin hkind hjoin (Runs.mk rfl h)
    have honly := FanOut.join_onlyAsks i.settings i.definition trigger
    have huncounted := World.uncounted_of_onlyAsks
      (honly.mono fun _ => Request.isUncounted_of_adds) hw
    rw [hjoined.run] at huncounted
    exact ⟨huncounted.fired, fun record key hrecorded => hrecorded.not_uncounted huncounted⟩

/-! ### A fan-out within a branch -/

/-- The document of a Parallel state that is the only state of the only branch of another one. -/
def innerDocument : Json :=
  .object [
    ("Type", .string "Parallel"),
    ("End", .bool true),
    ("BranchCount", .nat 1),
    ("Branches", .array [.object [("StartAt", .string "Deep")]]),
    ("ParentParallelInfo", .object [("Name", .string "Fan"), ("BranchCounter", .nat 1)])]

/-- The state that is read from `innerDocument`. -/
def inner : Definition where
  name := "Inner"
  kind := .parallel
  document := innerDocument
  body := {
    typeName := some "Parallel"
    isEnd := true
    branches := [⟨"Deep", none⟩]
    branchCount := some 1
    lineage := some ⟨"Fan", 1⟩ }

example : Definition.ofJson "Parallel" "Inner" innerDocument = .ok inner := by rfl

/-- The run once the inner fan-out has been entered into it. -/
def innerRun : Run := FanOut.enter inner (loneRun.forTopic "wf_Inner")

/-- The end of the only branch of the inner fan-out. -/
def deep : Definition where
  name := "Deep"
  kind := .pass
  document := .emptyObject
  body := { isEnd := true, lineage := some ⟨"Inner", 1⟩ }

/-- A world in which both fan-outs have been started and the inner branch has ended. -/
def innerWorld : World :=
  let started := (loneWorld.perform (FanOut.start inner .null innerRun).run).2
  (started.perform (FanOut.recordBranch deep (.bool true) innerRun).run).2

/-- The run as it comes to the join. -/
def innerJoinRun : Run :=
  innerRun.withMetadata { innerRun.metadata with action := some .join }

/-- The invocation that joins the inner fan-out. -/
def innerJoin : Activity (Except StateError StateOutcome) :=
  (execute { definition := inner, settings := {} } .echo (FanOut.finalTrigger innerRun 1).toJson
    innerJoinRun).run

/-- What `innerJoin` leads to. -/
def innerOutcome : StateOutcome where
  output := .array [.bool true]
  transition := .dispatched
  metadata := innerJoinRun.metadata

/-- In `innerWorld` the join of the inner fan-out leads to `innerOutcome`. -/
theorem perform_innerJoin : (innerWorld.perform innerJoin).1 = .ok innerOutcome := by
  decide +kernel

/-- The join `innerJoin` gives its list, and no output of the outer branch is recorded. -/
theorem innerJoin_records_nothing :
    (innerWorld.perform innerJoin).1 = .ok innerOutcome ∧
      (innerWorld.perform innerJoin).2.fired = innerWorld.fired ∧
      ∀ key, ¬ FanOut.BranchRecorded loneRecord key innerOutcome.output innerWorld
        (innerWorld.perform innerJoin).2 := by
  have hlater : innerWorld.later = [] := by decide +kernel
  have hperform : innerWorld.perform innerJoin =
      (.ok innerOutcome, (innerWorld.perform innerJoin).2) := by
    rw [← perform_innerJoin, Prod.mk.eta]
  have hjoin : innerJoinRun.metadata.isJoin = true := by decide
  have hnothing := (join_records_nothing (i := { definition := inner, settings := {} }) rfl hjoin
    .echo (FanOut.finalTrigger innerRun 1).toJson).2 innerWorld (innerWorld.perform innerJoin).2
    innerOutcome hlater hperform
  exact ⟨perform_innerJoin, hnothing.1, hnothing.2 loneRecord⟩

/-- The outer counter stands where it stood: the outer fan-out goes on waiting for its branch. -/
theorem innerJoin_leaves_outer :
    (innerWorld.perform innerJoin).1 = .ok innerOutcome ∧
      innerWorld.store.content? (.counter loneRecord.counter) = some (0 : Int) ∧
      (innerWorld.perform innerJoin).2.store.content? (.counter loneRecord.counter) =
        some (0 : Int) :=
  ⟨perform_innerJoin, by decide +kernel⟩

end Interpreter

end Workflow
