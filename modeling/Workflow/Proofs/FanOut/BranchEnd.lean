import Workflow.Proofs.Counting
import Workflow.Proofs.Interpreter

/-!
# The end of a branch

The output of a branch is recorded by the state that ends it: it is left under the key of the
branch, the key is entered into the set of the fan-out, and at last the counter is added to. Whether
a state ends its branch is told by where its run goes; whether it records its output, by its
declaration alone, so that the two need not agree.

* **Recording** (`FanOut.RecordsBranch`, `FanOut.BranchRecorded`): an output that has been recorded,
  as the requests tell it and as the store does; `FanOut.exists_of_recordBranch`,
  `FanOut.branchRecorded_of_answers`.
* **The end of a state** (`Interpreter.runs_conclude_finish`, `Interpreter.finish_records_iff`): of
  the states that end a branch, those record their output that are declared to be an end.
-/

namespace Workflow

open Activity

variable {σ : Type}

/-! ## Recording -/

namespace FanOut

/-- What it takes to record the output of a branch. -/
def recording (record : FanOutRecord) (key : String) (output : Json) : List Request :=
  [.store (.put key output), .store (.addMember record.outputSet key),
    .store (.increment record.counter 1)]

/-- The last things that were asked for have recorded the output of a branch, with success, and
nothing else has been counted. -/
structure RecordsBranch (environment : Environment σ) (record : FanOutRecord) (key : String)
    (output : Json) (asked : List Request) (t : σ) : Prop where
  recorded : ∃ before s s₁ s₂ count, asked = before ++ recording record key output ∧
    environment (.store (.put key output)) s = (.ok (), s₁) ∧
    environment (.store (.addMember record.outputSet key)) s₁ = (.ok (), s₂) ∧
    environment (.store (.increment record.counter 1)) s₂ = (.ok count, t)
  counted : asked.filter Request.counts = [.store (.increment record.counter 1)]

/-- From one world to another, the output of a branch has been recorded. -/
structure BranchRecorded (record : FanOutRecord) (key : String) (output : Json) (w v : World) :
    Prop where
  output : v.store.content? (.value key) = some output
  member : key ∈ v.store.membersOf record.outputSet
  count : ∃ count : Int, w.store.content? (.counter record.counter) = some count ∧
    v.store.content? (.counter record.counter) = some (count + 1)

section recordBranch

variable {environment : Environment σ} {s t : σ} {asked : List Request} {d : Definition}
  {run : Run} {lineage : BranchLineage} {record : FanOutRecord} {key : String} {output : Json}
  {count : Int}

/-- In a sequence that has succeeded the first call has been granted. -/
theorem exists_of_call_bind {c : StoreCall} {α : Type}
    {f : c.Reply → ExceptT FanOutError Activity α} {result : α}
    (h : Runs environment (call c >>= f).run s asked (.ok result) t) :
    ∃ reply u more, environment (.store c) s = (.ok reply, u) ∧ asked = .store c :: more ∧
      Runs environment (f reply).run u more (.ok result) t := by
  rw [call_bind_run] at h
  rcases hanswer : environment (.store c) s with ⟨e | reply, u⟩
  · obtain ⟨-, hfailed, -⟩ := h.unique (.ask hanswer (.done _))
    cases hfailed
  · have hrest := Runs.intro environment (f reply).run u
    obtain ⟨rfl, hresult, rfl⟩ := h.unique (.ask hanswer hrest)
    rw [← hresult] at hrest
    exact ⟨reply, u, _, rfl, rfl, hrest⟩

/-- A last call that has succeeded has been granted. -/
theorem eq_of_call {c : StoreCall} {reply : c.Reply}
    (h : Runs environment (call c).run s asked (.ok reply) t) :
    environment (.store c) s = (.ok reply, t) ∧ asked = [.store c] := by
  rw [← bind_pure (call c)] at h
  obtain ⟨reply', u, more, hanswer, rfl, hrest⟩ := exists_of_call_bind h
  obtain ⟨rfl, hresult, rfl⟩ := hrest.unique (.done (Except.ok reply'))
  cases hresult
  exact ⟨hanswer, rfl⟩

/-- The branch that a state belongs to is one of its fan-out. -/
theorem branchPlace_eq_ok (hlineage : d.body.lineage = some lineage)
    (hrecord : run.metadata.fanOut? lineage.name run.executionId = some record)
    {place : FanOutRecord × String} (h : branchPlace d run = .ok place) :
    place.1 = record ∧ record.branchOutput? lineage.branchCounter = some place.2 := by
  simp only [branchPlace, hlineage, hrecord] at h
  split at h
  · cases h
  · next key hkey =>
    cases h
    exact ⟨rfl, hkey⟩

/-- The end of a branch that has succeeded has recorded the output. -/
theorem exists_of_recordBranch (hlineage : d.body.lineage = some lineage)
    (hrecord : run.metadata.fanOut? lineage.name run.executionId = some record)
    (h : Runs environment (recordBranch d output run).run s asked (.ok count) t) :
    ∃ key s₁ s₂, record.branchOutput? lineage.branchCounter = some key ∧
      asked = recording record key output ∧
      environment (.store (.put key output)) s = (.ok (), s₁) ∧
      environment (.store (.addMember record.outputSet key)) s₁ = (.ok (), s₂) ∧
      environment (.store (.increment record.counter 1)) s₂ = (.ok count, t) := by
  cases hplace : branchPlace d run with
  | error e =>
    rw [recordBranch, hplace] at h
    obtain ⟨-, hfailed, -⟩ := h.unique (.done (Except.error e))
    cases hfailed
  | ok place =>
    obtain ⟨rfl, hkey⟩ := branchPlace_eq_ok hlineage hrecord hplace
    rw [recordBranch, hplace, run_lift_bind_ok] at h
    obtain ⟨_, s₁, more, hput, rfl, hrest⟩ := exists_of_call_bind h
    obtain ⟨_, s₂, more, hadd, rfl, hlast⟩ := exists_of_call_bind hrest
    obtain ⟨hincrement, rfl⟩ := eq_of_call hlast
    exact ⟨place.2, s₁, s₂, hkey, rfl, hput, hadd, hincrement⟩

end recordBranch

section worlds

variable {w v u : World} {record : FanOutRecord} {key : String} {output : Json}

/-- In a world in which nothing has been counted, no output has been recorded. -/
theorem BranchRecorded.not_uncounted (h : BranchRecorded record key output w v) :
    ¬ w.Uncounted v := by
  intro huncounted
  obtain ⟨count, hbefore, hafter⟩ := h.count
  have hcount : count = count + 1 :=
    Option.some.inj (hbefore.symm.trans (huncounted.counter _ _ hafter))
  omega

/-- Calls that have been granted have recorded the output. -/
theorem branchRecorded_of_answers {u₁ u₂ : World} {count : Int} (hw : w.Uncounted u)
    (hput : World.answer (.store (.put key output)) u = (.ok (), u₁))
    (hadd : World.answer (.store (.addMember record.outputSet key)) u₁ = (.ok (), u₂))
    (hincrement : World.answer (.store (.increment record.counter 1)) u₂ = (.ok count, v)) :
    BranchRecorded record key output w v := by
  have hput := (World.effect_of_answer_ok hput).2.store
  have hadd := (World.effect_of_answer_ok hadd).2.store
  obtain ⟨hcount, ⟨hincrement, -, -, -, -⟩⟩ := World.effect_of_answer_ok hincrement
  obtain ⟨before, hbefore, hafter⟩ := Store.exists_of_perform_increment hcount
  -- the calls are about different tables, so that each leaves alone what the others have done
  refine ⟨?_, ?_, before, hw.counter _ _ ?_, ?_⟩
  · rw [hincrement, Store.content?_perform_of_ne (by simp [StoreCall.place?]), hadd,
      Store.content?_perform_of_ne (by simp [StoreCall.place?]), hput, Store.content?_perform_put]
  · rw [Store.membersOf_eq, hincrement, Store.content?_perform_of_ne (by simp [StoreCall.place?]),
      ← Store.membersOf_eq, hadd, Store.mem_membersOf_addMember]
    exact .inl rfl
  · rw [← hbefore, hadd, Store.content?_perform_of_ne (by simp [StoreCall.place?]), hput,
      Store.content?_perform_of_ne (by simp [StoreCall.place?])]
  · rw [hincrement, hafter]

end worlds

end FanOut

/-! ## The end of a state -/

namespace Interpreter

section finish

variable {i : Interpreter} {task : Task} {input : Json} {run : Run} {environment : Environment σ}
  {s t : σ} {asked : List Request} {outcome : StateOutcome}

/-- Where the run goes after what a state has done. -/
def Performance.transition : Performance → Transition
  | .finished _ transition _ => transition
  | .caught _ _ => .dispatched

/-- What a state has done is delivered without a request, except that the output is recorded if the
run or the branch ends here and the state is declared to be the end of a branch. -/
theorem runs_conclude {performance : Performance}
    (h : Runs environment (i.conclude input run performance).run s asked (.ok outcome) t) :
    outcome.transition = performance.transition ∧ outcome.metadata = run.metadata ∧
      if outcome.transition = .finish ∧ i.definition.endsBranch = true then
        ∃ count, Runs environment (FanOut.recordBranch i.definition outcome.output run).run s asked
          (.ok count) t
      else asked = [] ∧ t = s := by
  cases performance with
  | caught catcher package =>
    rw [conclude] at h
    obtain ⟨output, u, before, more, hdeliver, hreturn, rfl⟩ := h.exists_of_bindOk
    obtain ⟨rfl, -, rfl⟩ := hdeliver.unique (.done _)
    obtain ⟨rfl, houtcome, rfl⟩ := hreturn.unique (.done _)
    cases houtcome
    have hopen : ¬(Transition.dispatched = .finish ∧ i.definition.endsBranch = true) := by
      rintro ⟨h, -⟩
      cases h
    rw [if_neg hopen]
    exact ⟨rfl, rfl, rfl, rfl⟩
  | finished result transition failure =>
    rw [conclude] at h
    obtain ⟨output, u, before, more, hdeliver, hrest, rfl⟩ := h.exists_of_bindOk
    obtain ⟨rfl, -, rfl⟩ := hdeliver.unique (.done _)
    split at hrest
    case isTrue hends =>
      obtain ⟨count, u, before, more, hrecorded, hreturn, rfl⟩ := hrest.exists_of_bindOk
      obtain ⟨rfl, houtcome, rfl⟩ := hreturn.unique (.done _)
      cases houtcome
      rw [List.append_nil, if_pos hends]
      exact ⟨rfl, rfl, count, hrecorded.of_adapt⟩
    case isFalse hends =>
      obtain ⟨rfl, houtcome, rfl⟩ := hrest.unique (.done _)
      cases houtcome
      rw [if_neg hends]
      exact ⟨rfl, rfl, rfl, rfl⟩

/-- A state with which its run or its branch ends is delivered with a recording, if it is declared
to be the end of a branch, and otherwise without a request. -/
theorem runs_conclude_finish {performance : Performance}
    (h : Runs environment (i.conclude input run performance).run s asked (.ok outcome) t)
    (hfinish : outcome.transition = .finish) :
    (i.definition.endsBranch = true → ∃ count,
      Runs environment (FanOut.recordBranch i.definition outcome.output run).run s asked (.ok count)
        t) ∧
      (i.definition.endsBranch = false → asked = [] ∧ t = s) := by
  obtain ⟨-, -, hasked⟩ := runs_conclude h
  constructor
  · intro hclosed
    rwa [if_pos ⟨hfinish, hclosed⟩] at hasked
  · intro hopen
    rwa [if_neg fun hends => absurd (hopen.symm.trans hends.2) Bool.false_ne_true] at hasked

/-- A state that is not Parallel does what its kind says with the part of the input that it sees,
and then its result is delivered. -/
theorem exists_performed (hkind : i.definition.kind ≠ .parallel)
    (h : Runs environment (i.execute task input run).run s asked (.ok outcome) t) :
    ∃ seen performance before more u,
      i.definition.body.inputPath.cutInput input = .ok seen ∧
        Runs environment (i.perform task seen).run s before (.ok performance) u ∧
        Runs environment (i.conclude input run performance).run u more (.ok outcome) t ∧
        asked = before ++ more := by
  rw [execute, if_neg hkind, executeStep_eq] at h
  obtain ⟨seen, u, before, more, hseen, hrest, rfl⟩ := h.exists_of_bindOk
  obtain ⟨rfl, hcut, rfl⟩ := hseen.unique (.done _)
  obtain ⟨performance, u, before, more, hperform, hconclude, rfl⟩ := hrest.exists_of_bindOk
  cases hinput : i.definition.body.inputPath.cutInput input with
  | error e =>
    rw [hinput] at hcut
    cases hcut
  | ok found =>
    rw [hinput] at hcut
    cases hcut
    exact ⟨seen, performance, before, more, u, rfl, hperform, hconclude, rfl⟩

/-- A state of a branch is the end of it if it is declared to be an end. -/
theorem endsBranch_eq {d : Definition} {lineage : BranchLineage}
    (hlineage : d.body.lineage = some lineage) : d.endsBranch = d.body.isEnd := by
  rw [Definition.endsBranch, hlineage]
  exact Bool.and_true _

variable {lineage : BranchLineage} {record : FanOutRecord}

/-- What a state asks for when it ends its branch: it records its output if it is declared to be an
end, and otherwise counts nothing. -/
theorem recordsBranch_iff (hkind : i.definition.kind ≠ .parallel)
    (hlineage : i.definition.body.lineage = some lineage)
    (hrecord : run.metadata.fanOut? lineage.name run.executionId = some record)
    (h : Runs environment (i.execute task input run).run s asked (.ok outcome) t)
    (hfinish : outcome.transition = .finish) :
    i.definition.body.isEnd = true ↔
      ∃ key, record.branchOutput? lineage.branchCounter = some key ∧
        FanOut.RecordsBranch environment record key outcome.output asked t := by
  obtain ⟨seen, performance, before, more, u, -, hperform, hconclude, rfl⟩ :=
    exists_performed hkind h
  obtain ⟨hclosed, hopen⟩ := runs_conclude_finish hconclude hfinish
  rw [endsBranch_eq hlineage] at hclosed hopen
  -- whatever the state does before its result is delivered, it does not count
  have hbefore : before.filter Request.counts = [] := by
    rw [← hperform.requests]
    refine List.filter_eq_nil_iff.mpr fun request hrequest => ?_
    rw [(i.perform_onlyAsks task seen).of_mem_requests request hrequest]
    exact Bool.false_ne_true
  constructor
  · intro hend
    obtain ⟨count, hrun⟩ := hclosed hend
    obtain ⟨key, s₁, s₂, hkey, rfl, hput, hadd, hincrement⟩ :=
      FanOut.exists_of_recordBranch hlineage hrecord hrun
    refine ⟨key, hkey, ⟨before, u, s₁, s₂, count, rfl, hput, hadd, hincrement⟩, ?_⟩
    rw [List.filter_append, hbefore]
    rfl
  · rintro ⟨key, -, hrecords⟩
    by_contra hend
    obtain ⟨rfl, rfl⟩ := hopen (by simpa using hend)
    have hcounted := hrecords.counted
    rw [List.append_nil, hbefore] at hcounted
    cases hcounted

/-- In a world in which nobody else has anything to do, a state of a branch that ends its branch has
recorded its output exactly if it is declared to be an end. -/
theorem branchRecorded_iff {w v : World} (hkind : i.definition.kind ≠ .parallel)
    (hlineage : i.definition.body.lineage = some lineage)
    (hrecord : run.metadata.fanOut? lineage.name run.executionId = some record)
    (hw : w.later = []) (h : w.perform (i.execute task input run).run = (.ok outcome, v))
    (hfinish : outcome.transition = .finish) :
    i.definition.body.isEnd = true ↔
      ∃ key, record.branchOutput? lineage.branchCounter = some key ∧
        FanOut.BranchRecorded record key outcome.output w v := by
  obtain ⟨seen, performance, before, more, u, -, hperform, hconclude, -⟩ :=
    exists_performed hkind (Runs.mk rfl h)
  obtain ⟨hclosed, hopen⟩ := runs_conclude_finish hconclude hfinish
  rw [endsBranch_eq hlineage] at hclosed hopen
  have huncounted := World.uncounted_of_onlyAsks (i.perform_onlyAsks task seen) hw
  rw [hperform.run] at huncounted
  constructor
  · intro hend
    obtain ⟨count, hrun⟩ := hclosed hend
    obtain ⟨key, s₁, s₂, hkey, -, hput, hadd, hincrement⟩ :=
      FanOut.exists_of_recordBranch hlineage hrecord hrun
    exact ⟨key, hkey, FanOut.branchRecorded_of_answers huncounted hput hadd hincrement⟩
  · rintro ⟨key, -, hrecorded⟩
    by_contra hend
    obtain ⟨-, rfl⟩ := hopen (by simpa using hend)
    exact hrecorded.not_uncounted huncounted

end finish

/-- A state of a branch that ends its branch records its output exactly if it is declared to be an
end, whoever answers its requests. -/
theorem finish_records_iff {i : Interpreter} {run : Run} {lineage : BranchLineage}
    {record : FanOutRecord} (hkind : i.definition.kind ≠ .parallel)
    (hlineage : i.definition.body.lineage = some lineage)
    (hrecord : run.metadata.fanOut? lineage.name run.executionId = some record) (task : Task)
    (input : Json) :
    (∀ {σ : Type} (environment : Environment σ) (s t : σ) (asked : List Request)
        (outcome : StateOutcome),
      Runs environment (i.execute task input run).run s asked (.ok outcome) t →
      outcome.transition = .finish →
      (i.definition.body.isEnd = true ↔
        ∃ key, record.branchOutput? lineage.branchCounter = some key ∧
          FanOut.RecordsBranch environment record key outcome.output asked t)) ∧
      ∀ (w v : World) (outcome : StateOutcome), w.later = [] →
        w.perform (i.execute task input run).run = (.ok outcome, v) →
        outcome.transition = .finish →
        (i.definition.body.isEnd = true ↔
          ∃ key, record.branchOutput? lineage.branchCounter = some key ∧
            FanOut.BranchRecorded record key outcome.output w v) :=
  ⟨fun _ _ _ _ _ h hfinish => recordsBranch_iff hkind hlineage hrecord h hfinish,
    fun _ _ _ hw h hfinish => branchRecorded_iff hkind hlineage hrecord hw h hfinish⟩

/-! ### A branch of one state -/

/-- The document of the only state of the only branch of a Parallel state. -/
def loneDocument (isEnd : Bool) : Json :=
  .object [
    ("Type", .string "Succeed"),
    ("End", .bool isEnd),
    ("ParentParallelInfo", .object [("Name", .string "Fan"), ("BranchCounter", .nat 1)])]

/-- The state that is read from `loneDocument`. -/
def lone (isEnd : Bool) : Definition where
  name := "Lone"
  kind := .succeed
  document := loneDocument isEnd
  body := { typeName := some "Succeed", isEnd, lineage := some ⟨"Fan", 1⟩ }

example (isEnd : Bool) :
    Definition.ofJson "Succeed" "Lone" (loneDocument isEnd) = .ok (lone isEnd) := by
  cases isEnd <;> rfl

/-- What the run remembers of the fan-out that `lone` belongs to. -/
def loneRecord : FanOutRecord := .make (.make "run" "wf_Fan") 1

/-- The run, as the state `lone` sees it. -/
def loneRun : Run :=
  (Run.make "run" "wf_Lone").withMetadata (Metadata.setFanOut {} "Fan" "run" loneRecord)

/-- A world in which the fan-out that `lone` belongs to has been started. -/
def loneWorld : World where
  store := (Store.empty.perform (.createCounter loneRecord.counter 0)).2

/-- The invocation of a state as the only one of its branch. -/
def loneInvocation (isEnd : Bool) : Activity (Except StateError StateOutcome) :=
  (execute { definition := lone isEnd, settings := {} } .echo (.bool true) loneRun).run

/-- What an invocation of the only state of a branch leads to. -/
def loneOutcome : StateOutcome where
  output := .bool true
  transition := .finish
  metadata := loneRun.metadata

/-- The state `lone`, which is declared to be an end, records its output. -/
theorem lone_records :
    (loneWorld.perform (loneInvocation true)).1 = .ok loneOutcome ∧
      ∃ key, FanOut.BranchRecorded loneRecord key (.bool true) loneWorld
        (loneWorld.perform (loneInvocation true)).2 := by
  have hrun : (loneWorld.perform (loneInvocation true)).1 = .ok loneOutcome := by decide +kernel
  have hrecord : loneRun.metadata.fanOut? "Fan" loneRun.executionId = some loneRecord := by
    decide +kernel
  have hrecords := (finish_records_iff (i := { definition := lone true, settings := {} })
    (by decide) rfl hrecord .echo (.bool true)).2 loneWorld _ loneOutcome rfl (Prod.ext hrun rfl)
    rfl
  obtain ⟨key, -, hrecorded⟩ := hrecords.mp rfl
  exact ⟨hrun, key, hrecorded⟩

/-- A state like `lone` that is not declared to be an end ends its branch as well, and records
nothing. -/
theorem lone_ends_unrecorded :
    (loneWorld.perform (loneInvocation false)).1 = .ok loneOutcome ∧
      ¬ ∃ key, FanOut.BranchRecorded loneRecord key (.bool true) loneWorld
        (loneWorld.perform (loneInvocation false)).2 := by
  refine ⟨by decide +kernel, ?_⟩
  rintro ⟨key, hrecorded⟩
  have hsame : (loneWorld.perform (loneInvocation false)).2 = loneWorld := rfl
  rw [hsame] at hrecorded
  exact hrecorded.not_uncounted ⟨rfl, fun _ _ => id, rfl⟩

end Interpreter

end Workflow
