import Workflow.Proofs.Calls
import Workflow.Proofs.FanOut.BranchEnd
import Workflow.Proofs.Task.Handover
import Workflow.Proofs.Task.Rounds

/-!
# How a run goes on

A run is continued in two ways: a failure that was caught is handed to the scheduler while the state
is still being executed, and all else that follows is told by the outcome. Between them exactly one
state follows a state that is not Parallel, unless the run or the branch ends, and none follows
then. Beside that a state touches nothing but the output of the branch that it ends.

* **Tasks in process** (`Task.isLocal`, `World.answerWith`): tasks of any behaviour that leave the
  world alone, and worlds with such tasks.
* **The last result** (`Task.EndsWith`, `Task.exists_endsWith`): the result that decides what comes
  of the invocations of a task.
* **What follows** (`Interpreter.Leads`, `Interpreter.leads_of_perform`): what is handed over with
  each transition, and where the transition comes from.
* **What is recorded** (`Definition.Records`, `World.Continued`): the calls that a state makes, and
  what has become of a world.
* **The whole** (`Interpreter.execute_continues`): every invocation that succeeds.
-/

namespace Workflow

open Activity

variable {σ τ : Type}

/-! ## Requests to the store -/

/-- What a request asks of the store. -/
def Request.call? : Request → Option StoreCall
  | store c => some c
  | dispatch _ | sleep _ | now | work _ | connect | send _ => none

/-- Whether a request asks nothing of the store. -/
def Request.IsCallFree (request : Request) : Prop := request.call? = none

/-- What a run asks of the store, in order. -/
def Activity.calls {α : Type} (environment : Environment σ) (a : Activity α) (s : σ) :
    List StoreCall :=
  (a.requests environment s).filterMap Request.call?

/-! ## Tasks in process -/

/-- Whether the work of a task is done in process, if any is. -/
def Task.isLocal : Task → Bool
  | echo | inProcess => true
  | delegated _ => false

/-- A task in process asks for its work at most. -/
theorem Task.invoke_onlyAsks_of_isLocal {task : Task} (h : task.isLocal = true)
    {P : Request → Prop} (hwork : ∀ input, P (.work input)) (input : Json) :
    (task.invoke input).run.OnlyAsks P := by
  cases task with
  | echo => trivial
  | inProcess => exact ⟨hwork input, fun _ => trivial⟩
  | delegated worker => cases h

namespace World

/-- A world with a task in process of any behaviour. What the task gives may depend on the input, on
all of the world, and on a memory of its own, which is all that it changes. -/
def answerWith (behave : Json → World × τ → Verdict × τ) : Environment (World × τ)
  | .work input, s => ((behave input s).1, s.1, (behave input s).2)
  | .store c, s => ((answer (.store c) s.1).1, (answer (.store c) s.1).2, s.2)
  | .dispatch d, s => ((), s.1.dispatch d, s.2)
  | .sleep d, s => ((), s.1.pause d, s.2)
  | .now, s => (s.1.today, s)
  | .connect, s => ((answer .connect s.1).1, (answer .connect s.1).2, s.2)
  | .send bytes, s => ((answer (.send bytes) s.1).1, (answer (.send bytes) s.1).2, s.2)

variable {behave : Json → World × τ → Verdict × τ} {w v u : World} {c : StoreCall}

/-- Nothing has happened to the store: it holds what it held, no trigger has fired, and no call is
to come. -/
structure Kept (w v : World) : Prop where
  later : v.later = []
  store : v.store = w.store
  fired : v.fired = w.fired

/-- A store to which nothing has happened twice is one to which nothing has happened. -/
theorem Kept.trans (h : w.Kept v) (h' : v.Kept u) : w.Kept u :=
  ⟨h'.later, h'.store.trans h.store, h'.fired.trans h.fired⟩

/-- Only what is asked of the store changes it, as long as nobody else has anything to do. -/
theorem kept_answerWith (behave : Json → World × τ → Verdict × τ) {request : Request}
    {s : World × τ} (hs : s.1.later = []) (h : request.IsCallFree) :
    s.1.Kept (answerWith behave request s).2.1 := by
  cases request with
  | store c => cases h
  | sleep d =>
    change s.1.Kept (s.1.pause d)
    rw [pause_of_later_eq_nil hs]
    exact ⟨rfl, rfl, rfl⟩
  | _ => exact ⟨hs, rfl, rfl⟩

/-- An activity that asks nothing of the store leaves it as it was, as long as nobody else has
anything to do. -/
theorem kept_of_onlyAsks {α : Type} (behave : Json → World × τ → Verdict × τ) {a : Activity α}
    {s : World × τ} (ha : a.OnlyAsks Request.IsCallFree) (hs : s.1.later = []) :
    s.1.Kept (a.run (answerWith behave) s).2.1 := by
  induction a generalizing s with
  | done result => exact ⟨hs, rfl, rfl⟩
  | ask request resume ih =>
    have hrequest := kept_answerWith behave hs ha.1
    exact hrequest.trans (ih _ (ha.2 _) hrequest.later)

/-- The scheduler has been handed what was asked for, whoever does the work. -/
theorem queue_run {α : Type} (behave : Json → World × τ → Verdict × τ) (a : Activity α)
    (s : World × τ) :
    (a.run (answerWith behave) s).2.1.queue =
      s.1.queue ++ a.dispatches (answerWith behave) s := by
  have hanswer (request : Request) (s : World × τ) :
      (answerWith behave request s).2.1.queue = s.1.queue ++ request.dispatch?.toList := by
    cases request with
    | work input | now => exact (List.append_nil _).symm
    | store c => exact queue_answer (.store c) s.1
    | dispatch d => exact queue_answer (.dispatch d) s.1
    | sleep d => exact queue_answer (.sleep d) s.1
    | connect => exact queue_answer .connect s.1
    | send bytes => exact queue_answer (.send bytes) s.1
  induction a generalizing s with
  | done result => exact (List.append_nil _).symm
  | ask request resume ih =>
    rw [run_ask, ih, hanswer, List.append_assoc]
    cases hrequest : request.dispatch? with
    | none => simp only [dispatches, requests, List.filterMap_cons_none hrequest,
        Option.toList_none, List.nil_append]
    | some d => simp only [dispatches, requests, List.filterMap_cons_some hrequest,
        Option.toList_some, List.singleton_append]

/-- A call that has been granted has taken effect, whoever does the work. -/
theorem effect_of_answerWith {reply : c.Reply} {s t : World × τ}
    (h : answerWith behave (.store c) s = (.ok reply, t)) : Effect c s.1 t.1 := by
  have hanswer : answer (.store c) s.1 = (.ok reply, t.1) :=
    Prod.ext (congrArg (·.1) h) (congrArg (·.2.1) h)
  exact (effect_of_answer_ok hanswer).2

/-- Adding to a counter fires one trigger at most, that of the counter. -/
theorem Effect.exists_fired_increment {name : String} {delta : Int}
    (h : Effect (.increment name delta) w v) :
    ∃ emitted : Option FiredTrigger, v.fired = w.fired ++ emitted.toList ∧
      ∀ f ∈ emitted, f.counter = name := by
  rw [h.fired, after]
  cases w.firesTriggers with
  | false => exact ⟨none, rfl, by simp⟩
  | true =>
    refine ⟨_, rfl, fun f hf => ?_⟩
    have hplace := Store.firedBy?_counter hf
    cases hplace
    rfl

end World

/-! ## The last result -/

section rounds

variable {task : Task} {retriers : List RetryPolicy} {catchers : List CatchPolicy} {input : Json}
  {environment : Environment σ} {s : σ} {verdict : Verdict}

/-- A task under its retry policies ends with a result: it is invoked in rounds, and the result is
that of the first round with which the loop ends. -/
def Task.EndsWith (task : Task) (retriers : List RetryPolicy) (input : Json)
    (environment : Environment σ) (s : σ) (verdict : Verdict) : Prop :=
  ∃ results before after k, before 0 = s ∧
    task.Gives input environment (Rounds.pause retriers results) results before after ∧
    Rounds.IsLast retriers results k ∧ results k = verdict

/-- Whoever answers it, a task under its policies ends with a result, which decides what comes of
its invocations. -/
theorem Task.exists_endsWith (task : Task) (retriers : List RetryPolicy)
    (catchers : List CatchPolicy) (input : Json) (environment : Environment σ) (s : σ) :
    ∃ verdict, task.EndsWith retriers input environment s verdict ∧
      ((task.invokeUnder retriers catchers input).run.run environment s).1 =
        Rounds.conclusion retriers catchers verdict := by
  obtain ⟨results, before, after, rfl, hgives⟩ :=
    Rounds.exists_gives task retriers input environment s
  obtain ⟨k, hlast⟩ := Rounds.exists_isLast retriers results
  have hruns := Rounds.runs_invokeWithin_spent catchers hgives hlast (Nat.zero_add k)
  rw [Rounds.spent_zero] at hruns
  exact ⟨results k, ⟨results, before, after, k, rfl, hgives, hlast, rfl⟩,
    congrArg Prod.fst hruns.run⟩

/-- What has been caught is a failure, by the first catch policy that is for it. -/
theorem Rounds.exists_failure_of_conclusion {catcher : CatchPolicy} {message : String}
    (h : conclusion retriers catchers verdict = .ok (.caught catcher message)) :
    ∃ failure : TaskFailure, verdict = .error failure ∧ failure.message = message ∧
      (catchers.find? fun c => failure.matchedBy c.errorEquals) = some catcher := by
  cases verdict with
  | ok output => cases h
  | error failure =>
    rw [conclusion] at h
    split at h
    · cases h
    · split at h
      · next found hfind =>
        cases h
        exact ⟨failure, rfl, rfl, hfind⟩
      · cases h

end rounds

namespace Interpreter

/-! ## What follows -/

/-- What a state hands to the scheduler with each transition, and where the transition comes from:
the state that is declared or chosen follows by the outcome alone, a failure that is caught is
handed to the state of the first catch policy for it, and nothing follows an end. -/
inductive Leads (i : Interpreter) (task : Task) (seen : Json) (environment : Environment σ)
    (s : σ) : List Dispatch → Transition → Prop
  | next {state : String} (declared : i.definition.body.next = some state)
      (notEnd : i.definition.body.isEnd = false) : Leads i task seen environment s [] (.next state)
  | choice {state : String} (isChoice : i.definition.kind = .choice)
      (chosen : i.rules.evaluate seen = .ok state) :
      Leads i task seen environment s [] (.choice state)
  | caught {failure : TaskFailure} {catcher : CatchPolicy} (isTask : i.definition.kind = .task)
      (fails : task.EndsWith i.definition.body.retriers seen environment s (.error failure))
      (first : (i.definition.body.catchers.find? fun c => failure.matchedBy c.errorEquals) =
        some catcher) :
      Leads i task seen environment s [⟨catcher.next, task.catchPayload failure.message⟩]
        .dispatched
  | finish
      (ends : i.declared = .finish ∨ i.definition.kind = .succeed ∨ i.definition.kind = .fail) :
      Leads i task seen environment s [] .finish

section leads

variable {i : Interpreter} {task : Task} {seen : Json} {environment : Environment σ} {s t : σ}
  {asked : List Request} {performance : Performance}

/-- The transition that is declared comes with nothing to hand over. -/
theorem leads_declared : i.Leads task seen environment s [] i.declared := by
  cases hnext : i.definition.body.next with
  | none =>
    have hdeclared : i.declared = .finish := by rw [declared, hnext]
    rw [hdeclared]
    exact .finish (.inl hdeclared)
  | some state =>
    cases hend : i.definition.body.isEnd with
    | true =>
      have hdeclared : i.declared = .finish := by rw [declared, hnext, hend]; rfl
      rw [hdeclared]
      exact .finish (.inl hdeclared)
    | false =>
      have hdeclared : i.declared = .next state := by rw [declared, hnext, hend]; rfl
      rw [hdeclared]
      exact .next hnext hend

/-- Exactly one state follows, unless the run or the branch ends. -/
theorem Leads.length {handed : List Dispatch} {outcome : StateOutcome}
    (h : i.Leads task seen environment s handed outcome.transition) :
    (handed ++ outcome.followUps).length = if outcome.transition = .finish then 0 else 1 := by
  rw [StateOutcome.followUps]
  generalize outcome.transition = transition at h
  cases h <;> rfl

/-- A Task state hands over a failure that was caught, and nothing else. -/
theorem leads_of_performTask (hkind : i.definition.kind = .task) (htask : task.isLocal = true)
    (h : Runs environment (i.perform task seen).run s asked (.ok performance) t) :
    i.Leads task seen environment s (asked.filterMap Request.dispatch?) performance.transition := by
  rw [perform_task hkind] at h
  obtain ⟨outcome, u, before, more, hinvoked, hreturn, rfl⟩ := h.exists_of_bindOk
  obtain ⟨rfl, hperformance, rfl⟩ := hreturn.unique (.done _)
  cases hperformance
  have hinvoked := hinvoked.of_adapt
  have hresult : ((i.invokeTask task seen).run.run environment s).1 = .ok outcome :=
    congrArg Prod.fst hinvoked.run
  have hhanded : before.filterMap Request.dispatch? = task.handover (.ok outcome) := by
    have hrestrained : task.IsRestrained := task.invoke_onlyAsks_of_isLocal htask fun _ => rfl
    rw [← hresult, ← hinvoked.requests]
    exact dispatches_invokeUnder hrestrained _
  rw [List.append_nil, hhanded]
  cases outcome with
  | success output | exhausted message => exact leads_declared
  | caught catcher message =>
    obtain ⟨verdict, hends, hconclusion⟩ := task.exists_endsWith i.definition.body.retriers
      i.definition.body.catchers seen environment s
    obtain ⟨failure, rfl, rfl, hfirst⟩ :=
      Rounds.exists_failure_of_conclusion (hconclusion.symm.trans hresult)
    exact .caught hkind hends hfirst

/-- A Wait state hands over nothing. -/
theorem leads_of_performWait
    (h : Runs environment (i.performWait seen).run s asked (.ok performance) t) :
    i.Leads task seen environment s (asked.filterMap Request.dispatch?) performance.transition := by
  obtain ⟨today, u, before, more, hnow, hwaits, rfl⟩ := h.exists_of_bindOk
  obtain ⟨rfl, -, rfl⟩ := hnow.of_liftM.unique (.ask rfl (.done _))
  obtain ⟨delay, u, before, more, hdelay, hsleeps, rfl⟩ := hwaits.exists_of_bindOk
  obtain ⟨rfl, -, rfl⟩ := hdelay.unique (.done _)
  split at hsleeps
  case isTrue hpause =>
    obtain ⟨_, u, before, more, hsleep, hreturn, rfl⟩ := hsleeps.exists_of_bindOk
    obtain ⟨rfl, -, rfl⟩ := hsleep.of_liftM.unique (.ask rfl (.done _))
    obtain ⟨rfl, hperformance, rfl⟩ := hreturn.unique (.done _)
    cases hperformance
    exact leads_declared
  case isFalse hpause =>
    obtain ⟨rfl, hperformance, rfl⟩ := hsleeps.unique (.done _)
    cases hperformance
    exact leads_declared

/-- What a state hands over while it does what its kind says, and where the run goes after that. -/
theorem leads_of_perform (hkind : i.definition.kind ≠ .parallel) (htask : task.isLocal = true)
    (h : Runs environment (i.perform task seen).run s asked (.ok performance) t) :
    i.Leads task seen environment s (asked.filterMap Request.dispatch?) performance.transition := by
  cases hcase : i.definition.kind with
  | task => exact leads_of_performTask hcase htask h
  | wait =>
    rw [perform, hcase] at h
    exact leads_of_performWait h
  | choice =>
    rw [perform, hcase] at h
    obtain ⟨state, u, before, more, hchosen, hreturn, rfl⟩ := h.exists_of_bindOk
    obtain ⟨rfl, hresult, rfl⟩ := hchosen.unique (.done _)
    obtain ⟨rfl, hperformance, rfl⟩ := hreturn.unique (.done _)
    cases hperformance
    cases hevaluate : i.rules.evaluate seen with
    | error e =>
      rw [hevaluate] at hresult
      cases hresult
    | ok target =>
      rw [hevaluate] at hresult
      cases hresult
      exact .choice hcase hevaluate
  | pass =>
    rw [perform, hcase] at h
    obtain ⟨rfl, hperformance, rfl⟩ := h.unique (.done _)
    cases hperformance
    exact leads_declared
  | succeed =>
    rw [perform, hcase] at h
    obtain ⟨rfl, hperformance, rfl⟩ := h.unique (.done _)
    cases hperformance
    exact .finish (.inr (.inl hcase))
  | fail =>
    rw [perform, hcase] at h
    obtain ⟨rfl, hperformance, rfl⟩ := h.unique (.done _)
    cases hperformance
    exact .finish (.inr (.inr hcase))
  | parallel => exact absurd hcase hkind

end leads

end Interpreter

/-! ## What is recorded -/

namespace FanOut

/-- The calls with which the output of a branch is recorded. -/
def recordingCalls (record : FanOutRecord) (key : String) (output : Json) : List StoreCall :=
  [.put key output, .addMember record.outputSet key, .increment record.counter 1]

/-- The calls with which the output of a branch is recorded leave the triggers alone. -/
theorem triggers_recordingCalls (record : FanOutRecord) (key : String) (output : Json)
    (s : Store) : (s.performAll (recordingCalls record key output)).triggers = s.triggers := by
  simp only [recordingCalls, Store.performAll, List.foldl_cons, List.foldl_nil, Store.perform,
    Store.add?]
  cases s.counters.get? record.counter <;> rfl

section recordBranch

variable {environment : Environment σ} {s t : σ} {asked : List Request} {d : Definition}
  {run : Run} {output : Json} {count : Int}

/-- Only an output that belongs to a branch of a fan-out that the run remembers can be recorded. -/
theorem exists_record_of_recordBranch
    (h : Runs environment (recordBranch d output run).run s asked (.ok count) t) :
    ∃ lineage record, d.body.lineage = some lineage ∧
      run.metadata.fanOut? lineage.name run.executionId = some record := by
  have hplaced (e : FanOutError) : branchPlace d run ≠ .error e := by
    intro hplace
    rw [recordBranch, hplace] at h
    obtain ⟨-, hfailed, -⟩ := h.unique (.done (Except.error e))
    cases hfailed
  cases hlineage : d.body.lineage with
  | none => exact absurd (by rw [branchPlace, hlineage]) (hplaced (.noLineage d.name))
  | some lineage =>
    cases hrecord : run.metadata.fanOut? lineage.name run.executionId with
    | none =>
      exact absurd (by simp only [branchPlace, hlineage, hrecord])
        (hplaced (.recordNotFound lineage.name run.executionId))
    | some record => exact ⟨lineage, record, rfl, hrecord⟩

end recordBranch

end FanOut

/-- The calls that a state makes are these: if the run ends with it and it is declared to be the end
of a branch, its output is put under the key of the branch, the key is entered into the set of the
fan-out, and the counter is added to; and otherwise none. -/
def Definition.Records (d : Definition) (run : Run) (outcome : StateOutcome)
    (calls : List StoreCall) : Prop :=
  if outcome.transition = .finish ∧ d.body.isEnd = true ∧ d.body.lineage.isSome = true then
    ∃ lineage record key, d.body.lineage = some lineage ∧
      run.metadata.fanOut? lineage.name run.executionId = some record ∧
      record.branchOutput? lineage.branchCounter = some key ∧
      calls = FanOut.recordingCalls record key outcome.output
  else calls = []

/-- What an invocation has made of a world: the scheduler has been handed something, calls have been
made of the store, and one trigger at most has fired, that of a counter that was added to. -/
structure World.Continued (w : World) (calls : List StoreCall) (handed : List Dispatch)
    (v : World) : Prop where
  queue : v.queue = w.queue ++ handed
  store : v.store = w.store.performAll calls
  triggers : v.store.triggers = w.store.triggers
  fired : ∃ emitted : Option FiredTrigger, v.fired = w.fired ++ emitted.toList ∧
    ∀ f ∈ emitted, .increment f.counter 1 ∈ calls

namespace Interpreter

section execute

variable {i : Interpreter} {task : Task} {input : Json} {run : Run} {environment : Environment σ}
  {s t : σ} {asked : List Request} {outcome : StateOutcome}

/-- What a state asks of the store once it has done what its kind says: it records its output, if
that is the output of its branch. -/
theorem records_of_conclude {performance : Performance}
    (h : Runs environment (i.conclude input run performance).run s asked (.ok outcome) t) :
    i.definition.Records run outcome (asked.filterMap Request.call?) := by
  obtain ⟨-, -, hasked⟩ := runs_conclude h
  simp only [Definition.endsBranch, Bool.and_eq_true] at hasked
  unfold Definition.Records
  split at hasked
  case isTrue hends =>
    obtain ⟨count, hrecorded⟩ := hasked
    obtain ⟨lineage, record, hlineage, hrecord⟩ := FanOut.exists_record_of_recordBranch hrecorded
    obtain ⟨key, -, -, hkey, rfl, -⟩ := FanOut.exists_of_recordBranch hlineage hrecord hrecorded
    rw [if_pos hends]
    exact ⟨lineage, record, key, hlineage, hrecord, hkey, rfl⟩
  case isFalse hopen =>
    rw [if_neg hopen, hasked.1]
    rfl

/-- By doing what its kind says a state asks nothing of the store. -/
theorem perform_onlyAsks_callFree (i : Interpreter) (htask : task.isLocal = true) (seen : Json) :
    (i.perform task seen).run.OnlyAsks Request.IsCallFree :=
  i.perform_onlyAsks_of (P := Request.IsCallFree)
    (task.invoke_onlyAsks_of_isLocal htask fun _ => rfl) (fun _ => rfl) (fun _ => rfl) rfl seen

/-- A state that is not Parallel has succeeded: exactly one state follows or none, the run is as it
was, and the state has asked of the store what is to be recorded. -/
structure Continues (i : Interpreter) (task : Task) (input : Json) (run : Run)
    (environment : Environment σ) (s : σ) (asked : List Request) (outcome : StateOutcome) :
    Prop where
  once : (asked.filterMap Request.dispatch? ++ outcome.followUps).length =
    if outcome.transition = .finish then 0 else 1
  leads : ∃ seen, i.definition.body.inputPath.cutInput input = .ok seen ∧
    i.Leads task seen environment s (asked.filterMap Request.dispatch?) outcome.transition
  unchanged : run.withMetadata outcome.metadata = run
  records : i.definition.Records run outcome (asked.filterMap Request.call?)

/-- A state that is not Parallel and succeeds has its run continued, whoever answers its
requests. -/
theorem continues_of_runs (hkind : i.definition.kind ≠ .parallel) (htask : task.isLocal = true)
    (h : Runs environment (i.execute task input run).run s asked (.ok outcome) t) :
    i.Continues task input run environment s asked outcome := by
  obtain ⟨seen, performance, before, more, u, hseen, hperform, hconclude, rfl⟩ :=
    exists_performed hkind h
  obtain ⟨htransition, hmetadata, -⟩ := runs_conclude hconclude
  have hbefore : before.filterMap Request.call? = [] := by
    rw [← hperform.requests, List.filterMap_eq_nil_iff]
    exact (i.perform_onlyAsks_callFree htask seen).of_mem_requests
  have hmore : more.filterMap Request.dispatch? = [] := by
    rw [← hconclude.requests]
    exact (i.conclude_restrained input run performance).dispatches_eq_nil
  have hleads := leads_of_perform hkind htask hperform
  rw [← htransition] at hleads
  have hhanded : (before ++ more).filterMap Request.dispatch? =
      before.filterMap Request.dispatch? := by
    rw [List.filterMap_append, hmore, List.append_nil]
  have hcalls : (before ++ more).filterMap Request.call? = more.filterMap Request.call? := by
    rw [List.filterMap_append, hbefore, List.nil_append]
  refine ⟨?_, ⟨seen, hseen, ?_⟩, ?_, ?_⟩
  · rw [hhanded]
    exact hleads.length
  · rw [hhanded]
    exact hleads
  · rw [hmetadata]
    rfl
  · rw [hcalls]
    exact records_of_conclude hconclude

end execute

section worlds

variable {i : Interpreter} {task : Task} {input : Json} {run : Run} {outcome : StateOutcome}
  {behave : Json → World × τ → Verdict × τ} {s t : World × τ} {asked : List Request}

/-- What becomes of a world when a state has done what its kind says and its result is delivered. -/
theorem continued_of_conclude {performance : Performance}
    (h : Runs (World.answerWith behave) (i.conclude input run performance).run s asked
      (.ok outcome) t) : s.1.Continued (asked.filterMap Request.call?) [] t.1 := by
  obtain ⟨-, -, hasked⟩ := runs_conclude h
  split at hasked
  case isTrue hends =>
    obtain ⟨count, hrecorded⟩ := hasked
    obtain ⟨lineage, record, hlineage, hrecord⟩ := FanOut.exists_record_of_recordBranch hrecorded
    obtain ⟨key, s₁, s₂, -, rfl, hput, hadd, hincrement⟩ :=
      FanOut.exists_of_recordBranch hlineage hrecord hrecorded
    have hput := World.effect_of_answerWith hput
    have hadd := World.effect_of_answerWith hadd
    have hincrement := World.effect_of_answerWith hincrement
    obtain ⟨emitted, hfired, hemitted⟩ := hincrement.exists_fired_increment
    refine ⟨?_, ?_, ?_, emitted, ?_, ?_⟩
    · rw [hincrement.queue, hadd.queue, hput.queue, List.append_nil]
    · rw [hincrement.store, hadd.store, hput.store]
      rfl
    · rw [hincrement.store, hadd.store, hput.store]
      exact FanOut.triggers_recordingCalls record key outcome.output s.1.store
    · rw [hfired, hadd.fired_of_ne_increment (by simp), hput.fired_of_ne_increment (by simp)]
    · intro f hf
      rw [hemitted f hf]
      simp [FanOut.recording, Request.call?]
  case isFalse hopen =>
    obtain ⟨rfl, rfl⟩ := hasked
    exact ⟨(List.append_nil _).symm, rfl, rfl, none, (List.append_nil _).symm, by simp⟩

/-- What becomes of a world by an invocation that succeeds. -/
theorem continued_of_runs (hkind : i.definition.kind ≠ .parallel) (htask : task.isLocal = true)
    (hs : s.1.later = [])
    (h : Runs (World.answerWith behave) (i.execute task input run).run s asked (.ok outcome) t) :
    s.1.Continued (asked.filterMap Request.call?) (asked.filterMap Request.dispatch?) t.1 := by
  have hqueue := World.queue_run behave (i.execute task input run).run s
  rw [dispatches, h.run, h.requests] at hqueue
  obtain ⟨seen, performance, before, more, u, -, hperform, hconclude, rfl⟩ :=
    exists_performed hkind h
  have hfree := i.perform_onlyAsks_callFree htask seen
  have hkept := World.kept_of_onlyAsks behave hfree hs
  have hbefore : before.filterMap Request.call? = [] := by
    rw [← hperform.requests, List.filterMap_eq_nil_iff]
    exact hfree.of_mem_requests
  rw [hperform.run] at hkept
  have hconcluded := continued_of_conclude hconclude
  obtain ⟨emitted, hfired, hemitted⟩ := hconcluded.fired
  rw [List.filterMap_append, hbefore, List.nil_append]
  refine ⟨hqueue, ?_, ?_, emitted, ?_, hemitted⟩
  · rw [hconcluded.store, hkept.store]
  · rw [hconcluded.triggers, hkept.store]
  · rw [hfired, hkept.fired]

end worlds

/-- Every invocation of a state that is not Parallel has its run continued exactly once, or not at
all if it ends, whoever answers its requests. In a world in which nobody else has anything to do, it
changes nothing but the queue of the scheduler and, if it ends a branch, what records the output. -/
theorem execute_continues {i : Interpreter} (hkind : i.definition.kind ≠ .parallel) {task : Task}
    (htask : task.isLocal = true) (input : Json) (run : Run) :
    (∀ {σ : Type} (environment : Environment σ) (s t : σ) (asked : List Request)
        (outcome : StateOutcome),
      Runs environment (i.execute task input run).run s asked (.ok outcome) t →
      i.Continues task input run environment s asked outcome) ∧
      ∀ {τ : Type} (behave : Json → World × τ → Verdict × τ) (s t : World × τ)
        (asked : List Request) (outcome : StateOutcome), s.1.later = [] →
        Runs (World.answerWith behave) (i.execute task input run).run s asked (.ok outcome) t →
        s.1.Continued (asked.filterMap Request.call?) (asked.filterMap Request.dispatch?) t.1 :=
  ⟨fun _ _ _ _ _ h => continues_of_runs hkind htask h,
    fun _ _ _ _ _ hs h => continued_of_runs hkind htask hs h⟩

/-- Nothing follows the only state of a branch, and its output is recorded. -/
theorem lone_continues :
    let environment : Environment (World × Unit) := World.answerWith fun _ _ => (.ok .null, ())
    let recorded := FanOut.recording loneRecord "wf_Fan_run_branch_1" (.bool true)
    ∃ v, Runs environment (loneInvocation true) (loneWorld, ()) recorded (.ok loneOutcome) (v, ()) ∧
      ({ definition := lone true, settings := {} } : Interpreter).Continues .echo (.bool true)
        loneRun environment (loneWorld, ()) recorded loneOutcome ∧
      loneWorld.Continued
        (FanOut.recordingCalls loneRecord "wf_Fan_run_branch_1" (.bool true)) [] v := by
  intro environment recorded
  have hrequests : (loneInvocation true).requests environment (loneWorld, ()) = recorded := by
    decide +kernel
  have hresult : ((loneInvocation true).run environment (loneWorld, ())).1 = .ok loneOutcome := by
    decide +kernel
  have hruns : Runs environment (loneInvocation true) (loneWorld, ()) recorded (.ok loneOutcome)
      (((loneInvocation true).run environment (loneWorld, ())).2.1, ()) :=
    ⟨hrequests, Prod.ext hresult rfl⟩
  have hcontinues := @execute_continues { definition := lone true, settings := {} } (by decide)
    .echo rfl (.bool true) loneRun
  exact ⟨_, hruns, hcontinues.1 _ _ _ _ _ hruns, hcontinues.2 _ _ _ _ _ rfl hruns⟩

end Interpreter

end Workflow
