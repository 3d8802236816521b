import Workflow.Proofs.Calls
import Workflow.Proofs.FanOut.Agreement

/-!
# A start that is made again

The start of a fan-out makes four calls of the store and then hands its branches to the scheduler.
If one of the calls is refused, what the calls before it have put stays where it is, and the run has
got its record already. Nothing of that matters to another attempt: the record is entered in the
same place, and every call overwrites what stands at its place.

* **The calls of a start** (`FanOut.startCalls`, `FanOut.start_performs`): what a start asks of the
  store, wherever it stops.
* **Entering again** (`FanOut.enter_enter`): a run has the record of a fan-out once.
* **Attempts** (`FanOut.attempt`, `FanOut.attempts`, `FanOut.Begun`): starts in a row, in worlds
  with faults of their own, and what failed ones leave behind.
* **The last attempt** (`FanOut.restart_eq_start`): it leads where a single start would have led.
-/

namespace Workflow

/-- A value that is entered twice under one key is there once. -/
theorem Table.put_put {α : Type} (t : Table α) (key : String) (value : α) :
    (t.put key value).put key value = t.put key value := by
  refine Table.ext_get? fun other => ?_
  rw [Table.get?_put, Table.get?_put]
  split <;> rfl

namespace FanOut

/-! ## The calls of a start -/

/-- The calls by which a fan-out to a number of branches is started. -/
def startCalls (run : Run) (n : Nat) : List StoreCall :=
  [.createCounter run.keys.counter 0, .putTrigger run.keys.trigger (.make run n),
    .put run.keys.metadata run.metadata.toJson, .createSet run.keys.outputSet]

/-- Each of the calls of a start overwrites what stands at its place. -/
theorem overwrites_startCalls {run : Run} {n : Nat} :
    ∀ c ∈ startCalls run n, c.overwrites = true := by
  simp [startCalls, StoreCall.overwrites]

/-- A start makes its calls and hands over its branches, or stops at one of the calls. -/
theorem start_performs (d : Definition) (input : Json) (run : Run) (w : World) :
    w.Performs (start d input run).run (startCalls run d.body.branches.length) ()
      (handed input d.body.branches) := by
  unfold start
  refine .callBind (by simp) rfl fun v₁ _ => ?_
  refine .callBind (by simp) rfl fun v₂ _ => ?_
  refine .callBind (by simp) rfl fun v₃ _ => ?_
  refine .callBind (by simp) rfl fun v₄ _ => ?_
  rw [startBranches_eq]
  exact .handAll v₄ (handed input d.body.branches)

/-! ## Entering again -/

/-- Entering a fan-out again changes nothing. -/
theorem enter_enter (d : Definition) (run : Run) : enter d (enter d run) = enter d run := by
  have hentries : (enter d (enter d run)).metadata.entries = (enter d run).metadata.entries :=
    Table.put_put _ _ _
  exact congrArg (fun entries => { enter d run with
    metadata := { run.metadata with entries } }) hentries

/-! ## Attempts -/

/-- An attempt to start a fan-out in a run and a world: the record is entered into the run, and the
start is made while the store has the given faults. The run keeps the record, however the start
ends. -/
def attempt (d : Definition) (input : Json) (faults : List Fault) (run : Run) (w : World) :
    Except FanOutError Unit × Run × World :=
  let run := enter d run
  let (result, w) := { w with faults }.perform (start d input run).run
  (result, run, w)

/-- Attempts one after the other, each with what the one before has left. -/
def attempts (d : Definition) (input : Json) :
    List (List Fault) → Run → World → List (Except FanOutError Unit) × Run × World
  | [], run, w => ([], run, w)
  | faults :: rest, run, w =>
    let (result, run, w) := attempt d input faults run w
    let (results, run, w) := attempts d input rest run w
    (result :: results, run, w)

/-- What attempts that have failed have left of a run and a world: the run lacks nothing but the
record, if that, and the store is as it was but for the places of the start. -/
structure Begun (d : Definition) (run : Run) (w : World) (run' : Run) (w' : World) : Prop where
  entered : enter d run' = enter d run
  spared : ∀ place,
    (∀ c ∈ startCalls (enter d run) d.body.branches.length, c.place? ≠ some place) →
      w'.store.content? place = w.store.content? place
  queue : w'.queue = w.queue
  fired : w'.fired = w.fired

section attempts

variable {d : Definition} {input : Json} {run run' : Run} {w w' : World} {faults : List Fault}

/-- At the beginning nothing has been left of a run and a world. -/
theorem Begun.refl (d : Definition) (run : Run) (w : World) : Begun d run w run w :=
  ⟨rfl, fun _ _ => rfl, rfl, rfl⟩

/-- One more attempt that fails leaves no more than those before it. -/
theorem Begun.fail (h : Begun d run w run' w') {e : FanOutError}
    (hfailed : (attempt d input faults run' w').1 = .error e) :
    Begun d run w (attempt d input faults run' w').2.1 (attempt d input faults run' w').2.2 := by
  have hrun : (attempt d input faults run' w').2.1 = enter d run := h.entered
  cases start_performs d input (enter d run') { w' with faults } with
  | @granted v hgranted hv =>
    have hresult : (attempt d input faults run' w').1 = .ok () := congrArg Prod.fst hgranted
    rw [hresult] at hfailed
    cases hfailed
  | @refused before after c e v hfaulty hsplit hrefused hv hlast =>
    have hworld : (attempt d input faults run' w').2.2 = v := congrArg Prod.snd hrefused
    rw [hrun, hworld]
    refine ⟨enter_enter d run, fun place hplace => ?_, ?_, hv.fired.trans h.fired⟩
    · rw [h.entered] at hsplit
      have hbefore : ∀ c ∈ before, c.place? ≠ some place := fun c hc =>
        hplace c (hsplit ▸ List.mem_append_left _ hc)
      rw [hv.store, Store.content?_performAll_of_ne hbefore]
      exact h.spared place hplace
    · rw [hv.queue, List.append_nil]
      exact h.queue

/-- Attempts that have all failed have left nothing but the record and what stands at the places of
the start. -/
theorem begun_attempts {failing : List (List Fault)} (h : Begun d run w run' w')
    (hfailed : ∀ result ∈ (attempts d input failing run' w').1, ∃ e, result = .error e) :
    Begun d run w (attempts d input failing run' w').2.1
      (attempts d input failing run' w').2.2 := by
  induction failing generalizing run' w' with
  | nil => exact h
  | cons faults rest ih =>
    obtain ⟨e, he⟩ := hfailed _ List.mem_cons_self
    exact ih (h.fail he) fun result hresult => hfailed result (List.mem_cons_of_mem _ hresult)

/-- What an attempt that succeeds makes of a run and a world. -/
structure Completed (d : Definition) (input : Json) (run : Run) (w : World)
    (report : Except FanOutError Unit × Run × World) : Prop where
  entered : report.2.1 = enter d run
  store : report.2.2.store =
    w.store.performAll (startCalls (enter d run) d.body.branches.length)
  queue : report.2.2.queue = w.queue ++ handed input d.body.branches
  fired : report.2.2.fired = w.fired

/-- After attempts that have failed, one that succeeds makes of everything what it would have made
of it at the first. -/
theorem Begun.complete (h : Begun d run w run' w')
    (hsucceeded : (attempt d input faults run' w').1 = .ok ()) :
    Completed d input run w (attempt d input faults run' w') := by
  cases start_performs d input (enter d run') { w' with faults } with
  | @granted v hgranted hv =>
    have hworld : (attempt d input faults run' w').2.2 = v := congrArg Prod.snd hgranted
    refine ⟨h.entered, ?_, ?_, ?_⟩
    · rw [hworld, hv.store, h.entered]
      exact Store.performAll_eq_of_agree overwrites_startCalls h.spared
    · rw [hworld, hv.queue]
      exact congrArg (· ++ _) h.queue
    · rw [hworld, hv.fired]
      exact h.fired
  | @refused before after c e v hfaulty hsplit hrefused hv hlast =>
    have hresult : (attempt d input faults run' w').1 = .error (.store e) :=
      congrArg Prod.fst hrefused
    rw [hresult] at hsucceeded
    cases hsucceeded

/-- Without faults an attempt to start a fan-out succeeds. -/
theorem attempt_succeeds (d : Definition) (input : Json) (run : Run) (w : World) :
    (attempt d input [] run w).1 = .ok () := by
  obtain ⟨v, hv⟩ := start_succeeds (w := { w with faults := [] }) rfl d input (enter d run)
  exact congrArg Prod.fst hv

end attempts

/-! ## The last attempt -/

/-- Attempts to start a fan-out that fail, each wherever it does, hand nothing over. An attempt
after them succeeds if nothing fails, and one that succeeds leads where a single start would have
led: to the same metadata of the run, the same store and the same queue, in which every branch
stands once, in order, with the input as it was given. -/
theorem restart_eq_start (d : Definition) (input : Json) (run : Run) (w : World)
    (failing : List (List Fault))
    (hfailed : ∀ result ∈ (attempts d input failing run w).1, ∃ e, result = .error e) :
    let left := (attempts d input failing run w).2
    let single := attempt d input [] run w
    single.1 = .ok () ∧
      single.2.2.queue =
        w.queue ++ d.body.branches.map (fun branch => ⟨branch.startAt, input⟩) ∧
      left.2.queue = w.queue ∧
      (attempt d input [] left.1 left.2).1 = .ok () ∧
      ∀ faults, (attempt d input faults left.1 left.2).1 = .ok () →
        let last := attempt d input faults left.1 left.2
        last.2.1 = single.2.1 ∧ last.2.2.store = single.2.2.store ∧
          last.2.2.queue = single.2.2.queue ∧ last.2.2.fired = single.2.2.fired := by
  intro left single
  have hbegun : Begun d run w left.1 left.2 := begun_attempts (.refl d run w) hfailed
  have hsingle : Completed d input run w single :=
    (Begun.refl d run w).complete (attempt_succeeds d input run w)
  refine ⟨attempt_succeeds d input run w, hsingle.queue, hbegun.queue,
    attempt_succeeds d input left.1 left.2, fun faults hsucceeded => ?_⟩
  have hlast := hbegun.complete hsucceeded
  exact ⟨hlast.entered.trans hsingle.entered.symm, hlast.store.trans hsingle.store.symm,
    hlast.queue.trans hsingle.queue.symm, hlast.fired.trans hsingle.fired.symm⟩

/-- Attempts to start the branches of `pair`, one for every call that can be refused. -/
def pairFailures : List (List Fault) :=
  (startCalls (enter pair pairRun) 2).map fun c =>
    [{ operation := c.operation, error := .backend "down" }]

/-- After `pairFailures` an attempt without faults leads where a single start would have led. -/
theorem pair_restarts :
    let left := (attempts pair .null pairFailures pairRun {}).2
    let last := attempt pair .null [] left.1 left.2
    let single := attempt pair .null [] pairRun {}
    last.1 = .ok () ∧ last.2.1 = single.2.1 ∧ last.2.2.store = single.2.2.store ∧
      last.2.2.queue = [⟨"Left", .null⟩, ⟨"Right", .null⟩] := by
  intro left last single
  have hfailed : ∀ result ∈ (attempts pair .null pairFailures pairRun {}).1,
      ∃ e, result = .error e := by
    have hresults : (attempts pair .null pairFailures pairRun {}).1 =
        List.replicate 4 (.error (.store (.backend "down"))) := by decide +kernel
    rw [hresults]
    exact fun result hresult => ⟨_, List.eq_of_mem_replicate hresult⟩
  obtain ⟨-, hqueue, -, hsucceeds, hlast⟩ :=
    restart_eq_start pair .null pairRun {} pairFailures hfailed
  obtain ⟨hrun, hstore, hqueue', -⟩ := hlast [] hsucceeds
  exact ⟨hsucceeds, hrun, hstore, hqueue'.trans hqueue⟩

end FanOut

end Workflow
