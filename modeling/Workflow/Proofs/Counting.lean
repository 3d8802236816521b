import Workflow.Interpreter
import Workflow.Proofs.Task.Retry
import Workflow.Proofs.Worker.Connection
import Workflow.Proofs.Worker.Service
import Workflow.Proofs.World

/-!
# What can count

The counters of fan-outs are the business of the interpreter. Whatever a state does, with its task,
its worker or its pauses, it counts nothing, so that nobody but the end of a branch brings a
counter closer to its threshold.

* **Requests** (`StoreCall.adds`, `Request.adds`, `Request.counts`): what brings anything into the
  store, and what of it counts.
* **Worlds** (`World.Uncounted`, `World.uncounted_of_onlyAsks`): what an activity that does not
  count leaves alone.
* **States** (`Interpreter.perform_onlyAsks_of`, `Interpreter.perform_onlyAsks`): what a state asks
  for by doing what its kind says; it does not count.
-/

namespace Workflow

open Activity

/-! ## Requests -/

/-- Whether a call brings anything into the store, or adds to what is there. -/
def StoreCall.adds : StoreCall → Bool
  | put _ _ | createSet _ | addMember _ _ | createCounter _ _ | increment _ _
  | putTrigger _ _ => true
  | get _ | delete _ | members _ | deleteSet _ | deleteCounter _ | deleteTrigger _ => false

/-- Whether a request brings anything into the store, or adds to what is there. -/
def Request.adds : Request → Bool
  | store c => c.adds
  | dispatch _ | sleep _ | now | work _ | connect | send _ => false

/-- Whether a request makes a counter, or adds to one. -/
def Request.counts : Request → Bool
  | store (.createCounter _ _) | store (.increment _ _) => true
  | _ => false

/-- Whether a request does not count. -/
def Request.IsUncounted (request : Request) : Prop := request.counts = false

/-- A request that brings nothing into the store does not count. -/
theorem Request.isUncounted_of_adds {request : Request} (h : request.adds = false) :
    request.IsUncounted := by
  cases request with
  | store c => cases c <;> first | rfl | cases h
  | _ => rfl

/-- A callback of a worker does not count. -/
theorem CallbackRequest.isUncounted_toRequest (request : CallbackRequest) :
    request.toRequest.IsUncounted := by
  cases request <;> rfl

/-! ## Worlds -/

/-- A call that does not count leaves a counter as it was, or removes it. -/
theorem Store.content?_of_perform {s : Store} {c : StoreCall}
    (h : (Request.store c).IsUncounted) {name : String} {count : Int}
    (hcount : (s.perform c).2.content? (.counter name) = some count) :
    s.content? (.counter name) = some count := by
  by_cases hplace : c.place? = some (.counter name)
  · cases c with
    | createCounter other initial => cases h
    | increment other delta => cases h
    | deleteCounter other =>
      obtain rfl : other = name := by simpa [StoreCall.place?] using hplace
      simp [content?, perform] at hcount
    | _ => cases hplace
  · rwa [content?_perform_of_ne hplace] at hcount

namespace World

/-- Nothing has been counted from one world to another: counters are as they were or have been
removed, no trigger has fired, and no call is to come. -/
structure Uncounted (w v : World) : Prop where
  later : v.later = []
  counter : ∀ name count, v.store.content? (.counter name) = some count →
    w.store.content? (.counter name) = some count
  fired : v.fired = w.fired

variable {w v u : World}

/-- If nothing has been counted from one world to a second and from there to a third, nothing has
been counted from the first to the third. -/
theorem Uncounted.trans (h : w.Uncounted v) (h' : v.Uncounted u) : w.Uncounted u :=
  ⟨h'.later, fun name count hcount => h.counter name count (h'.counter name count hcount),
    h'.fired.trans h.fired⟩

/-- A world in which nobody else has anything to do counts only when it is asked to. -/
theorem uncounted_answer {request : Request} (hw : w.later = []) (h : request.IsUncounted) :
    w.Uncounted (answer request w).2 := by
  cases request with
  | store c =>
    rcases w.answer_store_cases c with ⟨-, e, faults, journal, hanswer⟩ | ⟨faults, -, hanswer⟩
    · rw [hanswer]
      exact ⟨hw, fun _ _ => id, rfl⟩
    · have hc : ∀ name delta, c ≠ .increment name delta := by
        rintro name delta rfl
        cases h
      rw [hanswer]
      exact ⟨hw, fun _ _ => Store.content?_of_perform h, after_fired_of_ne_increment hc⟩
  | sleep d =>
    change w.Uncounted (w.pause d)
    rw [pause_of_later_eq_nil hw]
    exact ⟨rfl, fun _ _ => id, rfl⟩
  | _ => exact ⟨hw, fun _ _ => id, rfl⟩

/-- An activity that asks for nothing that counts has not counted anything, in a world in which
nobody else has anything to do. -/
theorem uncounted_of_onlyAsks {α : Type} {a : Activity α}
    (ha : a.OnlyAsks Request.IsUncounted) (hw : w.later = []) :
    w.Uncounted (a.run answer w).2 := by
  induction a generalizing w with
  | done result => exact ⟨hw, fun _ _ => id, rfl⟩
  | ask request resume ih =>
    have hrequest := uncounted_answer hw ha.1
    exact hrequest.trans (ih _ (ha.2 _) hrequest.later)

end World

/-! ## States -/

/-- A session is held without counting. -/
theorem Session.eager_onlyAsks (steps : Nat) (session : Session) :
    (session.eager steps).OnlyAsks Request.IsUncounted := by
  have hserve (session : Session) : session.serve.OnlyAsks Request.IsUncounted := by
    rw [serve]
    split
    case h_1 => trivial
    case h_2 c rest _ =>
      refine (c.serve_onlyAsks c.request.isUncounted_toRequest fun _ => rfl).bind fun isSent => ?_
      cases isSent <;> trivial
  induction steps generalizing session with
  | zero => trivial
  | succ steps ih =>
    rw [eager]
    split
    · trivial
    · split
      · exact ih session.read
      · exact (hserve session).bind ih

/-- A session over the bytes of a worker is held without counting. -/
theorem converse_onlyAsks (bytes : List UInt8) (input : Json) :
    (converse bytes input).run.OnlyAsks Request.IsUncounted := by
  refine ⟨rfl, fun isSent => ?_⟩
  cases isSent with
  | false => trivial
  | true =>
    have hsession := Session.eager_onlyAsks (2 * (linesOf bytes).length + 1)
      { unread := linesOf bytes }
    exact .bindFailing hsession.liftM fun session => .nothing session.result

/-- The invocation of a task counts nothing, be it done in process or by a worker. -/
theorem Task.invoke_onlyAsks (task : Task) (input : Json) :
    (task.invoke input).run.OnlyAsks Request.IsUncounted := by
  cases task with
  | echo => trivial
  | inProcess => exact ⟨rfl, fun _ => trivial⟩
  | delegated worker =>
    have hconnect := worker.connect_onlyAsks (P := Request.IsUncounted) rfl fun _ => rfl
    exact .bindFailing (.adapt _ hconnect) fun bytes => converse_onlyAsks bytes input

section parts

variable {P : Request → Prop} {task : Task}

/-- Catching a failure asks for the invocation of the state that takes over at most. -/
theorem catchFailure_onlyAsks (hdispatch : ∀ d, P (.dispatch d)) (catchers : List CatchPolicy)
    (failure : TaskFailure) : (catchFailure task catchers failure).run.OnlyAsks P := by
  unfold catchFailure
  cases catchers.find? fun catcher => failure.matchedBy catcher.errorEquals with
  | none => trivial
  | some catcher => exact ⟨hdispatch _, fun _ => trivial⟩

/-- The retry loop asks for what the invocations ask for, for pauses, and for the invocation of the
state that takes over. -/
theorem invokeWithin_onlyAsks {input : Json} (hinvoke : (task.invoke input).run.OnlyAsks P)
    (hsleep : ∀ d, P (.sleep d)) (hdispatch : ∀ d, P (.dispatch d)) (catchers : List CatchPolicy)
    (budget : RetryBudget) : (invokeWithin task catchers input budget).run.OnlyAsks P := by
  induction budget using invokeWithin.induct with
  | case1 budget ih =>
    rw [invokeWithin_eq]
    refine hinvoke.bind fun result => ?_
    cases result with
    | ok output => trivial
    | error failure =>
      simp only [answerFailure]
      cases hdecide : budget.decide failure with
      | unmatched => exact catchFailure_onlyAsks hdispatch catchers failure
      | exhausted =>
        cases catchers with
        | nil => trivial
        | cons head rest => exact catchFailure_onlyAsks hdispatch (head :: rest) failure
      | again delay next => exact ⟨hsleep delay, fun _ => ih failure delay next hdecide⟩

/-- By doing what its kind says a state asks for what its task asks for, and for the time. -/
theorem Interpreter.perform_onlyAsks_of (i : Interpreter)
    (hinvoke : ∀ input, (task.invoke input).run.OnlyAsks P) (hsleep : ∀ d, P (.sleep d))
    (hdispatch : ∀ d, P (.dispatch d)) (hnow : P .now) (input : Json) :
    (i.perform task input).run.OnlyAsks P := by
  unfold perform
  cases i.definition.kind with
  | task =>
    have hloop := invokeWithin_onlyAsks (hinvoke input) hsleep hdispatch
      i.definition.body.catchers (.fresh i.definition.body.retriers)
    refine .bindFailing (.adapt _ hloop) fun outcome => ?_
    cases outcome <;> trivial
  | wait =>
    refine ⟨hnow, fun today => ?_⟩
    refine .bindFailing (.nothing _) fun delay => ?_
    split
    · exact ⟨hsleep delay, fun _ => trivial⟩
    · trivial
  | choice => exact .bindFailing (.nothing _) fun _ => trivial
  | _ => trivial

end parts

/-- No state counts by doing what its kind says. -/
theorem Interpreter.perform_onlyAsks (i : Interpreter) (task : Task) (input : Json) :
    (i.perform task input).run.OnlyAsks Request.IsUncounted :=
  i.perform_onlyAsks_of (task.invoke_onlyAsks) (fun _ => rfl) (fun _ => rfl) rfl input

end Workflow
