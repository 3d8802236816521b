import Mathlib.Tactic.Common
import Workflow.Activity

/-!
# What an activity does in a run

An activity is known by its result and by what it asks for on the way. Both are followed here
through the combinations that activities are built from.

* **Activities that may fail** (`run_bind_ok`, `run_adapt`): a result is handed on, and a failure
  can be named anew.
* **Requests** (`requests`, `dispatches`): what a run asks for, in order, and what of it goes to the
  scheduler; `requests_bind` and `dispatches_bind_ok` split a run where its parts meet.
* **Courses** (`Runs`): all that a run asks for, its result and the state that it leads to, with the
  rule of sequence (`Runs.bind`).
* **Restraint** (`OnlyAsks`): an activity that asks for things of one kind only, whatever it is
  answered. Restrained parts make a restrained whole (`OnlyAsks.bind`, `OnlyAsks.bindFailing`), and
  its runs ask for nothing else (`OnlyAsks.of_mem_requests`).
* **Reliance** (`Until`): an activity that does so as long as its answers are of one kind, until it
  has come to a point from which something else is known of it.
-/

namespace Workflow

/-- What a request hands to the scheduler. -/
def Request.dispatch? : Request → Option Dispatch
  | dispatch d => some d
  | store _ | sleep _ | now | work _ | connect | send _ => none

/-- Whether a request hands nothing to the scheduler. -/
def Request.IsRestrained (request : Request) : Prop := request.dispatch? = none

namespace Activity

variable {α β ε ε' σ : Type}

/-! ## Activities that may fail -/

section failing

variable {environment : Environment σ} {s s' : σ} {x : ExceptT ε Activity α}
  {f : α → ExceptT ε Activity β}

/-- A result is handed on to what follows. -/
theorem run_bind_ok {a : α} (h : x.run.run environment s = (.ok a, s')) :
    (x >>= f).run.run environment s = (f a).run.run environment s' := by
  rw [ExceptT.run_bind, run_bind, h]

/-- What was to follow a failure does not take place. -/
theorem run_bind_error {e : ε} (h : x.run.run environment s = (.error e, s')) :
    (x >>= f).run.run environment s = (.error e, s') := by
  rw [ExceptT.run_bind, run_bind, h]
  rfl

end failing

/-- A result that is at hand is handed on to what follows. -/
@[simp] theorem run_lift_bind_ok (a : α) (f : α → ExceptT ε Activity β) :
    ((liftM (Except.ok a : Except ε α) : ExceptT ε Activity α) >>= f) = f a := rfl

/-- What cannot fail succeeds. -/
theorem run_liftM (environment : Environment σ) (a : Activity α) (s : σ) :
    (liftM a : ExceptT ε Activity α).run.run environment s =
      (.ok (a.run environment s).1, (a.run environment s).2) := by
  rw [ExceptT.run_liftM, map_eq, run_bind]
  rfl

/-- A failure that is named anew is the same failure at the same place. -/
theorem run_adapt (environment : Environment σ) (x : ExceptT ε Activity α) (g : ε → ε') (s : σ) :
    (x.adapt g).run.run environment s =
      ((x.run.run environment s).1.mapError g, (x.run.run environment s).2) := by
  change (x.run >>= fun result => done (result.mapError g)).run environment s = _
  rw [run_bind]
  rfl

/-- Whether an activity is over, with a result and not with a failure. -/
def hasSucceeded : Activity (Except ε α) → Bool
  | done (.ok _) => true
  | done (.error _) | ask _ _ => false

/-- The result of an activity that is over. -/
def result? : Activity α → Option α
  | done result => some result
  | ask _ _ => none

/-- An activity that has a result is over, with this result. -/
theorem eq_done_of_result? {a : Activity α} {result : α} (h : a.result? = some result) :
    a = done result := by
  cases a with
  | done other => exact congrArg done (Option.some.inj h)
  | ask request resume => cases h

/-! ## The requests of a run -/

/-- What a run asks for, in order. -/
def requests (environment : Environment σ) : Activity α → σ → List Request
  | done _, _ => []
  | ask request resume, s =>
    request :: (resume (environment request s).1).requests environment (environment request s).2

/-- What a run hands to the scheduler, in order. -/
def dispatches (environment : Environment σ) (a : Activity α) (s : σ) : List Dispatch :=
  (a.requests environment s).filterMap Request.dispatch?

section requests

variable (environment : Environment σ)

/-- One activity after another asks for one thing after the other. -/
theorem requests_bind (a : Activity α) (f : α → Activity β) (s : σ) :
    (a >>= f).requests environment s =
      a.requests environment s
        ++ (f (a.run environment s).1).requests environment (a.run environment s).2 := by
  induction a generalizing s with
  | done result => rfl
  | ask request resume ih =>
    exact congrArg (request :: ·)
      (ih (environment request s).1 (environment request s).2)

/-- One activity after another hands over one thing after the other. -/
theorem dispatches_bind (a : Activity α) (f : α → Activity β) (s : σ) :
    (a >>= f).dispatches environment s =
      a.dispatches environment s
        ++ (f (a.run environment s).1).dispatches environment (a.run environment s).2 := by
  rw [dispatches, requests_bind, List.filterMap_append]
  rfl

variable {environment} {s s' : σ} {x : ExceptT ε Activity α} {f : α → ExceptT ε Activity β}

/-- An activity that succeeds, and then another, hand over one thing after the other. -/
theorem dispatches_bind_ok {a : α} (h : x.run.run environment s = (.ok a, s')) :
    (x >>= f).run.dispatches environment s =
      x.run.dispatches environment s ++ (f a).run.dispatches environment s' := by
  rw [ExceptT.run_bind, dispatches_bind, h]

/-- After an activity that fails, what was to follow hands over nothing. -/
theorem dispatches_bind_error {e : ε} (h : x.run.run environment s = (.error e, s')) :
    (x >>= f).run.dispatches environment s = x.run.dispatches environment s := by
  rw [ExceptT.run_bind, dispatches_bind, h]
  exact List.append_nil _

/-- Naming a failure anew changes nothing about what is handed over. -/
theorem dispatches_adapt (environment : Environment σ) (x : ExceptT ε Activity α) (g : ε → ε')
    (s : σ) : (x.adapt g).run.dispatches environment s = x.run.dispatches environment s := by
  change (x.run >>= fun result => done (result.mapError g)).dispatches environment s = _
  rw [dispatches_bind]
  exact List.append_nil _

end requests

/-! ## Courses -/

/-- In a state, an activity asks for these things, comes to this result and leads to this state. -/
structure Runs (environment : Environment σ) (a : Activity α) (s : σ) (asked : List Request)
    (result : α) (t : σ) : Prop where
  requests : a.requests environment s = asked
  run : a.run environment s = (result, t)

namespace Runs

variable {environment : Environment σ} {s t u : σ} {asked more : List Request}

/-- Every run takes one course. -/
theorem intro (environment : Environment σ) (a : Activity α) (s : σ) :
    Runs environment a s (a.requests environment s) (a.run environment s).1
      (a.run environment s).2 := ⟨rfl, rfl⟩

/-- Two accounts of one run agree. -/
theorem unique {a : Activity α} {result result' : α} (h : Runs environment a s asked result t)
    (h' : Runs environment a s more result' u) : asked = more ∧ result = result' ∧ t = u :=
  ⟨h.requests.symm.trans h'.requests, Prod.mk.inj (h.run.symm.trans h'.run)⟩

/-- The rule of the end. -/
theorem done (a : α) : Runs environment (.done a) s [] a s := ⟨rfl, rfl⟩

/-- The rule of a request. -/
theorem ask {request : Request} {resume : request.Reply → Activity α} {reply : request.Reply}
    {result : α} (hanswer : environment request s = (reply, t))
    (h : Runs environment (resume reply) t asked result u) :
    Runs environment (.ask request resume) s (request :: asked) result u := by
  obtain ⟨hrequests, hrun⟩ := h
  exact ⟨by rw [Activity.requests, hanswer, hrequests], by rw [run_ask, hanswer, hrun]⟩

/-- The rule of sequence. -/
theorem bind {a : Activity α} {f : α → Activity β} {x : α} {result : β}
    (ha : Runs environment a s asked x t) (hf : Runs environment (f x) t more result u) :
    Runs environment (a >>= f) s (asked ++ more) result u := by
  obtain ⟨hrequests, hrun⟩ := ha
  refine ⟨?_, ?_⟩
  · rw [requests_bind, hrequests, hrun, hf.requests]
  · rw [run_bind, hrun, hf.run]

/-- The rule of sequence for activities that may fail. -/
theorem bindOk {x : ExceptT ε Activity α} {f : α → ExceptT ε Activity β} {a : α}
    {result : Except ε β} (hx : Runs environment x.run s asked (.ok a) t)
    (hf : Runs environment (f a).run t more result u) :
    Runs environment (x >>= f).run s (asked ++ more) result u := by
  rw [ExceptT.run_bind]
  exact hx.bind hf

/-- A sequence has succeeded only if its parts have. -/
theorem exists_of_bindOk {x : ExceptT ε Activity α} {f : α → ExceptT ε Activity β} {b : β}
    (h : Runs environment (x >>= f).run s asked (.ok b) t) :
    ∃ a u before more, Runs environment x.run s before (.ok a) u ∧
      Runs environment (f a).run u more (.ok b) t ∧ asked = before ++ more := by
  have hx := Runs.intro environment x.run s
  rcases hresult : (x.run.run environment s).1 with e | a
  · rw [hresult] at hx
    rw [ExceptT.run_bind] at h
    obtain ⟨-, hfailed, -⟩ := h.unique (hx.bind (.done (Except.error e)))
    cases hfailed
  · rw [hresult] at hx
    have hf := Runs.intro environment (f a).run (x.run.run environment s).2
    obtain ⟨rfl, hsucceeded, rfl⟩ := h.unique (hx.bindOk hf)
    rw [← hsucceeded] at hf
    exact ⟨a, _, _, _, hx, hf, rfl⟩

/-- What cannot fail takes the same course as an activity that may. -/
theorem of_liftM {a : Activity α} {x : α}
    (h : Runs environment (liftM a : ExceptT ε Activity α).run s asked (.ok x) t) :
    Runs environment a s asked x t := by
  have ha := Runs.intro environment a s
  rw [ExceptT.run_liftM, map_eq] at h
  obtain ⟨rfl, hresult, rfl⟩ := h.unique (ha.bind (.done _))
  cases hresult
  rw [List.append_nil]
  exact ha

/-- What succeeds under other names of failures succeeds. -/
theorem of_adapt {x : ExceptT ε Activity α} {g : ε → ε'} {a : α}
    (h : Runs environment (x.adapt g).run s asked (.ok a) t) :
    Runs environment x.run s asked (.ok a) t := by
  have hx := Runs.intro environment x.run s
  obtain ⟨rfl, hresult, rfl⟩ := h.unique (hx.bind (.done _))
  rw [List.append_nil]
  cases hrun : (x.run.run environment s).1 with
  | error e =>
    rw [hrun] at hresult
    cases hresult
  | ok b =>
    rw [hrun] at hresult hx
    cases hresult
    exact hx

end Runs

/-! ## Restraint -/

/-- Whatever it is answered, the activity asks for such things only. -/
def OnlyAsks (P : Request → Prop) : Activity α → Prop
  | done _ => True
  | ask request resume => P request ∧ ∀ reply, (resume reply).OnlyAsks P

namespace OnlyAsks

variable {P Q : Request → Prop}

/-- The things that an activity may ask for can be widened. -/
theorem mono {a : Activity α} (h : ∀ request, P request → Q request) (ha : a.OnlyAsks P) :
    a.OnlyAsks Q := by
  induction a with
  | done result => trivial
  | ask request resume ih => exact ⟨h request ha.1, fun reply => ih reply (ha.2 reply)⟩

/-- An activity that is over asks for nothing. -/
theorem nothing (a : α) : (done a).OnlyAsks P := trivial

/-- The rule of sequence: an activity asks for such things only if both its parts do. -/
theorem bind {a : Activity α} {f : α → Activity β} (ha : a.OnlyAsks P)
    (hf : ∀ x, (f x).OnlyAsks P) : (a >>= f).OnlyAsks P := by
  induction a with
  | done result => exact hf result
  | ask request resume ih => exact ⟨ha.1, fun reply => ih reply (ha.2 reply)⟩

/-- The restraint of activities that may fail. -/
theorem bindFailing {x : ExceptT ε Activity α} {f : α → ExceptT ε Activity β}
    (hx : x.run.OnlyAsks P) (hf : ∀ a, (f a).run.OnlyAsks P) : (x >>= f).run.OnlyAsks P := by
  rw [ExceptT.run_bind]
  refine bind hx fun result => ?_
  cases result with
  | ok a => exact hf a
  | error e => trivial

/-- What cannot fail asks for the same things as an activity that may. -/
theorem liftM {a : Activity α} (ha : a.OnlyAsks P) :
    (liftM a : ExceptT ε Activity α).run.OnlyAsks P := by
  rw [ExceptT.run_liftM, map_eq]
  exact bind ha fun _ => trivial

/-- Naming a failure anew changes nothing about what is asked for. -/
theorem adapt {x : ExceptT ε Activity α} (g : ε → ε') (hx : x.run.OnlyAsks P) :
    (x.adapt g).run.OnlyAsks P := by
  change (x.run >>= fun result => done (result.mapError g)).OnlyAsks P
  exact bind hx fun _ => trivial

/-- What an activity asks for in any run is among the things that it may ask for. -/
theorem of_mem_requests {environment : Environment σ} {a : Activity α} {s : σ}
    (ha : a.OnlyAsks P) : ∀ request ∈ a.requests environment s, P request := by
  induction a generalizing s with
  | done result => intro request h; cases h
  | ask request resume ih =>
    intro other h
    rcases List.mem_cons.mp h with rfl | h
    · exact ha.1
    · exact ih _ (ha.2 _) other h

/-- An activity that hands nothing to the scheduler has runs that hand nothing to it. -/
theorem dispatches_eq_nil {environment : Environment σ} {a : Activity α} {s : σ}
    (ha : a.OnlyAsks Request.IsRestrained) : a.dispatches environment s = [] :=
  List.filterMap_eq_nil_iff.mpr fun request h => ha.of_mem_requests request h

end OnlyAsks

/-! ## Reliance -/

/-- The activity is over, with such a result. -/
def Over (P : α → Prop) (a : Activity α) : Prop := ∃ result, a = done result ∧ P result

/-- As long as its answers are such, the activity asks for such things only, until what is left of
it is such an activity. -/
inductive Until (asks : Request → Prop) (given : (request : Request) → request.Reply → Prop)
    (final : Activity α → Prop) : Activity α → Prop
  | final {a : Activity α} (h : final a) : Until asks given final a
  | ask {request : Request} {resume : request.Reply → Activity α} (h : asks request)
      (hresume : ∀ reply, given request reply → Until asks given final (resume reply)) :
      Until asks given final (.ask request resume)

namespace Until

variable {asks : Request → Prop} {given : (request : Request) → request.Reply → Prop}
  {final : Activity β → Prop}

/-- What is asked for without reliance is asked for with any. -/
theorem of_onlyAsks {a : Activity α} (ha : a.OnlyAsks asks) :
    a.Until asks given (Over fun _ => True) := by
  induction a with
  | done result => exact .final ⟨result, rfl, trivial⟩
  | ask request resume ih => exact .ask ha.1 fun reply _ => ih reply (ha.2 reply)

/-- What is not over asks for something, and goes on like this. -/
theorem of_ask {P : α → Prop} {request : Request} {resume : request.Reply → Activity α}
    (h : (Activity.ask request resume).Until asks given (Over P)) :
    asks request ∧
      ∀ reply, given request reply → (resume reply).Until asks given (Over P) := by
  cases h with
  | final hover =>
    obtain ⟨result, hdone, -⟩ := hover
    cases hdone
  | ask hasks hresume => exact ⟨hasks, hresume⟩

/-- The rule of sequence. -/
theorem bind {a : Activity α} {f : α → Activity β} {P : α → Prop}
    (ha : a.Until asks given (Over P)) (hf : ∀ x, P x → (f x).Until asks given final) :
    (a >>= f).Until asks given final := by
  induction ha with
  | final h =>
    obtain ⟨x, rfl, hx⟩ := h
    exact hf x hx
  | ask h _ ih => exact .ask h ih

/-- The rule of sequence for activities that may fail. -/
theorem bindFailing {final : Activity (Except ε β) → Prop} {x : ExceptT ε Activity α}
    {f : α → ExceptT ε Activity β} {P : Except ε α → Prop} (hx : x.run.Until asks given (Over P))
    (hok : ∀ a, P (.ok a) → (f a).run.Until asks given final)
    (herror : ∀ e, P (.error e) → final (.done (.error e))) :
    (x >>= f).run.Until asks given final := by
  rw [ExceptT.run_bind]
  refine bind hx fun result hresult => ?_
  cases result with
  | ok a => exact hok a hresult
  | error e => exact .final (herror e hresult)

end Until

end Activity

end Workflow
