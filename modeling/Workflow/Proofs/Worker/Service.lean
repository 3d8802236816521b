import Workflow.Proofs.Activity
import Workflow.Worker.Session

/-!
# What the lines of a worker ask for

The lines of a worker are read up to the first one that ends the session. What stands before it is
blank or a callback, and what stands behind it is of no concern.

* **Lines** (`callbacksOf`, `verdictOf`): the callbacks before the line that ends a session, and
  the verdict of that line (`ending_of_over`), or of the end of the channel (`ending_of_closed`).
* **One callback** (`CallbackRequest.toRequest`, `Callback.exchange`, `runs_serve`): it asks for one
  thing, and sends one answer.
* **All callbacks** (`serveAll`, `exchanges`, `runs_serveAll`): they are carried out and answered
  one after the other, as long as answers can be sent.
-/

namespace Workflow

open Activity

variable {σ : Type}

/-! ## Lines -/

/-- The callback that a line holds. -/
def Reading.callback? : Reading → Option Callback
  | .callback c => some c
  | .blank | .over _ => none

/-- The verdict of a line that ends the session. -/
def Reading.verdict? : Reading → Option Verdict
  | .over verdict => some verdict
  | .blank | .callback _ => none

/-- The callbacks before the line that ends a session. -/
def callbacksOf (lines : List Line) : List Callback :=
  ((lines.map readLine).takeWhile fun reading => reading.verdict?.isNone).filterMap
    Reading.callback?

/-- The verdict of the line that ends a session. Where there is none, the lines have ended too
early. -/
def verdictOf (lines : List Line) : Verdict :=
  ((lines.map readLine).findSome? Reading.verdict?).getD (transportFailure .closedEarly)

section lines

variable {line : Line} {c : Callback} {verdict : Verdict}

/-- A line that is skipped is no callback. -/
theorem callbacksOf_blank (h : readLine line = .blank) (rest : List Line) :
    callbacksOf (line :: rest) = callbacksOf rest := by
  rw [callbacksOf, List.map_cons, h]
  rfl

/-- A line with a callback is the first of the callbacks. -/
theorem callbacksOf_callback (h : readLine line = .callback c) (rest : List Line) :
    callbacksOf (line :: rest) = c :: callbacksOf rest := by
  rw [callbacksOf, List.map_cons, h]
  rfl

/-- The line that ends a session is followed by no callbacks. -/
theorem callbacksOf_over (h : readLine line = .over verdict) (rest : List Line) :
    callbacksOf (line :: rest) = [] := by
  rw [callbacksOf, List.map_cons, h]
  rfl

/-- A line that is skipped does not decide about the verdict. -/
theorem verdictOf_blank (h : readLine line = .blank) (rest : List Line) :
    verdictOf (line :: rest) = verdictOf rest := by
  rw [verdictOf, List.map_cons, h]
  rfl

/-- A line with a callback does not decide about the verdict. -/
theorem verdictOf_callback (h : readLine line = .callback c) (rest : List Line) :
    verdictOf (line :: rest) = verdictOf rest := by
  rw [verdictOf, List.map_cons, h]
  rfl

/-- The line that ends a session decides about the verdict. -/
theorem verdictOf_over (h : readLine line = .over verdict) (rest : List Line) :
    verdictOf (line :: rest) = verdict := by
  rw [verdictOf, List.map_cons, h]
  rfl

/-- Lines that do not end a session bring callbacks and nothing else. -/
theorem ending_append {front : List Line} (hfront : ∀ l ∈ front, (readLine l).verdict? = none)
    (rest : List Line) :
    callbacksOf (front ++ rest) =
        (front.filterMap fun l => (readLine l).callback?) ++ callbacksOf rest ∧
      verdictOf (front ++ rest) = verdictOf rest := by
  induction front with
  | nil => exact ⟨rfl, rfl⟩
  | cons head front ih =>
    obtain ⟨hcallbacks, hverdict⟩ := ih fun l hl => hfront l (List.mem_cons_of_mem head hl)
    have hhead := hfront head List.mem_cons_self
    rw [List.cons_append]
    rcases hreading : readLine head with _ | c | verdict
    · rw [callbacksOf_blank hreading, verdictOf_blank hreading, List.filterMap_cons, hreading]
      exact ⟨hcallbacks, hverdict⟩
    · rw [callbacksOf_callback hreading, verdictOf_callback hreading, List.filterMap_cons, hreading]
      exact ⟨congrArg (c :: ·) hcallbacks, hverdict⟩
    · rw [hreading] at hhead
      cases hhead

/-- The first line that ends a session decides about its verdict, and lines behind it do not
matter. -/
theorem ending_of_over {front : List Line} (hfront : ∀ l ∈ front, (readLine l).verdict? = none)
    (hline : readLine line = .over verdict) (rest : List Line) :
    callbacksOf (front ++ line :: rest) = (front.filterMap fun l => (readLine l).callback?) ∧
      verdictOf (front ++ line :: rest) = verdict := by
  obtain ⟨hcallbacks, hverdict⟩ := ending_append hfront (line :: rest)
  rw [callbacksOf_over hline, List.append_nil] at hcallbacks
  exact ⟨hcallbacks, hverdict.trans (verdictOf_over hline rest)⟩

/-- When no line does, the session ends with the channel. -/
theorem ending_of_closed {lines : List Line} (h : ∀ l ∈ lines, (readLine l).verdict? = none) :
    callbacksOf lines = (lines.filterMap fun l => (readLine l).callback?) ∧
      verdictOf lines = transportFailure .closedEarly := by
  have hending := ending_append h []
  rw [List.append_nil] at hending
  exact ⟨hending.1.trans (List.append_nil _), hending.2⟩

/-- Every callback has a line of its own. -/
theorem length_callbacksOf_le (lines : List Line) : (callbacksOf lines).length ≤ lines.length := by
  calc (callbacksOf lines).length
      ≤ ((lines.map readLine).takeWhile fun reading => reading.verdict?.isNone).length :=
        List.length_filterMap_le _ _
    _ ≤ (lines.map readLine).length := (List.takeWhile_prefix _).length_le
    _ = lines.length := List.length_map _

end lines

/-! ## One callback -/

namespace CallbackRequest

/-- What a callback asks the store or the scheduler for. -/
def toRequest : CallbackRequest → Request
  | get key => .store (.get key)
  | put key value => .store (.put key value)
  | delete key => .store (.delete key)
  | createSet key => .store (.createSet key)
  | addMember key member => .store (.addMember key member)
  | members key => .store (.members key)
  | deleteSet key => .store (.deleteSet key)
  | dispatch next value => .dispatch ⟨next, value⟩

/-- What the reply to it comes to: the value or the members that were asked for, or null; or the
error of the store. -/
def result : (request : CallbackRequest) → request.toRequest.Reply → Except StoreError Json
  | get _, reply => Except.map (fun value : Option Json => value.getD .null) reply
  | members _, reply => Except.map Json.strings reply
  | put _ _, reply | delete _, reply | createSet _, reply | addMember _ _, reply
  | deleteSet _, reply => Except.map (fun _ : Unit => Json.null) reply
  | dispatch _ _, _ => .ok .null

/-- A callback is carried out by one request. -/
theorem serve_run (request : CallbackRequest) :
    request.serve.run = .ask request.toRequest fun reply => .done (request.result reply) := by
  cases request with
  | dispatch next value => rfl
  | _ =>
    refine congrArg (Activity.ask _) (funext fun reply => ?_)
    cases reply <;> rfl

end CallbackRequest

/-- A callback that has been carried out, with what came of it. -/
structure Exchange where
  callback : Callback
  result : Except StoreError Json

namespace Exchange

/-- The answer to the callback. -/
def response (e : Exchange) : CallbackResponse := .ofResult e.callback.id e.result

/-- What it took: the request that carried out the callback, and the sending of the answer. -/
def requests (e : Exchange) : List Request :=
  [e.callback.request.toRequest, .send (frameBytes e.response.toJson)]

/-- The answer to a callback has the number of the callback. -/
theorem response_id (e : Exchange) : e.response.id = e.callback.id := by
  rw [response]
  cases e.result <;> rfl

/-- The answer to a callback that has failed gives the error in words. -/
theorem response_of_error {e : Exchange} {error : StoreError} (h : e.result = .error error) :
    e.response.isOk = false ∧ e.response.error = some error.message := by
  rw [response, h]
  exact ⟨rfl, rfl⟩

end Exchange

namespace Callback

/-- A callback is carried out and answered. -/
def exchange (environment : Environment σ) (c : Callback) (s : σ) : Exchange × σ :=
  let (reply, s) := environment c.request.toRequest s
  let e : Exchange := ⟨c, c.request.result reply⟩
  (e, (environment (.send (frameBytes e.response.toJson)) s).2)

/-- A callback asks for one thing, and then its answer is sent. -/
theorem serve_eq (c : Callback) :
    c.serve = .ask c.request.toRequest fun reply =>
      .ask (.send (frameBytes (Exchange.response ⟨c, c.request.result reply⟩).toJson)) .done := by
  rw [serve, CallbackRequest.serve_run]
  rfl

/-- To carry out a callback is to make its request and to send its answer. -/
theorem serve_onlyAsks {P : Request → Prop} (c : Callback) (hrequest : P c.request.toRequest)
    (hsend : ∀ bytes, P (.send bytes)) : c.serve.OnlyAsks P := by
  rw [serve_eq]
  exact ⟨hrequest, fun _ => ⟨hsend _, fun _ => trivial⟩⟩

/-- In every run a callback takes the request that carries it out and the sending of its answer. -/
theorem runs_serve (environment : Environment σ) (c : Callback) (s : σ) :
    ∃ isSent, Runs environment c.serve s (c.exchange environment s).1.requests isSent
      (c.exchange environment s).2 := by
  rw [serve_eq]
  exact ⟨_, .ask rfl (.ask rfl (.done _))⟩

end Callback

/-! ## All callbacks -/

/-- Callbacks are carried out and answered one after the other, until an answer cannot be sent;
tells whether all were sent. -/
def serveAll : List Callback → Activity Bool
  | [] => return true
  | c :: rest => do
    if ← c.serve then serveAll rest
    else return false

/-- What comes of callbacks that are all carried out and answered, one after the other. -/
def exchanges (environment : Environment σ) : List Callback → σ → List Exchange × σ
  | [], s => ([], s)
  | c :: rest, s =>
    let (e, s) := c.exchange environment s
    let (others, s) := exchanges environment rest s
    (e :: others, s)

section all

variable {environment : Environment σ} {callbacks : List Callback} {s : σ}

/-- Every callback is carried out once, and in order. -/
theorem map_callback_exchanges (environment : Environment σ) (callbacks : List Callback) (s : σ) :
    (exchanges environment callbacks s).1.map Exchange.callback = callbacks := by
  induction callbacks generalizing s with
  | nil => rfl
  | cons c rest ih => exact congrArg (c :: ·) (ih _)

/-- As long as all answers can be sent, all callbacks are carried out and answered. -/
theorem runs_serveAll (h : ((serveAll callbacks).run environment s).1 = true) :
    Runs environment (serveAll callbacks) s
      ((exchanges environment callbacks s).1.flatMap Exchange.requests) true
      (exchanges environment callbacks s).2 := by
  induction callbacks generalizing s with
  | nil => exact .done true
  | cons c rest ih =>
    obtain ⟨isSent, hserve⟩ := c.runs_serve environment s
    rw [serveAll, run_bind, hserve.run] at h
    cases isSent with
    | false => cases h
    | true => exact hserve.bind (ih h)

/-- A callback takes two requests at most. -/
theorem length_requests_serveAll_le (environment : Environment σ) (callbacks : List Callback)
    (s : σ) : ((serveAll callbacks).requests environment s).length ≤ 2 * callbacks.length := by
  induction callbacks generalizing s with
  | nil => exact Nat.le_refl 0
  | cons c rest ih =>
    obtain ⟨isSent, hserve⟩ := c.runs_serve environment s
    rw [serveAll, requests_bind, hserve.requests, hserve.run, List.length_append, List.length_cons]
    have hlength : (c.exchange environment s).1.requests.length = 2 := rfl
    cases isSent with
    | false =>
      change _ + 0 ≤ _
      omega
    | true =>
      have hrest := ih (c.exchange environment s).2
      simp only [if_true]
      omega

end all

end Workflow
