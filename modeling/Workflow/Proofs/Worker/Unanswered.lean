import Workflow.Proofs.Worker.Session

/-!
# Sessions whose worker stops listening

Sooner or later the answer to a callback may not reach the worker. The server stops there, and
whatever has been queued behind that callback is lost. However the reader and the server mix, the
task fails then, even if the worker has reported a result in the meantime.

* **The first answer that is lost** (`answeredBeforeLoss?`, `runs_serveAll_of_loss`): callbacks are
  carried out up to the one whose answer is lost, and that one is the last.
* **What is left of the callbacks** (`Session.read_upcoming`, `Duplex.Accounts`,
  `Duplex.exists_accounts_under`): how many callbacks have been taken, how many can still come, and
  the verdict that the reader comes to. It is that of the lines, unless a callback comes too late.
* **Any schedule** (`Duplex.Fails`, `Duplex.Unanswered`, `Duplex.unanswered_fails`): what a session
  has come to whose worker has stopped listening.
-/

namespace Workflow

open Activity

variable {σ : Type}

/-! ## The first answer that is lost -/

/-- When callbacks are carried out one after the other: how many answers can be sent before the
first one that cannot, if there is such an answer. -/
def answeredBeforeLoss? (environment : Environment σ) : List Callback → σ → Option Nat
  | [], _ => none
  | c :: rest, s =>
    if (c.serve.run environment s).1 then
      (answeredBeforeLoss? environment rest (c.exchange environment s).2).map (· + 1)
    else some 0

section loss

variable {environment : Environment σ} {callbacks : List Callback} {s : σ} {answered : Nat}

/-- The answer to the first callback is lost, or one behind it. -/
theorem answeredBeforeLoss?_cons {c : Callback}
    (h : answeredBeforeLoss? environment (c :: callbacks) s = some answered) :
    (c.serve.run environment s).1 = false ∧ answered = 0 ∨
      ∃ more, (c.serve.run environment s).1 = true ∧ answered = more + 1 ∧
        answeredBeforeLoss? environment callbacks (c.exchange environment s).2 = some more := by
  rw [answeredBeforeLoss?] at h
  split at h
  case isTrue hsent =>
    obtain ⟨more, hmore, rfl⟩ := Option.map_eq_some_iff.mp h
    exact .inr ⟨more, hsent, rfl, hmore⟩
  case isFalse hlost =>
    cases h
    exact .inl ⟨by simpa using hlost, rfl⟩

/-- The answer that is lost is that to a callback. -/
theorem lt_length_of_loss (h : answeredBeforeLoss? environment callbacks s = some answered) :
    answered < callbacks.length := by
  induction callbacks generalizing s answered with
  | nil => cases h
  | cons c rest ih =>
    rcases answeredBeforeLoss?_cons h with ⟨-, rfl⟩ | ⟨more, -, rfl, hmore⟩
    · exact Nat.succ_pos _
    · exact Nat.succ_lt_succ (ih hmore)

/-- The callbacks are carried out and answered up to the one whose answer is lost. -/
theorem runs_serveAll_of_loss (h : answeredBeforeLoss? environment callbacks s = some answered) :
    Runs environment (serveAll callbacks) s
      ((exchanges environment (callbacks.take (answered + 1)) s).1.flatMap Exchange.requests) false
      (exchanges environment (callbacks.take (answered + 1)) s).2 := by
  induction callbacks generalizing s answered with
  | nil => cases h
  | cons c rest ih =>
    obtain ⟨isSent, hserve⟩ := c.runs_serve environment s
    have hsent : (c.serve.run environment s).1 = isSent := congrArg Prod.fst hserve.run
    rcases answeredBeforeLoss?_cons h with ⟨hlost, rfl⟩ | ⟨more, htold, rfl, hmore⟩
    · obtain rfl : isSent = false := hsent.symm.trans hlost
      exact hserve.bind (.done false)
    · obtain rfl : isSent = true := hsent.symm.trans htold
      exact hserve.bind (ih hmore)

/-- Every callback that is carried out takes two requests. -/
theorem length_requests_of_loss (h : answeredBeforeLoss? environment callbacks s = some answered) :
    ((exchanges environment (callbacks.take (answered + 1)) s).1.flatMap
      Exchange.requests).length = 2 * (answered + 1) := by
  have hcount : (exchanges environment (callbacks.take (answered + 1)) s).1.length =
      answered + 1 := by
    have hlength := congrArg List.length
      (map_callback_exchanges environment (callbacks.take (answered + 1)) s)
    rw [List.length_map, List.length_take, Nat.min_eq_left (lt_length_of_loss h)] at hlength
    exact hlength
  have htwo (e : Exchange) : e.requests.length = 2 := rfl
  rw [List.length_flatMap, List.map_congr_left fun e _ => htwo e, List.map_const', hcount,
    List.sum_replicate_nat, Nat.mul_comm]

end loss

/-! ## What is left of the callbacks -/

/-- The reader brings in no callback that was not to come. It comes to the verdict of the lines,
unless it reads a callback when the server has stopped; then there is one callback less to come. -/
theorem Session.read_upcoming (s : Session) :
    (s.read.upcoming.length ≤ s.upcoming.length ∧
      s.read.verdict.getD (verdictOf s.read.unread) = s.verdict.getD (verdictOf s.unread)) ∨
      s.read.verdict = some (transportFailure .serverStopped) ∧
        s.read.upcoming.length < s.upcoming.length := by
  obtain ⟨unread, queue, verdict, isServing⟩ := s
  cases isServing with
  | true =>
    obtain ⟨hupcoming, hverdict⟩ := Session.upcoming_read (s := ⟨unread, queue, verdict, true⟩) rfl
    exact .inl ⟨Nat.le_of_eq (congrArg List.length hupcoming), hverdict⟩
  | false =>
    cases verdict with
    | some verdict => exact .inl ⟨Nat.le_refl _, rfl⟩
    | none =>
      cases unread with
      | nil => exact .inl ⟨Nat.le_refl _, rfl⟩
      | cons line rest =>
        rcases hline : readLine line with _ | c | verdict
        · simp [read, upcoming, hline, callbacksOf_blank, verdictOf_blank]
        · simp [read, receive, upcoming, hline, callbacksOf_callback]
        · simp [read, upcoming, hline, callbacksOf_over, verdictOf_over]

namespace Duplex

/-- A session accounts for its callbacks: so many have been taken out of the queue, each of which
takes two requests, and no more can come than are left of the lines. The reader has come to the
verdict of the lines, or will do so; or it has found that the server has stopped, and then there are
callbacks that have not been taken. -/
structure Accounts (environment : Environment σ) (lines : List Line) (taken : Nat) (d : Duplex σ) :
    Prop where
  requests : d.asked.length +
    (d.inHand.elim 0 fun rest => (rest.requests environment d.state).length) = 2 * taken
  upcoming : taken + d.session.upcoming.length ≤ (callbacksOf lines).length
  verdict : d.session.verdict.getD (verdictOf d.session.unread) = verdictOf lines ∨
    d.session.verdict = some (transportFailure .serverStopped) ∧
      taken + d.session.upcoming.length < (callbacksOf lines).length

section accounts

variable {environment : Environment σ} {lines : List Line} {taken : Nat} {d : Duplex σ}

/-- A session at its beginning accounts for its callbacks. -/
theorem accounts_begin (environment : Environment σ) (lines : List Line) (s : σ) :
    Accounts environment lines 0 (begin lines s) where
  requests := rfl
  upcoming := Nat.le_of_eq (Nat.zero_add _)
  verdict := .inl rfl

/-- When the reader makes a step, the session keeps accounting for its callbacks. -/
theorem Accounts.read (h : Accounts environment lines taken d) :
    Accounts environment lines taken (d.step environment .read) := by
  have hupcoming := h.upcoming
  rcases Session.read_upcoming d.session with ⟨hle, hverdict⟩ | ⟨hstopped, hlt⟩
  · refine ⟨h.requests, ?_, ?_⟩
    · simp only [step]
      omega
    · rcases h.verdict with hown | ⟨hstopped, hless⟩
      · exact .inl (hverdict.trans hown)
      · -- a reader that has come to a verdict stays with it
        have hsame : d.session.read = d.session := by
          rw [Session.read, hstopped]
        refine .inr ⟨?_, ?_⟩
        · rw [step, hsame, hstopped]
        · rw [step, hsame]
          exact hless
  · refine ⟨h.requests, ?_, .inr ⟨hstopped, ?_⟩⟩ <;> simp only [step] <;> omega

/-- When the server takes a callback out of the queue, having none in hand, the session keeps
accounting for its callbacks. -/
theorem Accounts.take (h : Accounts environment lines taken d) :
    ∃ taken, Accounts environment lines taken (d.step environment .take) := by
  rw [step]
  split
  case h_2 => exact ⟨taken, h⟩
  case h_1 c rest hhand hqueue =>
    have hrequests := h.requests
    have htwo : (c.serve.requests environment d.state).length = 2 := by
      obtain ⟨isSent, hserve⟩ := c.runs_serve environment d.state
      rw [hserve.requests]
      rfl
    have hupcoming : d.session.upcoming.length =
        (Session.upcoming ⟨d.session.unread, rest, d.session.verdict,
          d.session.isServing⟩).length + 1 := by
      rw [Session.upcoming, hqueue]
      rfl
    rw [hhand] at hrequests
    refine ⟨taken + 1, ?_, ?_, ?_⟩
    · simp only [Option.elim_none, Option.elim_some, htwo] at hrequests ⊢
      omega
    · have hle := h.upcoming
      simp only
      omega
    · refine h.verdict.imp_right (And.imp_right fun hless => ?_)
      simp only
      omega

/-- When a request of the server is answered, the session keeps accounting for its callbacks. -/
theorem Accounts.ask (h : Accounts environment lines taken d) :
    Accounts environment lines taken (d.step environment .ask) := by
  rw [step]
  split
  case h_2 => exact h
  case h_1 request resume hhand =>
    refine ⟨?_, h.upcoming, h.verdict⟩
    have hrequests := h.requests
    rw [hhand] at hrequests
    simp only [Option.elim_some, Activity.requests, List.length_cons] at hrequests
    simp only [Option.elim_some, List.length_append, List.length_singleton]
    omega

/-- When the server is done with a callback, the session keeps accounting for its callbacks: if it
stops, those in the queue do not come any more. -/
theorem Accounts.settle (h : Accounts environment lines taken d) :
    Accounts environment lines taken (d.step environment .settle) := by
  rw [step]
  split
  case h_3 => exact h
  case h_1 hhand =>
    have hrequests := h.requests
    rw [hhand] at hrequests
    exact ⟨hrequests, h.upcoming, h.verdict⟩
  case h_2 hhand =>
    have hrequests := h.requests
    rw [hhand] at hrequests
    have hless : (Session.upcoming { d.session with queue := [], isServing := false }).length ≤
        d.session.upcoming.length := by
      simp only [Session.upcoming, List.nil_append, List.length_append]
      omega
    refine ⟨hrequests, ?_, h.verdict.imp_right (And.imp_right fun hlt => ?_)⟩
    · exact Nat.le_trans (Nat.add_le_add_left hless _) h.upcoming
    · exact Nat.lt_of_le_of_lt (Nat.add_le_add_left hless _) hlt

/-- Whichever half goes on, a session accounts for its callbacks. -/
theorem Accounts.step (h : Accounts environment lines taken d) (turn : SessionTurn) :
    ∃ taken, Accounts environment lines taken (d.step environment turn) := by
  cases turn with
  | read => exact ⟨taken, h.read⟩
  | take => exact h.take
  | ask => exact ⟨taken, h.ask⟩
  | settle => exact ⟨taken, h.settle⟩

/-- A session accounts for its callbacks under any schedule. -/
theorem exists_accounts_under (environment : Environment σ) (lines : List Line) (s : σ)
    (turns : List SessionTurn) :
    ∃ taken, Accounts environment lines taken (under environment lines s turns) :=
  under_invariant (P := fun d => ∃ taken, Accounts environment lines taken d)
    ⟨0, accounts_begin environment lines s⟩ (fun _ turn ⟨_, h⟩ => h.step turn) turns

end accounts

/-! ## Any schedule -/

/-- What a session has come to whose worker has heard so many answers and not the next one: the
callbacks up to that one have been carried out, each once and in order, and no other has been. The
task has failed: with the failure that the reader has come to, and if that has come to a result,
because of the answer. The reader has come to the verdict of the lines, or it has found the server
gone when there were more callbacks. -/
structure Fails (environment : Environment σ) (lines : List Line) (s : σ) (answered : Nat)
    (d : Duplex σ) : Prop where
  asked : d.asked = (exchanges environment ((callbacksOf lines).take (answered + 1)) s).1.flatMap
    Exchange.requests
  state : d.state = (exchanges environment ((callbacksOf lines).take (answered + 1)) s).2
  failed : ∃ failure, d.session.result = .error failure
  own : ∀ failure, d.session.verdict = some (.error failure) → d.session.result = .error failure
  voided : ∀ value, d.session.verdict = some (.ok value) →
    d.session.result = transportFailure .cannotAnswer
  verdict : d.session.verdict = some (verdictOf lines) ∨
    d.session.verdict = some (transportFailure .serverStopped) ∧
      answered + 1 < (callbacksOf lines).length

section fails

variable {environment : Environment σ} {lines : List Line} {s : σ} {answered : Nat} {d : Duplex σ}

/-- At no time has anything been asked for that is not due up to the answer that is lost. -/
theorem Conforms.asked_isPrefix (h : Conforms environment lines s d)
    (hlost : answeredBeforeLoss? environment (callbacksOf lines) s = some answered) :
    d.asked <+: (exchanges environment ((callbacksOf lines).take (answered + 1)) s).1.flatMap
      Exchange.requests :=
  ⟨d.pending.requests environment d.state, h.requests.trans (runs_serveAll_of_loss hlost).requests⟩

/-- When the session is over, the server has stopped. -/
theorem Conforms.stopped_of_isOver (h : Conforms environment lines s d)
    (hlost : answeredBeforeLoss? environment (callbacksOf lines) s = some answered)
    (hover : d.isOver = true) : d.session.isServing = false := by
  obtain ⟨⟨unread, queue, verdict, isServing⟩, inHand, state, asked⟩ := d
  simp only [isOver, Session.isOver, Bool.and_eq_true, List.isEmpty_iff, Option.isNone_iff_eq_none]
    at hover
  obtain ⟨⟨hverdict, rfl⟩, rfl⟩ := hover
  obtain ⟨verdict, rfl⟩ := Option.isSome_iff_exists.mp hverdict
  cases isServing with
  | false => rfl
  | true =>
    -- a server that is there has sent all answers
    have hall : (true, state) = _ := h.run.trans (runs_serveAll_of_loss hlost).run
    cases hall

/-- A session that is over has come to what it should. -/
theorem Conforms.fails (h : Conforms environment lines s d) {taken : Nat}
    (haccounts : Accounts environment lines taken d)
    (hlost : answeredBeforeLoss? environment (callbacksOf lines) s = some answered)
    (hover : d.isOver = true) : Fails environment lines s answered d := by
  have hstopped := h.stopped_of_isOver hlost hover
  obtain ⟨⟨unread, queue, verdict, isServing⟩, inHand, state, asked⟩ := d
  obtain rfl : isServing = false := hstopped
  simp only [isOver, Session.isOver, Bool.and_eq_true, List.isEmpty_iff, Option.isNone_iff_eq_none]
    at hover
  obtain ⟨⟨hverdict, rfl⟩, rfl⟩ := hover
  obtain ⟨verdict, rfl⟩ := Option.isSome_iff_exists.mp hverdict
  -- what the server has left to do is nothing
  have hasked : asked = _ := (List.append_nil asked).symm.trans
    (h.requests.trans (runs_serveAll_of_loss hlost).requests)
  have hstate : (false, state) = _ := h.run.trans (runs_serveAll_of_loss hlost).run
  have htaken : taken = answered + 1 := by
    have hrequests : asked.length + 0 = 2 * taken := haccounts.requests
    rw [hasked, length_requests_of_loss hlost] at hrequests
    omega
  refine ⟨hasked, congrArg Prod.snd hstate, ?_, ?_, ?_, ?_⟩
  · cases verdict with
    | error failure => exact ⟨failure, rfl⟩
    | ok value => exact ⟨.transport .cannotAnswer, rfl⟩
  · rintro failure ⟨⟩
    rfl
  · rintro value ⟨⟩
    rfl
  · refine haccounts.verdict.imp (congrArg some) (And.imp_right fun hless => ?_)
    rw [htaken] at hless
    exact hless

end fails

/-- What holds of the sessions over some lines if the answer to the callback behind so many answered
ones cannot be sent, whatever the schedule of the reader and the server. -/
structure Unanswered (environment : Environment σ) (lines : List Line) (s : σ) (answered : Nat) :
    Prop where
  /-- The callbacks that are carried out are those up to the one whose answer is lost. -/
  carriedOut : (exchanges environment ((callbacksOf lines).take (answered + 1)) s).1.map
    Exchange.callback = (callbacksOf lines).take (answered + 1)
  /-- At no time has anything been asked for but for these, once and in order. -/
  asked : ∀ turns, (under environment lines s turns).asked <+:
    (exchanges environment ((callbacksOf lines).take (answered + 1)) s).1.flatMap Exchange.requests
  /-- A session that is over has failed. -/
  fails : ∀ turns, (under environment lines s turns).isOver = true →
    Fails environment lines s answered (under environment lines s turns)
  /-- A session that is not over can go on. -/
  progress : ∀ turns, (under environment lines s turns).isOver = false →
    ∃ turn, (under environment lines s turns).step environment turn ≠
      under environment lines s turns
  /-- Only so many turns do something. -/
  busy_le : ∀ turns, IsBusy environment (begin lines s) turns →
    turns.length ≤ 5 * lines.length + 1
  /-- The session as it is run comes to its end, and fails. -/
  converse : ∀ bytes input s₀, linesOf bytes = lines →
    environment (.send (frameBytes input)) s₀ = (true, s) →
    ∃ failure, Runs environment (converse bytes input).run s₀
      (.send (frameBytes input) ::
        (exchanges environment ((callbacksOf lines).take (answered + 1)) s).1.flatMap
          Exchange.requests)
      (.error failure)
      (exchanges environment ((callbacksOf lines).take (answered + 1)) s).2

/-- However the reader and the server of a session mix: when the answer to a callback is the first
that cannot be sent, the callbacks up to that one are carried out, each once and in order, and no
other is, whatever has been read or queued. A session that is not over can go on, and does so only
for so many turns; when it is over, the task has failed, with the failure that the reader has come
to if there is one. The session as it is run is among these. -/
theorem unanswered_fails (environment : Environment σ) (lines : List Line) (s : σ) {answered : Nat}
    (hlost : answeredBeforeLoss? environment (callbacksOf lines) s = some answered) :
    Unanswered environment lines s answered := by
  have hfails (turns : List SessionTurn)
      (hover : (under environment lines s turns).isOver = true) :
      Fails environment lines s answered (under environment lines s turns) := by
    obtain ⟨taken, haccounts⟩ := exists_accounts_under environment lines s turns
    exact (conforms_under environment lines s turns).fails haccounts hlost hover
  refine
    { carriedOut := map_callback_exchanges environment _ s
      asked := fun turns => (conforms_under environment lines s turns).asked_isPrefix hlost
      fails := hfails
      progress := fun turns => exists_progress environment _
      busy_le := fun turns hbusy => ?busy_le
      converse := ?converse }
  case busy_le =>
    exact Nat.le_trans (length_le_remaining (conforms_begin environment lines s) hbusy)
      (remaining_begin_le environment lines s)
  case converse =>
    rintro bytes input s₀ rfl hsent
    obtain ⟨turns, hover, hruns⟩ := exists_turns_converse hsent
    obtain ⟨hasked, hstate, ⟨failure, hresult⟩, -, -, -⟩ := hfails turns hover
    rw [hasked, hstate, hresult] at hruns
    exact ⟨failure, hruns⟩

/-- A world whose worker hears so many answers, and then no more. -/
def hearing : Environment (World × Nat)
  | .send _, (w, heard) => (decide (0 < heard), (w, heard - 1))
  | request, (w, heard) =>
    let (reply, w) := World.answer request w
    (reply, (w, heard))

/-- The lines of a worker that has three things put into the store, and reports a result. -/
def ledgerLines : List Line :=
  [some (WorkerFrame.callback 1 (.put "first" (.nat 1))).toJson.text,
    some (WorkerFrame.callback 2 (.put "second" (.nat 2))).toJson.text,
    some (WorkerFrame.callback 3 (.put "third" (.nat 3))).toJson.text,
    some (WorkerFrame.completed false (.string "done") "" "").toJson.text]

/-- A schedule in which the reader has come to the result of `ledgerLines` before the first callback
is carried out. -/
def ledgerTurns : List SessionTurn :=
  [.read, .read, .read, .read, .take, .ask, .ask, .settle, .take, .ask, .ask, .settle]

/-- If the worker of `ledgerLines` hears the first answer only, the task fails in spite of the
result, and the third thing is not put. -/
theorem unanswered_fails_ledger :
    answeredBeforeLoss? hearing (callbacksOf ledgerLines) ({}, 1) = some 1 ∧
      (under hearing ledgerLines ({}, 1) ledgerTurns).session.result =
        transportFailure .cannotAnswer ∧
      (under hearing ledgerLines ({}, 1) ledgerTurns).state.1.store.values.keys =
        ["first", "second"] := by
  have hlost : answeredBeforeLoss? hearing (callbacksOf ledgerLines) ({}, 1) = some 1 := by
    decide +kernel
  have hover : (under hearing ledgerLines ({}, 1) ledgerTurns).isOver = true := by
    decide +kernel
  have hfails := (unanswered_fails hearing ledgerLines ({}, 1) hlost).fails ledgerTurns hover
  refine ⟨hlost, hfails.voided (.string "done") (by decide +kernel), ?_⟩
  rw [hfails.state]
  decide +kernel

end Duplex

end Workflow
