import Workflow.Proofs.Worker.Duplex
import Workflow.Simulation.World

/-!
# Sessions with a worker under any schedule

In whatever order the reader and the server of a session go on, as long as the worker can be told
the answers, the callbacks before the line that ends the session are carried out and answered, each
once and in order, before the session is over, and that line alone decides about the result.

* **The end** (`Duplex.IsBusy`, `Duplex.length_le_remaining`, `Duplex.Fulfils`,
  `Duplex.Conforms.fulfils`): a session in which always something is done comes to its end, and what
  it has come to there.
* **Answers that are sent** (`Duplex.isServing_under`): who can always be told the answers keeps
  the server going.
* **The session as it is run** (`Duplex.exists_turns_follow`, `Duplex.exists_moves_eager`,
  `Duplex.exists_turns_converse`): schedules of whole steps, and the one in which the reader goes
  first whenever it can.
* **Any schedule** (`Duplex.Orderly`, `Duplex.answers_in_order`): all of this together.
-/

namespace Workflow

open Activity

variable {σ : Type}

namespace Duplex

/-! ## The end of a session -/

section follow

variable {environment : Environment σ} {lines : List Line} {s : σ} {d : Duplex σ}

/-- Turns and further turns are made one after the other. -/
theorem follow_append (environment : Environment σ) (d : Duplex σ)
    (turns others : List SessionTurn) :
    d.follow environment (turns ++ others) =
      (d.follow environment turns).follow environment others := List.foldl_append

/-- Whether every turn of a schedule changes something. -/
def IsBusy (environment : Environment σ) : Duplex σ → List SessionTurn → Prop
  | _, [] => True
  | d, turn :: rest =>
    d.step environment turn ≠ d ∧ IsBusy environment (d.step environment turn) rest

/-- As long as something changes, less and less is left to do. -/
theorem length_le_remaining (h : Conforms environment lines s d) {turns : List SessionTurn}
    (hbusy : IsBusy environment d turns) : turns.length ≤ d.remaining environment := by
  induction turns generalizing d with
  | nil => exact Nat.zero_le _
  | cons turn rest ih =>
    have hless := (h.remaining_step turn).resolve_left hbusy.1
    have hrest := ih (h.step turn) hbusy.2
    rw [List.length_cons]
    omega

/-- At the beginning there is not more to do than the lines are long. -/
theorem remaining_begin_le (environment : Environment σ) (lines : List Line) (s : σ) :
    (begin lines s).remaining environment ≤ 5 * lines.length + 1 := by
  have hcallbacks := length_callbacksOf_le lines
  have hrequests := length_requests_serveAll_le environment (callbacksOf lines) s
  change 3 * lines.length + 1 + 2 * 0 + 0
    + ((serveAll (callbacksOf lines)).requests environment s).length ≤ _
  omega

/-- What a session has come to: the callbacks before the line that ends it have been carried out and
answered, each once and in order, and nothing else has been asked for; the result is the verdict of
that line. -/
structure Fulfils (environment : Environment σ) (lines : List Line) (s : σ) (d : Duplex σ) :
    Prop where
  asked : d.asked = (exchanges environment (callbacksOf lines) s).1.flatMap Exchange.requests
  state : d.state = (exchanges environment (callbacksOf lines) s).2
  result : d.session.result = verdictOf lines

/-- A session that is over while the server is still there has come to what it should. -/
theorem Conforms.fulfils (h : Conforms environment lines s d) (hover : d.isOver = true)
    (hserving : d.session.isServing = true) : Fulfils environment lines s d := by
  obtain ⟨⟨unread, queue, verdict, isServing⟩, inHand, state, asked⟩ := d
  obtain rfl : isServing = true := hserving
  simp only [isOver, Session.isOver, Bool.and_eq_true, List.isEmpty_iff, Option.isNone_iff_eq_none]
    at hover
  obtain ⟨⟨hverdict, rfl⟩, rfl⟩ := hover
  obtain ⟨verdict, rfl⟩ := Option.isSome_iff_exists.mp hverdict
  have hrun : (serveAll (callbacksOf lines)).run environment s = (true, state) := h.run.symm
  have hall := runs_serveAll (congrArg Prod.fst hrun)
  refine ⟨?_, congrArg Prod.snd (hrun.symm.trans hall.run), ?_⟩
  · rw [← hall.requests, ← h.requests]
    exact (List.append_nil _).symm
  · rw [← h.verdict rfl]
    cases verdict <;> rfl

end follow

/-! ## Answers that are sent -/

section sent

variable {environment : Environment σ}

/-- If every answer can be sent, all answers of callbacks that are carried out one after the other
are sent. -/
theorem serveAll_run_of_sends (hsends : ∀ bytes s, (environment (.send bytes) s).1 = true)
    (callbacks : List Callback) (s : σ) : ((serveAll callbacks).run environment s).1 = true := by
  induction callbacks generalizing s with
  | nil => rfl
  | cons c rest ih =>
    obtain ⟨isSent, hserve⟩ := c.runs_serve environment s
    have hsent : isSent = true := by
      have hrun := congrArg Prod.fst hserve.run
      rw [Callback.serve_eq] at hrun
      exact hrun.symm.trans (hsends _ _)
    rw [serveAll, run_bind, hserve.run, hsent]
    exact ih _

/-- If every answer can be sent, the server does not stop. -/
theorem isServing_under (hsends : ∀ bytes s, (environment (.send bytes) s).1 = true)
    (lines : List Line) (s : σ) (turns : List SessionTurn) :
    (under environment lines s turns).session.isServing = true := by
  have hconforms := conforms_under environment lines s turns
  generalize under environment lines s turns = d at hconforms
  by_contra hserving
  have hstopped : d.session.isServing = false := by simpa using hserving
  -- a server that has stopped has come to a failure
  have hpending : d.pending = .done false := by
    simp only [pending, (hconforms.stopped hstopped).2, hstopped, Bool.false_eq_true, if_false,
      pure_eq]
  have hall := serveAll_run_of_sends hsends (callbacksOf lines) s
  rw [← hconforms.run, hpending] at hall
  cases hall

end sent

/-! ## The session as it is run -/

section steps

variable {environment : Environment σ} {s t : σ} {more : List Request}
  {session session' : Session}

/-- What the server has in hand is carried out request by request. -/
theorem follow_asks {rest : Activity Bool} {isSent : Bool}
    (h : Runs environment rest s more isSent t) (session : Session) (asked : List Request) :
    follow environment ⟨session, some rest, s, asked⟩ (.replicate more.length .ask) =
      ⟨session, some (.done isSent), t, asked ++ more⟩ := by
  induction rest generalizing s asked more with
  | done result =>
    obtain ⟨rfl, rfl, rfl⟩ := h.unique (.done result)
    rw [List.append_nil]
    rfl
  | ask request resume ih =>
    obtain ⟨rfl, hrun⟩ := h
    have hrest := ih _ ⟨rfl, hrun⟩ (asked ++ [request])
    rw [List.append_assoc] at hrest
    exact hrest

/-- A step of the session, made in turns. -/
theorem exists_turns_step {move : Move} (h : Runs environment (session.step move) s more session' t)
    (asked : List Request) :
    ∃ turns, follow environment ⟨session, none, s, asked⟩ turns =
      ⟨session', none, t, asked ++ more⟩ := by
  cases move with
  | read =>
    obtain ⟨rfl, rfl, rfl⟩ := h.unique (.done session.read)
    exact ⟨[.read], by rw [List.append_nil]; rfl⟩
  | serve =>
    obtain ⟨unread, queue, verdict, isServing⟩ := session
    cases queue with
    | nil =>
      obtain ⟨rfl, rfl, rfl⟩ := h.unique (.done _)
      exact ⟨[], by rw [List.append_nil]; rfl⟩
    | cons c rest =>
      obtain ⟨isSent, hserve⟩ := c.runs_serve environment s
      have hasks := follow_asks hserve ⟨unread, rest, verdict, isServing⟩ asked
      -- one step of the server is all its turns for a callback, with the reader standing still
      have hturns : follow environment ⟨⟨unread, c :: rest, verdict, isServing⟩, none, s, asked⟩
          (.take :: (.replicate _ .ask ++ [.settle])) = _ :=
        (follow_append environment _ _ _).trans (congrArg (follow environment · [.settle]) hasks)
      cases isSent with
      | true =>
        obtain ⟨rfl, rfl, rfl⟩ := h.unique (hserve.bind (.done _))
        exact ⟨_, by rw [hturns, List.append_nil]; rfl⟩
      | false =>
        obtain ⟨rfl, rfl, rfl⟩ := h.unique (hserve.bind (.done _))
        exact ⟨_, by rw [hturns, List.append_nil]; rfl⟩

/-- A schedule of steps, made in turns. -/
theorem exists_turns_follow {moves : List Move}
    (h : Runs environment (session.follow moves) s more session' t) (asked : List Request) :
    ∃ turns, follow environment ⟨session, none, s, asked⟩ turns =
      ⟨session', none, t, asked ++ more⟩ := by
  induction moves generalizing session s more asked with
  | nil =>
    obtain ⟨rfl, rfl, rfl⟩ := h.unique (.done session)
    exact ⟨[], by rw [List.append_nil]; rfl⟩
  | cons move rest ih =>
    have hstep := Runs.intro environment (session.step move) s
    have hrest := Runs.intro environment
      (Session.follow ((session.step move).run environment s).1 rest)
      ((session.step move).run environment s).2
    obtain ⟨rfl, rfl, rfl⟩ := h.unique (hstep.bind hrest)
    obtain ⟨turns, hturns⟩ := exists_turns_step hstep asked
    obtain ⟨others, hothers⟩ := ih hrest _
    exact ⟨turns ++ others, by rw [follow_append, hturns, hothers, List.append_assoc]⟩

end steps

section eager

variable {environment : Environment σ} {s t : σ} {more : List Request}

/-- A step of the server takes a callback out of the queue. -/
theorem left_serve {session session' : Session}
    (h : Runs environment session.serve s more session' t) (hqueue : session.queue ≠ []) :
    session'.left 2 1 < session.left 2 1 := by
  obtain ⟨unread, _ | ⟨c, rest⟩, verdict, isServing⟩ := session
  · exact absurd rfl hqueue
  · obtain ⟨isSent, hserve⟩ := c.runs_serve environment s
    cases isSent with
    | true =>
      obtain ⟨-, rfl, -⟩ := h.unique (hserve.bind (.done _))
      simp only [Session.left, List.length_cons]
      omega
    | false =>
      obtain ⟨-, rfl, -⟩ := h.unique (hserve.bind (.done _))
      simp only [Session.left, List.length_cons, List.length_nil]
      omega

/-- When nothing is left to do, the session is over. -/
theorem isOver_of_left_eq_zero {session : Session} (h : session.left 2 1 = 0) :
    session.isOver = true := by
  obtain ⟨unread, queue, verdict, isServing⟩ := session
  cases verdict with
  | none => simp [Session.left] at h
  | some verdict =>
    cases queue with
    | nil => rfl
    | cons c rest => simp [Session.left] at h

/-- A session in which the reader goes first whenever it can comes to its end, and follows a
schedule of steps. -/
theorem exists_moves_eager (environment : Environment σ) {steps : Nat} (session : Session)
    (hsteps : session.left 2 1 ≤ steps) (s : σ) :
    ∃ moves session' t more, session'.isOver = true ∧
      Runs environment (session.eager steps) s more session' t ∧
      Runs environment (session.follow moves) s more session' t := by
  induction steps generalizing session s with
  | zero =>
    exact ⟨[], session, s, [], isOver_of_left_eq_zero (Nat.le_zero.mp hsteps), .done _, .done _⟩
  | succ steps ih =>
    rw [Session.eager]
    split
    case isTrue hover => exact ⟨[], session, s, [], hover, .done _, .done _⟩
    case isFalse hover =>
      by_cases hread : session.canRead = true
      · have hless := (Session.left_read (by decide : 1 < 2) session).resolve_left
          (Session.read_ne hread)
        obtain ⟨moves, session', t, more, hover', heager, hfollow⟩ :=
          ih session.read (by omega) s
        refine ⟨.read :: moves, session', t, more, hover', ?_, hfollow⟩
        rw [if_pos hread]
        exact heager
      · -- a reader that cannot go on before its verdict has filled the queue
        have hqueue : session.queue ≠ [] := fun hqueue =>
          hread (Session.canRead_of_queue_eq_nil (by simpa using hover) hqueue)
        have hserve := Runs.intro environment session.serve s
        have hless := left_serve hserve hqueue
        obtain ⟨moves, session', t, more, hover', heager, hfollow⟩ := ih
          (session.serve.run environment s).1 (by omega) (session.serve.run environment s).2
        refine ⟨.serve :: moves, session', t, _, hover', ?_, hserve.bind hfollow⟩
        rw [if_neg hread]
        exact hserve.bind heager

/-- A whole session over the bytes of a worker is one of these. -/
theorem exists_turns_converse {bytes : List UInt8} {input : Json}
    (hsent : environment (.send (frameBytes input)) s = (true, t)) :
    ∃ turns, (under environment (linesOf bytes) t turns).isOver = true ∧
      Runs environment (converse bytes input).run s
        (.send (frameBytes input) :: (under environment (linesOf bytes) t turns).asked)
        (under environment (linesOf bytes) t turns).session.result
        (under environment (linesOf bytes) t turns).state := by
  obtain ⟨moves, session', u, more, hover, heager, hmoves⟩ :=
    exists_moves_eager environment { unread := linesOf bytes } (Nat.le_refl _) t
  obtain ⟨turns, hturns⟩ := exists_turns_follow hmoves []
  refine ⟨turns, ?_, ?_⟩
  · rw [under, begin, hturns, isOver, hover]
    rfl
  · have hsession : Runs environment
        (liftM (Session.eager (2 * (linesOf bytes).length + 1) { unread := linesOf bytes }) :
          ExceptT TaskFailure Activity Session).run t more (.ok session') u := by
      rw [← List.append_nil more]
      exact heager.bind (.done _)
    have hresult := hsession.bindOk (f := fun session => liftM session.result) (.done _)
    rw [List.append_nil] at hresult
    rw [under, begin, hturns]
    exact .ask hsent hresult

end eager

/-! ## Any schedule -/

/-- What holds of the sessions over some lines, whatever the schedule of the reader and the
server. -/
structure Orderly (environment : Environment σ) (lines : List Line) (s : σ) : Prop where
  /-- A session that is over, its server still there, has carried out and answered the callbacks. -/
  fulfils : ∀ turns, (under environment lines s turns).isOver = true →
    (under environment lines s turns).session.isServing = true →
    Fulfils environment lines s (under environment lines s turns)
  /-- The server stays if the worker can be told all answers. -/
  isServing : (∀ bytes s, (environment (.send bytes) s).1 = true) →
    ∀ turns, (under environment lines s turns).session.isServing = true
  /-- A session that is not over can go on, and no other can. -/
  isOver_iff : ∀ turns, (under environment lines s turns).isOver = true ↔
    ∀ turn, (under environment lines s turns).step environment turn =
      under environment lines s turns
  /-- Only so many turns do something. -/
  busy_le : ∀ turns, IsBusy environment (begin lines s) turns →
    turns.length ≤ 5 * lines.length + 1
  /-- A line that ends the session gives the verdict, and the callbacks are those before it. -/
  ended : ∀ front line rest verdict, lines = front ++ line :: rest →
    (∀ l ∈ front, (readLine l).verdict? = none) → readLine line = .over verdict →
    callbacksOf lines = (front.filterMap fun l => (readLine l).callback?) ∧
      verdictOf lines = verdict
  /-- If no line ends the session, it ends in error when the worker falls silent. -/
  closed : (∀ l ∈ lines, (readLine l).verdict? = none) →
    callbacksOf lines = (lines.filterMap fun l => (readLine l).callback?) ∧
      verdictOf lines = transportFailure .closedEarly
  /-- Every callback is exchanged for one answer, in order. -/
  exchanged : (exchanges environment (callbacksOf lines) s).1.map Exchange.callback =
    callbacksOf lines
  /-- An answer carries the number of its callback, and the error of the store in words. -/
  responses : ∀ e ∈ (exchanges environment (callbacksOf lines) s).1,
    e.response.id = e.callback.id ∧ ∀ error, e.result = .error error →
      e.response.isOk = false ∧ e.response.error = some error.message
  /-- Schedules of whole steps are among the schedules. -/
  moves : ∀ moves, ∃ turns, (under environment lines s turns).inHand = none ∧
    Runs environment (Session.follow { unread := lines } moves) s
      (under environment lines s turns).asked
      (under environment lines s turns).session
      (under environment lines s turns).state
  /-- The session as it is run has one of the schedules, and comes to its end. -/
  converse : ∀ bytes input s₀, linesOf bytes = lines →
    environment (.send (frameBytes input)) s₀ = (true, s) →
    ∃ turns, (under environment lines s turns).isOver = true ∧
      Runs environment (converse bytes input).run s₀
        (.send (frameBytes input) :: (under environment lines s turns).asked)
        (under environment lines s turns).session.result
        (under environment lines s turns).state

/-- Under any schedule of the reader and the server, as long as the worker can be told the answers:
the callbacks before the line that ends the session are carried out and answered, each once and in
order, before the session is over, and the result is the verdict of that line; a session that is not
over can go on, and does so only for so many turns. An answer carries the number of its callback,
and the error of the store in words. Schedules of steps are among these, and so is the session as it
is run. -/
theorem answers_in_order (environment : Environment σ) (lines : List Line) (s : σ) :
    Orderly environment lines s where
  fulfils turns := (conforms_under environment lines s turns).fulfils
  isServing hsends := isServing_under hsends lines s
  isOver_iff turns := by
    refine ⟨step_of_isOver, fun hsame => ?_⟩
    by_contra hover
    obtain ⟨turn, hturn⟩ := exists_progress environment _ (by simpa using hover)
    exact hturn (hsame turn)
  busy_le turns hbusy :=
    Nat.le_trans (length_le_remaining (conforms_begin environment lines s) hbusy)
      (remaining_begin_le environment lines s)
  ended := by
    rintro front line rest verdict rfl hfront hline
    exact ending_of_over hfront hline rest
  closed := ending_of_closed
  exchanged := map_callback_exchanges environment _ s
  responses e _ := ⟨e.response_id, fun error herror => e.response_of_error herror⟩
  moves moves := by
    have hmoves := Runs.intro environment (Session.follow { unread := lines } moves) s
    obtain ⟨turns, hturns⟩ := exists_turns_follow hmoves []
    refine ⟨turns, ?_, ?_⟩
    · rw [under, begin, hturns]
    · rw [under, begin, hturns]
      exact hmoves
  converse := by
    rintro bytes input s₀ rfl hsent
    exact exists_turns_converse hsent

/-- The lines of a worker that reads a gauge, and then cannot be understood any more. -/
def gaugeLines : List Line :=
  [some (WorkerFrame.callback 7 (.get "gauge")).toJson.text, some " ", some "dark",
    some (WorkerFrame.callback 9 (.delete "gauge")).toJson.text]

/-- A world in which no value can be read, with a worker that listens. -/
def gaugeWorld : World where
  faults := [{ operation := "get", error := .backend "down" }]
  play := { connected := some { bytes := [] }, hasInput := true }

/-- A schedule in which the reader has come to its verdict before the callback of `gaugeLines` is
carried out. -/
def gaugeTurns : List SessionTurn := [.read, .read, .take, .read, .ask, .ask, .settle]

/-- The worker of `gaugeLines` is told in `gaugeWorld` that the reading was refused, even though its
session ends in error. -/
theorem answers_in_order_gauge :
    (under World.answer gaugeLines gaugeWorld gaugeTurns).asked =
        [.store (.get "gauge"), .send (frameBytes (CallbackResponse.toJson
          { id := 7, isOk := false, error := some "storage backend error: down" }))] ∧
      (under World.answer gaugeLines gaugeWorld gaugeTurns).session.result =
        transportFailure .malformedFrame := by
  have hover : (under World.answer gaugeLines gaugeWorld gaugeTurns).isOver = true ∧
      (under World.answer gaugeLines gaugeWorld gaugeTurns).session.isServing = true := by
    decide +kernel
  have hfulfils :=
    (answers_in_order World.answer gaugeLines gaugeWorld).fulfils gaugeTurns hover.1 hover.2
  rw [hfulfils.asked, hfulfils.result]
  decide +kernel

end Duplex

end Workflow
