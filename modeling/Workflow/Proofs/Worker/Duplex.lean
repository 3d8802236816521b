import Workflow.Proofs.Worker.Service

/-!
# Both halves of a session, side by side

The reader and the server of a session with a worker go on in turns, and between any two requests of
the server the reader can read as many lines as the queue has room for. In which order they go on
is said by a list of turns, so that a statement about all lists of turns is one about all
interleavings.

* **Turns** (`Duplex`, `SessionTurn`, `Duplex.step`, `Duplex.under`): a session that is under way,
  and what one half can do next. What every turn keeps holds under any schedule
  (`Duplex.under_invariant`).
* **What is left to do** (`Session.upcoming`, `Duplex.pending`): the callbacks that are yet to be
  served, and the rest of the server's work. What has been asked for and what is left make up the
  same whole at any time (`Duplex.Conforms`, `Duplex.conforms_under`).
* **Progress** (`Duplex.remaining`, `Duplex.remaining_step`, `Duplex.exists_progress`): every turn
  that changes anything leaves less to do, and only a session that is over cannot go on.
-/

namespace Workflow

open Activity

variable {σ : Type}

/-! ## Turns -/

/-- What happens next in a session: the reader makes a step; the server takes the oldest callback
out of the queue; its next request is answered; or it is done with the callback. -/
inductive SessionTurn where
  | read
  | take
  | ask
  | settle
  deriving DecidableEq, Repr

/-- A session that is under way: both halves, what the server has left to do for the callback that
it has taken, the state of those who answer its requests, and what it has asked for. -/
structure Duplex (σ : Type) where
  session : Session
  inHand : Option (Activity Bool) := none
  state : σ
  asked : List Request := []

namespace Duplex

/-- A session at its beginning. -/
def begin (lines : List Line) (s : σ) : Duplex σ := { session := { unread := lines }, state := s }

/-- One turn. A server that is done with a callback goes on if the answer was sent, and stops
otherwise; then the queue is lost. Turns that cannot be made change nothing. -/
def step (environment : Environment σ) (d : Duplex σ) : SessionTurn → Duplex σ
  | .read => { d with session := d.session.read }
  | .take =>
    match d.inHand, d.session.queue with
    | none, c :: rest =>
      { d with session := { d.session with queue := rest }, inHand := some c.serve }
    | _, _ => d
  | .ask =>
    match d.inHand with
    | some (.ask request resume) =>
      let (reply, state) := environment request d.state
      { d with inHand := some (resume reply), state, asked := d.asked ++ [request] }
    | _ => d
  | .settle =>
    match d.inHand with
    | some (.done true) => { d with inHand := none }
    | some (.done false) =>
      { d with session := { d.session with queue := [], isServing := false }, inHand := none }
    | _ => d

/-- All turns, one after the other. -/
def follow (environment : Environment σ) (d : Duplex σ) (turns : List SessionTurn) : Duplex σ :=
  turns.foldl (step environment) d

/-- A session from its beginning, under a schedule of turns. -/
def under (environment : Environment σ) (lines : List Line) (s : σ) (turns : List SessionTurn) :
    Duplex σ := (begin lines s).follow environment turns

/-- What holds at the beginning, and is kept by every turn, holds under any schedule. -/
theorem under_invariant {environment : Environment σ} {P : Duplex σ → Prop} {lines : List Line}
    {s : σ} (hbegin : P (begin lines s)) (hstep : ∀ d turn, P d → P (d.step environment turn))
    (turns : List SessionTurn) : P (under environment lines s turns) := by
  have hfollow (d : Duplex σ) (h : P d) : P (d.follow environment turns) := by
    induction turns generalizing d with
    | nil => exact h
    | cons turn rest ih => exact ih _ (hstep d turn h)
  exact hfollow _ hbegin

/-- Whether both halves are done. -/
def isOver (d : Duplex σ) : Bool := d.session.isOver && d.inHand.isNone

end Duplex

/-! ## What is left to do -/

/-- The callbacks that are yet to be served: those in the queue, and those that are yet to be
read. -/
def Session.upcoming (s : Session) : List Callback :=
  s.queue ++ if s.verdict.isSome then [] else callbacksOf s.unread

namespace Session

/-- How much there is left to do, when a line that has not been read and a callback in the queue
count for so much. -/
def left (line callback : Nat) (s : Session) : Nat :=
  (if s.verdict.isSome then 0 else line * s.unread.length + 1) + callback * s.queue.length

section read

variable {s : Session}

/-- The reader does not stop the server. -/
theorem isServing_read (s : Session) : s.read.isServing = s.isServing := by
  rw [read]
  split
  case h_1 => rfl
  case h_2 => rfl
  case h_3 line rest _ _ =>
    split
    case h_1 => rfl
    case h_2 =>
      rw [receive]
      split
      · rfl
      · split <;> rfl
    case h_3 => rfl

/-- As long as the server is there, the reader neither loses a callback nor brings one in that is
not due, and it comes to the verdict of the lines. -/
theorem upcoming_read (hserving : s.isServing = true) :
    s.read.upcoming = s.upcoming ∧
      s.read.verdict.getD (verdictOf s.read.unread) = s.verdict.getD (verdictOf s.unread) := by
  obtain ⟨unread, queue, verdict, isServing⟩ := s
  obtain rfl : isServing = true := hserving
  cases verdict with
  | some verdict => exact ⟨rfl, rfl⟩
  | none =>
    cases unread with
    | nil => exact ⟨rfl, rfl⟩
    | cons line rest =>
      rcases hline : readLine line with _ | c | verdict
      · simp [read, upcoming, hline, callbacksOf_blank, verdictOf_blank]
      · by_cases hroom : queue.length < queueBound
        · simp [read, receive, upcoming, hline, hroom, callbacksOf_callback, verdictOf_callback]
        · simp [read, receive, upcoming, hline, hroom]
      · simp [read, upcoming, hline, callbacksOf_over, verdictOf_over]

/-- A server that has stopped gets no more callbacks. -/
theorem queue_read_of_stopped (hstopped : s.isServing = false) : s.read.queue = s.queue := by
  obtain ⟨unread, queue, verdict, isServing⟩ := s
  obtain rfl : isServing = false := hstopped
  cases verdict with
  | some verdict => rfl
  | none =>
    cases unread with
    | nil => rfl
    | cons line rest => cases hline : readLine line <;> simp [read, receive, hline]

/-- A reader that does anything leaves less to do, if a line counts for more than a callback. -/
theorem left_read {line callback : Nat} (hmore : callback < line) (s : Session) :
    s.read = s ∨ s.read.left line callback < s.left line callback := by
  obtain ⟨unread, queue, verdict, isServing⟩ := s
  cases verdict with
  | some verdict => exact .inl rfl
  | none =>
    cases unread with
    | nil => exact .inr (by simp [read, left])
    | cons head rest =>
      rcases hhead : readLine head with _ | c | verdict
      · refine .inr ?_
        simp only [read, left, hhead, Option.isSome_none, Bool.false_eq_true, if_false,
          List.length_cons, Nat.mul_add_one]
        omega
      · by_cases hroom : isServing = true ∧ ¬ queue.length < queueBound
        · exact .inl (by simp [read, receive, hhead, hroom])
        · refine .inr ?_
          cases isServing with
          | false =>
            simp only [read, receive, left, hhead, Option.isSome_none, Option.isSome_some,
              Bool.not_false, Bool.false_eq_true, if_false, if_true, List.length_cons,
              Nat.mul_add_one]
            omega
          | true =>
            have hroom : queue.length < queueBound := by simpa using hroom
            simp only [read, receive, left, hhead, hroom, Option.isSome_none, Bool.not_true,
              Bool.false_eq_true, if_false, if_true, List.length_cons, List.length_append,
              List.length_nil, Nat.mul_add_one]
            omega
      · refine .inr ?_
        simp only [read, left, hhead, Option.isSome_none, Option.isSome_some, Bool.false_eq_true,
          if_false, if_true, List.length_cons, Nat.mul_add_one]
        omega

/-- A reader that can make a step does something. -/
theorem read_ne (h : s.canRead = true) : s.read ≠ s := by
  obtain ⟨unread, queue, verdict, isServing⟩ := s
  cases verdict with
  | some verdict => cases h
  | none =>
    cases unread with
    | nil => simp [read]
    | cons line rest =>
      rcases hline : readLine line with _ | c | verdict
      · simp [read, hline]
      · have hroom : queue.length < queueBound := by simpa [canRead, hline] using h
        cases isServing <;> simp [read, receive, hline, hroom]
      · simp [read, hline]

/-- When there is nothing for the server to do, the reader of a session that is not over can make a
step. -/
theorem canRead_of_queue_eq_nil (h : s.isOver = false) (hqueue : s.queue = []) :
    s.canRead = true := by
  have hverdict : s.verdict = none := by simpa [isOver, hqueue] using h
  simp [canRead, hverdict, hqueue, queueBound]

end read

end Session

namespace Duplex

/-- What the server has left to do. -/
def pending (d : Duplex σ) : Activity Bool :=
  match d.inHand with
  | some rest => do
    if ← rest then serveAll d.session.upcoming
    else return false
  | none => if d.session.isServing then serveAll d.session.upcoming else return false

/-- A session conforms to its lines: what has been asked for and what is left make up what all
callbacks take, one after the other, and lead to the same state; the reader has come to the verdict
of the lines, or will do so. A server that has stopped has nothing left. -/
structure Conforms (environment : Environment σ) (lines : List Line) (s : σ) (d : Duplex σ) :
    Prop where
  requests : d.asked ++ d.pending.requests environment d.state =
    (serveAll (callbacksOf lines)).requests environment s
  run : d.pending.run environment d.state = (serveAll (callbacksOf lines)).run environment s
  verdict : d.session.isServing = true →
    d.session.verdict.getD (verdictOf d.session.unread) = verdictOf lines
  stopped : d.session.isServing = false → d.session.queue = [] ∧ d.inHand = none

section conforms

variable {environment : Environment σ} {lines : List Line} {s : σ} {d : Duplex σ}

/-- A session at its beginning conforms to its lines. -/
theorem conforms_begin (environment : Environment σ) (lines : List Line) (s : σ) :
    Conforms environment lines s (begin lines s) where
  requests := rfl
  run := rfl
  verdict _ := rfl
  stopped h := by cases h

/-- A server with a callback in hand is there. -/
theorem Conforms.isServing (h : Conforms environment lines s d) {rest : Activity Bool}
    (hhand : d.inHand = some rest) : d.session.isServing = true := by
  by_contra hstopped
  rw [(h.stopped (by simpa using hstopped)).2] at hhand
  cases hhand

/-- When the reader makes a step, the session keeps conforming to its lines. -/
theorem Conforms.read (h : Conforms environment lines s d) :
    Conforms environment lines s (d.step environment .read) := by
  have hpending : (d.step environment .read).pending = d.pending := by
    cases hserving : d.session.isServing with
    | true =>
      have hupcoming := (Session.upcoming_read hserving).1
      simp only [pending, step, Session.isServing_read, hupcoming]
    | false =>
      -- a server that has stopped has nothing left, whatever the reader does
      have hhand := (h.stopped hserving).2
      simp only [pending, step, Session.isServing_read, hserving, hhand, Bool.false_eq_true,
        if_false]
  refine ⟨hpending ▸ h.requests, hpending ▸ h.run, fun hserving => ?_, fun hstopped => ?_⟩
  · rw [step, Session.isServing_read] at hserving
    exact (Session.upcoming_read hserving).2.trans (h.verdict hserving)
  · rw [step, Session.isServing_read] at hstopped
    obtain ⟨hqueue, hhand⟩ := h.stopped hstopped
    exact ⟨(Session.queue_read_of_stopped hstopped).trans hqueue, hhand⟩

/-- When the server takes a callback out of the queue, the session keeps conforming to its lines. -/
theorem Conforms.take (h : Conforms environment lines s d) :
    Conforms environment lines s (d.step environment .take) := by
  rw [step]
  split
  case h_2 => exact h
  case h_1 c rest hhand hqueue =>
    have hserving : d.session.isServing = true := by
      by_contra hstopped
      rw [(h.stopped (by simpa using hstopped)).1] at hqueue
      cases hqueue
    have hpending : pending { d with
        session := { d.session with queue := rest }, inHand := some c.serve } = d.pending := by
      simp only [pending, hhand, hserving, Session.upcoming, hqueue]
      rfl
    exact ⟨hpending ▸ h.requests, hpending ▸ h.run, h.verdict,
      fun hstopped => nomatch hserving.symm.trans hstopped⟩

/-- When a request of the server is answered, the session keeps conforming to its lines. -/
theorem Conforms.ask (h : Conforms environment lines s d) :
    Conforms environment lines s (d.step environment .ask) := by
  rw [step]
  split
  case h_2 => exact h
  case h_1 request resume hhand =>
    obtain ⟨hrequests, hrun, hverdict, hstopped⟩ := h
    have hserving := Conforms.isServing ⟨hrequests, hrun, hverdict, hstopped⟩ hhand
    -- the request moves from what is left to do to what has been asked for
    simp only [pending, hhand] at hrequests hrun
    exact ⟨(List.append_assoc _ _ _).trans hrequests, hrun, hverdict,
      fun hstopped => nomatch hserving.symm.trans hstopped⟩

/-- When the server is done with a callback, the session keeps conforming to its lines. -/
theorem Conforms.settle (h : Conforms environment lines s d) :
    Conforms environment lines s (d.step environment .settle) := by
  rw [step]
  split
  case h_3 => exact h
  case h_1 hhand =>
    obtain ⟨hrequests, hrun, hverdict, hstopped⟩ := h
    have hserving := Conforms.isServing ⟨hrequests, hrun, hverdict, hstopped⟩ hhand
    have hpending : pending { d with inHand := none } = d.pending := by
      simp only [pending, hhand, hserving, if_true]
      rfl
    exact ⟨hpending ▸ hrequests, hpending ▸ hrun, hverdict,
      fun hstopped => nomatch hserving.symm.trans hstopped⟩
  case h_2 hhand =>
    -- the rest of the queue is lost, as it is when an answer cannot be sent in `serveAll`
    have hpending : pending { d with
        session := { d.session with queue := [], isServing := false }, inHand := none } =
          d.pending := by
      simp only [pending, hhand]
      rfl
    refine ⟨hpending ▸ h.requests, hpending ▸ h.run, fun hserving => ?_, fun _ => ⟨rfl, rfl⟩⟩
    cases hserving

/-- Whichever half goes on, the session keeps conforming to its lines. -/
theorem Conforms.step (h : Conforms environment lines s d) (turn : SessionTurn) :
    Conforms environment lines s (d.step environment turn) := by
  cases turn with
  | read => exact h.read
  | take => exact h.take
  | ask => exact h.ask
  | settle => exact h.settle

/-- A session conforms to its lines under any schedule. -/
theorem conforms_under (environment : Environment σ) (lines : List Line) (s : σ)
    (turns : List SessionTurn) :
    Conforms environment lines s (under environment lines s turns) :=
  under_invariant (conforms_begin environment lines s) (fun _ turn h => h.step turn) turns

end conforms

/-! ## Progress -/

/-- How much there is left to read, to take and to be done with: a line may become a callback in the
queue, and that the one in hand, so each counts for more than what it becomes. -/
def load (d : Duplex σ) : Nat := d.session.left 3 2 + d.inHand.toList.length

/-- How much there is left to do. -/
def remaining (environment : Environment σ) (d : Duplex σ) : Nat :=
  d.load + (d.pending.requests environment d.state).length

section progress

variable {environment : Environment σ} {lines : List Line} {s : σ} {d e : Duplex σ}

/-- Of two sessions that conform to the same lines, the one that has asked for more has that much
less to ask for. -/
theorem Conforms.remaining_lt (h : Conforms environment lines s d)
    (h' : Conforms environment lines s e)
    (hless : e.load + d.asked.length < d.load + e.asked.length) :
    e.remaining environment < d.remaining environment := by
  have hbefore := congrArg List.length h.requests
  have hafter := congrArg List.length h'.requests
  rw [List.length_append] at hbefore hafter
  rw [remaining, remaining]
  omega

/-- A turn that changes anything leaves less to do. -/
theorem Conforms.remaining_step (h : Conforms environment lines s d) (turn : SessionTurn) :
    d.step environment turn = d ∨
      (d.step environment turn).remaining environment < d.remaining environment := by
  have hless (hless : (d.step environment turn).load + d.asked.length <
      d.load + (d.step environment turn).asked.length) := h.remaining_lt (h.step turn) hless
  cases turn with
  | read =>
    rcases Session.left_read (by decide : 2 < 3) d.session with hsame | hleft
    · exact .inl (by rw [Duplex.step, hsame])
    · refine .inr (hless ?_)
      simp only [Duplex.step, load]
      omega
  | take =>
    cases hhand : d.inHand with
    | some rest => exact .inl (by simp only [Duplex.step, hhand])
    | none =>
      cases hqueue : d.session.queue with
      | nil => exact .inl (by simp only [Duplex.step, hhand, hqueue])
      | cons c rest =>
        refine .inr (hless ?_)
        simp only [Duplex.step, load, hhand, hqueue, Session.left, List.length_cons,
          Option.toList_some, Option.toList_none, List.length_nil]
        omega
  | ask =>
    rcases hhand : d.inHand with _ | ⟨result | ⟨request, resume⟩⟩
    · exact .inl (by simp only [Duplex.step, hhand])
    · exact .inl (by simp only [Duplex.step, hhand])
    · refine .inr (hless ?_)
      simp only [Duplex.step, load, hhand, List.length_append, List.length_cons, Option.toList_some,
        List.length_nil]
      omega
  | settle =>
    rcases hhand : d.inHand with _ | ⟨(_ | _) | ⟨request, resume⟩⟩
    · exact .inl (by simp only [Duplex.step, hhand])
    · refine .inr (hless ?_)
      simp only [Duplex.step, load, hhand, Session.left, List.length_cons, Option.toList_some,
        Option.toList_none, List.length_nil]
      omega
    · refine .inr (hless ?_)
      simp only [Duplex.step, load, hhand, List.length_cons, Option.toList_some, Option.toList_none,
        List.length_nil]
      omega
    · exact .inl (by simp only [Duplex.step, hhand])

/-- A session that is not over can go on. -/
theorem exists_progress (environment : Environment σ) (d : Duplex σ) (h : d.isOver = false) :
    ∃ turn, d.step environment turn ≠ d := by
  rcases hhand : d.inHand with _ | ⟨result | ⟨request, resume⟩⟩
  · cases hqueue : d.session.queue with
    | cons c rest =>
      refine ⟨.take, fun hsame => ?_⟩
      have hinHand := congrArg Duplex.inHand hsame
      simp [step, hhand, hqueue] at hinHand
    | nil =>
      have hover : d.session.isOver = false := by simpa [isOver, hhand] using h
      exact ⟨.read, fun hsame =>
        Session.read_ne (Session.canRead_of_queue_eq_nil hover hqueue)
          (congrArg Duplex.session hsame)⟩
  · refine ⟨.settle, fun hsame => ?_⟩
    have hinHand := congrArg Duplex.inHand hsame
    cases result <;> simp [step, hhand] at hinHand
  · refine ⟨.ask, fun hsame => ?_⟩
    have hasked := congrArg (List.length ∘ Duplex.asked) hsame
    simp [step, hhand] at hasked

/-- A turn changes nothing about a session that is over. -/
theorem step_of_isOver (h : d.isOver = true) (turn : SessionTurn) :
    d.step environment turn = d := by
  obtain ⟨⟨unread, queue, verdict, isServing⟩, inHand, state, asked⟩ := d
  simp only [isOver, Session.isOver, Bool.and_eq_true, List.isEmpty_iff, Option.isNone_iff_eq_none]
    at h
  obtain ⟨⟨hverdict, rfl⟩, rfl⟩ := h
  obtain ⟨verdict, rfl⟩ := Option.isSome_iff_exists.mp hverdict
  cases turn <;> rfl

end progress

end Duplex

end Workflow
