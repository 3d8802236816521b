import Workflow.Proofs.Activity
import Workflow.Worker.Connection

/-!
# Attempts to reach a worker

Whether an attempt succeeds is up to the worker, and which attempts are made can be read off their
outcomes: they go on until the first success, but no longer than the settings grant. Between two
attempts there is a pause, and each is a step longer than the one before, up to what a word can
count.

* **Requests** (`WorkerSettings.connect_onlyAsks`): nothing is asked for but connections and pauses.
* **Outcomes** (`WorkerSettings.Meets`, `WorkerSettings.exists_meets`,
  `WorkerSettings.meets_outcomesInTurn`): what the attempts come to, whoever is asked to connect.
* **The last attempt** (`WorkerSettings.IsLast`, `WorkerSettings.exists_isLast`,
  `WorkerSettings.IsLast.eq_min`): told by the outcomes.
* **The counter** (`WorkerSettings.attemptFrom`, `WorkerSettings.connect_eq_attemptFrom`): the same
  attempts counted by a word, which never begins anew.
* **The trace** (`WorkerSettings.Attempted`, `WorkerSettings.connect_tries`): all that is asked for,
  in order, and what comes of it.
-/

namespace Workflow.WorkerSettings

open Activity

variable {σ : Type}

/-! ## Requests -/

/-- An attempt that may be followed by something else, as a tree of requests. -/
theorem tryCatch_connect_run (handle : String → ExceptT String Activity (List UInt8)) :
    (tryCatch Activity.connect handle : ExceptT String Activity (List UInt8)).run =
      .ask .connect fun
        | .ok bytes => .done (.ok bytes)
        | .error reason => (handle reason).run := by
  change Activity.ask _ _ = Activity.ask _ _
  congr 1
  funext reply
  cases reply <;> rfl

/-- Connecting to a worker asks for connections and pauses. -/
theorem connect_onlyAsks {P : Request → Prop} (hconnect : P .connect) (hsleep : ∀ d, P (.sleep d))
    (w : WorkerSettings) : w.connect.run.OnlyAsks P := by
  have hfrom (attempt retries : Nat) : (w.connectFrom attempt retries).run.OnlyAsks P := by
    induction retries generalizing attempt with
    | zero => exact ⟨hconnect, fun _ => trivial⟩
    | succ retries ih =>
      rw [connectFrom, tryCatch_connect_run]
      refine ⟨hconnect, fun reply => ?_⟩
      cases reply with
      | ok bytes => trivial
      | error reason => exact ⟨hsleep _, fun _ => ih (attempt + 1)⟩
  exact hfrom 1 (w.connectAttempts - 1)

/-! ## Outcomes -/

/-- What comes of an attempt to connect: the bytes of the worker, or the reason why it cannot be
reached. -/
abbrev Outcome := Except String (List UInt8)

/-- The attempts, counted from zero, come to these outcomes, when each that is not the first comes
after the pause that is due. Before and after each of them those who are asked are in these
states. -/
structure Meets (w : WorkerSettings) (environment : Environment σ) (outcomes : Nat → Outcome)
    (before after : Nat → σ) : Prop where
  tried : ∀ n, environment .connect (before n) = (outcomes n, after n)
  paused : ∀ n, environment (.sleep (w.backoff (n + 1))) (after n) = ((), before (n + 1))

/-- The state of those who are asked, before an attempt. -/
def stateBefore (w : WorkerSettings) (environment : Environment σ) (s : σ) : Nat → σ
  | 0 => s
  | n + 1 =>
    (environment (.sleep (w.backoff (n + 1)))
      (environment .connect (w.stateBefore environment s n)).2).2

/-- The attempts to connect come to some outcomes, whoever is asked. -/
theorem exists_meets (w : WorkerSettings) (environment : Environment σ) (s : σ) :
    ∃ outcomes before after, before 0 = s ∧ w.Meets environment outcomes before after :=
  ⟨fun n => (environment .connect (w.stateBefore environment s n)).1,
    w.stateBefore environment s, fun n => (environment .connect (w.stateBefore environment s n)).2,
    rfl, fun _ => rfl, fun _ => rfl⟩

/-- Answers the attempts to connect with the given outcomes, one after the other, and counts them.
There is nothing else. -/
def outcomesInTurn (outcomes : Nat → Outcome) : Environment Nat
  | .connect, count => (outcomes count, count + 1)
  | .store _, count => (.error (.backend "there is no store"), count)
  | .dispatch _, count => ((), count)
  | .sleep _, count => ((), count)
  | .now, count => (⟨0, 0⟩, count)
  | .work _, count => (.error (.raised "Idle" "there is no task"), count)
  | .send _, count => (false, count)

/-- The attempts to connect can come to any outcomes whatever. -/
theorem meets_outcomesInTurn (w : WorkerSettings) (outcomes : Nat → Outcome) :
    w.Meets (outcomesInTurn outcomes) outcomes (fun n => n) (fun n => n + 1) where
  tried _ := rfl
  paused _ := rfl

/-! ## The last attempt -/

/-- How many attempts are granted, at least one. -/
def granted (w : WorkerSettings) : Nat := max 1 w.connectAttempts

/-- The attempts end with this one, counted from zero: all before it have failed, and it succeeds or
no more are granted. -/
structure IsLast (w : WorkerSettings) (outcomes : Nat → Outcome) (k : Nat) : Prop where
  failed : ∀ n < k, (outcomes n).isOk = false
  within : k < w.granted
  ends : (outcomes k).isOk = true ∨ k + 1 = w.granted

section last

variable {w : WorkerSettings} {outcomes : Nat → Outcome} {k : Nat}

/-- The attempts to connect come to an end. -/
theorem exists_isLast (w : WorkerSettings) (outcomes : Nat → Outcome) :
    ∃ k, w.IsLast outcomes k := by
  -- on the attempts that may still be made when all so far have failed
  have hfrom (left m : Nat) (hm : m + left + 1 = w.granted)
      (hfailed : ∀ n < m, (outcomes n).isOk = false) : ∃ k, w.IsLast outcomes k := by
    induction left generalizing m with
    | zero => exact ⟨m, hfailed, by omega, .inr hm⟩
    | succ left ih =>
      cases houtcome : (outcomes m).isOk with
      | true => exact ⟨m, hfailed, by omega, .inl houtcome⟩
      | false =>
        refine ih (m + 1) (by omega) fun n hn => ?_
        rcases Nat.lt_succ_iff_lt_or_eq.mp hn with hlt | rfl
        · exact hfailed n hlt
        · exact houtcome
  have hgranted : 1 ≤ w.granted := Nat.le_max_left 1 _
  exact hfrom (w.granted - 1) 0 (by omega) fun n hn => absurd hn (Nat.not_lt_zero n)

/-- The attempts go on until the first success, if as many are granted, and otherwise up to the last
one that is. -/
theorem IsLast.eq_min (h : w.IsLast outcomes k) {first : Nat}
    (hfirst : (outcomes first).isOk = true) (hfailed : ∀ n < first, (outcomes n).isOk = false) :
    k + 1 = min w.granted (first + 1) := by
  have hle : k ≤ first := by
    by_contra hlt
    exact Bool.noConfusion ((h.failed first (Nat.not_le.mp hlt)).symm.trans hfirst)
  have hwithin := h.within
  rcases Nat.lt_or_eq_of_le hle with hlt | rfl
  · have hends := h.ends.resolve_left (by simp [hfailed k hlt])
    omega
  · omega

/-- All granted attempts are made if none succeeds. -/
theorem IsLast.eq_granted (h : w.IsLast outcomes k) (hfailed : ∀ n, (outcomes n).isOk = false) :
    k + 1 = w.granted := h.ends.resolve_left (by simp [hfailed k])

end last

/-! ## The counter -/

/-- A word that is below another one is not full. -/
theorem toNat_add_one {attempt granted : UInt32} (h : ¬ granted ≤ attempt) :
    (attempt + 1).toNat = attempt.toNat + 1 := by
  have hlt : attempt.toNat < granted.toNat := Nat.not_le.mp (UInt32.le_iff_toNat_le.not.mp h)
  have hgranted := granted.toNat_lt
  rw [UInt32.toNat_add]
  exact Nat.mod_eq_of_lt (by change attempt.toNat + 1 < _; omega)

/-- The attempts as they are counted by a word of 32 bits, which begins anew at zero when it is
full: after a failure it is first asked whether another attempt is granted. -/
def attemptFrom (w : WorkerSettings) (granted attempt : UInt32) :
    ExceptT String Activity (List UInt8) :=
  tryCatch Activity.connect fun reason =>
    if granted ≤ attempt then throw reason
    else do
      Activity.sleep (w.backoff attempt.toNat)
      w.attemptFrom granted (attempt + 1)
termination_by granted.toNat - attempt.toNat
decreasing_by
  have hnext := toNat_add_one ‹_›
  have hlt : attempt.toNat < granted.toNat := Nat.not_le.mp (UInt32.le_iff_toNat_le.not.mp ‹_›)
  omega

/-- The word counts as a natural number does, up to the number of attempts that are granted. -/
theorem attemptFrom_eq (w : WorkerSettings) {granted attempt : UInt32} {retries : Nat}
    (h : attempt.toNat + retries = granted.toNat) :
    w.attemptFrom granted attempt = w.connectFrom attempt.toNat retries := by
  induction retries generalizing attempt with
  | zero =>
    have hle : granted ≤ attempt := UInt32.le_iff_toNat_le.mpr (by omega)
    rw [attemptFrom, connectFrom]
    refine ExceptT.ext ?_
    rw [tryCatch_connect_run]
    refine congrArg (Activity.ask _) (funext fun reply => ?_)
    cases reply with
    | ok bytes => rfl
    | error reason =>
      simp only [if_pos hle]
      rfl
  | succ retries ih =>
    have hle : ¬ granted ≤ attempt := fun hle => by
      have := UInt32.le_iff_toNat_le.mp hle
      omega
    rw [attemptFrom, connectFrom]
    refine congrArg (tryCatch Activity.connect) (funext fun reason => ?_)
    rw [if_neg hle, ih (by rw [toNat_add_one hle]; omega), toNat_add_one hle]

/-- Whatever a word can grant can be counted by a word. -/
theorem connect_eq_attemptFrom (w : WorkerSettings) (h : w.connectAttempts < Word.count32) :
    w.connect = w.attemptFrom (.ofNat w.granted) 1 := by
  have hgranted : (UInt32.ofNat w.granted).toNat = w.granted :=
    UInt32.toNat_ofNat_of_lt' (Nat.max_lt.mpr ⟨by decide, h⟩)
  have hretries :
      (1 : UInt32).toNat + (w.connectAttempts - 1) = (UInt32.ofNat w.granted).toNat := by
    rw [hgranted, granted]
    change 1 + _ = _
    omega
  exact (attemptFrom_eq w hretries).symm

/-! ## The trace -/

section trace

variable {w : WorkerSettings} {environment : Environment σ} {outcomes : Nat → Outcome}
  {before after : Nat → σ} {k m retries : Nat}

/-- What is asked for on account of an attempt that is not the last: to connect, and a pause. -/
def asked (w : WorkerSettings) (n : Nat) : List Request :=
  [.connect, .sleep (.ofMillis (min ((n + 1) * w.backoffMillis) (Word.count64 - 1)))]

/-- On account of an attempt that is not the last there is a pause of as many steps as attempts have
failed. -/
theorem asked_eq (w : WorkerSettings) (n : Nat) :
    w.asked n = [.connect, .sleep (w.backoff (n + 1))] := by
  rw [asked, backoff, Nat.mul_comm]

/-- The last attempt asks to connect, and its outcome is that of all. -/
theorem runs_connectFrom_of_ends (h : w.Meets environment outcomes before after)
    (hends : (outcomes k).isOk = true ∨ retries = 0) :
    Runs environment (w.connectFrom (k + 1) retries).run (before k) [.connect] (outcomes k)
      (after k) := by
  cases retries with
  | zero => exact .ask (h.tried k) (.done _)
  | succ retries =>
    rw [connectFrom, tryCatch_connect_run]
    refine .ask (h.tried k) ?_
    cases houtcome : outcomes k with
    | ok bytes => exact .done _
    | error reason =>
      rw [houtcome] at hends
      cases hends.resolve_right (Nat.succ_ne_zero _)

/-- From an attempt on, they go on as the outcomes say, up to the last one. -/
theorem runs_connectFrom (h : w.Meets environment outcomes before after)
    (hlast : w.IsLast outcomes k) {rest : Nat} (hm : m + rest = k)
    (hretries : m + retries + 1 = w.granted) :
    Runs environment (w.connectFrom (m + 1) retries).run (before m)
      ((List.range' m rest).flatMap w.asked ++ [.connect]) (outcomes k) (after k) := by
  -- on the attempts before the last one that are still to come
  induction rest generalizing m retries with
  | zero =>
    obtain rfl : m = k := hm
    exact runs_connectFrom_of_ends h (hlast.ends.imp_right fun hends => by omega)
  | succ rest ih =>
    have hwithin := hlast.within
    have hfailed := hlast.failed m (by omega)
    obtain ⟨retries, rfl⟩ : ∃ n, retries = n + 1 := ⟨retries - 1, by omega⟩
    rw [connectFrom, tryCatch_connect_run, List.range'_succ, List.flatMap_cons, asked_eq]
    refine .ask (h.tried m) ?_
    cases houtcome : outcomes m with
    | ok bytes =>
      rw [houtcome] at hfailed
      cases hfailed
    | error reason => exact .ask (h.paused m) (ih (by omega) (by omega))

end trace

/-- How attempts go that have these outcomes, up to the last one, which is that of a number counted
from zero. -/
structure Attempted (w : WorkerSettings) (environment : Environment σ) (outcomes : Nat → Outcome)
    (before after : Nat → σ) (last : Nat) : Prop where
  /-- Every attempt but the last is followed by a pause of as many steps as attempts have failed, as
  far as a word of 64 bits can count the milliseconds; the outcome of the last is that of all. -/
  runs : Runs environment w.connect.run (before 0)
    ((List.range last).flatMap (fun n => [.connect,
      .sleep (.ofMillis (min ((n + 1) * w.backoffMillis) (Word.count64 - 1)))]) ++ [.connect])
    (outcomes last) (after last)
  /-- If there is a success, the first one is the last attempt, unless the attempts granted end
  before. -/
  first : ∀ first, (outcomes first).isOk = true → (∀ n < first, (outcomes n).isOk = false) →
    last + 1 = min (max 1 w.connectAttempts) (first + 1)
  /-- If there is no success, all attempts granted are made. -/
  granted : (∀ n, (outcomes n).isOk = false) → last + 1 = max 1 w.connectAttempts
  /-- The number of attempts fits into a word if that in the settings does. -/
  inRange : w.connectAttempts < Word.count32 → last + 1 < Word.count32

/-- How a worker is tried to be reached by someone who is asked. -/
structure Tries (w : WorkerSettings) (environment : Environment σ) : Prop where
  /-- From any state on, the attempts have some outcomes. -/
  meets : ∀ s, ∃ outcomes before after, before 0 = s ∧ w.Meets environment outcomes before after
  /-- Any outcomes are possible. -/
  possible : ∀ outcomes,
    w.Meets (outcomesInTurn outcomes) outcomes (fun n => n) (fun n => n + 1)
  /-- Whatever the outcomes are, there is a last attempt. -/
  attempted : ∀ outcomes before after, w.Meets environment outcomes before after →
    ∃ last, w.Attempted environment outcomes before after last
  /-- Attempts that are counted by a word are the same. -/
  counted : w.connectAttempts < Word.count32 →
    w.connect = w.attemptFrom (.ofNat (max 1 w.connectAttempts)) 1

/-- Whoever is asked, the attempts to connect go on until the first success, or until as many have
been made as are granted. After each failure before the last attempt, and only there, is a pause of
as many steps as attempts have failed, as far as a word of 64 bits can count the milliseconds; the
outcome of the last attempt is that of all. Any outcomes are possible. If a word of 32 bits can hold
the number of attempts in the settings, it can count the attempts as well. -/
theorem connect_tries (w : WorkerSettings) (environment : Environment σ) :
    w.Tries environment where
  meets := w.exists_meets environment
  possible := w.meets_outcomesInTurn
  counted := w.connect_eq_attemptFrom
  attempted outcomes before after h := by
    obtain ⟨last, hlast⟩ := w.exists_isLast outcomes
    have hgranted : 0 + (w.connectAttempts - 1) + 1 = w.granted := by
      rw [WorkerSettings.granted]
      omega
    have hruns := runs_connectFrom h hlast (Nat.zero_add last) hgranted
    rw [← List.range_eq_range'] at hruns
    refine ⟨last, hruns, fun first => hlast.eq_min, hlast.eq_granted, fun hattempts => ?_⟩
    exact Nat.lt_of_le_of_lt hlast.within (Nat.max_lt.mpr ⟨by decide, hattempts⟩)

/-- Settings with a step so long that the second pause is the longest there is. -/
def patient : WorkerSettings := { connectAttempts := 5, backoffMillis := 0x8000000000000000 }

/-- The outcomes of a worker that can be reached at the third attempt. -/
def lateOutcomes : Nat → Outcome
  | 0 | 1 => .error "no such file"
  | _ => .ok [123, 125, 10]

/-- With `patient` settings, a worker with `lateOutcomes` is reached after two pauses. -/
theorem connect_tries_late :
    patient.connect.run.requests (outcomesInTurn lateOutcomes) 0 =
        [.connect, .sleep (.ofMillis 0x8000000000000000), .connect,
          .sleep (.ofMillis 0xffffffffffffffff), .connect] ∧
      (patient.connect.run.run (outcomesInTurn lateOutcomes) 0).1 = .ok [123, 125, 10] := by
  have htries := patient.connect_tries (outcomesInTurn lateOutcomes)
  obtain ⟨last, hattempted⟩ := htries.attempted lateOutcomes _ _ (htries.possible lateOutcomes)
  have hlast : last + 1 = 3 := hattempted.first 2 rfl fun n hn => by
    rcases n with _ | _ | n
    · rfl
    · rfl
    · omega
  obtain rfl : last = 2 := Nat.succ.inj hlast
  exact ⟨hattempted.runs.requests, congrArg Prod.fst hattempted.runs.run⟩

end Workflow.WorkerSettings
