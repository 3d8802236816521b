import Mathlib.Data.List.Nodup
import Mathlib.Data.Nat.Find
import Workflow.Proofs.Task.Retry

/-!
# The rounds of a task

A task under its policies is invoked in rounds, with a pause between each and the next. Which round
is the last one, how long the pauses are and what comes of it all can be read off the results of the
invocations alone: the budget of a retry policy after some rounds is told by the failures among
their results that it was the first for.

* **Reading results** (`firstRetrier`, `Rounds.count`, `Rounds.ends`, `Rounds.pause`): the policy
  that is first for a failure, how often it has been so, whether the loop ends, and the pause.
* **The budget** (`decide_spent`): what the loop remembers of the rounds is what these say.
* **The end** (`Rounds.conclusion`, `Rounds.answerFailure_of_ends`): what comes of the last result.
* **The trace** (`Task.Gives`, `Task.invokeUnder_rounds`): all that the loop asks for, in order.
-/

namespace Workflow

open Activity

variable {σ : Type}

/-! ## Reading results -/

/-- The first retry policy that is for a failure, with its position. -/
def firstRetrier (retriers : List RetryPolicy) (failure : TaskFailure) :
    Option (RetryPolicy × Nat) :=
  retriers.zipIdx.find? fun entry => failure.matchedBy entry.1.errorEquals

namespace Rounds

/-- Whether a result is a failure that the retry policy at a position is the first for. -/
def isFor (retriers : List RetryPolicy) (position : Nat) : Verdict → Bool
  | .ok _ => false
  | .error failure => (firstRetrier retriers failure).any fun entry => entry.2 == position

section results

variable (retriers : List RetryPolicy) (results : Nat → Verdict)

/-- For how many of the first results the retry policy at a position was the first. -/
def count (position rounds : Nat) : Nat :=
  (List.range rounds).countP fun m => isFor retriers position (results m)

/-- Whether the loop ends with a result: the task has succeeded, or no retry policy is for the
failure, or the first that is for it has been the first as often as it has attempts. -/
def ends (m : Nat) : Bool :=
  match results m with
  | .ok _ => true
  | .error failure =>
    match firstRetrier retriers failure with
    | none => true
    | some (policy, position) => policy.maxAttempts ≤ count retriers results position m

/-- The pause after a result, if the loop does not end with it: the delay that the first retry
policy for the failure has for this retry, counted among its own. -/
def pause (m : Nat) : Duration :=
  match results m with
  | .ok _ => .zero
  | .error failure =>
    match firstRetrier retriers failure with
    | none => .zero
    | some (policy, position) => policy.delay (count retriers results position (m + 1))

/-- The loop ends with a result, and with none before. -/
def IsLast (k : Nat) : Prop :=
  ends retriers results k = true ∧ ∀ m < k, ends retriers results m = false

/-- The budget after some rounds. -/
def spent (rounds : Nat) : RetryBudget :=
  retriers.zipIdx.map fun entry => (entry.1, count retriers results entry.2 rounds)

end results

/-- What comes of the last result: an output is a success; a failure that a retry policy is for, and
for which there are no catch policies at all, exhausts the retries; any other failure is caught by
the first catch policy that is for it, or stands. -/
def conclusion (retriers : List RetryPolicy) (catchers : List CatchPolicy) :
    Verdict → Except TaskFailure TaskOutcome
  | .ok output => .ok (.success output)
  | .error failure =>
    if (firstRetrier retriers failure).isSome ∧ catchers = [] then .ok (.exhausted failure.message)
    else match catchers.find? fun catcher => failure.matchedBy catcher.errorEquals with
      | some catcher => .ok (.caught catcher failure.message)
      | none => .error failure

end Rounds

/-! ## The budget -/

/-- A decision about a failure, by the first policy that is for it. Each policy stands at a position
of its own. -/
theorem RetryBudget.decide_map (failure : TaskFailure) (used : Nat → Nat)
    {entries : List (RetryPolicy × Nat)} (hnodup : (entries.map (·.2)).Nodup) :
    RetryBudget.decide failure (entries.map fun entry => (entry.1, used entry.2)) =
      match entries.find? fun entry => failure.matchedBy entry.1.errorEquals with
      | none => .unmatched
      | some (policy, position) =>
        if policy.maxAttempts ≤ used position then .exhausted
        else .again (policy.delay (used position + 1)) (entries.map fun entry =>
          (entry.1, Function.update used position (used position + 1) entry.2)) := by
  -- the decision goes through the policies in order and uses up an attempt of the first match only,
  -- so the update at its position must leave those behind it alone
  induction entries with
  | nil => rfl
  | cons head rest ih =>
    obtain ⟨policy, position⟩ := head
    obtain ⟨hhead, hrest⟩ := List.nodup_cons.mp hnodup
    rw [List.map_cons, RetryBudget.decide, List.find?_cons]
    cases hfor : failure.matchedBy policy.errorEquals with
    | true =>
      have hothers : (rest.map fun entry =>
          (entry.1, Function.update used position (used position + 1) entry.2)) =
            rest.map fun entry => (entry.1, used entry.2) := by
        refine List.map_congr_left fun entry hmem => ?_
        have hne : entry.2 ≠ position := fun heq =>
          hhead (heq ▸ List.mem_map_of_mem (f := (·.2)) hmem)
        rw [Function.update_of_ne hne]
      simp only [if_true, List.map_cons, Function.update_self, hothers]
    | false =>
      rw [if_neg Bool.false_ne_true, ih hrest]
      cases hfind : rest.find? fun entry => failure.matchedBy entry.1.errorEquals with
      | none => rfl
      | some found =>
        have hne : position ≠ found.2 := fun heq =>
          hhead (heq ▸ List.mem_map_of_mem (f := (·.2)) (List.mem_of_find?_eq_some hfind))
        simp only [List.map_cons, Function.update_of_ne hne]
        by_cases hused : found.1.maxAttempts ≤ used found.2
        · simp only [if_pos hused]
        · simp only [if_neg hused]

section budget

variable {retriers : List RetryPolicy} {results : Nat → Verdict} {failure : TaskFailure}
  {policy : RetryPolicy} {position m : Nat}

/-- Every policy stands at a position of its own. -/
theorem nodup_positions (retriers : List RetryPolicy) : (retriers.zipIdx.map (·.2)).Nodup := by
  rw [List.zipIdx_map_snd]
  exact List.nodup_range'

namespace Rounds

/-- Before the first round no policy has been used. -/
theorem spent_zero (retriers : List RetryPolicy) (results : Nat → Verdict) :
    spent retriers results 0 = .fresh retriers := by
  have hmap := congrArg (List.map fun policy => (policy, 0)) (List.zipIdx_map_fst 0 retriers)
  rw [List.map_map] at hmap
  exact hmap

/-- A failure is counted for the first policy that is for it, and for no other. -/
theorem count_succ (hresult : results m = .error failure)
    (hfirst : firstRetrier retriers failure = some (policy, position)) (other : Nat) :
    count retriers results other (m + 1) =
      Function.update (fun position => count retriers results position m) position
        (count retriers results position m + 1) other := by
  have hfor : isFor retriers other (results m) = (position == other) := by
    rw [hresult, isFor, hfirst]
    rfl
  rw [count, List.range_succ, List.countP_append, List.countP_singleton, hfor]
  by_cases hother : other = position
  · subst hother
    simp [count]
  · have hne : ¬position = other := fun heq => hother heq.symm
    simp [count, hother, hne]

/-- What the budget of a round says about its failure. -/
theorem decide_spent (hresult : results m = .error failure) :
    (spent retriers results m).decide failure =
      match firstRetrier retriers failure with
      | none => .unmatched
      | some _ =>
        if ends retriers results m then .exhausted
        else .again (pause retriers results m) (spent retriers results (m + 1)) := by
  rw [spent, RetryBudget.decide_map failure (fun position => count retriers results position m)
    (nodup_positions retriers), ← firstRetrier]
  cases hfirst : firstRetrier retriers failure with
  | none => rfl
  | some entry =>
    obtain ⟨policy, position⟩ := entry
    have hcount := count_succ hresult hfirst
    have hpause : pause retriers results m =
        policy.delay (count retriers results position m + 1) := by
      simp only [pause, hresult, hfirst, hcount, Function.update_self]
    have hspent : spent retriers results (m + 1) = retriers.zipIdx.map fun entry =>
        (entry.1, Function.update (fun position => count retriers results position m) position
          (count retriers results position m + 1) entry.2) := by
      simp only [spent, hcount]
    simp only [ends, hresult, hfirst, hpause, hspent, decide_eq_true_iff]

end Rounds

end budget

/-! ## The end -/

section conclusion

variable {task : Task} {retriers : List RetryPolicy} {catchers : List CatchPolicy} {input : Json}
  {results : Nat → Verdict} {failure : TaskFailure} {m : Nat}

/-- The scheduler is handed what is to be handed over. -/
def handOver (dispatches : List Dispatch) : Activity Unit :=
  dispatches.forM fun d => Activity.dispatch d.next d.value

/-- A failure that is not retried is handed to the state of the first catch policy for it. -/
theorem catchFailure_eq (task : Task) (catchers : List CatchPolicy) (failure : TaskFailure) :
    (catchFailure task catchers failure).run =
      match catchers.find? fun catcher => failure.matchedBy catcher.errorEquals with
      | some catcher =>
        .ask (.dispatch ⟨catcher.next, task.catchPayload failure.message⟩) fun _ =>
          .done (.ok (.caught catcher failure.message))
      | none => .done (.error failure) := by
  unfold catchFailure
  cases catchers.find? fun catcher => failure.matchedBy catcher.errorEquals <;> rfl

/-- A failure with which the loop ends comes to its conclusion, which may hand it over. -/
theorem Rounds.answerFailure_of_ends (hresult : results m = .error failure)
    (hends : ends retriers results m = true) :
    answerFailure task catchers input (spent retriers results m) failure =
      (handOver (task.handover (conclusion retriers catchers (.error failure))) >>= fun _ =>
        .done (conclusion retriers catchers (.error failure))) := by
  rw [answerFailure, decide_spent hresult]
  cases hfirst : firstRetrier retriers failure with
  | none =>
    simp only [catchFailure_eq, conclusion, hfirst]
    cases catchers.find? fun catcher => failure.matchedBy catcher.errorEquals <;> rfl
  | some entry =>
    simp only [hends, if_true, catchFailure_eq, conclusion, hfirst]
    cases catchers with
    | nil => rfl
    | cons head rest =>
      have hcatchers : ¬((some entry).isSome ∧ head :: rest = []) := by simp
      simp only [List.isEmpty_cons, if_neg hcatchers]
      cases (head :: rest).find? fun catcher => failure.matchedBy catcher.errorEquals <;> rfl

/-- A failure with which the loop does not end is retried after the pause. -/
theorem Rounds.decide_spent_of_not_ends (hresult : results m = .error failure)
    (hends : ends retriers results m = false) :
    (spent retriers results m).decide failure =
      .again (pause retriers results m) (spent retriers results (m + 1)) := by
  rw [decide_spent hresult, hends]
  cases hfirst : firstRetrier retriers failure with
  | none => simp [ends, hresult, hfirst] at hends
  | some entry => rfl

/-- A result with which the loop does not end is a failure. -/
theorem Rounds.exists_failure_of_not_ends (hends : ends retriers results m = false) :
    ∃ failure, results m = .error failure := by
  cases hresult : results m with
  | ok output => simp [ends, hresult] at hends
  | error failure => exact ⟨failure, rfl⟩

/-- The loop comes to an end: every round but the last uses up a retry. -/
theorem Rounds.exists_isLast (retriers : List RetryPolicy) (results : Nat → Verdict) :
    ∃ k, IsLast retriers results k := by
  have hsome : ∃ k, ends retriers results k = true := by
    by_contra hnone
    have hends (m : Nat) : ends retriers results m = false := by
      by_contra hm
      exact hnone ⟨m, by simpa using hm⟩
    -- the attempts that are left shrink with every round, so there are no more rounds than that
    have hleft (m : Nat) :
        (spent retriers results 0).left = (spent retriers results m).left + m := by
      induction m with
      | zero => rfl
      | succ m ih =>
        obtain ⟨failure, hresult⟩ := exists_failure_of_not_ends (hends m)
        have hstep := RetryBudget.left_of_again (decide_spent_of_not_ends hresult (hends m))
        omega
    have hpast := hleft ((spent retriers results 0).left + 1)
    omega
  refine ⟨Nat.find hsome, Nat.find_spec hsome, fun m hm => ?_⟩
  simpa using Nat.find_min hsome hm

end conclusion

/-! ## The trace -/

/-- A task that is invoked again and again, with pauses in between, gives these results. Before and
after each invocation those who answer it are in these states. -/
structure Task.Gives (task : Task) (input : Json) (environment : Environment σ)
    (pauses : Nat → Duration) (results : Nat → Verdict) (before after : Nat → σ) : Prop where
  invoked : ∀ m, (task.invoke input).run.run environment (before m) = (results m, after m)
  paused : ∀ m, (environment (.sleep (pauses m)) (after m)).2 = before (m + 1)

namespace Rounds

section trace

variable {task : Task} {retriers : List RetryPolicy} {catchers : List CatchPolicy} {input : Json}
  {environment : Environment σ} {results : Nat → Verdict} {before after : Nat → σ} {k m : Nat}

/-- What has been handed over has reached the scheduler, and nothing else has happened. -/
theorem runs_handOver (environment : Environment σ) (dispatches : List Dispatch) (s : σ) :
    Runs environment (handOver dispatches) s (dispatches.map .dispatch) ()
      (dispatches.foldl (fun s d => (environment (.dispatch d) s).2) s) := by
  induction dispatches generalizing s with
  | nil => exact .done ()
  | cons d rest ih => exact .ask rfl (ih _)

/-- In the last round the task is invoked, and the loop comes to the conclusion of the result. -/
theorem runs_invokeWithin_of_ends
    (hgives : task.Gives input environment (pause retriers results) results before after)
    (hends : ends retriers results k = true) :
    Runs environment (invokeWithin task catchers input (spent retriers results k)).run (before k)
      ((task.invoke input).run.requests environment (before k)
        ++ (task.handover (conclusion retriers catchers (results k))).map .dispatch)
      (conclusion retriers catchers (results k))
      ((task.handover (conclusion retriers catchers (results k))).foldl
        (fun s d => (environment (.dispatch d) s).2) (after k)) := by
  rw [invokeWithin_eq]
  refine Runs.bind ⟨rfl, hgives.invoked k⟩ ?_
  cases hresult : results k with
  | ok output => exact .done _
  | error failure =>
    change Runs environment (answerFailure task catchers input _ failure) _ _ _ _
    rw [answerFailure_of_ends hresult hends, ← List.append_nil (List.map _ _)]
    exact (runs_handOver environment _ _).bind (.done _)

/-- What is asked for in a round that is not the last one: whatever the invocation asks for, and the
pause. -/
def asked (task : Task) (retriers : List RetryPolicy) (input : Json) (environment : Environment σ)
    (results : Nat → Verdict) (before : Nat → σ) (m : Nat) : List Request :=
  (task.invoke input).run.requests environment (before m) ++ [.sleep (pause retriers results m)]

/-- From a round on, the loop goes on as the results say, up to the last one. -/
theorem runs_invokeWithin_spent (catchers : List CatchPolicy)
    (hgives : task.Gives input environment (pause retriers results) results before after)
    (hlast : IsLast retriers results k) {rest : Nat} (hm : m + rest = k) :
    Runs environment (invokeWithin task catchers input (spent retriers results m)).run (before m)
      ((List.range' m rest).flatMap (asked task retriers input environment results before)
        ++ ((task.invoke input).run.requests environment (before k)
          ++ (task.handover (conclusion retriers catchers (results k))).map .dispatch))
      (conclusion retriers catchers (results k))
      ((task.handover (conclusion retriers catchers (results k))).foldl
        (fun s d => (environment (.dispatch d) s).2) (after k)) := by
  -- on the rounds before the last one that are still to come
  induction rest generalizing m with
  | zero =>
    obtain rfl : m = k := hm
    exact runs_invokeWithin_of_ends hgives hlast.1
  | succ rest ih =>
    have hends : ends retriers results m = false := hlast.2 m (by omega)
    obtain ⟨failure, hresult⟩ := exists_failure_of_not_ends hends
    have hanswer : answerFailure task catchers input (spent retriers results m) failure =
        .ask (.sleep (pause retriers results m)) fun _ =>
          (invokeWithin task catchers input (spent retriers results (m + 1))).run := by
      rw [answerFailure, decide_spent_of_not_ends hresult hends]
      rfl
    rw [invokeWithin_eq, List.range'_succ, List.flatMap_cons, asked, List.append_assoc,
      List.append_assoc]
    refine Runs.bind ⟨rfl, hgives.invoked m⟩ ?_
    rw [hresult]
    change Runs environment (answerFailure task catchers input _ failure) _ _ _ _
    rw [hanswer]
    have hpaused : environment (.sleep (pause retriers results m)) (after m) =
        ((), before (m + 1)) := Prod.ext rfl (hgives.paused m)
    exact .ask hpaused (ih (by omega))

end trace

/-! ## The results of a task -/

/-- A pause depends on no later result. -/
theorem pause_congr (retriers : List RetryPolicy) {results others : Nat → Verdict} {m : Nat}
    (h : ∀ i ≤ m, results i = others i) : pause retriers results m = pause retriers others m := by
  have hcount (position : Nat) : count retriers results position (m + 1) =
      count retriers others position (m + 1) := by
    refine List.countP_congr fun i hi => ?_
    rw [h i (Nat.lt_succ_iff.mp (List.mem_range.mp hi))]
  simp only [pause, h m (Nat.le_refl m), hcount]

/-- The results of the first invocations of a task, and the state before the next one. -/
def play (task : Task) (retriers : List RetryPolicy) (input : Json) (environment : Environment σ)
    (s : σ) : Nat → (Nat → Verdict) × σ
  | 0 => (fun _ => .ok .null, s)
  | m + 1 =>
    let (results, before) := play task retriers input environment s m
    let (result, after) := (task.invoke input).run.run environment before
    let results := Function.update results m result
    (results, (environment (.sleep (pause retriers results m)) after).2)

/-- A task under its policies gives some results, whoever answers it. -/
theorem exists_gives (task : Task) (retriers : List RetryPolicy) (input : Json)
    (environment : Environment σ) (s : σ) :
    ∃ results before after, before 0 = s ∧
      task.Gives input environment (pause retriers results) results before after := by
  -- a pause depends on the results so far, and the state of the next invocation on the pause
  let played := play task retriers input environment s
  let invoked (m : Nat) := (task.invoke input).run.run environment (played m).2
  have hplayed {m i : Nat} (hi : i < m) : (played m).1 i = (invoked i).1 := by
    induction m with
    | zero => exact absurd hi (Nat.not_lt_zero i)
    | succ m ih =>
      change Function.update (played m).1 m (invoked m).1 i = _
      by_cases him : i = m
      · rw [him, Function.update_self]
      · rw [Function.update_of_ne him]
        exact ih (by omega)
  refine ⟨fun m => (invoked m).1, fun m => (played m).2, fun m => (invoked m).2, rfl, ?_, ?_⟩
  · intro m
    rfl
  · intro m
    have hpause : pause retriers (played (m + 1)).1 m =
        pause retriers (fun m => (invoked m).1) m :=
      pause_congr retriers fun i hi => hplayed (Nat.lt_succ_of_le hi)
    rw [← hpause]
    rfl

/-- A task in process gives any results whatever. -/
theorem gives_resultsInTurn (results : Nat → Verdict) (pauses : Nat → Duration) (input : Json) :
    Task.inProcess.Gives input (resultsInTurn results) pauses results (fun m => m)
      (fun m => m + 1) where
  invoked _ := rfl
  paused _ := rfl

end Rounds

open Rounds

/-- Whoever answers its requests, a task under its policies is invoked with the same input until the
first result with which the loop ends, and there is such a result. After each result before it there
is a pause, as the first retry policy for that failure says. Only the last result decides what comes
of the loop, and what is handed over. -/
theorem Task.invokeUnder_rounds (task : Task) (retriers : List RetryPolicy)
    (catchers : List CatchPolicy) (input : Json) (environment : Environment σ) :
    (∀ s, ∃ results before after, before 0 = s ∧
      task.Gives input environment (pause retriers results) results before after) ∧
    ∀ results before after,
      task.Gives input environment (pause retriers results) results before after →
      (∃ k, IsLast retriers results k) ∧
      ∀ k, IsLast retriers results k →
        let concluded := conclusion retriers catchers (results k)
        Runs environment (task.invokeUnder retriers catchers input).run (before 0)
          (((List.range k).flatMap fun m =>
              (task.invoke input).run.requests environment (before m)
                ++ [.sleep (pause retriers results m)])
            ++ (task.invoke input).run.requests environment (before k)
            ++ (task.handover concluded).map .dispatch)
          concluded
          ((task.handover concluded).foldl (fun s d => (environment (.dispatch d) s).2)
            (after k)) := by
  refine ⟨exists_gives task retriers input environment, fun results before after hgives => ?_⟩
  refine ⟨exists_isLast retriers results, fun k hlast => ?_⟩
  have hruns := runs_invokeWithin_spent catchers hgives hlast (Nat.zero_add k)
  rw [spent_zero, ← List.range_eq_range', ← List.append_assoc] at hruns
  exact hruns

/-! ### Two policies -/

namespace Rounds

/-- A policy for a busy task, and one for every failure. -/
def hurriedRetriers : List RetryPolicy :=
  [⟨["Busy"], 2, .ofNat 1, .ofNat 2⟩, ⟨["States.ALL"], 1, .ofNat 5, .ofNat 1⟩]

/-- A catch policy for a failure by its message. -/
def hurriedCatchers : List CatchPolicy := [⟨["try later"], "Recover", .identity⟩]

/-- A task that is busy but for its second invocation, which is lost. -/
def busyResults : Nat → Verdict
  | 1 => .error (.raised "Lost" "no answer")
  | _ => .error (.raised "Busy" "try later")

/-- Of `hurriedRetriers` each policy keeps to its own attempts when the task gives `busyResults`. -/
theorem invokeUnder_busyResults :
    (Task.inProcess.invokeUnder hurriedRetriers hurriedCatchers .null).run.requests
        (resultsInTurn busyResults) 0 =
      [.work .null, .sleep (.ofMillis 1000), .work .null, .sleep (.ofMillis 5000), .work .null,
        .sleep (.ofMillis 2000), .work .null, .dispatch ⟨"Recover", .string "try later"⟩] := by
  have hlast : IsLast hurriedRetriers busyResults 3 := ⟨by decide +kernel, by decide +kernel⟩
  have hrounds := Task.inProcess.invokeUnder_rounds hurriedRetriers hurriedCatchers .null
    (resultsInTurn busyResults)
  have hruns := (hrounds.2 busyResults _ _ (gives_resultsInTurn busyResults _ .null)).2 3 hlast
  rw [hruns.requests]
  decide +kernel

end Rounds

end Workflow
