import Mathlib.Algebra.GroupWithZero.Nat
import Workflow.Proofs.Task.Rounds

/-!
# The budget of a task

A task under its policies may be invoked once, and once more for every attempt that one of its retry
policies has. The loop has no counter for this: it may turn from one policy to another with every
failure, and each policy keeps an account of its own. What is bounded is the sum of the accounts.

* **Accounts** (`allowance`, `RetryBudget.IsKept`): the attempts of all policies, and that none has
  been used more often than it has attempts. Every granted retry keeps the accounts
  (`RetryBudget.IsKept.of_again`).
* **Rounds** (`Rounds.left_spent`, `Rounds.isKept_spent`, `Rounds.IsLast.le_allowance`): a round
  that is not the last one uses up one attempt, so that there are no more rounds than attempts, but
  for the last one.
* **Invocations** (`Rounds.invocations_of_isLast`): in process there is one for each round.
* **Using up the budget** (`turns`, `Rounds.inTurn`, `Rounds.isLast_inTurn`): failures that go
  through the policies in order, each policy the first as often as it has attempts.
* **The bound** (`Task.invokeUnder_within_budget`): it holds in every run, and is reached.
-/

namespace Workflow

open Activity Rounds

variable {σ : Type}

/-! ## Accounts -/

/-- How many retries policies grant in all. -/
def allowance (retriers : List RetryPolicy) : Nat := (retriers.map (·.maxAttempts)).sum

namespace RetryBudget

/-- Before any failure all retries are left. -/
theorem left_fresh (retriers : List RetryPolicy) : (fresh retriers).left = allowance retriers := by
  induction retriers with
  | nil => rfl
  | cons policy rest ih =>
    rw [allowance, List.map_cons, List.sum_cons, ← allowance, ← ih]
    rfl

/-- No policy has been used more often than it has attempts. -/
def IsKept (budget : RetryBudget) : Prop := ∀ entry ∈ budget, entry.2 ≤ entry.1.maxAttempts

/-- A fresh budget is kept. -/
theorem isKept_fresh (retriers : List RetryPolicy) : (fresh retriers).IsKept := by
  intro entry hentry
  obtain ⟨policy, -, rfl⟩ := List.mem_map.mp hentry
  exact Nat.zero_le _

/-- A policy grants a retry only if it has an attempt left. -/
theorem IsKept.of_again {budget next : RetryBudget} {failure : TaskFailure} {delay : Duration}
    (h : budget.IsKept) (hagain : budget.decide failure = .again delay next) : next.IsKept := by
  induction budget generalizing next with
  | nil => cases hagain
  | cons head rest ih =>
    obtain ⟨policy, used⟩ := head
    obtain ⟨hhead, hrest⟩ := List.forall_mem_cons.mp h
    rw [decide] at hagain
    split at hagain
    case isTrue =>
      split at hagain
      case isTrue => cases hagain
      case isFalse hleft =>
        cases hagain
        exact List.forall_mem_cons.mpr ⟨Nat.not_le.mp hleft, hrest⟩
    case isFalse =>
      split at hagain
      case h_1 delay' next' hdecide =>
        cases hagain
        exact List.forall_mem_cons.mpr ⟨hhead, ih hrest hdecide⟩
      case h_2 hnone => exact absurd hagain (hnone _ _)

end RetryBudget

/-! ## Rounds -/

namespace Rounds

section rounds

variable {retriers : List RetryPolicy} {results : Nat → Verdict} {k m : Nat}

/-- A round with which the loop does not end takes one retry from the budget. -/
theorem exists_decide_spent (hends : ends retriers results m = false) :
    ∃ failure, (spent retriers results m).decide failure =
      .again (pause retriers results m) (spent retriers results (m + 1)) := by
  obtain ⟨failure, hresult⟩ := exists_failure_of_not_ends hends
  exact ⟨failure, decide_spent_of_not_ends hresult hends⟩

/-- After some rounds there is one retry less for each of them. -/
theorem left_spent (h : ∀ i < m, ends retriers results i = false) :
    (spent retriers results m).left + m = allowance retriers := by
  induction m with
  | zero => rw [spent_zero, RetryBudget.left_fresh, Nat.add_zero]
  | succ m ih =>
    obtain ⟨failure, hdecide⟩ := exists_decide_spent (h m m.lt_succ_self)
    have hstep := RetryBudget.left_of_again hdecide
    have hbefore := ih fun i hi => h i (Nat.lt_succ_of_lt hi)
    omega

/-- At every round no policy has been used more often than it has attempts. -/
theorem isKept_spent (h : ∀ i < m, ends retriers results i = false) :
    (spent retriers results m).IsKept := by
  induction m with
  | zero =>
    rw [spent_zero]
    exact RetryBudget.isKept_fresh retriers
  | succ m ih =>
    obtain ⟨failure, hdecide⟩ := exists_decide_spent (h m m.lt_succ_self)
    exact (ih fun i hi => h i (Nat.lt_succ_of_lt hi)).of_again hdecide

/-- There are no more rounds before the last one than the policies grant retries. -/
theorem IsLast.le_allowance (h : IsLast retriers results k) : k ≤ allowance retriers := by
  have hleft := left_spent h.2
  omega

/-! ## Invocations -/

/-- In process, the task has been invoked once for every round, the last one included. -/
theorem invocations_of_isLast (catchers : List CatchPolicy) (input : Json)
    (h : IsLast retriers results k) :
    ((Task.inProcess.invokeUnder retriers catchers input).run.run (resultsInTurn results) 0).2 =
      k + 1 := by
  have hruns := runs_invokeWithin_spent catchers
    (gives_resultsInTurn results (pause retriers results) input) h (Nat.zero_add k)
  rw [spent_zero] at hruns
  have hdispatch (dispatches : List Dispatch) (count : Nat) :
      dispatches.foldl (fun s d => (resultsInTurn results (.dispatch d) s).2) count = count :=
    List.foldl_fixed' (fun _ => rfl) dispatches
  exact (congrArg Prod.snd hruns.run).trans (hdispatch _ _)

end rounds

end Rounds

/-! ## Using up the budget -/

/-- The positions of the policies in order, each as often as the policy has attempts. -/
def turns (retriers : List RetryPolicy) : List Nat :=
  retriers.zipIdx.flatMap fun entry => List.replicate entry.1.maxAttempts entry.2

/-- There are as many turns as the policies grant retries. -/
theorem length_turns (retriers : List RetryPolicy) :
    (turns retriers).length = allowance retriers := by
  have hlengths : (retriers.zipIdx.map fun entry =>
      (List.replicate entry.1.maxAttempts entry.2).length) =
        (retriers.zipIdx.map (·.1)).map (·.maxAttempts) := by
    simp only [List.length_replicate, List.map_map]
    rfl
  rw [turns, List.length_flatMap, hlengths, List.zipIdx_map_fst, allowance]

/-- A policy has as many turns as it has attempts, as each stands at a position of its own. -/
theorem count_turns {retriers : List RetryPolicy} {policy : RetryPolicy} {position : Nat}
    (h : (policy, position) ∈ retriers.zipIdx) :
    (turns retriers).count position = policy.maxAttempts := by
  have hnodup := nodup_positions retriers
  rw [turns]
  generalize retriers.zipIdx = entries at h hnodup
  induction entries with
  | nil => cases h
  | cons head rest ih =>
    obtain ⟨hhead, hrest⟩ := List.nodup_cons.mp hnodup
    have hmem {entry : RetryPolicy × Nat} (hentry : entry ∈ rest) : head.2 ≠ entry.2 := by
      intro heq
      exact hhead (List.mem_map.mpr ⟨entry, hentry, heq.symm⟩)
    rw [List.flatMap_cons, List.count_append]
    rcases List.mem_cons.mp h with rfl | h
    · have hnone : position ∉
          rest.flatMap fun entry => List.replicate entry.1.maxAttempts entry.2 := by
        intro hturn
        obtain ⟨entry, hentry, hturn⟩ := List.mem_flatMap.mp hturn
        exact hmem hentry (List.mem_replicate.mp hturn).2
      rw [List.count_replicate_self, List.count_eq_zero.mpr hnone, Nat.add_zero]
    · have hne : (head.2 == position) = false := beq_false_of_ne (hmem h)
      rw [ih h hrest, List.count_replicate, hne, if_neg Bool.false_ne_true, Nat.zero_add]

/-- A position that has a turn is that of a policy. -/
theorem lt_length_of_mem_turns {retriers : List RetryPolicy} {position : Nat}
    (h : position ∈ turns retriers) : position < retriers.length := by
  obtain ⟨⟨policy, index⟩, hentry, hturn⟩ := List.mem_flatMap.mp h
  obtain rfl := (List.mem_replicate.mp hturn).2
  simpa using List.snd_lt_add_of_mem_zipIdx hentry

/-- Every policy is the first for the failure at its position. -/
def IsFirstEach (retriers : List RetryPolicy) (failureFor : Nat → TaskFailure) : Prop :=
  ∀ position < retriers.length, ∃ policy,
    firstRetrier retriers (failureFor position) = some (policy, position)

namespace Rounds

/-- Failures in the order of the turns. What comes after the last turn does not matter. -/
def inTurn (retriers : List RetryPolicy) (failureFor : Nat → TaskFailure) (m : Nat) : TaskFailure :=
  failureFor ((turns retriers)[m]?.getD 0)

section usedUp

variable {retriers : List RetryPolicy} {failureFor : Nat → TaskFailure} {m : Nat}

/-- In a turn the policy whose turn it is comes first. -/
theorem firstRetrier_inTurn (h : IsFirstEach retriers failureFor)
    (hm : m < (turns retriers).length) :
    ∃ policy, firstRetrier retriers (inTurn retriers failureFor m) =
      some (policy, (turns retriers)[m]) := by
  rw [inTurn, List.getElem?_eq_getElem hm, Option.getD_some]
  exact h _ (lt_length_of_mem_turns (List.getElem_mem hm))

/-- After some of the turns, every policy has been the first as often as it has had turns. -/
theorem count_inTurn (h : IsFirstEach retriers failureFor) (hm : m ≤ (turns retriers).length)
    (position : Nat) :
    count retriers (fun i => .error (inTurn retriers failureFor i)) position m =
      ((turns retriers).take m).count position := by
  induction m with
  | zero => rfl
  | succ m ih =>
    obtain ⟨policy, hfirst⟩ := firstRetrier_inTurn h hm
    have hfor : isFor retriers position (.error (inTurn retriers failureFor m)) =
        ((turns retriers)[m] == position) := by
      rw [isFor, hfirst]
      rfl
    rw [count, List.range_succ, List.countP_append, List.countP_singleton, ← count,
      ih (Nat.le_of_succ_le hm), hfor, List.take_succ_eq_append_getElem hm, List.count_append,
      List.count_singleton]

/-- A policy has an attempt left in each of its turns. -/
theorem not_ends_inTurn (h : IsFirstEach retriers failureFor) (hm : m < (turns retriers).length) :
    ends retriers (fun i => .error (inTurn retriers failureFor i)) m = false := by
  obtain ⟨policy, hfirst⟩ := firstRetrier_inTurn h hm
  have hattempts := count_turns (List.mem_of_find?_eq_some hfirst)
  have hturns : ((turns retriers).take (m + 1)).count (turns retriers)[m] ≤
      (turns retriers).count (turns retriers)[m] :=
    (List.take_sublist _ _).count_le _
  rw [List.take_succ_eq_append_getElem hm, List.count_append, List.count_singleton_self] at hturns
  rw [← count_inTurn h (Nat.le_of_lt hm)] at hturns
  simp only [ends, hfirst, decide_eq_false_iff_not]
  omega

/-- With the failures of the turns the loop ends when the turns are over. -/
theorem isLast_inTurn (h : IsFirstEach retriers failureFor) :
    IsLast retriers (fun i => .error (inTurn retriers failureFor i)) (allowance retriers) := by
  obtain ⟨k, hlast⟩ := exists_isLast retriers fun i => .error (inTurn retriers failureFor i)
  have hle := hlast.le_allowance
  have hge : allowance retriers ≤ k := by
    by_contra hlt
    have hends := not_ends_inTurn h (m := k) (by rw [length_turns]; omega)
    rw [hlast.1] at hends
    cases hends
  obtain rfl : k = allowance retriers := by omega
  exact hlast

end usedUp

end Rounds

/-- Some failure has the policy at a position as its first retry policy. -/
def CanBeFirst (retriers : List RetryPolicy) (position : Nat) : Prop :=
  ∃ failure policy, firstRetrier retriers failure = some (policy, position)

/-- If every policy can be the first, there is a failure for each. -/
theorem exists_isFirstEach {retriers : List RetryPolicy}
    (h : ∀ position < retriers.length, CanBeFirst retriers position) :
    ∃ failureFor, IsFirstEach retriers failureFor := by
  classical
  refine ⟨fun position => if hposition : position < retriers.length
    then (h position hposition).choose else .transport .closedEarly, fun position hposition => ?_⟩
  simp only [dif_pos hposition]
  exact (h position hposition).choose_spec

/-! ## The bound -/

/-- A task under its policies is invoked once, and again at most as often as its retry policies have
attempts in all, whoever answers it; and at every round none of them has been used more often than
it has attempts. Whatever results a task in process gives one after the other, the loop stops within
this number of invocations. If every policy can be the first for some failure, there are failures
with which it does not stop before. -/
theorem Task.invokeUnder_within_budget (retriers : List RetryPolicy) (catchers : List CatchPolicy)
    (input : Json) :
    (∀ (σ : Type) (task : Task) (environment : Environment σ) results before after,
      task.Gives input environment (pause retriers results) results before after →
      ∃ k ≤ allowance retriers, ∃ handed : List Dispatch,
        (task.invokeUnder retriers catchers input).run.requests environment (before 0) =
          (List.range k).flatMap (fun m =>
              (task.invoke input).run.requests environment (before m)
                ++ [.sleep (pause retriers results m)])
            ++ (task.invoke input).run.requests environment (before k)
            ++ handed.map .dispatch ∧
        ∀ m ≤ k, (spent retriers results m).IsKept ∧
          (task.invokeUnder retriers catchers input).run.run environment (before 0) =
            (invokeWithin task catchers input (spent retriers results m)).run.run environment
              (before m)) ∧
    (∀ results : Nat → Verdict,
      ((Task.inProcess.invokeUnder retriers catchers input).run.run (resultsInTurn results) 0).2 ≤
        1 + allowance retriers) ∧
    ((∀ position < retriers.length, CanBeFirst retriers position) →
      ∃ failures : Nat → TaskFailure,
        ((Task.inProcess.invokeUnder retriers catchers input).run.run
          (resultsInTurn fun m => .error (failures m)) 0).2 = 1 + allowance retriers) := by
  refine ⟨?rounds, ?bound, ?attained⟩
  case rounds =>
    intro σ task environment results before after hgives
    obtain ⟨k, hlast⟩ := exists_isLast retriers results
    have hwhole := runs_invokeWithin_spent catchers hgives hlast (Nat.zero_add k)
    rw [spent_zero, ← List.range_eq_range', ← List.append_assoc] at hwhole
    refine ⟨k, hlast.le_allowance, _, hwhole.requests, fun m hm => ⟨?_, ?_⟩⟩
    · exact isKept_spent fun i hi => hlast.2 i (Nat.lt_of_lt_of_le hi hm)
    · have hrest := runs_invokeWithin_spent catchers hgives hlast (Nat.add_sub_cancel' hm)
      exact hwhole.run.trans hrest.run.symm
  case bound =>
    intro results
    obtain ⟨k, hlast⟩ := exists_isLast retriers results
    have hle := hlast.le_allowance
    rw [invocations_of_isLast catchers input hlast]
    omega
  case attained =>
    intro hfirst
    obtain ⟨failureFor, heach⟩ := exists_isFirstEach hfirst
    refine ⟨inTurn retriers failureFor, ?_⟩
    rw [invocations_of_isLast catchers input (isLast_inTurn heach), Nat.add_comm]

/-- Two policies with three attempts between them allow four invocations, also if the task turns
from one to the other and back. -/
theorem invokeUnder_hurriedRetriers_within_budget :
    (∀ position < hurriedRetriers.length, CanBeFirst hurriedRetriers position) ∧
    (∃ k ≤ 3, ∀ m ≤ k, (spent hurriedRetriers busyResults m).IsKept) ∧
    ((Task.inProcess.invokeUnder hurriedRetriers hurriedCatchers .null).run.run
      (resultsInTurn busyResults) 0).2 ≤ 4 ∧
    ∃ failures : Nat → TaskFailure,
      ((Task.inProcess.invokeUnder hurriedRetriers hurriedCatchers .null).run.run
        (resultsInTurn fun m => .error (failures m)) 0).2 = 4 := by
  have hfirst : ∀ position < hurriedRetriers.length, CanBeFirst hurriedRetriers position := by
    intro position hposition
    match position, hposition with
    | 0, _ => exact ⟨.raised "Busy" "try later", _, rfl⟩
    | 1, _ => exact ⟨.raised "Lost" "no answer", _, rfl⟩
  obtain ⟨hrounds, hbound, hattained⟩ :=
    Task.invokeUnder_within_budget hurriedRetriers hurriedCatchers .null
  obtain ⟨k, hk, _, _, hkept⟩ := hrounds _ _ _ _ _ _ (gives_resultsInTurn busyResults _ .null)
  exact ⟨hfirst, ⟨k, hk, fun m hm => (hkept m hm).1⟩, hbound busyResults, hattained hfirst⟩

end Workflow
