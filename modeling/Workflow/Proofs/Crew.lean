import Mathlib.Data.Fintype.Lattice
import Mathlib.Tactic.Common
import Workflow.Proofs.Activity
import Workflow.Proofs.World

/-!
# Crews: activities side by side

The steps of a fan-out are meant to be run beside each other, by whoever is there, and again if they
have failed. A crew is a number of activities in one world, of each of which only the rest is left.
In which order they go on, which call of the store fails and when a member begins anew is said by a
list of turns, so that a statement about all lists of turns is one about all interleavings.

* **Turns** (`Turn`, `Crew.step`, `Crew.run`): a member goes on by one request, is refused it,
  begins anew; or somebody else makes a call of the store.
* **Who asks for what** (`Crew.asked`, `Crew.dispatchesOf`): the requests that have been answered,
  with their members, and what a member has handed to the scheduler; `Crew.queue_run`.
* **What a turn can do** (`Crew.Step`, `Crew.step_spec`): the few cases, to be split instead of the
  definition.
* **Invariants** (`Crew.run_invariant`): what every turn keeps, every run keeps.
* **Ends** (`Crew.exists_over`): if everybody gets turns again and again, everybody comes to an end.
-/

namespace Workflow

/-- What happens next among activities in one world: the next request of a member is answered; it is
a call of the store, and is refused; a member that is done begins anew; or somebody else makes a
call of the store. -/
inductive Turn (ι : Type) where
  | serve (member : ι)
  | refuse (member : ι) (error : StoreError)
  | retry (member : ι)
  | foreign (call : StoreCall)

/-- Activities in one world, each with what is left of it. -/
structure Crew (ι α : Type) where
  world : World
  left : ι → Activity α

namespace Crew

variable {ι α : Type} [DecidableEq ι]

section steps

variable (tasks : ι → Activity α) (again : α → Bool)

/-- One turn. A member begins anew with its task, and only after a result that is to be followed by
another attempt. Turns that cannot be made change nothing. -/
def step (crew : Crew ι α) : Turn ι → Crew ι α
  | .serve i =>
    match crew.left i with
    | .done _ => crew
    | .ask request resume =>
      ⟨(World.answer request crew.world).2,
        Function.update crew.left i (resume (World.answer request crew.world).1)⟩
  | .refuse i error =>
    match crew.left i with
    | .ask (.store _) resume => ⟨crew.world, Function.update crew.left i (resume (.error error))⟩
    | _ => crew
  | .retry i =>
    match crew.left i with
    | .done result =>
      if again result then ⟨crew.world, Function.update crew.left i (tasks i)⟩ else crew
    | .ask _ _ => crew
  | .foreign call => ⟨(World.answer (.store call) crew.world).2, crew.left⟩

/-- All turns, one after the other. -/
def run (crew : Crew ι α) (turns : List (Turn ι)) : Crew ι α := turns.foldl (step tasks again) crew

/-- The crew at its beginning. -/
def begin (world : World) : Crew ι α := ⟨world, tasks⟩

/-- Without a turn a crew stays as it is. -/
@[simp] theorem run_nil (crew : Crew ι α) : crew.run tasks again [] = crew := rfl

/-- Turns are made up to the last one, and then the last one. -/
theorem run_concat (crew : Crew ι α) (turns : List (Turn ι)) (turn : Turn ι) :
    crew.run tasks again (turns ++ [turn]) =
      (crew.run tasks again turns).step tasks again turn := by
  rw [run, List.foldl_append]
  rfl

/-! ## Who asks for what -/

omit [DecidableEq ι] in
/-- The request that a turn answers, with the member that makes it. -/
def asked? (crew : Crew ι α) : Turn ι → Option (ι × Request)
  | .serve i =>
    match crew.left i with
    | .done _ => none
    | .ask request _ => some (i, request)
  | .refuse _ _ | .retry _ | .foreign _ => none

/-- All requests that turns answer, in order. -/
def asked (crew : Crew ι α) : List (Turn ι) → List (ι × Request)
  | [] => []
  | turn :: rest => (crew.asked? turn).toList ++ (crew.step tasks again turn).asked rest

/-- What a member has handed to the scheduler, of what has been asked for. -/
def dispatchesOf (i : ι) (log : List (ι × Request)) : List Dispatch :=
  log.filterMap fun entry => if entry.1 = i then entry.2.dispatch? else none

/-- A member has handed over something in one part of a log and then something in the other. -/
theorem dispatchesOf_append (i : ι) (log more : List (ι × Request)) :
    dispatchesOf i (log ++ more) = dispatchesOf i log ++ dispatchesOf i more :=
  List.filterMap_append

/-- Of a request of its own a member has handed over what the request hands over. -/
theorem dispatchesOf_self (i : ι) (request : Request) :
    dispatchesOf i [(i, request)] = request.dispatch?.toList := by
  cases hdispatch : request.dispatch? <;> simp [dispatchesOf, hdispatch]

/-- Of a request of another member a member has handed over nothing. -/
theorem dispatchesOf_of_ne {i j : ι} (h : j ≠ i) (request : Request) :
    dispatchesOf j [(i, request)] = [] := by
  simp [dispatchesOf, Ne.symm h]

/-- If nobody else has handed over anything, all has been handed over by one member. -/
theorem dispatchesOf_eq {i : ι} {log : List (ι × Request)}
    (h : ∀ j, j ≠ i → dispatchesOf j log = []) :
    log.filterMap (·.2.dispatch?) = dispatchesOf i log := by
  refine List.filterMap_congr fun entry hentry => ?_
  split
  case isTrue => rfl
  case isFalse hne =>
    simpa using List.filterMap_eq_nil_iff.mp (h entry.1 hne) entry hentry

/-- The last of some turns answers the last request. -/
theorem asked_concat (crew : Crew ι α) (turns : List (Turn ι)) (turn : Turn ι) :
    crew.asked tasks again (turns ++ [turn]) = crew.asked tasks again turns ++
      ((crew.run tasks again turns).asked? turn).toList := by
  induction turns generalizing crew with
  | nil => simp [asked]
  | cons head rest ih =>
    rw [List.cons_append, asked, asked, ih, List.append_assoc]
    rfl

/-! ## What a turn can do -/

/-- What becomes of a crew by a turn. -/
inductive Step (crew : Crew ι α) (turn : Turn ι) : Crew ι α → Prop where
  | idle (hasked : crew.asked? turn = none) : Step crew turn crew
  | served {i : ι} {request : Request} {resume : request.Reply → Activity α}
      (hleft : crew.left i = .ask request resume) (hturn : turn = .serve i) :
      Step crew turn ⟨(World.answer request crew.world).2,
        Function.update crew.left i (resume (World.answer request crew.world).1)⟩
  | refused {i : ι} {call : StoreCall} {resume : Except StoreError call.Reply → Activity α}
      (error : StoreError) (hleft : crew.left i = .ask (.store call) resume)
      (hturn : turn = .refuse i error) :
      Step crew turn ⟨crew.world, Function.update crew.left i (resume (.error error))⟩
  | retried {i : ι} {result : α} (hleft : crew.left i = .done result)
      (hagain : again result = true) (hturn : turn = .retry i) :
      Step crew turn ⟨crew.world, Function.update crew.left i (tasks i)⟩
  | foreign {call : StoreCall} (hturn : turn = .foreign call) :
      Step crew turn ⟨(World.answer (.store call) crew.world).2, crew.left⟩

/-- A turn does to a crew one of the things that `Step` lists. -/
theorem step_spec (crew : Crew ι α) (turn : Turn ι) :
    Step tasks again crew turn (crew.step tasks again turn) := by
  cases turn with
  | serve i =>
    rw [step]
    split
    case h_1 result hleft => exact .idle (by rw [asked?, hleft])
    case h_2 request resume hleft => exact .served hleft rfl
  | refuse i error =>
    rw [step]
    split
    case h_1 call resume hleft => exact .refused error hleft rfl
    case h_2 => exact .idle rfl
  | retry i =>
    rw [step]
    split
    case h_1 result hleft =>
      split
      case isTrue hagain => exact .retried hleft hagain rfl
      case isFalse => exact .idle rfl
    case h_2 => exact .idle rfl
  | foreign call => exact .foreign rfl

variable {tasks again}

omit [DecidableEq ι] in
/-- Serving a member answers the request that it makes next. -/
theorem asked?_serve {crew : Crew ι α} {i : ι} {request : Request}
    {resume : request.Reply → Activity α} (h : crew.left i = .ask request resume) :
    crew.asked? (.serve i) = some (i, request) := by
  rw [asked?, h]

/-- The scheduler has been handed what the members have handed to it, and nothing else. -/
theorem queue_run (crew : Crew ι α) (turns : List (Turn ι)) :
    (crew.run tasks again turns).world.queue =
      crew.world.queue ++ (crew.asked tasks again turns).filterMap (·.2.dispatch?) := by
  induction turns using List.reverseRecOn with
  | nil => exact (List.append_nil _).symm
  | append_singleton turns turn ih =>
    rw [run_concat, asked_concat, List.filterMap_append, ← List.append_assoc, ← ih]
    have hstep := step_spec tasks again (crew.run tasks again turns) turn
    generalize (crew.run tasks again turns).step tasks again turn = next at hstep ⊢
    cases hstep with
    | idle hasked =>
      rw [hasked]
      exact (List.append_nil _).symm
    | @served i request resume hleft hturn =>
      rw [hturn, asked?_serve hleft]
      exact World.queue_answer request _
    | refused error hleft hturn =>
      rw [hturn]
      exact (List.append_nil _).symm
    | retried hleft hagain hturn =>
      rw [hturn]
      exact (List.append_nil _).symm
    | @foreign c hturn =>
      rw [hturn]
      exact World.queue_answer (.store c) _

/-! ## Invariants -/

/-- What holds of a crew and is kept by every turn holds of it after all turns. -/
theorem run_invariant {P : Crew ι α → Prop} {crew : Crew ι α} {turns : List (Turn ι)}
    (hbegin : P crew)
    (hstep : ∀ crew, P crew → ∀ turn ∈ turns, P (crew.step tasks again turn)) :
    P (crew.run tasks again turns) := by
  induction turns generalizing crew with
  | nil => exact hbegin
  | cons turn rest ih =>
    rw [run, List.foldl_cons]
    refine ih (hstep crew hbegin turn List.mem_cons_self) fun crew h turn hmem => ?_
    exact hstep crew h turn (List.mem_cons_of_mem _ hmem)

/-! ## Ends -/

section ends

variable {crew : Crew ι α} {i j : ι}

/-- A turn of one member leaves another where it is. -/
theorem left_step_serve_of_ne (h : j ≠ i) :
    (crew.step tasks again (.serve i)).left j = crew.left j := by
  rw [step]
  split
  · rfl
  · exact Function.update_of_ne h _ _

/-- A member that is served goes on by one request. -/
theorem left_step_serve {request : Request} {resume : request.Reply → Activity α}
    (h : crew.left i = .ask request resume) :
    (crew.step tasks again (.serve i)).left i =
      resume (World.answer request crew.world).1 := by
  rw [step, h]
  exact Function.update_self _ _ _

/-- A member that is done is not moved by its turn. -/
theorem left_step_serve_of_done {result : α} (h : crew.left i = .done result) :
    (crew.step tasks again (.serve j)).left i = .done result := by
  by_cases hij : i = j
  · subst hij
    rw [step, h]
    exact h
  · rw [left_step_serve_of_ne hij, h]

variable (tasks again) in
/-- The crew after so many turns of a schedule that never ends. -/
def after (crew : Crew ι α) (schedule : ℕ → ι) (n : ℕ) : Crew ι α :=
  crew.run tasks again ((List.range n).map fun t => .serve (schedule t))

/-- After one turn more of a schedule, a crew has made the turn that is due. -/
theorem after_succ (crew : Crew ι α) (schedule : ℕ → ι) (n : ℕ) :
    crew.after tasks again schedule (n + 1) =
      (crew.after tasks again schedule n).step tasks again (.serve (schedule n)) := by
  rw [after, List.range_succ, List.map_append]
  exact run_concat tasks again crew _ _

/-- A member that is done stays done through a schedule. -/
theorem left_after_of_done {schedule : ℕ → ι} {m n : ℕ} (hmn : m ≤ n) {result : α}
    (h : (crew.after tasks again schedule m).left i = .done result) :
    (crew.after tasks again schedule n).left i = .done result := by
  induction n, hmn using Nat.le_induction with
  | base => exact h
  | succ n _ ih =>
    rw [after_succ]
    exact left_step_serve_of_done ih

/-- A member that gets a turn later on is served at some time. -/
theorem exists_left_after {schedule : ℕ → ι} {request : Request}
    {resume : request.Reply → Activity α} {m n : ℕ} (hmn : m ≤ n) (hturn : schedule n = i)
    (h : (crew.after tasks again schedule m).left i = .ask request resume) :
    ∃ later reply, (crew.after tasks again schedule later).left i = resume reply := by
  induction hmn using Nat.decreasingInduction with
  | self =>
    refine ⟨n + 1, (World.answer request (crew.after tasks again schedule n).world).1, ?_⟩
    rw [after_succ, hturn, left_step_serve h]
  | of_succ m _ ih =>
    by_cases hnow : schedule m = i
    · refine ⟨m + 1, (World.answer request (crew.after tasks again schedule m).world).1, ?_⟩
      rw [after_succ, hnow, left_step_serve h]
    · refine ih ?_
      rw [after_succ, left_step_serve_of_ne (Ne.symm hnow), h]

/-- If everybody gets turns again and again, everybody comes to an end. -/
theorem exists_over [Fintype ι] (crew : Crew ι α) {schedule : ℕ → ι}
    (hfair : ∀ i m, ∃ n, m ≤ n ∧ schedule n = i) :
    ∃ n, ∀ i, ∃ result, (crew.after tasks again schedule n).left i = .done result := by
  have hmember (i : ι) :
      ∃ n result, (crew.after tasks again schedule n).left i = .done result := by
    -- The induction is on what the member has left to do.
    suffices h : ∀ (a : Activity α) (m : ℕ), (crew.after tasks again schedule m).left i = a →
        ∃ n result, (crew.after tasks again schedule n).left i = .done result from
      h _ 0 rfl
    intro a
    induction a with
    | done result => exact fun m hm => ⟨m, result, hm⟩
    | ask request resume ih =>
      intro m hm
      obtain ⟨n, hmn, hturn⟩ := hfair i m
      obtain ⟨later, reply, hlater⟩ := exists_left_after hmn hturn hm
      exact ih reply later hlater
  choose times results htimes using hmember
  refine ⟨Finset.univ.sup times, fun i => ⟨results i, ?_⟩⟩
  exact left_after_of_done (Finset.le_sup (Finset.mem_univ i)) (htimes i)

end ends

end steps

end Crew

end Workflow
