import Mathlib.Tactic.Common
import Workflow.Proofs.FanOut.Keys
import Workflow.Proofs.State.Definition
import Workflow.Proofs.World

/-!
# A fan-out that has been started

Before the first branch is handed to the scheduler, all that the branches and the join need is in
the store.

* **Definitions** (`Definition.branches_of_ofJson`): a Parallel state that has been accepted has
  branches, and no more than a word can count.
* **The world after the start** (`FanOut.Started`): what stands at the places of the fan-out, and
  that nothing else has changed.
* **The start** (`FanOut.started_of_start`, `FanOut.start_succeeds`): a start that has succeeded has
  led there, and in a world without faults it succeeds.
-/

namespace Workflow

/-! ## Definitions -/

/-- The number of branches that is declared fits into a word. -/
theorem StateBody.branchCount_lt {v : Json} {b : StateBody} (h : ofJson? v = some b) {n : Nat}
    (hn : b.branchCount = some n) : n < Word.count64 := by
  unfold ofJson? at h
  obtain ⟨fields, -, h⟩ := Option.bind_eq_some_iff.mp h
  -- Nineteen fields are read before the number of branches.
  iterate 19 obtain ⟨_, -, h⟩ := Option.bind_eq_some_iff.mp h
  obtain ⟨count, hcount, h⟩ := Option.bind_eq_some_iff.mp h
  obtain ⟨_, -, h⟩ := Option.bind_eq_some_iff.mp h
  cases h
  obtain rfl : count = some n := hn
  obtain ⟨x, -, hx⟩ := Json.optional_eq_some hcount
  exact Json.lt_of_natBelow? hx

namespace Definition

/-- A Parallel state that passes its check declares how many branches it has. -/
theorem branches_of_checkBranches {d : Definition} (h : d.checkBranches = .ok ())
    (hkind : d.kind = .parallel) :
    d.body.branchCount = some d.body.branches.length ∧ 0 < d.body.branches.length := by
  rw [checkBranches, if_neg (fun hne => hne hkind)] at h
  split at h
  case h_1 => cases h
  case h_2 declared hdeclared =>
    split at h
    case isTrue => cases h
    case isFalse hcount =>
      have hcount : declared = d.body.branches.length := not_not.mp hcount
      split at h
      case isTrue => cases h
      case isFalse hzero =>
        rw [hdeclared, hcount]
        exact ⟨rfl, by omega⟩

/-- A Parallel state that has been accepted has at least one branch, and no more than a word can
count. -/
theorem branches_of_ofJson {typeName name : String} {document : Json} {d : Definition}
    (h : ofJson typeName name document = .ok d) (hkind : d.kind = .parallel) :
    0 < d.body.branches.length ∧ d.body.branches.length < Word.count64 := by
  rcases exists_of_ofJson h with ⟨-, rfl⟩ | ⟨-, kind, body, -, hbody, -, rfl, hbranches, -⟩
  · cases hkind
  · obtain ⟨hcount, hpos⟩ := branches_of_checkBranches hbranches hkind
    exact ⟨hpos, StateBody.branchCount_lt hbody hcount⟩

end Definition

namespace FanOut

/-! ## The world after the start -/

/-- What the scheduler is handed for branches. -/
def handed (input : Json) (branches : List BranchDefinition) : List Dispatch :=
  branches.map fun branch => ⟨branch.startAt, input⟩

/-- The world after the start of a fan-out, compared to the world before. -/
structure Started (run : Run) (input : Json) (branches : List BranchDefinition)
    (before after : World) : Prop where
  counter : after.store.content? (.counter run.keys.counter) = some 0
  trigger : after.store.content? (.trigger run.keys.trigger) = some (.make run branches.length)
  metadata : after.store.content? (.value run.keys.metadata) = some run.metadata.toJson
  set : after.store.content? (.set run.keys.outputSet) = some .empty
  spared : ∀ place, place ∉ run.keys.places branches.length →
    after.store.content? place = before.store.content? place
  queue : after.queue = before.queue ++ handed input branches
  fired : after.fired = before.fired
  firesTriggers : after.firesTriggers = before.firesTriggers
  faults : before.faults = [] → after.faults = []

/-! ## The start -/

/-- Every branch is handed to the scheduler, in order. -/
theorem startBranches_eq (input : Json) (branches : List BranchDefinition) :
    startBranches input branches = handAll (handed input branches) := by
  induction branches with
  | nil => rfl
  | cons branch rest ih =>
    rw [startBranches, ih]
    rfl

/-- A start that has succeeded has put everything into the store. -/
theorem started_of_start {d : Definition} {input : Json} {run : Run} {w w' : World}
    (h : w.perform (start d input run).run = (.ok (), w')) :
    Started run input d.body.branches w w' := by
  obtain ⟨-, v₁, -, h₁, h⟩ := run_call_bind_eq_ok h
  obtain ⟨-, v₂, -, h₂, h⟩ := run_call_bind_eq_ok h
  obtain ⟨-, v₃, -, h₃, h⟩ := run_call_bind_eq_ok h
  obtain ⟨-, v₄, -, h₄, h⟩ := run_call_bind_eq_ok h
  rw [Activity.run_liftM, startBranches_eq, run_handAll] at h
  cases h
  constructor
  case counter =>
    change v₄.store.content? _ = _
    rw [h₄.content?_of_ne (by simp [StoreCall.place?]),
      h₃.content?_of_ne (by simp [StoreCall.place?]),
      h₂.content?_of_ne (by simp [StoreCall.place?]), h₁.store,
      Store.content?_perform_createCounter]
  case trigger =>
    change v₄.store.content? _ = _
    rw [h₄.content?_of_ne (by simp [StoreCall.place?]),
      h₃.content?_of_ne (by simp [StoreCall.place?]), h₂.store,
      Store.content?_perform_putTrigger]
  case metadata =>
    change v₄.store.content? _ = _
    rw [h₄.content?_of_ne (by simp [StoreCall.place?]), h₃.store, Store.content?_perform_put]
  case set =>
    change v₄.store.content? _ = _
    rw [h₄.store, Store.content?_perform_createSet]
  case spared =>
    intro place hnot
    simp only [FanOutKeys.places, FanOutKeys.branchPlaces, List.mem_cons, not_or] at hnot
    obtain ⟨htrigger, hmetadata, hcounter, hset, -⟩ := hnot
    change v₄.store.content? _ = _
    rw [h₄.content?_of_ne, h₃.content?_of_ne, h₂.content?_of_ne, h₁.content?_of_ne]
    all_goals
      rintro ⟨⟩
      contradiction
  case queue =>
    change v₄.queue ++ _ = _
    rw [h₄.queue, h₃.queue, h₂.queue, h₁.queue]
  case fired =>
    change v₄.fired = _
    rw [h₄.fired_of_ne_increment (by simp), h₃.fired_of_ne_increment (by simp),
      h₂.fired_of_ne_increment (by simp), h₁.fired_of_ne_increment (by simp)]
  case firesTriggers =>
    exact h₄.firesTriggers.trans
      (h₃.firesTriggers.trans (h₂.firesTriggers.trans h₁.firesTriggers))
  case faults =>
    exact fun hw => h₄.faults (h₃.faults (h₂.faults (h₁.faults hw)))

/-- In a world without faults a fan-out can be started. -/
theorem start_succeeds {w : World} (hw : w.faults = []) (d : Definition) (input : Json)
    (run : Run) : ∃ w', w.perform (start d input run).run = (.ok (), w') := by
  unfold World.perform start
  apply Exists.intro
  refine Eq.trans (run_call_bind (by exact hw) rfl) ?_
  refine Eq.trans (run_call_bind (by exact hw) rfl) ?_
  refine Eq.trans (run_call_bind (by exact hw) rfl) ?_
  refine Eq.trans (run_call_bind (by exact hw) rfl) ?_
  exact Activity.run_liftM World.answer _ _

end FanOut

end Workflow
