import Workflow.Proofs.FanOut.Gathering
import Workflow.Proofs.FanOut.Join

/-!
# Fan-out and join agree

The trigger that a fan-out registers fires when the last of its branches has left its output, and
not before; and the join that it leads to gives the outputs in the order of the branches. It does
not matter in which order the steps of the branches are made, which of them fail on the way, or what
else happens in the store.

* **Branches** (`BranchEnds`, `BranchEnds.tasks_eq`): the states that end the branches of a fan-out,
  and what they do.
* **From the start to the join** (`FanOut.Started.gathered`, `Gathering.Recorded.complete`): after
  the start the invariant holds of the branches, and when all of them are counted, the fan-out is
  complete.
* **Agreement** (`FanOut.branches_emit_trigger_once`).
-/

namespace Workflow

/-! ## Branches -/

/-- The states that end the branches of a Parallel state. They know their branch; of a run each of
them sees the same, except for a topic and an endpoint of its own. -/
structure BranchEnds (d : Definition) where
  ends : Fin d.body.branches.length → Definition
  lineage : ∀ i, (ends i).body.lineage = some ⟨d.name, i + 1⟩
  topics : Fin d.body.branches.length → String
  endpoints : Fin d.body.branches.length → Option String

namespace FanOut

variable {d : Definition} {run : Run}

/-- The run in which a fan-out is entered finds the record of it. -/
theorem fanOut?_enter (d : Definition) (run : Run) :
    (enter d run).metadata.fanOut? d.name (enter d run).executionId =
      some (.make (enter d run) d.body.branches.length) :=
  Metadata.fanOut?_setFanOut run.metadata d.name run.executionId _

/-- The metadata of a run stay sound when a fan-out is entered into them. -/
theorem sound_enter {typeName name : String} {document : Json}
    (hd : Definition.ofJson typeName name document = .ok d) (hkind : d.kind = .parallel)
    (hrun : run.metadata.Sound) : (enter d run).metadata.Sound :=
  hrun.setFanOut d.name run.executionId
    (FanOutRecord.inRange_make run (Definition.branches_of_ofJson hd hkind).2)

/-- A branch that finds the record of its fan-out leaves its output at the place that the record has
for it. -/
theorem branchPlace_of_found {state : Definition} {name : String} {seen : Run} {n : Nat} (i : Fin n)
    (hlineage : state.body.lineage = some ⟨name, i + 1⟩)
    (hfound : seen.metadata.fanOut? name seen.executionId = some (.make run n)) :
    branchPlace state seen = .ok (.make run n, run.keys.branchOutput (i + 1)) := by
  have houtput : (FanOutRecord.make run n).branchOutput? (i + 1) =
      some (run.keys.branchOutput (i + 1)) := by
    simp [FanOutRecord.branchOutput?, FanOutRecord.make]
  simp only [branchPlace, hlineage, hfound, houtput]

end FanOut

namespace BranchEnds

variable {d : Definition} (branches : BranchEnds d)

/-- A run as the last state of a branch sees it. -/
def seen (run : Run) (i : Fin d.body.branches.length) : Run :=
  { run with topic := branches.topics i, endpoint := branches.endpoints i }

/-- What the branches do with their outputs in a run. -/
def tasks (run : Run) (outputs : Fin d.body.branches.length → Json)
    (i : Fin d.body.branches.length) : Activity (Except FanOutError Int) :=
  (FanOut.recordBranch (branches.ends i) (outputs i) (branches.seen run i)).run

variable (run : Run)

/-- Every branch leaves its output at the place that the record of the fan-out has for it. -/
theorem branchPlace_eq (i : Fin d.body.branches.length) :
    FanOut.branchPlace (branches.ends i) (branches.seen (FanOut.enter d run) i) =
      .ok (.make run d.body.branches.length, run.keys.branchOutput (i + 1)) :=
  FanOut.branchPlace_of_found i (branches.lineage i) (FanOut.fanOut?_enter d run)

/-- A branch puts its output, enters the name of it and counts itself. -/
theorem tasks_eq (outputs : Fin d.body.branches.length → Json) (i : Fin d.body.branches.length) :
    branches.tasks (FanOut.enter d run) outputs i =
      BranchStage.ready.left run.keys (run.keys.branchOutput (i + 1)) (outputs i) := by
  rw [tasks, FanOut.recordBranch, branches.branchPlace_eq]
  rfl

end BranchEnds

/-! ## From the start to the join -/

/-- A branch has succeeded if it has counted itself. -/
theorem BranchStage.hasSucceeded_left (stage : BranchStage) (keys : FanOutKeys) (key : String)
    (output : Json) : (stage.left keys key output).hasSucceeded = decide (3 ≤ stage.progress) := by
  cases stage with
  | ready => rw [left_ready]; rfl
  | put => rw [left_put]; rfl
  | entered => rw [left_entered]; rfl
  | counted count => rfl
  | failed error => rfl

namespace FanOut

/-- A fan-out that has been started is ready for its branches. -/
def Started.gathering {run : Run} {input : Json} {branches : List BranchDefinition}
    {before after : World} (h : Started run input branches before after)
    (hpos : 0 < branches.length) (hfires : before.firesTriggers = true)
    (outputs : Fin branches.length → Json) (owned : Place → Prop)
    (howns : ∀ place ∈ run.keys.places branches.length, owned place) :
    Gathering branches.length where
  keys := run.keys
  trigger := .make run branches.length
  outputs := outputs
  base := after
  owned := owned
  nonempty := hpos
  thresholds := rfl
  firesTriggers := h.firesTriggers.trans hfires
  registered := h.trigger
  unset := h.counter
  owns := howns

end FanOut

/-- What a counter has fired from one world to a later one. -/
def World.emittedSince (base w : World) (counter : String) : List FiredTrigger :=
  (w.fired.drop base.fired.length).filter fun f => f.counter == counter

/-- What a counter has fired since a world is what it has in the firings that have been added to the
list. -/
theorem World.emittedSince_of_append {base w : World} {emitted : List FiredTrigger}
    (h : w.fired = base.fired ++ emitted) (counter : String) :
    base.emittedSince w counter = emitted.filter fun f => f.counter == counter := by
  rw [emittedSince, h, List.drop_left]

namespace Gathering

variable {n : Nat} {g : Gathering n} {world : World} {progress : Fin n → Nat}

/-- What the counter of a fan-out has fired since its start: the trigger, once all branches are
counted. -/
theorem Recorded.emittedSince_eq (h : g.Recorded world progress) :
    g.base.emittedSince world g.keys.counter =
      if (counted progress).card = n then [g.final] else [] := by
  obtain ⟨emitted, hfired, -, hemitted⟩ := h.fired
  rw [World.emittedSince_of_append hfired, hemitted]

/-- When all branches are counted, their outputs are there and entered. -/
theorem Recorded.stored (h : g.Recorded world progress) (hall : (counted progress).card = n)
    (i : Fin n) :
    world.store.content? (.value (g.keys.branchOutput (i + 1))) = some (g.outputs i) ∧
      g.keys.branchOutput (i + 1) ∈ world.store.membersOf g.keys.outputSet := by
  have hi : 3 ≤ progress i := card_counted_iff.mp hall i
  exact ⟨h.put i (by omega), h.entered i (by omega)⟩

/-- When all branches are counted, the join finds all that it needs, as nobody has touched the
metadata. -/
theorem Recorded.complete (h : g.Recorded world progress) (hall : (counted progress).card = n)
    (run : Run) (hkeys : g.keys = run.keys)
    (hmetadata : g.base.store.content? (.value run.keys.metadata) = some run.metadata.toJson) :
    FanOut.Complete run g.outputs world.store where
  metadata := by
    have howned : g.owned (.value g.keys.metadata) := g.owns _ FanOutKeys.metadata_mem_places
    rw [← hmetadata, ← hkeys]
    exact h.spared _ howned FanOutKeys.metadata_not_mem_branchPlaces
  put := fun i => hkeys ▸ (h.stored hall i).1
  entered := fun i => hkeys ▸ (h.stored hall i).2

/-- All branches of a crew have succeeded when all of them are counted. -/
theorem forall_hasSucceeded_iff {crew : Crew (Fin n) (Except FanOutError Int)}
    {stages : Fin n → BranchStage}
    (hleft : ∀ i, crew.left i =
      (stages i).left g.keys (g.keys.branchOutput (i + 1)) (g.outputs i)) :
    (∀ i, (crew.left i).hasSucceeded = true) ↔
      (counted fun i => (stages i).progress).card = n := by
  rw [card_counted_iff]
  refine forall_congr' fun i => ?_
  rw [hleft, BranchStage.hasSucceeded_left, decide_eq_true_iff]

end Gathering

namespace FanOut

/-- However the branches of a fan-out mix, the invariant holds of them. -/
theorem Started.gathered {d : Definition} {run : Run} {input : Json} {before after : World}
    (h : Started (enter d run) input d.body.branches before after)
    (hpos : 0 < d.body.branches.length) (hfires : before.firesTriggers = true)
    (branches : BranchEnds d) (outputs : Fin d.body.branches.length → Json) (owned : Place → Prop)
    (howns : ∀ place ∈ run.keys.places d.body.branches.length, owned place)
    {turns : List (Turn (Fin d.body.branches.length))}
    (hspare : ∀ c, .foreign c ∈ turns → ∀ place, owned place → c.place? ≠ some place) :
    (h.gathering hpos hfires outputs owned howns).Gathered
      ((Crew.begin (branches.tasks (enter d run) outputs) after).run
        (branches.tasks (enter d run) outputs) hasFailed turns) := by
  rw [show branches.tasks (enter d run) outputs =
      (h.gathering hpos hfires outputs owned howns).tasks
    from funext (branches.tasks_eq run outputs)]
  exact Gathering.gathered_run _ hspare

/-! ## Agreement -/

/-- However the branches of a fan-out mix their steps, fail and begin anew, and whatever others do
elsewhere in the store: the counter of the fan-out fires its trigger once, with the number of
branches as its value, when the last of them has succeeded. Before that it fires nothing; when it
has, every output is stored and entered; and the join that follows gives the outputs in order. -/
theorem branches_emit_trigger_once {typeName name : String} {document input : Json}
    {d : Definition} {run : Run} {w₀ w₁ : World}
    (hd : Definition.ofJson typeName name document = .ok d) (hkind : d.kind = .parallel)
    (hrun : run.Received) (hfires : w₀.firesTriggers = true)
    (hstart : w₀.perform (start d input (enter d run)).run = (.ok (), w₁))
    (branches : BranchEnds d) (outputs : Fin d.body.branches.length → Json)
    (turns : List (Turn (Fin d.body.branches.length)))
    (hspare : ∀ c, .foreign c ∈ turns → ∀ place ∈ run.keys.places d.body.branches.length,
      c.place? ≠ some place) :
    let tasks := branches.tasks (enter d run) outputs
    let crew := (Crew.begin tasks w₁).run tasks hasFailed turns
    let final := finalTrigger run d.body.branches.length
    (w₁.emittedSince crew.world run.keys.counter =
      if ∀ i, (crew.left i).hasSucceeded then [⟨run.keys.counter, final⟩] else []) ∧
    (w₁.emittedSince crew.world run.keys.counter ≠ [] → ∀ i : Fin d.body.branches.length,
      crew.world.store.content? (.value (run.keys.branchOutput (i + 1))) = some (outputs i) ∧
        run.keys.branchOutput (i + 1) ∈ crew.world.store.membersOf run.keys.outputSet) ∧
    ((∀ i, (crew.left i).hasSucceeded) → ∀ settings : Settings,
      ({ crew.world with faults := [] }.perform (join settings d final).run).1 =
        .ok (.joined (List.ofFn outputs) true)) := by
  intro tasks crew final
  have hstarted := started_of_start hstart
  have hpos := (Definition.branches_of_ofJson hd hkind).1
  obtain ⟨stages, hleft, hworld⟩ := hstarted.gathered hpos hfires branches outputs
    (· ∈ run.keys.places d.body.branches.length) (fun _ h => h) hspare
  have hsucceeded := Gathering.forall_hasSucceeded_iff hleft
  have hemitted : w₁.emittedSince crew.world run.keys.counter =
      if ∀ i, (crew.left i).hasSucceeded then [⟨run.keys.counter, final⟩] else [] := by
    rw [if_congr hsucceeded rfl rfl]
    exact hworld.emittedSince_eq
  refine ⟨hemitted, fun hne => ?_, fun hall settings => ?_⟩
  · have hall : ∀ i, (crew.left i).hasSucceeded = true := by
      by_contra hnot
      rw [hemitted, if_neg hnot] at hne
      exact hne rfl
    exact hworld.stored (hsucceeded.mp hall)
  · have hcomplete := hworld.complete (hsucceeded.mp hall) (enter d run) rfl hstarted.metadata
    obtain ⟨v, -, hjoin⟩ := join_of_complete (w := { crew.world with faults := [] }) settings rfl
      hpos (sound_enter hd hkind hrun.sound) (fanOut?_enter d run) hcomplete
    exact congrArg Prod.fst hjoin

/-! ### Two branches -/

/-- The document of a Parallel state with two branches. -/
def pairDocument : Json :=
  .object [
    ("Type", .string "Parallel"),
    ("End", .bool true),
    ("Branches", .array [
      .object [("StartAt", .string "Left")],
      .object [("StartAt", .string "Right")]]),
    ("BranchCount", .nat 2)]

/-- The state that is read from `pairDocument`. -/
def pair : Definition where
  name := "Pair"
  kind := .parallel
  document := pairDocument
  body := {
    typeName := some "Parallel"
    isEnd := true
    branches := [⟨"Left", none⟩, ⟨"Right", none⟩]
    branchCount := some 2 }

/-- The document `pairDocument` is read as the state `pair`. -/
theorem ofJson_pairDocument : Definition.ofJson "Parallel" "Pair" pairDocument = .ok pair := by
  rfl

/-- A run that comes to the state `pair`. -/
def pairRun : Run := .make "run" "wf_Pair"

/-- The last states of the branches of `pair`. -/
def pairBranches : BranchEnds pair where
  ends i := { Definition.bareTask "Last" with body := { lineage := some ⟨"Pair", i + 1⟩ } }
  lineage _ := rfl
  topics _ := "wf_Last"
  endpoints _ := none

/-- The first branch of `pair`. -/
def leftBranch : Fin pair.body.branches.length := ⟨0, by decide⟩

/-- The second branch of `pair`. -/
def rightBranch : Fin pair.body.branches.length := ⟨1, by decide⟩

/-- The start of the branches of `pair`, and the world in which they are started. -/
def pairStart : Except FanOutError Unit × World :=
  World.perform {} (start pair .null (enter pair pairRun)).run

/-- The first branch of `pair` fails when it enters its output, and begins anew while the second one
goes on. -/
def pairTurns : List (Turn (Fin pair.body.branches.length)) :=
  [.serve leftBranch, .refuse leftBranch (.backend "down"), .serve rightBranch, .retry leftBranch,
    .serve leftBranch, .serve rightBranch, .serve leftBranch, .serve leftBranch, .serve rightBranch]

/-- After `pairTurns` the trigger of the join of `pair` has fired once, with two as its value. -/
theorem pair_emits_trigger_once :
    let tasks := pairBranches.tasks (enter pair pairRun) fun i => .nat i
    let crew := (Crew.begin tasks pairStart.2).run tasks hasFailed pairTurns
    pairStart.2.emittedSince crew.world pairRun.keys.counter =
      [⟨pairRun.keys.counter, finalTrigger pairRun 2⟩] := by
  intro tasks crew
  have hstart : World.perform {} (start pair .null (enter pair pairRun)).run =
      (.ok (), pairStart.2) := by
    obtain ⟨w, hw⟩ := start_succeeds (w := {}) rfl pair .null (enter pair pairRun)
    rw [pairStart, hw]
  have hall : ∀ i, (crew.left i).hasSucceeded = true := by decide +kernel
  have hemitted := (branches_emit_trigger_once ofJson_pairDocument rfl (.inl ⟨_, _, rfl⟩) rfl
    hstart pairBranches (fun i => .nat i) pairTurns (by simp [pairTurns])).1
  exact hemitted.trans (if_pos hall)

/-- The world in which both branches of `pair` have finished. -/
def pairFinished : World :=
  let tasks := pairBranches.tasks (enter pair pairRun) fun i => .nat i
  ((Crew.begin tasks pairStart.2).run tasks hasFailed pairTurns).world

/-- In `pairFinished` the join of `pair` finds all that it needs. -/
theorem complete_pairFinished :
    Complete (enter pair pairRun) (fun i : Fin 2 => .nat i) pairFinished.store := by
  refine ⟨?_, ?_, ?_⟩ <;> decide +kernel

/-- The join of the outputs in `pairFinished`. -/
def pairJoin : Activity (Except FanOutError JoinOutcome) :=
  (join {} pair (finalTrigger pairRun 2)).run

end FanOut

end Workflow
