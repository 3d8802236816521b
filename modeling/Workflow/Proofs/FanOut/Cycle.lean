import Workflow.Proofs.FanOut.Agreement

/-!
# One fan-out after another

A Parallel state can be come to again and again in one run. Every time its branches are started,
leave their outputs and are joined, and the trigger of the join may be delivered more than once.
What the fan-out has kept in the store is gone afterwards, so that nothing of one cycle shows in the
next.

* **Deliveries** (`FanOut.deliver`, `FanOut.deliver_of_missing`, `FanOut.deliver_of_complete`):
  joins one after the other; those of a fan-out that is not there change nothing, and of those of
  a complete one the first gives the outputs.
* **Cycles** (`Cycle`, `Cycle.play`, `Cycle.playAll`): what happens in one cycle, and in several.
* **One cycle** (`Cycle.play_of_complete`): what comes of it, and what it leaves behind.
* **All cycles** (`Cycle.playAll_leaves_nothing`).
-/

namespace Workflow

namespace FanOut

/-! ## Deliveries -/

/-- Triggers of joins are delivered one after the other. -/
def deliver (settings : Settings) (d : Definition) :
    List JoinTrigger → World → List (Except FanOutError JoinOutcome) × World
  | [], w => ([], w)
  | trigger :: rest, w =>
    let (outcome, w) := w.perform (join settings d trigger).run
    let (outcomes, w) := deliver settings d rest w
    (outcome :: outcomes, w)

/-- Where there is nothing to join, a trigger may be delivered as often as one likes. -/
theorem deliver_of_missing (settings : Settings) (d : Definition) (trigger : JoinTrigger)
    {w : World} (hw : w.faults = [])
    (h : w.store.content? (.value trigger.metadataKey) = none) (count : Nat) :
    ∃ v, w.Outcome w.store [] v ∧ deliver settings d (List.replicate count trigger) w =
      (List.replicate count (.ok .alreadyJoined), v) := by
  induction count generalizing w with
  | zero => exact ⟨w, .refl w, rfl⟩
  | succ count ih =>
    obtain ⟨v, hv, hjoin⟩ := join_of_missing (d := d) settings hw trigger h
    obtain ⟨u, hu, hrest⟩ := ih (hv.faults.trans hw) (hv.store ▸ h)
    refine ⟨u, hv.trans (hv.store ▸ hu), ?_⟩
    have hperform : w.perform (join settings d trigger).run = (.ok .alreadyJoined, v) := hjoin
    simp only [List.replicate_succ, deliver, hperform, hrest]

/-- Without the places of a fan-out there is nothing to join. -/
theorem metadata_without_places (s : Store) (run : Run) (n : Nat) :
    (s.without (run.keys.places n)).content? (.value run.keys.metadata) = none := by
  rw [Store.content?_without, if_pos FanOutKeys.metadata_mem_places]

/-- Where a fan-out is complete, the first delivery of its final trigger gives the outputs and
clears the store of it, and the others find nothing. -/
theorem deliver_of_complete (settings : Settings) {d : Definition} {run : Run} {n : Nat}
    {outputs : Fin n → Json} {w : World} (hw : w.faults = []) (hn : 0 < n)
    (hsound : run.metadata.Sound)
    (hrecord : run.metadata.fanOut? d.name run.executionId = some (.make run n))
    (h : Complete run outputs w.store) (redeliveries : Nat) :
    ∃ v, w.Outcome (w.store.without (run.keys.places n)) (handedOn d (.array (List.ofFn outputs)))
        v ∧
      deliver settings d (List.replicate (redeliveries + 1) (finalTrigger run n)) w =
        (.ok (.joined (List.ofFn outputs) true) ::
          List.replicate redeliveries (.ok .alreadyJoined), v) := by
  obtain ⟨v, hv, hjoin⟩ := join_of_complete settings hw hn hsound hrecord h
  have hperform : w.perform (join settings d (finalTrigger run n)).run =
      (.ok (.joined (List.ofFn outputs) true), v) := hjoin
  have hmissing : v.store.content? (.value run.keys.metadata) = none := by
    rw [hv.store, metadata_without_places]
  obtain ⟨u, hu, hrest⟩ := deliver_of_missing settings d (finalTrigger run n)
    (hv.faults.trans hw) hmissing redeliveries
  refine ⟨u, ?_, ?_⟩
  · have hall := hv.trans hu
    rwa [hv.store, List.append_nil] at hall
  · simp only [List.replicate_succ, deliver, hperform, hrest]

end FanOut

/-! ## Cycles -/

/-- One use of a Parallel state: its input, its branches with the outputs that they leave, the turns
that they take, in which nobody else takes part, and how often the trigger of the join is delivered
again. -/
structure Cycle (d : Definition) where
  input : Json
  branches : BranchEnds d
  outputs : Fin d.body.branches.length → Json
  turns : List (Turn (Fin d.body.branches.length))
  alone : ∀ c, .foreign c ∉ turns
  redeliveries : Nat

/-- What is seen of a cycle: how the start went, whether all branches have succeeded, the triggers
that have fired for the counter, and what their deliveries came to. -/
structure CycleReport where
  started : Except FanOutError Unit
  isComplete : Bool
  emitted : List FiredTrigger
  joins : List (Except FanOutError JoinOutcome)

namespace Cycle

variable {d : Definition}

/-- A cycle in a run in which it has been entered: the start, the turns of the branches, and the
deliveries of whatever has fired. -/
def play (settings : Settings) (run : Run) (c : Cycle d) (w : World) : CycleReport × World :=
  let (started, w₁) := w.perform (FanOut.start d c.input run).run
  let tasks := c.branches.tasks run c.outputs
  let crew := (Crew.begin tasks w₁).run tasks FanOut.hasFailed c.turns
  let emitted := w₁.emittedSince crew.world run.keys.counter
  let triggers := emitted.flatMap fun fired => List.replicate (c.redeliveries + 1) fired.trigger
  let (joins, w₂) := FanOut.deliver settings d triggers crew.world
  (⟨started, decide (∀ i, (crew.left i).hasSucceeded), emitted, joins⟩, w₂)

/-- Cycles of one run, one after the other. -/
def playAll (settings : Settings) : Run → List (Cycle d) → World → List CycleReport × World
  | _, [], w => ([], w)
  | run, c :: rest, w =>
    let run := FanOut.enter d run
    let (report, w) := c.play settings run w
    let (reports, w) := playAll settings run rest w
    (report :: reports, w)

/-- What is to be seen of a cycle: the trigger has fired once, the first join gives the outputs of
these branches, and the others find nothing. -/
def report (run : Run) (c : Cycle d) : CycleReport where
  started := .ok ()
  isComplete := true
  emitted := [⟨run.keys.counter, FanOut.finalTrigger run d.body.branches.length⟩]
  joins := .ok (.joined (List.ofFn c.outputs) true)
    :: List.replicate c.redeliveries (.ok .alreadyJoined)

/-- What the scheduler is handed in a cycle: the branches, and the outputs of the join. -/
def handed (c : Cycle d) : List Dispatch :=
  FanOut.handed c.input d.body.branches ++ FanOut.handedOn d (.array (List.ofFn c.outputs))

/-! ## One cycle -/

/-- A cycle whose branches all succeed gives its outputs, and leaves the store as it was, without
the places of the fan-out. -/
theorem play_of_complete (settings : Settings) {run : Run} (c : Cycle d) {w : World}
    (hpos : 0 < d.body.branches.length) (hsound : (FanOut.enter d run).metadata.Sound)
    (hw : w.faults = []) (hfires : w.firesTriggers = true)
    (hcomplete : (c.play settings (FanOut.enter d run) w).1.isComplete = true) :
    ∃ v, c.play settings (FanOut.enter d run) w = (c.report run, v) ∧
      v.store = w.store.without (run.keys.places d.body.branches.length) ∧
      v.queue = w.queue ++ c.handed ∧ v.faults = [] ∧ v.firesTriggers = true := by
  obtain ⟨w₁, hstart⟩ := FanOut.start_succeeds hw d c.input (FanOut.enter d run)
  have hstarted := FanOut.started_of_start hstart
  obtain ⟨stages, hleft, hworld⟩ := hstarted.gathered hpos hfires c.branches c.outputs
    (fun _ => True) (fun _ _ => trivial) fun call hcall => absurd hcall (c.alone call)
  generalize hcrew : (Crew.begin (c.branches.tasks (FanOut.enter d run) c.outputs) w₁).run
    (c.branches.tasks (FanOut.enter d run) c.outputs) FanOut.hasFailed c.turns = crew
    at hleft hworld
  -- every branch is counted, so the trigger has fired
  have hplay : c.play settings (FanOut.enter d run) w =
      let triggers := (w₁.emittedSince crew.world run.keys.counter).flatMap fun fired =>
        List.replicate (c.redeliveries + 1) fired.trigger
      (⟨.ok (), decide (∀ i, (crew.left i).hasSucceeded),
        w₁.emittedSince crew.world run.keys.counter,
        (FanOut.deliver settings d triggers crew.world).1⟩,
        (FanOut.deliver settings d triggers crew.world).2) := by
    simp only [play, hstart, hcrew]
    rfl
  have hall : ∀ i, (crew.left i).hasSucceeded = true := by
    rw [hplay] at hcomplete
    exact of_decide_eq_true hcomplete
  have hcounted := (Gathering.forall_hasSucceeded_iff hleft).mp hall
  have hemitted : w₁.emittedSince crew.world run.keys.counter =
      [⟨run.keys.counter, FanOut.finalTrigger run d.body.branches.length⟩] := by
    have hfired := hworld.emittedSince_eq
    rw [if_pos hcounted] at hfired
    exact hfired
  -- so the join finds everything
  have hfaults : crew.world.faults = [] := hworld.faults (hstarted.faults hw)
  obtain ⟨v, hv, hdeliver⟩ := FanOut.deliver_of_complete settings hfaults hpos hsound
    (FanOut.fanOut?_enter d run)
    (hworld.complete hcounted (FanOut.enter d run) rfl hstarted.metadata) c.redeliveries
  refine ⟨v, ?_, ?_, ?_, hv.faults.trans hfaults, hv.firesTriggers.trans hworld.firesTriggers⟩
  · have htriggers : FanOut.deliver settings d (List.replicate (c.redeliveries + 1)
        (FanOut.finalTrigger run d.body.branches.length)) crew.world = (_, v) := hdeliver
    simp only [hplay, hemitted, List.flatMap_cons, List.flatMap_nil, List.append_nil, htriggers,
      hall, implies_true, decide_true]
    rfl
  · refine hv.store.trans (Store.without_eq_of_agree fun place hnot => ?_)
    have hbranch : place ∉ run.keys.branchPlaces d.body.branches.length := fun hmem =>
      hnot (FanOutKeys.branchPlaces_subset hmem)
    exact (hworld.spared place trivial hbranch).trans (hstarted.spared place hnot)
  · rw [hv.queue, hworld.queue, handed, ← List.append_assoc]
    exact congrArg (· ++ _) hstarted.queue

/-! ## All cycles -/

/-- What cycles lead to when the branches of all of them succeed. The store is that of the
beginning, without the places of the fan-out as soon as there has been a cycle. -/
theorem playAll_of_complete (settings : Settings) {run : Run} {cycles : List (Cycle d)} {w : World}
    (hbranches : 0 < d.body.branches.length ∧ d.body.branches.length < Word.count64)
    (hsound : run.metadata.Sound) (hw : w.faults = []) (hfires : w.firesTriggers = true)
    (hcomplete : ∀ r ∈ (playAll settings run cycles w).1, r.isComplete = true) :
    ∃ v, playAll settings run cycles w = (cycles.map (report run), v) ∧
      (cycles ≠ [] → v.store = w.store.without (run.keys.places d.body.branches.length)) ∧
      v.queue = w.queue ++ cycles.flatMap handed ∧ v.faults = [] := by
  induction cycles generalizing run w with
  | nil => exact ⟨w, rfl, fun h => absurd rfl h, (List.append_nil _).symm, hw⟩
  | cons c rest ih =>
    have hsound' : (FanOut.enter d run).metadata.Sound :=
      hsound.setFanOut d.name run.executionId (FanOutRecord.inRange_make run hbranches.2)
    rw [playAll] at hcomplete
    obtain ⟨v, hplay, hstore, hqueue, hfaults, hfires'⟩ := c.play_of_complete settings hbranches.1
      hsound' hw hfires (hcomplete _ List.mem_cons_self)
    simp only [hplay] at hcomplete
    obtain ⟨u, hrest, hstore', hqueue', hfaults'⟩ := ih hsound' hfaults hfires' fun r hr =>
      hcomplete r (List.mem_cons_of_mem _ hr)
    refine ⟨u, ?_, fun _ => ?_, ?_, hfaults'⟩
    · rw [playAll]
      simp only [hplay, hrest]
      rfl
    · cases rest with
      | nil =>
        cases hrest
        exact hstore
      | cons next others =>
        rw [hstore' (List.cons_ne_nil _ _), hstore]
        exact Store.without_without _
    · rw [hqueue', hqueue, List.flatMap_cons, List.append_assoc]

/-- A Parallel state can be come to again and again in a run. As long as all branches succeed, every
cycle fires its trigger once and gives the outputs of its own branches, and only the first delivery
of the trigger does anything. Afterwards the store is that of the beginning without the names of the
fan-out, the scheduler has been handed the branches and the outputs of every cycle, and a trigger
that is delivered once more finds nothing and changes nothing. -/
theorem playAll_leaves_nothing {typeName name : String} {document : Json} {run : Run}
    (hd : Definition.ofJson typeName name document = .ok d) (hkind : d.kind = .parallel)
    (hrun : run.Received) (settings : Settings) (cycles : List (Cycle d)) {w : World}
    (hw : w.faults = []) (hfires : w.firesTriggers = true)
    (hcomplete : ∀ r ∈ (playAll settings run cycles w).1, r.isComplete = true) :
    let played := playAll settings run cycles w
    let trigger := FanOut.finalTrigger run d.body.branches.length
    played.1 = cycles.map (report run) ∧
      played.2.queue = w.queue ++ cycles.flatMap handed ∧
      (cycles ≠ [] →
        played.2.store = w.store.without (run.keys.places d.body.branches.length) ∧
        ∀ count,
          let delivered := FanOut.deliver settings d (List.replicate count trigger) played.2
          delivered.1 = List.replicate count (.ok .alreadyJoined) ∧
            delivered.2.store = played.2.store ∧ delivered.2.queue = played.2.queue) := by
  obtain ⟨v, hplay, hstore, hqueue, hfaults⟩ := playAll_of_complete settings
    (Definition.branches_of_ofJson hd hkind) hrun.sound hw hfires hcomplete
  rw [hplay]
  refine ⟨rfl, hqueue, fun hne => ⟨hstore hne, fun count => ?_⟩⟩
  have hmissing : v.store.content? (.value run.keys.metadata) = none := by
    rw [hstore hne, FanOut.metadata_without_places]
  obtain ⟨u, hu, hdeliver⟩ := FanOut.deliver_of_missing settings d
    (FanOut.finalTrigger run d.body.branches.length) hfaults hmissing count
  simp only [hdeliver]
  exact ⟨trivial, hu.store, hu.queue.trans (List.append_nil _)⟩

/-- A cycle of the state with two branches, one of which fails once. -/
def ofPair (left right : Json) : Cycle FanOut.pair where
  input := .null
  branches := FanOut.pairBranches
  outputs i := if i = FanOut.leftBranch then left else right
  turns := FanOut.pairTurns
  alone := by simp [FanOut.pairTurns]
  redeliveries := 2

/-- Two cycles of the state `pair` in one run, with other outputs each. -/
def pairCycles : List (Cycle FanOut.pair) := [ofPair (.nat 1) (.nat 2), ofPair (.nat 3) .null]

/-- Both of `pairCycles` report what is to be seen of a cycle, each with its own outputs. -/
theorem playAll_pairCycles :
    (playAll {} FanOut.pairRun pairCycles {}).1 = pairCycles.map (report FanOut.pairRun) :=
  (playAll_leaves_nothing FanOut.ofJson_pairDocument rfl (.inl ⟨_, _, rfl⟩) {} pairCycles rfl rfl
    (by decide +kernel)).1

end Cycle

end Workflow
