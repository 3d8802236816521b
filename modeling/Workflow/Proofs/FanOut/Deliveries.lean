import Workflow.Proofs.FanOut.Rivals

/-!
# What joins beside each other deliver

The outputs of a complete fan-out are handed on by every join that has gathered them, and by nobody
else. There is always such a join. There may be several, if they have all read the outputs before
one of them begins to clear; for nothing but the metadata tells a join that another one is at work.

* **Ends of one join** (`FanOut.JoinEnd`, `FanOut.Joinable.joinEnd`): it gives the outputs and hands
  them on; it finds the fan-out joined already, if the metadata had gone when it began
  (`FanOut.Joinable.late_iff`); or it fails for the set or an output that was cleared while it was
  at work (`FanOut.ClearedDuring`).
* **Ends of all joins** (`FanOut.Joinable.exists_joined`, `FanOut.Joinable.queue_of_late`): one of
  them gives the outputs, and if all others came late they are handed on once.
* **Deliveries** (`FanOut.Deliveries`, `FanOut.joins_deliver`): all of this, for joins that all come
  to an end.
-/

namespace Workflow.FanOut

/-! ## Ends of one join -/

section ends

variable {ι : Type} [DecidableEq ι] (task : Activity (Except FanOutError JoinOutcome)) (w : World)

/-- A place is cleared while a join is at work: something stands there in the turn in which the join
begins, and nothing does in a later turn of the join before it is over. -/
def ClearedDuring (schedule : List ι) (i : ι) (place : Place) : Prop :=
  ∃ before during behind, schedule = before ++ i :: during ++ i :: behind ∧
    (joinsAfter task w before).left i = task ∧
    (joinsAfter task w before).world.store.content? place ≠ none ∧
    (∀ result, (joinsAfter task w (before ++ i :: during)).left i ≠ .done result) ∧
    (joinsAfter task w (before ++ i :: during)).world.store.content? place = none

end ends

/-- What one join of a fan-out has come to, and what it has handed on: it has given the outputs; it
came late; or it has failed for a place of the fan-out that was cleared. -/
inductive JoinEnd (settings : Settings) (d : Definition) (keys : FanOutKeys) (n : Nat)
    (outputs : List Json) (late : Prop) (cleared : Place → Prop) :
    Activity (Except FanOutError JoinOutcome) → List Dispatch → Prop where
  | joined : JoinEnd settings d keys n outputs late cleared (.done (.ok (.joined outputs true)))
      (handedOn d (.array outputs))
  | alreadyJoined (h : late) :
      JoinEnd settings d keys n outputs late cleared (.done (.ok .alreadyJoined)) []
  | failed {e : FanOutError} {place : Place} (he : IsMissing settings keys n e place)
      (h : cleared place) : JoinEnd settings d keys n outputs late cleared (.done (.error e)) []

namespace Joinable

variable {n : Nat} {ι : Type} [DecidableEq ι] {g : Joinable n} {schedule : List ι} {i : ι}
  {handed : List Dispatch}

/-- A join that had all outputs and is over has given them and handed them on. -/
theorem Holding.of_done {s : Store} {result : Except FanOutError JoinOutcome}
    (h : g.Holding s (.done result) handed) :
    result = .ok (.joined g.list true) ∧ handed = g.deliveries := by
  generalize ha : Activity.done result = a at h
  cases h with
  | clearing hplaces =>
    rw [clearing_cons] at ha
    cases ha
  | @delivering handed rest hdeliveries =>
    cases rest with
    | nil =>
      cases ha
      exact ⟨rfl, (List.append_nil handed).symm.trans hdeliveries⟩
    | cons d rest => cases ha

/-- What a join that is over has given and handed on. -/
theorem Stage.of_done {result : Except FanOutError JoinOutcome}
    (h : g.Stage schedule i (.done result) handed) :
    JoinEnd g.settings g.state g.run.keys n g.list
      (ComesLate g.task g.base g.run.keys.metadata schedule i) (g.Misses schedule i) (.done result)
      handed := by
  generalize ha : Activity.done result = a at h
  cases h with
  | ready =>
    obtain ⟨begun, htask, -, -⟩ := g.task_eq
    cases ha.trans htask
  | late h => exact .alreadyJoined h
  | reading _ _ h =>
    subst ha
    cases h (g.Misses schedule i) fun _ hmisses => hmisses with
    | final hfound =>
      generalize ha : Activity.done result = a at hfound ⊢
      cases hfound with
      | all =>
        rw [removed, clearing_cons] at ha
        cases ha
      | missing hmisses he => exact .failed he hmisses
  | holding h =>
    subst ha
    obtain ⟨rfl, rfl⟩ := h.of_done
    exact .joined

/-- A join that has come late is over at once. -/
theorem left_of_comesLate (h : ComesLate g.task g.base g.run.keys.metadata schedule i) :
    (g.after schedule).left i = .done (.ok .alreadyJoined) := by
  obtain ⟨before, behind, rfl, hready, hnone⟩ := h
  have hserved : (g.after (before ++ [i])).left i = .done (.ok .alreadyJoined) := by
    obtain ⟨begun, htask, hmissing, -⟩ := g.task_eq
    rw [Rivals.left_served (hready.trans htask), Function.update_self,
      World.answer_store (g.rivals_after before).calm.faults, ← hmissing]
    exact congrArg (fun found => begun (.ok found)) hnone
  rw [List.append_cons]
  induction behind using List.reverseRecOn with
  | nil => rwa [List.append_nil]
  | append_singleton behind j ih =>
    rw [← List.append_assoc, after, joinsAfter_concat]
    exact Crew.left_step_serve_of_done ih

/-- A place of the fan-out that a join misses has been cleared while the join was at work. -/
theorem Misses.clearedDuring {e : FanOutError} {place : Place} (h : g.Misses schedule i place)
    (he : IsMissing g.settings g.run.keys n e place) :
    ClearedDuring g.task g.base schedule i place := by
  obtain ⟨before, during, behind, hschedule, ⟨hready, hmetadata⟩, hunder, hnone⟩ := h
  have hthere := (g.rivals_after before).rest.intact hmetadata e place he
  exact ⟨before, during, behind, hschedule, hready, hthere, hunder, hnone⟩

/-- What a join that is over has given and handed on. -/
theorem joinEnd (g : Joinable n) {result : Except FanOutError JoinOutcome}
    (h : (g.after schedule).left i = .done result) :
    JoinEnd g.settings g.state g.run.keys n g.list
      (ComesLate g.task g.base g.run.keys.metadata schedule i)
      (ClearedDuring g.task g.base schedule i) (.done result) (g.handed schedule i) := by
  have hend := Stage.of_done (h ▸ (g.rivals_after schedule).stage i)
  generalize Activity.done result = a, g.handed schedule i = handed at hend ⊢
  cases hend with
  | joined => exact .joined
  | alreadyJoined h => exact .alreadyJoined h
  | failed he hmisses => exact .failed he (hmisses.clearedDuring he)

/-- A join finds the fan-out joined already if it came late, and only then. -/
theorem late_iff (g : Joinable n) : (g.after schedule).left i = .done (.ok .alreadyJoined) ↔
    ComesLate g.task g.base g.run.keys.metadata schedule i := by
  refine ⟨fun h => ?_, left_of_comesLate⟩
  have hend := g.joinEnd h
  generalize g.handed schedule i = handed at hend
  cases hend with
  | alreadyJoined hlate => exact hlate

/-- When all joins are over, one of them has given the outputs. -/
theorem exists_joined [Nonempty ι]
    (hdone : ∀ i, ∃ result, (g.after schedule).left i = .done result) :
    ∃ i, (g.after schedule).left i = .done (.ok (.joined g.list true)) := by
  rcases (g.rivals_after schedule).decided with ⟨i, hholding⟩ | ⟨-, hsees⟩
  · obtain ⟨result, hresult⟩ := hdone i
    rw [hresult] at hholding
    exact ⟨i, by rw [hresult, hholding.of_done.1]⟩
  · obtain ⟨i⟩ := ‹Nonempty ι›
    obtain ⟨result, hresult⟩ := hdone i
    have hsee := (hsees i).1
    rw [hresult] at hsee
    exact hsee.not_done.elim

/-- If all joins but one come late, the outputs have been handed on once. -/
theorem queue_of_late [Nonempty ι]
    (hdone : ∀ i, ∃ result, (g.after schedule).left i = .done result)
    (hlate : ∀ j, j ≠ i → (g.after schedule).left j = .done (.ok .alreadyJoined)) :
    (g.after schedule).world.queue = g.base.queue ++ g.deliveries := by
  have hothers (j : ι) (hj : j ≠ i) : g.handed schedule j = [] := by
    have hend := g.joinEnd (hlate j hj)
    generalize g.handed schedule j = handed at hend ⊢
    cases hend
    rfl
  obtain ⟨k, hk⟩ := exists_joined hdone
  obtain rfl : k = i := by
    by_contra hne
    cases hk.symm.trans (hlate k hne)
  have hhanded : g.handed schedule k = g.deliveries := by
    have hend := g.joinEnd hk
    generalize g.handed schedule k = handed at hend ⊢
    cases hend
    rfl
  rw [← hhanded, Joinable.handed, ← Crew.dispatchesOf_eq hothers]
  exact Crew.queue_run _ _

end Joinable

/-! ## Deliveries -/

/-- Whether or not the record is entered into the run makes no difference to the join, which reads
it from the store. -/
theorem finalJoin_enter (settings : Settings) (d : Definition) (run : Run) (n : Nat) :
    finalJoin settings d (enter d run) n = finalJoin settings d run n := rfl

/-- What joins of a complete fan-out have come to that are all over. -/
structure Deliveries {ι : Type} [DecidableEq ι] (settings : Settings) (d : Definition) (run : Run)
    {n : Nat} (outputs : Fin n → Json) (w : World) (schedule : List ι) : Prop where
  /-- Some join has given the outputs. -/
  joined : ∃ i, (joinsAfter (finalJoin settings d run n) w schedule).left i =
    .done (.ok (.joined (List.ofFn outputs) true))
  /-- Every join has given the outputs and handed them on, came late, or has lost a place of the
  fan-out while it was at work. -/
  ends : ∀ i, JoinEnd settings d run.keys n (List.ofFn outputs)
    (ComesLate (finalJoin settings d run n) w run.keys.metadata schedule i)
    (ClearedDuring (finalJoin settings d run n) w schedule i)
    ((joinsAfter (finalJoin settings d run n) w schedule).left i)
    (Crew.dispatchesOf i (joinsAsked (finalJoin settings d run n) w schedule))
  /-- The fan-out is found joined already by those who came late, and by nobody else. -/
  late_iff : ∀ i, (joinsAfter (finalJoin settings d run n) w schedule).left i =
    .done (.ok .alreadyJoined) ↔
      ComesLate (finalJoin settings d run n) w run.keys.metadata schedule i
  /-- What has been handed on is what the joins have handed on, and nothing else. -/
  queue : (joinsAfter (finalJoin settings d run n) w schedule).world.queue =
    w.queue ++ (joinsAsked (finalJoin settings d run n) w schedule).filterMap (·.2.dispatch?)
  /-- If all joins but one come late, the outputs are handed on once. -/
  once : ∀ i, (∀ j, j ≠ i → (joinsAfter (finalJoin settings d run n) w schedule).left j =
      .done (.ok .alreadyJoined)) →
    (joinsAfter (finalJoin settings d run n) w schedule).world.queue =
      w.queue ++ handedOn d (.array (List.ofFn outputs))

/-- However many joins of a complete fan-out with its final trigger run beside each other, and
however their steps mix: if each of them gets its turn again and again, all of them come to an end.
Then at least one has given the outputs. Those that have given them have handed them on once, and
the others have handed on nothing: they came when the metadata had been removed, and only then find
the fan-out joined already; or they fail for the set or an output of the fan-out, which was there
when they began and was removed while they read. So the outputs are handed on once if all joins but
one come late. -/
theorem joins_deliver {typeName name : String} {document : Json} {d : Definition} {run : Run}
    {w : World} {outputs : Fin d.body.branches.length → Json} (ι : Type) [DecidableEq ι]
    [Fintype ι] [Nonempty ι] (hd : Definition.ofJson typeName name document = .ok d)
    (hkind : d.kind = .parallel) (hrun : run.Received) (settings : Settings) (hw : w.Calm)
    (hcomplete : Complete (enter d run) outputs w.store) :
    let task := finalJoin settings d run d.body.branches.length
    (∀ schedule : ℕ → ι, (∀ i m, ∃ n, m ≤ n ∧ schedule n = i) →
      ∃ n, ∀ i, ∃ result,
        (joinsAfter task w ((List.range n).map schedule)).left i = .done result) ∧
    ∀ schedule : List ι, (∀ i, ∃ result, (joinsAfter task w schedule).left i = .done result) →
      Deliveries settings d run outputs w schedule := by
  let g : Joinable d.body.branches.length :=
    { settings, state := d, run := enter d run, outputs, base := w
      nonempty := (Definition.branches_of_ofJson hd hkind).1
      sound := sound_enter hd hkind hrun.sound
      recorded := fanOut?_enter d run
      calm := hw
      complete := hcomplete }
  have htask : g.task = finalJoin settings d run d.body.branches.length := finalJoin_enter ..
  intro task
  rw [show task = g.task from htask.symm]
  refine ⟨fun schedule hfair => ?_, fun schedule hdone => ?_⟩
  · have hover : ∃ n, ∀ i, ∃ result, ((Crew.begin (fun _ => g.task) w).after (fun _ => g.task)
        (fun _ => false) schedule n).left i = .done result := Crew.exists_over _ hfair
    simp only [joinsAfter, List.map_map]
    exact hover
  · exact
      { joined := htask ▸ g.exists_joined hdone
        ends := fun i => by
          obtain ⟨result, hresult⟩ := hdone i
          have hend := g.joinEnd hresult
          rw [← hresult, htask] at hend
          exact hend
        late_iff := fun i => htask ▸ g.late_iff
        queue := Crew.queue_run _ _
        once := fun i hlate => by
          rw [← htask] at hlate ⊢
          exact g.queue_of_late hdone hlate }

/-! ### Two joins -/

/-- Two joins of the same outputs, after the turns of a schedule. -/
def pairRivals (schedule : List Bool) : Crew Bool (Except FanOutError JoinOutcome) :=
  joinsAfter pairJoin pairFinished schedule

/-- A schedule in which the second join begins when the first one is over. -/
def oneByOne : List Bool := List.replicate 11 false ++ [true]

/-- Two joins of `pair` that take turns both come to an end, and one after the other they hand on
the outputs once. -/
theorem pair_joins_deliver :
    (∃ n, ∀ i, ∃ result,
      (pairRivals ((List.range n).map fun t => t % 2 == 1)).left i = .done result) ∧
    (pairRivals oneByOne).world.queue =
      pairFinished.queue ++ [⟨endTarget, .array [.nat 0, .nat 1]⟩] := by
  have hlate : (pairRivals oneByOne).left true = .done (.ok .alreadyJoined) :=
    Activity.eq_done_of_result? (by decide +kernel)
  have hfirst : (pairRivals oneByOne).left false = .done (.ok (.joined [.nat 0, .nat 1] true)) :=
    Activity.eq_done_of_result? (by decide +kernel)
  obtain ⟨hends, hdeliver⟩ := joins_deliver Bool ofJson_pairDocument rfl (.inl ⟨_, _, rfl⟩) {}
    ⟨rfl, rfl⟩ complete_pairFinished
  refine ⟨hends (fun t => t % 2 == 1) fun i m => ?_, ?_⟩
  · exact ⟨2 * m + i.toNat, by omega, by cases i <;> simp⟩
  · have hdeliveries := hdeliver oneByOne fun i => by
      cases i
      · exact ⟨_, hfirst⟩
      · exact ⟨_, hlate⟩
    exact hdeliveries.once false fun j hj => by
      cases j
      · exact absurd rfl hj
      · exact hlate

/-- A join that has read the metadata before the other one removes the set fails for the set. -/
example : ((pairRivals (true :: oneByOne)).left true).result? =
    some (.error (.emptyOutputSet pairRun.keys.outputSet)) := by
  decide +kernel

/-- A schedule in which both joins have read all outputs before one of them removes anything. -/
def sideBySide : List Bool :=
  List.replicate 4 false ++ List.replicate 4 true ++ List.replicate 7 false ++ List.replicate 7 true

/-- Two joins that both have all outputs in hand before one of them clears the store hand them on
twice. -/
theorem pair_joins_deliver_twice :
    ((pairRivals sideBySide).left false).result? =
        some (.ok (.joined [.nat 0, .nat 1] true)) ∧
      ((pairRivals sideBySide).left true).result? =
        some (.ok (.joined [.nat 0, .nat 1] true)) ∧
      (pairRivals sideBySide).world.queue = pairFinished.queue ++
        [⟨endTarget, .array [.nat 0, .nat 1]⟩, ⟨endTarget, .array [.nat 0, .nat 1]⟩] := by
  decide +kernel

end Workflow.FanOut
