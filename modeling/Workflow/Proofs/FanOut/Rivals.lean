import Workflow.Proofs.FanOut.Agreement
import Workflow.Proofs.Locality

/-!
# Joins beside each other

A trigger may be handed over more than once, and a join that is still at work does not keep another
one from beginning. All of them read the same outputs, until one of them has begun to remove what
the fan-out keeps in the store. What a join has found decides what it does: with all outputs in hand
it goes on to the end, whatever the others have removed by then.

* **What a join finds** (`FanOut.IsMissing`, `FanOut.Found`, `FanOut.join_eq_ask`): a join that has
  found the metadata comes to hold all outputs; or the set or an output is missing by then, and it
  fails for that one.
* **What is left of it then** (`FanOut.clearing`, `FanOut.delivering`): it clears the places of the
  fan-out and hands the outputs on.
* **What a request does to the store** (`FanOut.Joinable.Clears`): nothing, or the next place of the
  fan-out is cleared; so the metadata go before the set and the outputs (`FanOut.Joinable.IsRest`).
* **How far a join is** (`FanOut.Joinable.Stage`), and what all joins keep in every turn
  (`FanOut.Joinable.Rivals`, `FanOut.Joinable.rivals_after`).
-/

namespace Workflow.FanOut

open Activity (Over)

/-! ## What a join finds -/

/-- A request that changes nothing: a reading, or a pause. -/
def IsReading : Request → Prop
  | .store c => c.place? = none
  | .sleep _ => True
  | .dispatch _ | .now | .work _ | .connect | .send _ => False

/-- The answers of a store; where something may be missing, those of an empty one as well. -/
def Given (s : Store) (missing : Place → Prop) : (request : Request) → request.Reply → Prop
  | .store c, reply =>
    reply = (s.perform c).1 ∨ missing c.subject ∧ reply = (Store.empty.perform c).1
  | _, _ => True

/-- The failure of a join of a fan-out that misses one of its places: the set of the outputs, or the
output of a branch. -/
inductive IsMissing (settings : Settings) (keys : FanOutKeys) (n : Nat) :
    FanOutError → Place → Prop where
  | outputSet : IsMissing settings keys n (.emptyOutputSet keys.outputSet) (.set keys.outputSet)
  | output (branch : Fin n) :
      IsMissing settings keys n (.outputTimeout (keys.branchOutput (branch + 1)) settings.pollReads)
        (.value (keys.branchOutput (branch + 1)))

/-- Something is found; or it is not, as a place of the fan-out is missing. -/
inductive Finds (settings : Settings) (keys : FanOutKeys) (n : Nat) (missing : Place → Prop)
    {α : Type} (a : α) : Except FanOutError α → Prop where
  | found : Finds settings keys n missing a (.ok a)
  | missing {e : FanOutError} {place : Place} (hmissing : missing place)
      (he : IsMissing settings keys n e place) : Finds settings keys n missing a (.error e)

section finding

variable {settings : Settings} {names : FanOutKeys} {n : Nat} {s : Store} {missing : Place → Prop}

/-- What is found is what there is to be found. -/
theorem Finds.eq_of_ok {α : Type} {a b : α} (h : Finds settings names n missing a (.ok b)) :
    b = a := by
  cases h
  rfl

/-- A failure is one whatever there was to be found. -/
theorem Finds.of_error {α β : Type} {a : α} {e : FanOutError}
    (h : Finds settings names n missing a (.error e)) (b : β) :
    Finds settings names n missing b (.error e) := by
  cases h with
  | missing hmissing he => exact .missing hmissing he

/-- An output is read, or found missing. -/
theorem until_awaitOutput {key : String} {output : Json}
    (hkey : IsMissing settings names n (.outputTimeout key settings.pollReads) (.value key))
    (h : s.content? (.value key) = some output) {reads : Nat}
    (hreads : 0 < reads ∨ missing (.value key)) :
    (awaitOutput settings key reads).run.Until IsReading (Given s missing)
      (Over (Finds settings names n missing output)) := by
  induction reads with
  | zero =>
    have hmissing : missing (.value key) := hreads.resolve_left (by omega)
    exact .final ⟨_, rfl, .missing hmissing hkey⟩
  | succ reads ih =>
    refine until_call_bind rfl (fun found hfound => ?_) fun e he => ?_
    · rcases hfound with hfound | ⟨hmissing, hfound⟩
      · obtain rfl : found = some output := (Except.ok.inj hfound).trans h
        exact .final ⟨_, rfl, .found⟩
      · obtain rfl : found = none := Except.ok.inj hfound
        exact .ask trivial fun _ _ => ih (.inr hmissing)
    · rcases he with he | ⟨-, he⟩ <;> cases he

/-- Outputs are read in order, or one of them is found missing. -/
theorem until_collect {finished keys : List String} {outputs : List Json}
    (h : List.Forall₂ (fun key output =>
      IsMissing settings names n (.outputTimeout key settings.pollReads) (.value key) ∧
        key ∈ finished ∧ s.content? (.value key) = some output) keys outputs) :
    (collect settings finished keys).run.Until IsReading (Given s missing)
      (Over (Finds settings names n missing outputs)) := by
  induction h with
  | nil => exact .final ⟨_, rfl, .found⟩
  | @cons key output keys outputs hhead _ ih =>
    obtain ⟨hkey, hmem, hget⟩ := hhead
    have hreads : 0 < settings.pollReads := Nat.le_max_left _ _
    rw [collect, if_pos hmem]
    refine (until_awaitOutput hkey hget (.inl hreads)).bindFailing (fun first hfirst => ?_)
      fun e he => ⟨_, rfl, he.of_error _⟩
    refine ih.bindFailing (fun rest hrest => ?_) fun e he => ⟨_, rfl, he.of_error _⟩
    obtain rfl := hfirst.eq_of_ok
    obtain rfl := hrest.eq_of_ok
    exact .final ⟨_, rfl, .found⟩

end finding

/-! ## What is left of it then -/

section stages

variable (d : Definition) (outputs : List Json)

/-- What is left of a join that has only to hand on what it has not handed on yet. -/
def delivering (handed : List Dispatch) : Activity (Except FanOutError JoinOutcome) :=
  ExceptT.run do
    handAll handed
    return .joined outputs true

/-- What is left of a join that has all outputs, and has places to clear. -/
def clearing (places : List Place) : Activity (Except FanOutError JoinOutcome) :=
  ExceptT.run do
    callAll (places.map Place.removal)
    handAll (handedOn d (.array outputs))
    return .joined outputs true

variable {d outputs}

/-- Without places to clear, what is left is to hand on. -/
theorem clearing_nil : clearing d outputs [] = delivering outputs (handedOn d (.array outputs)) :=
  rfl

/-- The next place is cleared, and a refusal is the failure of the join. -/
theorem clearing_cons (place : Place) (rest : List Place) :
    clearing d outputs (place :: rest) = .ask (.store place.removal) fun
      | .ok _ => clearing d outputs rest
      | .error e => .done (.error (.store e)) := by
  rw [clearing, List.map_cons, callAll, bind_assoc]
  refine (call_bind_run _ _).trans (congrArg _ (funext fun reply => ?_))
  cases reply <;> rfl

end stages

/-! ## The join -/

section joining

variable {settings : Settings} {d : Definition} {run : Run} {n : Nat} {outputs : Fin n → Json}
  {s : Store}

/-- The join of a fan-out when all branches are counted. -/
def finalJoin (settings : Settings) (d : Definition) (run : Run) (n : Nat) :
    Activity (Except FanOutError JoinOutcome) :=
  (join settings d (finalTrigger run n)).run

/-- What becomes of a join that has found the metadata: it has all outputs and goes on to clear the
places of the fan-out, or it finds something missing. -/
inductive Found (settings : Settings) (d : Definition) (run : Run) (n : Nat) (outputs : List Json)
    (missing : Place → Prop) : Activity (Except FanOutError JoinOutcome) → Prop where
  | all : Found settings d run n outputs missing (clearing d outputs
      (removed (.make run n) run.keys.metadata (FanOutRecord.make run n).branchOutputs))
  | missing {e : FanOutError} {place : Place} (hmissing : missing place)
      (he : IsMissing settings run.keys n e place) :
      Found settings d run n outputs missing (.done (.error e))

/-- A join begins with the metadata. Without them it is over; otherwise it reads on. -/
theorem join_eq_ask (settings : Settings) (hn : 0 < n) (hsound : run.metadata.Sound)
    (hrecord : run.metadata.fanOut? d.name run.executionId = some (.make run n))
    (h : Complete run outputs s) :
    ∃ resume, finalJoin settings d run n = .ask (.store (.get run.keys.metadata)) resume ∧
      resume (.ok none) = .done (.ok .alreadyJoined) ∧
      ∀ missing, (resume (.ok (some run.metadata.toJson))).Until IsReading (Given s missing)
        (Found settings d run n (List.ofFn outputs) missing) := by
  refine ⟨_, call_bind_run _ _, rfl, fun missing => ?_⟩
  simp only [storedRecord_toJson hsound hrecord, Activity.run_lift_bind_ok]
  refine until_call_bind rfl (fun finished hfinished => ?_) fun e he => ?_
  · rcases hfinished with hfinished | ⟨hmissing, hfinished⟩
    · obtain rfl : finished = s.membersOf run.keys.outputSet := Except.ok.inj hfinished
      have hcollect : (collect settings (s.membersOf run.keys.outputSet)
          (FanOutRecord.make run n).branchOutputs).run.Until IsReading (Given s missing)
            (Over (Finds settings run.keys n missing (List.ofFn outputs))) :=
        until_collect (forall₂_branchOutputs fun i => ⟨.output i, h.entered i, h.put i⟩)
      rw [if_neg (h.finished hn)]
      refine hcollect.bindFailing (fun collected hcollected => ?_) fun e he => ?_
      · obtain rfl := hcollected.eq_of_ok
        simp only [isFinal_finalTrigger, if_true]
        rw [h.consumed_eq, cleanUp_eq, proceed_eq]
        exact .final .all
      · cases he with
        | missing hmissing he => exact .missing hmissing he
    · obtain rfl : finished = [] := Except.ok.inj hfinished
      exact .final (.missing hmissing .outputSet)
  · rcases he with he | ⟨-, he⟩ <;> cases he

end joining

/-! ## Turns of joins -/

section turns

variable {ι : Type} [DecidableEq ι] (task : Activity (Except FanOutError JoinOutcome)) (w : World)

/-- Joins that begin in a world, after the turns of a schedule. -/
def joinsAfter (schedule : List ι) : Crew ι (Except FanOutError JoinOutcome) :=
  (Crew.begin (fun _ => task) w).run (fun _ => task) (fun _ => false) (schedule.map .serve)

/-- What the joins have asked for in the turns of a schedule. -/
def joinsAsked (schedule : List ι) : List (ι × Request) :=
  (Crew.begin (fun _ => task) w).asked (fun _ => task) (fun _ => false) (schedule.map .serve)

/-- A join comes late if the metadata have been removed when it begins. -/
def ComesLate (metadataKey : String) (schedule : List ι) (i : ι) : Prop :=
  ∃ before behind, schedule = before ++ i :: behind ∧ (joinsAfter task w before).left i = task ∧
    (joinsAfter task w before).world.store.content? (.value metadataKey) = none

variable {task w}

/-- A schedule is one turn and a shorter schedule. -/
theorem joinsAfter_concat (schedule : List ι) (i : ι) :
    joinsAfter task w (schedule ++ [i]) =
      (joinsAfter task w schedule).step (fun _ => task) (fun _ => false) (.serve i) := by
  rw [joinsAfter, List.map_append]
  exact Crew.run_concat ..

/-- The turn of a join that is over does nothing. -/
theorem joinsAfter_of_done {schedule : List ι} {i : ι} {result : Except FanOutError JoinOutcome}
    (h : (joinsAfter task w schedule).left i = .done result) :
    joinsAfter task w (schedule ++ [i]) = joinsAfter task w schedule := by
  rw [joinsAfter_concat, Crew.step, h]

/-- The turn of any other join is one request. -/
theorem joinsAfter_of_ask {schedule : List ι} {i : ι} {request : Request}
    {resume : request.Reply → Activity (Except FanOutError JoinOutcome)}
    (h : (joinsAfter task w schedule).left i = .ask request resume) :
    joinsAfter task w (schedule ++ [i]) =
      ⟨(World.answer request (joinsAfter task w schedule).world).2,
        Function.update (joinsAfter task w schedule).left i
          (resume (World.answer request (joinsAfter task w schedule).world).1)⟩ := by
  rw [joinsAfter_concat, Crew.step, h]

/-- What has been asked for grows by what is asked for in the turn. -/
theorem joinsAsked_concat (schedule : List ι) (i : ι) :
    joinsAsked task w (schedule ++ [i]) =
      joinsAsked task w schedule ++ ((joinsAfter task w schedule).asked? (.serve i)).toList := by
  rw [joinsAsked, List.map_append]
  exact Crew.asked_concat ..

end turns

/-! ## How far joins are -/

/-- A complete fan-out in a calm world, that is to be joined. -/
structure Joinable (n : Nat) where
  settings : Settings
  state : Definition
  run : Run
  outputs : Fin n → Json
  base : World
  nonempty : 0 < n
  sound : run.metadata.Sound
  recorded : run.metadata.fanOut? state.name run.executionId = some (.make run n)
  calm : base.Calm
  complete : Complete run outputs base.store

namespace Joinable

section places

variable {n : Nat} (g : Joinable n)

/-- The join of the fan-out. -/
def task : Activity (Except FanOutError JoinOutcome) := finalJoin g.settings g.state g.run n

/-- What the join gives. -/
def list : List Json := List.ofFn g.outputs

/-- What the join hands on. -/
def deliveries : List Dispatch := handedOn g.state (.array g.list)

/-- The places that the join clears, in this order. -/
def places : List Place :=
  removed (.make g.run n) g.run.keys.metadata (FanOutRecord.make g.run n).branchOutputs

/-- What one request of a join does to the store: nothing, or it clears the next one of the places,
those before it being clear. -/
inductive Clears (s : Store) : Store → Prop where
  | nothing : Clears s s
  | next {cleared rest : List Place} {place : Place} (h : cleared ++ place :: rest = g.places)
      (gone : ∀ other ∈ cleared, s.content? other = none) : Clears s (s.erase place)

/-- A store in which nothing has changed but that some of the places have been cleared. As long as
it has the metadata, it has the set and all outputs. -/
structure IsRest (s : Store) : Prop where
  rest : ∀ place, s.content? place = g.base.store.content? place ∨
    place ∈ g.places ∧ s.content? place = none
  intact : s.content? (.value g.run.keys.metadata) ≠ none →
    ∀ e place, IsMissing g.settings g.run.keys n e place → s.content? place ≠ none

variable {g} {s t : Store}

/-- A place that is clear stays clear when a request of a join is answered. -/
theorem Clears.gone (h : g.Clears s t) {place : Place} (hs : s.content? place = none) :
    t.content? place = none := by
  cases h with
  | nothing => exact hs
  | next => rw [Store.content?_erase, hs, ite_self]

/-- The metadata are cleared before the set and before every output. -/
theorem metadata_mem_cleared {cleared rest : List Place} {place : Place} {e : FanOutError}
    (h : cleared ++ place :: rest = g.places) (he : IsMissing g.settings g.run.keys n e place) :
    Place.value g.run.keys.metadata ∈ cleared := by
  rw [places, removed] at h
  cases cleared with
  | nil =>
    cases (List.cons.inj h).1
    cases he
  | cons counter cleared =>
    cases cleared with
    | nil =>
      cases (List.cons.inj (List.cons.inj h).2).1
      cases he
    | cons trigger cleared =>
      have hthird := (List.cons.inj (List.cons.inj h).2).2
      cases cleared with
      | nil =>
        have hplace : place = .value g.run.keys.metadata := (List.cons.inj hthird).1
        cases he with
        | outputSet => cases hplace
        | output branch =>
          exact absurd (Place.value.inj hplace) (FanOutKeys.branchOutput_ne_metadata _ _ _)
      | cons metadata cleared =>
        rw [(List.cons.inj hthird).1]
        simp

/-- At first the set and all outputs are there. -/
theorem IsRest.base (g : Joinable n) : g.IsRest g.base.store where
  rest _ := .inl rfl
  intact _ e place he hnone := by
    cases he with
    | outputSet =>
      have hmem := g.complete.entered ⟨0, g.nonempty⟩
      rw [Store.membersOf_eq, hnone] at hmem
      cases hmem
    | output branch => cases (g.complete.put branch).symm.trans hnone

/-- Whatever one request does leaves such a store. -/
theorem IsRest.clears (hs : g.IsRest s) (h : g.Clears s t) : g.IsRest t := by
  cases h with
  | nothing => exact hs
  | @next cleared rest place hplaces gone =>
    refine ⟨fun other => ?_, fun hmetadata e other he => ?_⟩
    · rw [Store.content?_erase]
      split
      case isTrue heq => exact .inr ⟨by rw [heq, ← hplaces]; simp, rfl⟩
      case isFalse => exact hs.rest other
    · rw [Store.content?_erase] at hmetadata ⊢
      have hpresent : s.content? (.value g.run.keys.metadata) ≠ none := fun hnone =>
        hmetadata (by rw [hnone, ite_self])
      have hother : other ≠ place := fun heq =>
        hpresent (gone _ (metadata_mem_cleared hplaces (heq ▸ he)))
      rw [if_neg hother]
      exact hs.intact hpresent e other he

/-- Whatever is read in the rest of a store is what was there; or nothing, where nothing is left. -/
theorem IsRest.given_answer {w : World} (h : g.IsRest w.store) (hw : w.Calm)
    {missing : Place → Prop} (hmissing : ∀ place, w.store.content? place = none → missing place)
    (request : Request) : Given g.base.store missing request (World.answer request w).1 := by
  cases request with
  | store c =>
    rw [World.answer_store hw.faults]
    rcases h.rest c.subject with hsame | ⟨-, hnone⟩
    · exact .inl (Store.perform_congr hsame).1
    · have hempty : Store.empty.content? c.subject = none := by cases c.subject <;> rfl
      exact .inr ⟨hmissing _ hnone, (Store.perform_congr (hnone.trans hempty.symm)).1⟩
  | _ => trivial

end places

section joins

variable {n : Nat} {ι : Type} [DecidableEq ι] (g : Joinable n)

/-- The joins of the fan-out after the turns of a schedule. -/
def after (schedule : List ι) : Crew ι (Except FanOutError JoinOutcome) :=
  joinsAfter g.task g.base schedule

/-- What one of the joins has handed on in the turns of a schedule. -/
def handed (schedule : List ι) (i : ι) : List Dispatch :=
  Crew.dispatchesOf i (joinsAsked g.task g.base schedule)

/-- In its turn after a schedule a join begins, and finds the metadata. -/
def Begins (schedule : List ι) (i : ι) : Prop :=
  (g.after schedule).left i = g.task ∧
    (g.after schedule).world.store.content? (.value g.run.keys.metadata) ≠ none

/-- A join has begun with the metadata, and finds a place clear in a later turn. -/
def Misses (schedule : List ι) (i : ι) (place : Place) : Prop :=
  ∃ before during behind, schedule = before ++ i :: during ++ i :: behind ∧ g.Begins before i ∧
    (∀ result, (g.after (before ++ i :: during)).left i ≠ .done result) ∧
    (g.after (before ++ i :: during)).world.store.content? place = none

/-- What is left of a join that has all outputs in hand, and what it has handed on so far. -/
inductive Holding (s : Store) :
    Activity (Except FanOutError JoinOutcome) → List Dispatch → Prop where
  | clearing {cleared rest : List Place} {place : Place} (h : cleared ++ place :: rest = g.places)
      (gone : ∀ other ∈ cleared, s.content? other = none) :
      Holding s (FanOut.clearing g.state g.list (place :: rest)) []
  | delivering {handed rest : List Dispatch} (h : handed ++ rest = g.deliveries) :
      Holding s (FanOut.delivering g.list rest) handed

/-- What is left of a join after the turns of a schedule, and what it has handed on so far: it has
not begun; it came late, and found no metadata; it is reading, or has missed a place that was clear
in one of its turns; or it has all outputs. -/
inductive Stage (schedule : List ι) (i : ι) :
    Activity (Except FanOutError JoinOutcome) → List Dispatch → Prop where
  | ready : Stage schedule i g.task []
  | late (h : ComesLate g.task g.base g.run.keys.metadata schedule i) :
      Stage schedule i (.done (.ok .alreadyJoined)) []
  | reading {before during : List ι} {a : Activity (Except FanOutError JoinOutcome)}
      (hbegun : schedule = before ++ i :: during) (hbegins : g.Begins before i)
      (h : ∀ missing : Place → Prop, (∀ place, g.Misses schedule i place → missing place) →
        a.Until IsReading (Given g.base.store missing)
          (Found g.settings g.state g.run n g.list missing)) :
      Stage schedule i a []
  | holding {a : Activity (Except FanOutError JoinOutcome)} {handed : List Dispatch}
      (h : g.Holding (g.after schedule).world.store a handed) : Stage schedule i a handed

variable {g} {w : World} {schedule : List ι} {i : ι} {request : Request}
  {resume : request.Reply → Activity (Except FanOutError JoinOutcome)} {handed : List Dispatch}

/-- The join of the fan-out begins with the metadata. -/
theorem task_eq (g : Joinable n) : ∃ resume,
    g.task = .ask (.store (.get g.run.keys.metadata)) resume ∧
    resume (.ok none) = .done (.ok .alreadyJoined) ∧
    ∀ missing, (resume (.ok (some g.run.metadata.toJson))).Until IsReading
      (Given g.base.store missing) (Found g.settings g.state g.run n g.list missing) :=
  join_eq_ask g.settings g.nonempty g.sound g.recorded g.complete

/-- A reading changes nothing. -/
theorem store_answer_of_isReading (hw : w.Calm) (h : IsReading request) :
    (World.answer request w).2.store = w.store ∧ request.dispatch? = none := by
  cases request with
  | store c =>
    rw [World.answer_store hw.faults]
    refine ⟨?_, rfl⟩
    cases c <;> first | rfl | cases h
  | sleep d => exact ⟨(hw.unchanged (by simp)).1, rfl⟩
  | dispatch d | now | work input | connect | send bytes => exact h.elim

/-- With all outputs in hand, what is left is to clear the remaining places, or else to hand on. -/
theorem Holding.of_cleared {s : Store} {cleared rest : List Place} (h : cleared ++ rest = g.places)
    (gone : ∀ other ∈ cleared, s.content? other = none) :
    g.Holding s (FanOut.clearing g.state g.list rest) [] := by
  cases rest with
  | nil =>
    rw [clearing_nil]
    exact .delivering rfl
  | cons place rest => exact .clearing h gone

/-- At first all places are left to clear. -/
theorem Holding.all (s : Store) : g.Holding s (FanOut.clearing g.state g.list g.places) [] :=
  .of_cleared (List.nil_append _) fun _ hother => absurd hother List.not_mem_nil

/-- A join that has all outputs keeps them when a request is answered. -/
theorem Holding.clears {s t : Store} {a : Activity (Except FanOutError JoinOutcome)}
    (h : g.Holding s a handed) (hclears : g.Clears s t) : g.Holding t a handed := by
  cases h with
  | clearing h gone => exact .clearing h fun other hother => hclears.gone (gone other hother)
  | delivering h => exact .delivering h

/-- Every request of a join that has all outputs clears the next place, or hands on the next thing
that is to be handed on. -/
theorem Holding.serve (h : g.Holding w.store (.ask request resume) handed) (hw : w.Calm) :
    g.Holding (World.answer request w).2.store (resume (World.answer request w).1)
        (handed ++ request.dispatch?.toList) ∧
      g.Clears w.store (World.answer request w).2.store := by
  generalize ha : Activity.ask request resume = a at h
  cases h with
  | @clearing cleared rest place hplaces gone =>
    rw [clearing_cons] at ha
    cases ha
    obtain ⟨reply, hreply⟩ := w.store.exists_reply place.removal_ne_increment
    rw [World.answer_store hw.faults, hreply, World.after_store, Place.perform_removal]
    have hnext : (cleared ++ [place]) ++ rest = g.places := by simpa using hplaces
    refine ⟨.of_cleared hnext fun other hother => ?_, .next hplaces gone⟩
    rw [Store.content?_erase]
    split
    case isTrue => rfl
    case isFalse hne => exact gone other (by simpa [hne] using hother)
  | @delivering handed rest hdeliveries =>
    cases rest with
    | nil => cases ha
    | cons d rest =>
      cases ha
      exact ⟨.delivering (by rw [← hdeliveries, List.append_assoc]; rfl), .nothing⟩

/-- A join that has found all outputs, and asks for something, does not ask to read. -/
theorem eq_clearing_of_found {missing : Place → Prop}
    (h : Found g.settings g.state g.run n g.list missing (.ask request resume)) :
    .ask request resume = FanOut.clearing g.state g.list g.places ∧ ¬IsReading request := by
  generalize ha : Activity.ask request resume = a at h
  cases h with
  | all =>
    refine ⟨rfl, ?_⟩
    rw [removed, clearing_cons] at ha
    cases ha
    exact fun h => by cases h
  | missing => cases ha

/-- A place that a join misses in the turns of a schedule, it misses in those of a longer one. -/
theorem Misses.extend {place : Place} (h : g.Misses schedule i place) (j : ι) :
    g.Misses (schedule ++ [j]) i place := by
  obtain ⟨before, during, behind, rfl, hmisses⟩ := h
  exact ⟨before, during, behind ++ [j], by simp, hmisses⟩

/-- A place that is clear in a turn of a join that has begun with the metadata is one that the join
misses. -/
theorem misses_of_clear {before during : List ι} {place : Place}
    (hbegun : schedule = before ++ i :: during) (hbegins : g.Begins before i)
    (hleft : (g.after schedule).left i = .ask request resume)
    (hclear : (g.after schedule).world.store.content? place = none) :
    g.Misses (schedule ++ [i]) i place := by
  subst hbegun
  refine ⟨before, during, [], rfl, hbegins, fun result hdone => ?_, hclear⟩
  cases hleft.symm.trans hdone

/-- A join that begins finds the metadata and reads on, or comes late. -/
theorem Stage.begun (hrest : g.IsRest (g.after schedule).world.store)
    (hleft : (g.after schedule).left i = g.task) : ∃ begun,
    g.task = .ask (.store (.get g.run.keys.metadata)) begun ∧
    g.Stage (schedule ++ [i]) i (begun
      (.ok ((g.after schedule).world.store.content? (.value g.run.keys.metadata)))) [] := by
  obtain ⟨begun, htask, hnone, hsome⟩ := g.task_eq
  refine ⟨begun, htask, ?_⟩
  rcases hrest.rest (.value g.run.keys.metadata) with hsame | ⟨-, hmissing⟩
  · rw [g.complete.metadata] at hsame
    rw [hsame]
    refine .reading rfl ⟨hleft, ?_⟩ fun missing _ => hsome missing
    rw [hsame]
    exact Option.some_ne_none _
  · rw [hmissing, hnone]
    exact .late ⟨schedule, [], rfl, hleft, hmissing⟩

/-- A join that reads goes on reading: what it finds missing is among all that it comes to miss. -/
theorem Stage.read {before during : List ι} (hbegun : schedule = before ++ i :: during)
    (hbegins : g.Begins before i)
    (h : ∀ missing : Place → Prop, (∀ place, g.Misses schedule i place → missing place) →
      (Activity.ask request resume).Until IsReading (Given g.base.store missing)
        (Found g.settings g.state g.run n g.list missing))
    (hleft : (g.after schedule).left i = .ask request resume)
    (hw : (g.after schedule).world.Calm) (hrest : g.IsRest (g.after schedule).world.store)
    (hreading : IsReading request) :
    g.Stage (schedule ++ [i]) i (resume (World.answer request (g.after schedule).world).1) [] := by
  have hlonger : schedule ++ [i] = before ++ i :: (during ++ [i]) := by simp [hbegun]
  refine .reading hlonger hbegins fun missing hmissing => ?_
  have hgiven : Given g.base.store missing request
      (World.answer request (g.after schedule).world).1 :=
    hrest.given_answer hw
      (fun place hclear => hmissing place (misses_of_clear hbegun hbegins hleft hclear)) request
  cases h missing fun place hmisses => hmissing place (hmisses.extend i) with
  | final hfound => exact absurd hreading (eq_clearing_of_found hfound).2
  | ask _ hresume => exact hresume _ hgiven

/-- Every request takes a join from stage to stage. -/
theorem Stage.serve (h : g.Stage schedule i (.ask request resume) handed)
    (hleft : (g.after schedule).left i = .ask request resume)
    (hw : (g.after schedule).world.Calm) (hrest : g.IsRest (g.after schedule).world.store) :
    g.Stage (schedule ++ [i]) i (resume (World.answer request (g.after schedule).world).1)
        (handed ++ request.dispatch?.toList) ∧
      g.Clears (g.after schedule).world.store
        (World.answer request (g.after schedule).world).2.store := by
  have hworld : (g.after (schedule ++ [i])).world =
      (World.answer request (g.after schedule).world).2 :=
    congrArg Crew.world (joinsAfter_of_ask hleft)
  generalize ha : Activity.ask request resume = a at h
  cases h with
  | ready =>
    obtain ⟨begun, htask, hstage⟩ := Stage.begun hrest (hleft.trans ha)
    cases ha.trans htask
    rw [World.answer_store hw.faults]
    exact ⟨hstage, .nothing⟩
  | late h => cases ha
  | reading hbegun hbegins h =>
    subst ha
    cases h (g.Misses schedule i) fun _ hmisses => hmisses with
    | final hfound =>
      have hholding : g.Holding (g.after schedule).world.store (.ask request resume) [] :=
        (eq_clearing_of_found hfound).1 ▸ .all _
      obtain ⟨hnext, hclears⟩ := hholding.serve hw
      exact ⟨.holding (hworld ▸ hnext), hclears⟩
    | ask hreading =>
      obtain ⟨hstore, hdispatch⟩ := store_answer_of_isReading hw hreading
      rw [hdispatch, hstore]
      exact ⟨.read hbegun hbegins h hleft hw hrest hreading, .nothing⟩
  | holding h =>
    subst ha
    obtain ⟨hnext, hclears⟩ := h.serve hw
    exact ⟨.holding (hworld ▸ hnext), hclears⟩

/-- The turns of other joins leave a join at its stage. -/
theorem Stage.extend {a : Activity (Except FanOutError JoinOutcome)}
    (h : g.Stage schedule i a handed) {j : ι}
    (hclears : g.Clears (g.after schedule).world.store (g.after (schedule ++ [j])).world.store) :
    g.Stage (schedule ++ [j]) i a handed := by
  cases h with
  | ready => exact .ready
  | late h =>
    obtain ⟨before, behind, rfl, hlate⟩ := h
    exact .late ⟨before, behind ++ [j], by simp, hlate⟩
  | @reading before during a hbegun hbegins h =>
    have hlonger : schedule ++ [j] = before ++ i :: (during ++ [j]) := by simp [hbegun]
    exact .reading hlonger hbegins fun missing hmissing =>
      h missing fun place hmisses => hmissing place (hmisses.extend j)
  | holding h => exact .holding (h.clears hclears)

/-! ## All joins together -/

/-- A join that finds all outputs if nobody clears them before. -/
def Sees (g : Joinable n) (a : Activity (Except FanOutError JoinOutcome)) : Prop :=
  a = g.task ∨ a.Until IsReading (Given g.base.store fun _ => False)
    (Found g.settings g.state g.run n g.list fun _ => False)

/-- Before anything has been cleared a join goes on reading, or has all outputs. -/
theorem Sees.serve (h : g.Sees (.ask request resume)) (hw : w.Calm)
    (hstore : w.store = g.base.store) :
    g.Holding w.store (.ask request resume) [] ∨
      g.Sees (resume (World.answer request w).1) ∧ request.dispatch? = none ∧
        (World.answer request w).2.store = g.base.store := by
  rcases h with htask | huntil
  · obtain ⟨begun, hbegun, -, hsome⟩ := g.task_eq
    cases htask.trans hbegun
    rw [World.answer_store hw.faults]
    refine .inr ⟨.inr ?_, rfl, hstore⟩
    have hmetadata : w.store.content? (.value g.run.keys.metadata) =
        some g.run.metadata.toJson := by rw [hstore, g.complete.metadata]
    change (begun (.ok (w.store.content? (.value g.run.keys.metadata)))).Until _ _ _
    rw [hmetadata]
    exact hsome _
  · cases huntil with
    | final hfound =>
      refine .inl ?_
      rw [(eq_clearing_of_found hfound).1]
      exact .all _
    | ask hreading hresume =>
      obtain ⟨hunchanged, hdispatch⟩ := store_answer_of_isReading hw hreading
      refine .inr ⟨.inr (hresume _ ?_), hdispatch, hunchanged.trans hstore⟩
      cases request with
      | store c =>
        rw [World.answer_store hw.faults, hstore]
        exact .inl rfl
      | _ => trivial

/-- Nobody is done who sees all outputs and has not got them. -/
theorem Sees.not_done {result : Except FanOutError JoinOutcome} (h : g.Sees (.done result)) :
    False := by
  generalize ha : Activity.done result = a at h
  rcases h with rfl | huntil
  · obtain ⟨begun, htask, -, -⟩ := g.task_eq
    cases ha.trans htask
  · subst ha
    cases huntil with
    | final hfound =>
      generalize ha : Activity.done result = a at hfound
      cases hfound with
      | all =>
        rw [removed, clearing_cons] at ha
        cases ha
      | missing hmissing => exact hmissing

/-- What joins of one fan-out are like after the turns of a schedule: every join is at one of the
stages, nothing but places of the fan-out has been cleared, and some join has all outputs, or
nothing has been cleared at all. -/
structure Rivals (g : Joinable n) (schedule : List ι) : Prop where
  calm : (g.after schedule).world.Calm
  rest : g.IsRest (g.after schedule).world.store
  stage : ∀ i, g.Stage schedule i ((g.after schedule).left i) (g.handed schedule i)
  decided : (∃ i, g.Holding (g.after schedule).world.store ((g.after schedule).left i)
      (g.handed schedule i)) ∨
    (g.after schedule).world.store = g.base.store ∧
      ∀ i, g.Sees ((g.after schedule).left i) ∧ g.handed schedule i = []

namespace Rivals

/-- At the beginning no join has done anything, and all are at the first stage. -/
theorem begin (g : Joinable n) : g.Rivals ([] : List ι) where
  calm := g.calm
  rest := .base g
  stage _ := .ready
  decided := .inr ⟨rfl, fun _ => ⟨.inl rfl, rfl⟩⟩

section served

variable (hleft : (g.after schedule).left i = .ask request resume)

include hleft

/-- What is left of the joins when one of them has been served. -/
theorem left_served (j : ι) :
    (g.after (schedule ++ [i])).left j = Function.update (g.after schedule).left i
      (resume (World.answer request (g.after schedule).world).1) j :=
  congrArg (fun crew => Crew.left crew j) (joinsAfter_of_ask hleft)

/-- The world when one of the joins has been served. -/
theorem world_served :
    (g.after (schedule ++ [i])).world = (World.answer request (g.after schedule).world).2 :=
  congrArg Crew.world (joinsAfter_of_ask hleft)

/-- What the joins have handed on when one of them has been served. -/
theorem handed_served (j : ι) :
    g.handed (schedule ++ [i]) j =
      g.handed schedule j ++ if j = i then request.dispatch?.toList else [] := by
  have hasked : (joinsAfter g.task g.base schedule).asked? (.serve i) = some (i, request) :=
    Crew.asked?_serve hleft
  rw [Joinable.handed, joinsAsked_concat, hasked, Option.toList_some, Crew.dispatchesOf_append]
  split
  case isTrue h => rw [h, Crew.dispatchesOf_self, Joinable.handed]
  case isFalse h => rw [Crew.dispatchesOf_of_ne h, Joinable.handed]

/-- Every join is at one of the stages when one of them has been served. -/
theorem stage_served (h : g.Rivals schedule) (j : ι) :
    g.Stage (schedule ++ [i]) j ((g.after (schedule ++ [i])).left j)
        (g.handed (schedule ++ [i]) j) ∧
      g.Clears (g.after schedule).world.store (g.after (schedule ++ [i])).world.store := by
  have hstage := h.stage i
  rw [hleft] at hstage
  obtain ⟨hnext, hclears⟩ := hstage.serve hleft h.calm h.rest
  rw [← world_served hleft] at hclears
  refine ⟨?_, hclears⟩
  rw [left_served hleft, handed_served hleft]
  by_cases hj : j = i
  · subst hj
    rw [Function.update_self, if_pos rfl]
    exact hnext
  · rw [Function.update_of_ne hj, if_neg hj, List.append_nil]
    exact (h.stage j).extend hclears

/-- A join that has all outputs keeps them when a join is served. -/
theorem holding_served (h : g.Rivals schedule) {j : ι}
    (hj : g.Holding (g.after schedule).world.store ((g.after schedule).left j)
      (g.handed schedule j)) :
    g.Holding (g.after (schedule ++ [i])).world.store ((g.after (schedule ++ [i])).left j)
      (g.handed (schedule ++ [i]) j) := by
  rw [left_served hleft, handed_served hleft]
  by_cases hji : j = i
  · subst hji
    rw [hleft] at hj
    rw [Function.update_self, if_pos rfl, world_served hleft]
    exact (hj.serve h.calm).1
  · rw [Function.update_of_ne hji, if_neg hji, List.append_nil]
    exact hj.clears (h.stage_served hleft j).2

/-- When a join has been served, some join has all outputs, or all still see the same. -/
theorem decided_served (h : g.Rivals schedule) :
    (∃ j, g.Holding (g.after (schedule ++ [i])).world.store ((g.after (schedule ++ [i])).left j)
        (g.handed (schedule ++ [i]) j)) ∨
      (g.after (schedule ++ [i])).world.store = g.base.store ∧
        ∀ j, g.Sees ((g.after (schedule ++ [i])).left j) ∧ g.handed (schedule ++ [i]) j = [] := by
  rcases h.decided with ⟨j, hj⟩ | ⟨hstore, hsees⟩
  · exact .inl ⟨j, h.holding_served hleft hj⟩
  · obtain ⟨hsee, hnone⟩ := hsees i
    rw [hleft] at hsee
    rcases hsee.serve h.calm hstore with hholding | ⟨hsee, hdispatch, hnext⟩
    · refine .inl ⟨i, h.holding_served hleft ?_⟩
      rw [hleft, hnone]
      exact hholding
    · refine .inr ⟨(congrArg World.store (world_served hleft)).trans hnext, fun j => ?_⟩
      rw [left_served hleft, handed_served hleft]
      by_cases hj : j = i
      · subst hj
        rw [Function.update_self, if_pos rfl, hnone, hdispatch]
        exact ⟨hsee, rfl⟩
      · rw [Function.update_of_ne hj, if_neg hj, List.append_nil]
        exact hsees j

end served

/-- Every turn keeps what the joins are like. -/
theorem step (h : g.Rivals schedule) (i : ι) : g.Rivals (schedule ++ [i]) := by
  cases hleft : (g.after schedule).left i with
  | done result =>
    have hafter : g.after (schedule ++ [i]) = g.after schedule := joinsAfter_of_done hleft
    have hhanded (j : ι) : g.handed (schedule ++ [i]) j = g.handed schedule j := by
      rw [Joinable.handed, joinsAsked_concat, Crew.asked?, show
        (joinsAfter g.task g.base schedule).left i = _ from hleft, Joinable.handed]
      exact congrArg _ (List.append_nil _)
    refine ⟨hafter ▸ h.calm, hafter ▸ h.rest, fun j => ?_, ?_⟩
    · have hstage := (h.stage j).extend (j := i) (hafter ▸ .nothing)
      rwa [hafter, hhanded]
    · simp only [hafter, hhanded]
      exact h.decided
  | ask request resume =>
    exact
      { calm := world_served hleft ▸ h.calm.answer request
        rest := h.rest.clears (h.stage_served hleft i).2
        stage := fun j => (h.stage_served hleft j).1
        decided := h.decided_served hleft }

end Rivals

/-- Every schedule keeps what the joins are like. -/
theorem rivals_after (g : Joinable n) (schedule : List ι) : g.Rivals schedule := by
  induction schedule using List.reverseRecOn with
  | nil => exact .begin g
  | append_singleton schedule i ih => exact ih.step i

end joins

end Joinable

end Workflow.FanOut
