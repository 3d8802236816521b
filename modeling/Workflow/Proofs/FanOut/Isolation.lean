import Workflow.Proofs.FanOut.Agreement
import Workflow.Proofs.FanOut.Names
import Workflow.Proofs.Locality

/-!
# Fan-outs side by side

Fan-outs that differ in the topic or in the execution share a store, and nothing in it. However
their starts, the ends of their branches and their joins mix, each of them goes on as if it were
alone.

* **Fan-outs in use** (`FanOutUse`, `FanOutUse.tasks`): all that is done for a fan-out, as the tasks
  of a crew.
* **Restraint** (`FanOutUse.Asks`, `FanOutUse.Relies`, `FanOutUse.until_tasks`): a fan-out keeps to
  its places, as long as its joins find the metadata that it has put itself.
* **What turns keep** (`FanOuts.Settled`): they find no others.
* **Alone and beside others** (`FanOuts.Alike`): a turn of the fan-out is the same in both runs, and
  a turn of another one makes no difference.
* **Isolation** (`FanOuts.Isolated`, `FanOuts.isolated_of_apart`).
-/

namespace Workflow

open Activity

/-! ## Fan-outs in use -/

/-- A fan-out that is carried out: a Parallel state with the run in which it is entered and its
input; the states that end its branches, each with its output and a run in which it finds the record
of the fan-out; and the values of the counter with which the join is asked for, time after time. -/
structure FanOutUse where
  state : Definition
  accepted : ∃ typeName name document, Definition.ofJson typeName name document = .ok state
  isParallel : state.kind = .parallel
  run : Run
  input : Json
  settings : Settings
  ends : Fin state.body.branches.length → Definition
  lineage : ∀ i, (ends i).body.lineage = some ⟨state.name, i + 1⟩
  seen : Fin state.body.branches.length → Run
  found : ∀ i, (seen i).metadata.fanOut? state.name (seen i).executionId =
    some (.make (FanOut.enter state run) state.body.branches.length)
  outputs : Fin state.body.branches.length → Json
  counts : ℕ → Int

namespace FanOutUse

/-- What is to be done for a fan-out to a number of branches. -/
inductive Part (n : Nat) where
  | start
  | branch (i : Fin n)
  | join (delivery : Nat)
  deriving DecidableEq

/-- What comes of a part of a fan-out. -/
inductive Result where
  | started
  | counted (count : Int)
  | joined (outcome : JoinOutcome)
  deriving DecidableEq

variable (u : FanOutUse)

/-- The number of branches of a fan-out. -/
abbrev size : Nat := u.state.body.branches.length

/-- The names of the fan-out. -/
def keys : FanOutKeys := u.run.keys

/-- The metadata that a fan-out puts for its join. -/
def document : Json := (FanOut.enter u.state u.run).metadata.toJson

/-- The trigger of a join. -/
def trigger (delivery : Nat) : JoinTrigger :=
  { JoinTrigger.make u.run u.size with counterValue := u.counts delivery }

/-- The tasks of a fan-out. -/
def tasks : Part u.size → Activity (Except FanOutError Result)
  | .start => ExceptT.run do
    FanOut.start u.state u.input (FanOut.enter u.state u.run)
    return .started
  | .branch i => ExceptT.run do
    let count ← FanOut.recordBranch (u.ends i) (u.outputs i) (u.seen i)
    return .counted count
  | .join delivery => ExceptT.run do
    let outcome ← FanOut.join u.settings u.state (u.trigger delivery)
    return .joined outcome

/-! ## Restraint -/

/-- What is asked for in a part of a fan-out: calls about its own places, dispatches and pauses.
Only joins read the metadata, and if metadata are put, they are the same every time. -/
def Asks (part : Part u.size) : Request → Prop
  | .store c => u.keys.IsPlace c.subject ∧
      (c.place? = some (.value u.keys.metadata) →
        c = .put u.keys.metadata u.document ∨ c = .delete u.keys.metadata) ∧
      (c = .get u.keys.metadata → ∃ delivery, part = .join delivery)
  | .dispatch _ | .sleep _ => True
  | .now | .work _ | .connect | .send _ => False

/-- What a fan-out relies on: metadata that are read are those that it puts. -/
def Relies : (request : Request) → request.Reply → Prop
  | .store (.get key), reply =>
    key = u.keys.metadata → ∀ v, reply = (.ok (some v) : Except StoreError (Option Json)) →
      v = u.document
  | _, _ => True

variable {u} {part : Part u.size} {delivery : Nat}

/-- The start of a fan-out keeps to what is asked for at the start. -/
theorem onlyAsks_start :
    (FanOut.start u.state u.input (FanOut.enter u.state u.run)).run.OnlyAsks (u.Asks .start) := by
  refine .bindFailing (FanOut.call_onlyAsks ⟨rfl, by simp [StoreCall.place?], by simp⟩) fun _ => ?_
  refine .bindFailing (FanOut.call_onlyAsks ⟨rfl, by simp [StoreCall.place?], by simp⟩) fun _ => ?_
  refine .bindFailing (FanOut.call_onlyAsks ⟨.inl rfl, fun _ => .inl rfl, by simp⟩) fun _ => ?_
  refine .bindFailing (FanOut.call_onlyAsks ⟨rfl, by simp [StoreCall.place?], by simp⟩) fun _ => ?_
  rw [FanOut.startBranches_eq]
  exact (FanOut.handAll_onlyAsks fun _ _ => trivial).liftM

/-- The end of a branch keeps to what is asked for at the end of a branch. -/
theorem onlyAsks_recordBranch (i : Fin u.size) :
    (FanOut.recordBranch (u.ends i) (u.outputs i) (u.seen i)).run.OnlyAsks
      (u.Asks (.branch i)) := by
  have hput : u.Asks (.branch i) (.store (.put (u.keys.branchOutput (i + 1)) (u.outputs i))) :=
    ⟨.inr ⟨i + 1, rfl⟩, by simp [StoreCall.place?, FanOutKeys.branchOutput_ne_metadata], by simp⟩
  have hplace := FanOut.branchPlace_of_found i (u.lineage i) (u.found i)
  rw [FanOut.recordBranch, hplace, run_lift_bind_ok]
  refine .bindFailing (FanOut.call_onlyAsks hput) fun _ => ?_
  refine .bindFailing (FanOut.call_onlyAsks ⟨rfl, by simp [StoreCall.place?], by simp⟩) fun _ => ?_
  exact FanOut.call_onlyAsks ⟨rfl, by simp [StoreCall.place?], by simp⟩

/-- If the metadata can be read at all, they hold the record of the fan-out. -/
theorem storedRecord_document (delivery : Nat) :
    (∃ e, FanOut.storedRecord u.state (u.trigger delivery) u.document = .error e) ∨
      FanOut.storedRecord u.state (u.trigger delivery) u.document = .ok (.make u.run u.size) := by
  obtain ⟨typeName, name, document, haccepted⟩ := u.accepted
  have hrange : (FanOutRecord.make u.run u.size).InRange := FanOutRecord.inRange_make u.run
    (Definition.branches_of_ofJson haccepted u.isParallel).2
  cases hread : Metadata.ofJson? u.document with
  | none =>
    refine .inl ⟨.unreadableMetadata (u.trigger delivery).metadataKey, ?_⟩
    simp only [FanOut.storedRecord, hread]
  | some read =>
    have hfound : read.fanOut? u.state.name (u.trigger delivery).executionId =
        some (.make u.run u.size) :=
      Metadata.fanOut?_of_ofJson?_toJson hread (Metadata.fanOut?_setFanOut _ _ _ _) hrange
    exact .inr (by simp only [FanOut.storedRecord, hread, hfound])

/-- What a join removes are places of the fan-out. -/
theorem asks_removal (finished : List String) {place : Place}
    (h : place ∈ FanOut.removed (.make u.run u.size) u.keys.metadata
      ((FanOutRecord.make u.run u.size).branchOutputs.filter (· ∈ finished))) :
    u.Asks part (.store place.removal) := by
  have hplace : u.keys.IsPlace place := by
    simp only [FanOut.removed, List.mem_cons, List.mem_append, List.mem_map, List.mem_filter,
      List.not_mem_nil, or_false] at h
    rcases h with rfl | rfl | rfl | ⟨key, ⟨hkey, -⟩, rfl⟩ | rfl
    · rfl
    · rfl
    · exact .inl rfl
    · obtain ⟨index, -, rfl⟩ := List.mem_map.mp hkey
      exact .inr ⟨index + 1, rfl⟩
    · rfl
  cases place with
  | value key =>
    refine ⟨hplace, fun hkey => .inr ?_, by simp [Place.removal]⟩
    rw [Place.value.inj (Option.some.inj hkey)]
    rfl
  | _ => exact ⟨hplace, by simp [StoreCall.place?, Place.removal], by simp [Place.removal]⟩

/-- A join keeps to what is asked for by a join, as long as the metadata that it reads are those of
its fan-out. -/
theorem until_join (delivery : Nat) :
    (FanOut.join u.settings u.state (u.trigger delivery)).run.Until (u.Asks (.join delivery))
      u.Relies (Over fun _ => True) := by
  unfold FanOut.join
  refine FanOut.until_call_bind ⟨.inl rfl, by simp [StoreCall.place?], fun _ => ⟨delivery, rfl⟩⟩
    (fun found hfound => ?_) fun e _ => ⟨_, rfl, trivial⟩
  cases found with
  | none => exact .final ⟨_, rfl, trivial⟩
  | some stored =>
    obtain rfl : stored = u.document := hfound rfl stored rfl
    rcases storedRecord_document (u := u) delivery with ⟨e, herror⟩ | hrecord
    · simp only [herror]
      exact .final ⟨_, rfl, trivial⟩
    · simp only [hrecord, run_lift_bind_ok]
      -- From here on the join keeps to the places of the record, whatever it is answered.
      refine .of_onlyAsks ?_
      refine .bindFailing (FanOut.call_onlyAsks ⟨rfl, by simp [StoreCall.place?], by simp⟩)
        fun finished => ?_
      split
      · trivial
      · refine .bindFailing (FanOut.collect_onlyAsks (fun key hkey => ?_) trivial finished)
          fun outputs => ?_
        · obtain ⟨index, -, rfl⟩ := List.mem_map.mp hkey
          refine ⟨.inr ⟨index + 1, rfl⟩, by simp [StoreCall.place?], fun _ => ⟨delivery, rfl⟩⟩
        · have hlast : (do
              FanOut.proceed u.state (.array outputs)
              return .joined outputs (((u.trigger delivery).counterValue.natAbs ==
                (FanOutRecord.make u.run u.size).threshold)) :
              ExceptT FanOutError Activity JoinOutcome).run.OnlyAsks (u.Asks (.join delivery)) := by
            rw [FanOut.proceed_eq]
            exact .bindFailing (FanOut.handAll_onlyAsks fun _ _ => trivial).liftM fun _ => trivial
          split
          · exact .bindFailing
              (FanOut.cleanUp_onlyAsks fun place hplace => asks_removal finished hplace)
              fun _ => hlast
          · exact hlast

/-- Every part of a fan-out keeps to its places. -/
theorem until_tasks (part : Part u.size) :
    (u.tasks part).Until (u.Asks part) u.Relies (Over fun _ => True) := by
  cases part with
  | start =>
    exact (Until.of_onlyAsks onlyAsks_start).bindFailing (fun _ _ => .final ⟨_, rfl, trivial⟩)
      fun e _ => ⟨_, rfl, trivial⟩
  | branch i =>
    exact (Until.of_onlyAsks (onlyAsks_recordBranch i)).bindFailing
      (fun _ _ => .final ⟨_, rfl, trivial⟩) fun e _ => ⟨_, rfl, trivial⟩
  | join delivery =>
    exact (until_join delivery).bindFailing (fun _ _ => .final ⟨_, rfl, trivial⟩)
      fun e _ => ⟨_, rfl, trivial⟩

/-- In a calm world a fan-out can rely on what it relies on if its metadata are the only ones at
their place. -/
theorem relies_answer {w : World} (hw : w.Calm) {request : Request}
    (h : request = .store (.get u.keys.metadata) →
      ∀ v, w.store.content? (.value u.keys.metadata) = some v → v = u.document) :
    u.Relies request (World.answer request w).1 := by
  cases request with
  | store c =>
    cases c with
    | get key =>
      rintro rfl v hv
      rw [World.answer_store hw.faults] at hv
      exact h rfl v (Except.ok.inj hv)
    | _ => trivial
  | _ => trivial

end FanOutUse

/-! ## What turns keep -/

namespace FanOuts

variable {φ : Type} (uses : φ → FanOutUse)

/-- The parts of all fan-outs. -/
abbrev Member : Type := (a : φ) × FanOutUse.Part (uses a).size

/-- All fan-outs, each with what is left of its parts. -/
abbrev Company : Type := Crew (Member uses) (Except FanOutError FanOutUse.Result)

/-- The tasks of the parts. -/
def tasks (m : Member uses) : Activity (Except FanOutError FanOutUse.Result) :=
  (uses m.1).tasks m.2

/-- Joins of a fan-out find no metadata of others: there were none at the beginning, or it has put
its own since. -/
def Prepared (w : World) (asked : List (Member uses × Request)) (a : φ) : Prop :=
  w.store.content? (.value (uses a).keys.metadata) = none ∨
    (⟨a, .start⟩, .store (.put (uses a).keys.metadata (uses a).document)) ∈ asked

/-- No two of the fan-outs know each other. -/
def AllApart : Prop := ∀ a b, a ≠ b → (uses a).run.Apart (uses b).run

/-- What is left of a part keeps to the places of its fan-out. -/
def Keeps (m : Member uses) (a : Activity (Except FanOutError FanOutUse.Result)) : Prop :=
  a.Until ((uses m.1).Asks m.2) (uses m.1).Relies (Over fun _ => True)

/-- What fan-outs are like that have begun in a world and have asked for these things: all parts
keep to the places of their fan-outs, and a fan-out that is prepared finds no metadata but its
own. -/
structure Settled (w : World) (crew : Company uses) (asked : List (Member uses × Request)) :
    Prop where
  calm : crew.world.Calm
  keeps : ∀ m, Keeps uses m (crew.left m)
  metadata : ∀ a, Prepared uses w asked a →
    ∀ v, crew.world.store.content? (.value (uses a).keys.metadata) = some v →
      v = (uses a).document

variable {uses} {w : World} {crew : Company uses} {log : List (Member uses × Request)}

/-- A call about a place of one fan-out changes no place of another one. -/
theorem AllApart.place?_ne (h : AllApart uses) {a b : φ} (hab : a ≠ b)
    {part : FanOutUse.Part (uses b).size} {c : StoreCall} (hc : (uses b).Asks part (.store c))
    {place : Place} (hplace : (uses a).keys.IsPlace place) : c.place? ≠ some place := by
  intro heq
  rw [← StoreCall.subject_of_place? heq] at hplace
  exact (h a b hab).not_isPlace hplace hc.1

/-- Only its start prepares a fan-out. -/
theorem Prepared.of_append {a : φ} {m : Member uses} {request : Request}
    (h : Prepared uses w (log ++ [(m, request)]) a)
    (hrequest : request ≠ .store (.put (uses a).keys.metadata (uses a).document)) :
    Prepared uses w log a := by
  refine h.imp id fun hmem => ?_
  rcases List.mem_append.mp hmem with hmem | hmem
  · exact hmem
  · rw [List.mem_singleton, Prod.mk.injEq] at hmem
    exact absurd hmem.2.symm hrequest

namespace Settled

/-- At the beginning the fan-outs are settled, as nothing has been asked for. -/
theorem begin (hw : w.Calm) : Settled uses w (Crew.begin (tasks uses) w) [] where
  calm := hw
  keeps m := FanOutUse.until_tasks m.2
  metadata a hprepared v hv := by
    rcases hprepared with hnone | hmem
    · exact absurd (hv.symm.trans hnone) (by simp)
    · exact absurd hmem List.not_mem_nil

/-- What is left of a part keeps to what the part may ask for. -/
theorem keeps_of_left (h : Settled uses w crew log) {m : Member uses}
    {a : Activity (Except FanOutError FanOutUse.Result)} (hleft : crew.left m = a) :
    a.Until ((uses m.1).Asks m.2) (uses m.1).Relies (Over fun _ => True) :=
  hleft ▸ h.keeps m

/-- A request of any part leaves a fan-out with its own metadata, or without. -/
theorem metadata_answer (h : Settled uses w crew log) (hapart : AllApart uses) {m : Member uses}
    {request : Request} (hrequest : (uses m.1).Asks m.2 request) (a : φ)
    (hprepared : Prepared uses w (log ++ [(m, request)]) a) (v : Json)
    (hv : (World.answer request crew.world).2.store.content?
      (.value (uses a).keys.metadata) = some v) : v = (uses a).document := by
  by_cases hplace : ∃ c, request = .store c ∧ c.place? = some (.value (uses a).keys.metadata)
  · obtain ⟨c, rfl, hc⟩ := hplace
    obtain rfl : a = m.1 := by
      by_contra hne
      exact hapart.place?_ne hne hrequest (FanOutKeys.isPlace_metadata _) hc
    rw [World.answer_store h.calm.faults] at hv
    rcases hrequest.2.1 hc with rfl | rfl
    · exact (Option.some.inj ((Store.content?_perform_put _ _).symm.trans hv)).symm
    · exact absurd (hv.symm.trans (Table.get?_remove_self _ _)) (by simp)
  · rw [h.calm.content?_answer fun c hc hplace' => hplace ⟨c, hc, hplace'⟩] at hv
    refine h.metadata a (hprepared.of_append ?_) v hv
    rintro rfl
    exact hplace ⟨_, rfl, rfl⟩

variable [DecidableEq φ]

/-- Every turn leaves the fan-outs settled. -/
theorem step (h : Settled uses w crew log) (hapart : AllApart uses) {turn : Turn (Member uses)}
    (horderly : ∀ a delivery, turn = .serve ⟨a, .join delivery⟩ → Prepared uses w log a)
    (hspare : ∀ c, turn = .foreign c → ∀ a place, (uses a).keys.IsPlace place →
      c.place? ≠ some place) :
    Settled uses w (crew.step (tasks uses) (fun _ => true) turn)
      (log ++ (crew.asked? turn).toList) := by
  have hstep := Crew.step_spec (tasks uses) (fun _ => true) crew turn
  generalize crew.step (tasks uses) (fun _ => true) turn = next at hstep ⊢
  have hnothing (hasked : crew.asked? turn = none) : log ++ (crew.asked? turn).toList = log := by
    rw [hasked, Option.toList_none, List.append_nil]
  cases hstep with
  | idle hidle =>
    rw [hnothing hidle]
    exact h
  | @served m request resume hleft hturn =>
    obtain ⟨hrequest, hresume⟩ := (h.keeps_of_left hleft).of_ask
    rw [hturn, Crew.asked?_serve hleft, Option.toList_some]
    refine ⟨h.calm.answer request, ?_, h.metadata_answer hapart hrequest⟩
    refine (Function.forall_update_iff _ (Keeps uses)).mpr ⟨?_, fun other _ => h.keeps other⟩
    refine hresume _ (FanOutUse.relies_answer h.calm fun hget => ?_)
    subst hget
    obtain ⟨delivery, hjoin⟩ := hrequest.2.2 rfl
    exact h.metadata m.1 (horderly m.1 delivery (hturn.trans (by rw [← hjoin])))
  | @refused m c resume e hleft hturn =>
    obtain ⟨-, hresume⟩ := (h.keeps_of_left hleft).of_ask
    rw [hnothing (hturn ▸ rfl)]
    refine ⟨h.calm, ?_, h.metadata⟩
    refine (Function.forall_update_iff _ (Keeps uses)).mpr
      ⟨hresume _ ?_, fun other _ => h.keeps other⟩
    cases c with
    | get key => exact fun _ v hv => by cases hv
    | _ => trivial
  | @retried m result hleft hagain hturn =>
    rw [hnothing (hturn ▸ rfl)]
    refine ⟨h.calm, ?_, h.metadata⟩
    exact (Function.forall_update_iff _ (Keeps uses)).mpr
      ⟨FanOutUse.until_tasks m.2, fun other _ => h.keeps other⟩
  | @foreign c hturn =>
    rw [hnothing (hturn ▸ rfl)]
    refine ⟨h.calm.answer _, h.keeps, fun a hprepared v hv => ?_⟩
    rw [h.calm.content?_answer fun other hother => ?_] at hv
    · exact h.metadata a hprepared v hv
    · cases hother
      exact hspare c hturn a _ (FanOutKeys.isPlace_metadata _)

end Settled

/-! ## Alone and beside others -/

/-- From within a fan-out two companies look alike: the same is left of its parts, and the same
stands at its places. -/
structure Alike (a : φ) (crew alone : Company uses) : Prop where
  left : ∀ part, crew.left ⟨a, part⟩ = alone.left ⟨a, part⟩
  world : World.Agree (uses a).keys.IsPlace crew.world alone.world
  calm : alone.world.Calm

namespace Alike

variable {a : φ} {alone : Company uses} {turn : Turn (Member uses)}

/-- A request of the fan-out has the same answer in two companies that look alike, and the same
effect for it. -/
theorem answer (h : Alike a crew alone) (hcalm : crew.world.Calm)
    {part : FanOutUse.Part (uses a).size} {request : Request}
    (hrequest : (uses a).Asks part request) :
    (World.answer request crew.world).1 = (World.answer request alone.world).1 ∧
      World.Agree (uses a).keys.IsPlace (World.answer request crew.world).2
        (World.answer request alone.world).2 := by
  cases request with
  | store c =>
    refine h.world.store hcalm h.calm hrequest.1 fun name hname => ?_
    exact congrArg triggerKey hname
  | dispatch d =>
    exact ⟨rfl, h.world.of_eq (hcalm.unchanged (by simp)) (h.calm.unchanged (by simp))⟩
  | sleep d =>
    exact ⟨rfl, h.world.of_eq (hcalm.unchanged (by simp)) (h.calm.unchanged (by simp))⟩
  | now | work input | connect | send bytes => exact hrequest.elim

variable [DecidableEq φ]

/-- Two companies stay alike when both answer the same request of the fan-out. -/
theorem served (h : Alike a crew alone) {part : FanOutUse.Part (uses a).size}
    {rest rest' : Activity (Except FanOutError FanOutUse.Result)} (hrest : rest = rest')
    {v v' : World} (hworld : World.Agree (uses a).keys.IsPlace v v') (hcalm : v'.Calm) :
    Alike a ⟨v, Function.update crew.left ⟨a, part⟩ rest⟩
      ⟨v', Function.update alone.left ⟨a, part⟩ rest'⟩ where
  left other := by simp only [Function.update_apply, h.left, hrest]
  world := hworld
  calm := hcalm

/-- Whether a turn is one of a part of the fan-out. -/
def isOf (a : φ) : Turn (Member uses) → Bool
  | .serve m | .refuse m _ | .retry m => m.1 = a
  | .foreign _ => false

/-- A turn of the fan-out leaves the same of its parts, and the same at its places, in both
companies. -/
theorem own (h : Alike a crew alone) (hsettled : Settled uses w crew log)
    (hturn : isOf a turn = true) :
    (crew.asked? turn).toList.filter (fun entry => entry.1.1 = a) =
        (alone.asked? turn).toList ∧
      Alike a (crew.step (tasks uses) (fun _ => true) turn)
        (alone.step (tasks uses) (fun _ => true) turn) := by
  cases turn with
  | serve m =>
    obtain ⟨b, part⟩ := m
    obtain rfl : b = a := of_decide_eq_true hturn
    cases hleft : alone.left ⟨b, part⟩ with
    | done result =>
      simp only [Crew.asked?, Crew.step, h.left part, hleft]
      exact ⟨rfl, h⟩
    | ask request resume =>
      have hasks := (hsettled.keeps_of_left ((h.left part).trans hleft)).of_ask
      obtain ⟨hreply, hworld⟩ := h.answer hsettled.calm hasks.1
      simp only [Crew.asked?, Crew.step, h.left part, hleft]
      exact ⟨by simp, h.served (congrArg resume hreply) hworld (h.calm.answer request)⟩
  | refuse m e =>
    obtain ⟨b, part⟩ := m
    obtain rfl : b = a := of_decide_eq_true hturn
    refine ⟨rfl, ?_⟩
    rw [Crew.step, Crew.step, h.left part]
    split
    · exact h.served rfl h.world h.calm
    · exact h
  | retry m =>
    obtain ⟨b, part⟩ := m
    obtain rfl : b = a := of_decide_eq_true hturn
    refine ⟨rfl, ?_⟩
    rw [Crew.step, Crew.step, h.left part]
    split
    · exact h.served rfl h.world h.calm
    · exact h
  | foreign c => cases hturn

/-- A turn of another fan-out, or of somebody else, makes no difference. -/
theorem other (h : Alike a crew alone) (hsettled : Settled uses w crew log)
    (hapart : AllApart uses) (hturn : isOf a turn = false)
    (hspare : ∀ c, turn = .foreign c → ∀ a place, (uses a).keys.IsPlace place →
      c.place? ≠ some place) :
    (crew.asked? turn).toList.filter (fun entry => entry.1.1 = a) = [] ∧
      Alike a (crew.step (tasks uses) (fun _ => true) turn) alone := by
  have hstep := Crew.step_spec (tasks uses) (fun _ => true) crew turn
  generalize crew.step (tasks uses) (fun _ => true) turn = next at hstep ⊢
  have hleft {m : Member uses} (hm : m.1 ≠ a)
      (rest : Activity (Except FanOutError FanOutUse.Result)) (part) :
      Function.update crew.left m rest ⟨a, part⟩ = alone.left ⟨a, part⟩ := by
    rw [Function.update_of_ne (fun heq => hm (congrArg Sigma.fst heq).symm), h.left]
  cases hstep with
  | idle hidle =>
    rw [hidle]
    exact ⟨rfl, h⟩
  | @served m request resume hm hserve =>
    subst hserve
    have hne : m.1 ≠ a := of_decide_eq_false hturn
    rw [Crew.asked?_serve hm]
    refine ⟨by simp [hne], hleft hne _, ?_, h.calm⟩
    have hasks := ((hsettled.keeps_of_left hm).of_ask).1
    by_cases hstore : ∃ c, request = .store c
    · obtain ⟨c, rfl⟩ := hstore
      exact h.world.elsewhere hsettled.calm fun place hplace =>
        hapart.place?_ne (Ne.symm hne) hasks hplace
    · exact h.world.of_eq (hsettled.calm.unchanged fun c hc => hstore ⟨c, hc⟩) ⟨rfl, rfl, rfl⟩
  | @refused m c resume e hm hrefuse =>
    subst hrefuse
    exact ⟨rfl, hleft (of_decide_eq_false hturn) _, h.world, h.calm⟩
  | @retried m result hm hagain hretry =>
    subst hretry
    exact ⟨rfl, hleft (of_decide_eq_false hturn) _, h.world, h.calm⟩
  | @foreign c hforeign =>
    subst hforeign
    exact ⟨rfl, h.left, h.world.elsewhere hsettled.calm (hspare c rfl a), h.calm⟩

end Alike

/-! ## Isolation -/

section isolation

variable [DecidableEq φ]

variable (uses) in
/-- The fan-outs after turns, in which any part may begin anew. -/
def after (w : World) (turns : List (Turn (Member uses))) : Company uses :=
  (Crew.begin (tasks uses) w).run (tasks uses) (fun _ => true) turns

variable (uses) in
/-- What has been asked for in the course of turns. -/
def asked (w : World) (turns : List (Turn (Member uses))) : List (Member uses × Request) :=
  (Crew.begin (tasks uses) w).asked (tasks uses) (fun _ => true) turns

/-- Turns are made up to the last one, and then the last one. -/
theorem after_concat (w : World) (turns : List (Turn (Member uses))) (turn : Turn (Member uses)) :
    after uses w (turns ++ [turn]) = (after uses w turns).step (tasks uses) (fun _ => true) turn :=
  Crew.run_concat ..

/-- The last of some turns answers the last request. -/
theorem asked_concat (w : World) (turns : List (Turn (Member uses))) (turn : Turn (Member uses)) :
    asked uses w (turns ++ [turn]) =
      asked uses w turns ++ ((after uses w turns).asked? turn).toList :=
  Crew.asked_concat ..

/-- Joins come after the start of their fan-out, unless there is nothing that they could take for
its metadata. -/
def Orderly (w : World) (turns : List (Turn (Member uses))) : Prop :=
  ∀ before behind a delivery, turns = before ++ .serve ⟨a, .join delivery⟩ :: behind →
    Prepared uses w (asked uses w before) a

/-- A fan-out goes on beside others as it would with its own turns alone: it comes to the same
results, asks for the same things in the same order, and leaves the same at its places, and its
counter fires the same. -/
structure Isolated (w : World) (turns : List (Turn (Member uses))) (a : φ) : Prop where
  left : ∀ part, (after uses w turns).left ⟨a, part⟩ =
    (after uses w (turns.filter (Alike.isOf a))).left ⟨a, part⟩
  asked : (asked uses w turns).filter (fun entry => entry.1.1 = a) =
    asked uses w (turns.filter (Alike.isOf a))
  content : ∀ place, (uses a).keys.IsPlace place →
    (after uses w turns).world.store.content? place =
      (after uses w (turns.filter (Alike.isOf a))).world.store.content? place
  fired : (after uses w turns).world.firedOf (uses a).keys.counter =
    (after uses w (turns.filter (Alike.isOf a))).world.firedOf (uses a).keys.counter

variable {turns : List (Turn (Member uses))}

/-- Turns keep what is settled, and a fan-out beside others and alone alike. -/
theorem settled_and_alike (hapart : AllApart uses) (hw : w.Calm) (horderly : Orderly w turns)
    (hspare : ∀ c, .foreign c ∈ turns → ∀ a place, (uses a).keys.IsPlace place →
      c.place? ≠ some place) (a : φ) :
    Settled uses w (after uses w turns) (asked uses w turns) ∧
      Alike a (after uses w turns) (after uses w (turns.filter (Alike.isOf a))) ∧
      (asked uses w turns).filter (fun entry => entry.1.1 = a) =
        asked uses w (turns.filter (Alike.isOf a)) := by
  induction turns using List.reverseRecOn with
  | nil => exact ⟨.begin hw, ⟨fun _ => rfl, .refl _ _, hw⟩, rfl⟩
  | append_singleton turns turn ih =>
    obtain ⟨hsettled, halike, hasked⟩ := ih
      (fun before behind a delivery hsplit => horderly before (behind ++ [turn]) a delivery
        (by rw [hsplit, List.append_assoc, List.cons_append]))
      fun c hc => hspare c (List.mem_append_left _ hc)
    have hforeign (c : StoreCall) (hc : turn = .foreign c) := hspare c (by simp [hc])
    have hjoin (b : φ) (delivery : ℕ) (hturn : turn = .serve ⟨b, .join delivery⟩) :
        Prepared uses w (FanOuts.asked uses w turns) b :=
      horderly turns [] b delivery (by rw [hturn])
    rw [after_concat, asked_concat, List.filter_append, List.filter_append, hasked]
    refine ⟨hsettled.step hapart hjoin hforeign, ?_⟩
    cases hturn : Alike.isOf a turn with
    | true =>
      obtain ⟨hsame, hnext⟩ := halike.own hsettled hturn
      have hown : [turn].filter (Alike.isOf a) = [turn] := by simp [hturn]
      rw [hown, after_concat, asked_concat, hsame]
      exact ⟨hnext, rfl⟩
    | false =>
      obtain ⟨hnothing, hnext⟩ := halike.other hsettled hapart hturn hforeign
      have hnone : [turn].filter (Alike.isOf a) = [] := by simp [hturn]
      rw [hnothing, hnone, List.append_nil, List.append_nil]
      exact ⟨hnext, rfl⟩

/-- Fan-outs that differ in the topic or in the execution, with execution ids that are the same or
have no underscores, as those of runs that are started, do not meet. Their names differ in every
table, those of the branches of one fan-out differ as well, and so do those of their records in the
metadata of a run. However their starts, the ends of their branches and their joins mix, fail and
begin anew, each of them goes on as if it were alone. -/
theorem isolated_of_apart :
    (∀ r s : Run, r.Apart s → ∀ place, r.keys.IsPlace place → ¬s.keys.IsPlace place) ∧
    (∀ keys : FanOutKeys, Function.Injective keys.branchOutput) ∧
    (∀ state other id otherId, Text.Separable id otherId →
      Metadata.fanOutKey state id = Metadata.fanOutKey other otherId →
        state = other ∧ id = otherId) ∧
    (∀ millis random, '_' ∉ (timeOrderedId millis random).toList) ∧
    ∀ {φ : Type} [DecidableEq φ] (uses : φ → FanOutUse) (w : World)
      (turns : List (Turn (Member uses))), AllApart uses → w.Calm → Orderly w turns →
      (∀ c, .foreign c ∈ turns → ∀ a place, (uses a).keys.IsPlace place →
        c.place? ≠ some place) → ∀ a, Isolated w turns a := by
  refine ⟨fun r s h place => h.not_isPlace, FanOutKeys.branchOutput_injective,
    fun state other id otherId h => Metadata.fanOutKey_injective h,
    underscore_notMem_timeOrderedId, ?_⟩
  intro φ _ uses w turns hapart hw horderly hspare a
  obtain ⟨-, halike, hasked⟩ := settled_and_alike hapart hw horderly hspare a
  exact ⟨halike.left, hasked, halike.world.content, halike.world.fired _ rfl⟩

end isolation

/-! ### The same state in two executions -/

/-- The fan-out of a state to two branches in an execution. -/
def pairUse (executionId : String) : FanOutUse where
  state := FanOut.pair
  accepted := ⟨_, _, _, FanOut.ofJson_pairDocument⟩
  isParallel := rfl
  run := .make executionId "wf_Pair"
  input := .null
  settings := {}
  ends := FanOut.pairBranches.ends
  lineage := FanOut.pairBranches.lineage
  seen _ := FanOut.enter FanOut.pair (.make executionId "wf_Pair")
  found _ := FanOut.fanOut?_enter _ _
  outputs i := .array [.string executionId, .nat i]
  counts _ := 2

/-- The fan-out of one state in two executions. -/
def twins (isSecond : Bool) : FanOutUse := pairUse (if isSecond then "run2" else "run1")

/-- The two executions take turns with a part, so many times. -/
def inTurns (times : Nat) (part : FanOutUse.Part 2) : List (Turn (Member twins)) :=
  (List.replicate times [.serve ⟨false, part⟩, .serve ⟨true, part⟩]).flatten

/-- The fan-outs of `twins` take turns from their starts to the ends of their joins. -/
def twinTurns : List (Turn (Member twins)) :=
  inTurns 6 .start ++ inTurns 3 (.branch 0) ++ inTurns 3 (.branch 1) ++ inTurns 11 (.join 0)

/-- The names of `twins` differ, and after `twinTurns` the second one has joined its own outputs. -/
theorem twins_isolated :
    ¬(twins true).keys.IsPlace (.counter (twins false).keys.counter) ∧
      (after twins {} twinTurns).left ⟨true, .join 0⟩ = .done (.ok (.joined (.joined
        [.array [.string "run2", .nat 0], .array [.string "run2", .nat 1]] true))) := by
  have hapart : AllApart twins := by
    intro a b hab
    cases a <;> cases b <;> first
      | exact absurd rfl hab
      | exact ⟨by decide, .inr ⟨by decide, by decide⟩⟩
  have horderly : Orderly {} twinTurns := fun _ _ _ _ _ => .inl rfl
  have hspare (c : StoreCall) (hc : .foreign c ∈ twinTurns) : False := by
    simp [twinTurns, inTurns] at hc
  obtain ⟨hplaces, -, -, -, hisolated⟩ := isolated_of_apart
  have htwin := hisolated twins {} twinTurns hapart ⟨rfl, rfl⟩ horderly
    (fun c hc => (hspare c hc).elim) true
  refine ⟨hplaces _ _ (hapart false true (by decide)) _ rfl, ?_⟩
  rw [htwin.left (.join 0)]
  exact Activity.eq_done_of_result? (by decide +kernel)

end FanOuts

end Workflow
