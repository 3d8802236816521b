import Workflow.Proofs.FanOut.Join

/-!
# What a join comes to

A join takes what it does from two sources: from the trigger the count, and from the record in the
store everything else. Both may be of any kind, not only such as a fan-out leaves: the record may
name any places and any thresholds, the set may have members that are no outputs, and the count may
be any number.

* **What a join finds** (`FanOut.FindsRecord`, `FanOut.gathered`, `FanOut.entered`): the record, the
  outputs that it calls for, and those of them that are in the set.
* **Effects** (`FanOut.JoinEffect`): the result of a join with the store that it leaves and what it
  hands on, one case for each of its ends.
* **Ends of the parts** (`FanOut.yields_reading`, `FanOut.collect_timeout`): a reading leaves no
  trace, and neither do readings in vain.
* **The join** (`FanOut.JoinEffect.yields`, `FanOut.exists_joinEffect`): a join has its effect, and
  there is always one; `FanOut.join_has_effect` is the whole account.
-/

namespace Workflow.FanOut

/-! ## What a join finds -/

/-- Under the metadata key of a trigger stands a document that can be read as metadata, and these
hold the record of a state's fan-out in the execution of the trigger. -/
def FindsRecord (d : Definition) (trigger : JoinTrigger) (s : Store) (record : FanOutRecord) :
    Prop :=
  ∃ stored metadata, s.content? (.value trigger.metadataKey) = some stored ∧
    Metadata.ofJson? stored = some metadata ∧
    metadata.fanOut? d.name trigger.executionId = some record

/-- A join whose trigger leads to the record of the state reads this record from the store. -/
theorem FindsRecord.exists_stored {d : Definition} {trigger : JoinTrigger} {s : Store}
    {record : FanOutRecord} (h : FindsRecord d trigger s record) :
    ∃ stored, s.content? (.value trigger.metadataKey) = some stored ∧
      storedRecord d trigger stored = .ok record := by
  obtain ⟨stored, metadata, hstored, hread, hrecord⟩ := h
  exact ⟨stored, hstored, by simp only [storedRecord, hread, hrecord]⟩

/-- The outputs that a record calls for, in its order: those whose names are in the set, and null
for the others. -/
def gathered (s : Store) (record : FanOutRecord) : List Json :=
  record.branchOutputs.map fun key =>
    if key ∈ s.membersOf record.outputSet then (s.content? (.value key)).getD .null else .null

/-- The names in a record that are in the set. -/
def entered (s : Store) (record : FanOutRecord) : List String :=
  record.branchOutputs.filter (· ∈ s.membersOf record.outputSet)

/-! ## Effects -/

/-- What a join comes to in a world, with the store that it leaves and what it hands on. -/
inductive JoinEffect (settings : Settings) (d : Definition) (trigger : JoinTrigger) (w : World) :
    Except FanOutError JoinOutcome → Store → List Dispatch → Prop
  /-- Some outputs may be missing. -/
  | partly {record : FanOutRecord} (found : FindsRecord d trigger w.store record)
      (begun : w.store.membersOf record.outputSet ≠ [])
      (put : ∀ key ∈ entered w.store record, w.store.content? (.value key) ≠ none)
      (count : trigger.counterValue.natAbs ≠ record.threshold) :
      JoinEffect settings d trigger w (.ok (.joined (gathered w.store record) false)) w.store
        (handedOn d (.array (gathered w.store record)))
  /-- All outputs are there, and nothing in the store is needed any more. -/
  | fully {record : FanOutRecord} (found : FindsRecord d trigger w.store record)
      (begun : w.store.membersOf record.outputSet ≠ [])
      (put : ∀ key ∈ entered w.store record, w.store.content? (.value key) ≠ none)
      (count : trigger.counterValue.natAbs = record.threshold) :
      JoinEffect settings d trigger w (.ok (.joined (gathered w.store record) true))
        (w.store.without (removed record trigger.metadataKey (entered w.store record)))
        (handedOn d (.array (gathered w.store record)))
  /-- There are no metadata. -/
  | alreadyJoined (missing : w.store.content? (.value trigger.metadataKey) = none) :
      JoinEffect settings d trigger w (.ok .alreadyJoined) w.store []
  /-- What stands there are no metadata. -/
  | unreadable {stored : Json}
      (present : w.store.content? (.value trigger.metadataKey) = some stored)
      (corrupt : Metadata.ofJson? stored = none) :
      JoinEffect settings d trigger w (.error (.unreadableMetadata trigger.metadataKey)) w.store []
  /-- The metadata do not have the record. -/
  | noRecord {stored : Json} {metadata : Metadata}
      (present : w.store.content? (.value trigger.metadataKey) = some stored)
      (read : Metadata.ofJson? stored = some metadata)
      (missing : metadata.fanOut? d.name trigger.executionId = none) :
      JoinEffect settings d trigger w (.error (.recordNotFound d.name trigger.executionId)) w.store
        []
  /-- There is no set, or it has no members. -/
  | emptySet {record : FanOutRecord} (found : FindsRecord d trigger w.store record)
      (empty : w.store.membersOf record.outputSet = []) :
      JoinEffect settings d trigger w (.error (.emptyOutputSet record.outputSet)) w.store []
  /-- A name is in the set, but its output is not there, and nobody is going to put it. -/
  | timedOut {record : FanOutRecord} {before after : List String} {key : String}
      (found : FindsRecord d trigger w.store record)
      (first : entered w.store record = before ++ key :: after)
      (put : ∀ key ∈ before, w.store.content? (.value key) ≠ none)
      (missing : w.store.content? (.value key) = none) (alone : w.later = []) :
      JoinEffect settings d trigger w (.error (.outputTimeout key settings.pollReads)) w.store []

/-! ## Ends of the parts -/

section parts

variable {α β : Type} {w : World} {settings : Settings}

/-- What ends at once has changed nothing. -/
theorem yields_done (w : World) (result : Except FanOutError α) :
    w.Yields (.done result) result w.store [] := ⟨w, .refl w, rfl⟩

/-- What has been done before without handing anything on does not keep the rest from having its
effect. -/
theorem yields_of_outcome {v : World} {earlier store : Store} {handed : List Dispatch}
    {a b : Activity (Except FanOutError α)} {result : Except FanOutError α}
    (h : w.Outcome earlier [] v) (hrun : a.run World.answer w = b.run World.answer v)
    (hb : v.Yields b result store handed) : w.Yields a result store handed := by
  obtain ⟨u, hu, hresult⟩ := hb
  exact ⟨u, h.trans hu, hrun.trans hresult⟩

/-- A reading leaves no trace in the store. -/
theorem outcome_after {c : StoreCall} (h : c.place? = none) (w : World) :
    w.Outcome w.store [] (w.after c) := by
  cases c with
  | get key | members key =>
    exact ⟨rfl, (List.append_nil _).symm, World.after_fired_of_ne_increment (by simp), rfl, rfl⟩
  | _ => cases h

/-- A pause leaves no trace in the store, if no call is to come. -/
theorem outcome_pause (h : w.later = []) (d : Duration) : w.Outcome w.store [] (w.pause d) := by
  rw [World.pause_of_later_eq_nil h]
  exact ⟨rfl, (List.append_nil _).symm, rfl, rfl, rfl⟩

/-- The effect of what follows a reading is the effect of the reading and what follows. -/
theorem yields_reading (hw : w.faults = []) {c : StoreCall} (hplace : c.place? = none)
    {reply : c.Reply} (hreply : (w.store.perform c).1 = .ok reply)
    {f : c.Reply → ExceptT FanOutError Activity α} {result : Except FanOutError α} {store : Store}
    {handed : List Dispatch} (h : (w.after c).Yields (f reply).run result store handed) :
    w.Yields (call c >>= f).run result store handed :=
  yields_of_outcome (outcome_after hplace w) (run_call_bind hw hreply) h

/-- What stands under a key is read and handed on. -/
theorem yields_get (hw : w.faults = []) {key : String} {found : Option Json}
    (h : w.store.content? (.value key) = found)
    {f : (StoreCall.get key).Reply → ExceptT FanOutError Activity α}
    {result : Except FanOutError α} {store : Store} {handed : List Dispatch}
    (hf : (w.after (.get key)).Yields (f found).run result store handed) :
    w.Yields (call (.get key) >>= f).run result store handed := by
  have hreply : (w.store.perform (.get key)).1 = .ok found := congrArg Except.ok h
  exact yields_reading hw rfl hreply hf

/-- What has failed is over, and what was to follow has no effect. -/
theorem yields_bind_error {x : ExceptT FanOutError Activity α}
    {f : α → ExceptT FanOutError Activity β} {e : FanOutError} {store : Store}
    {handed : List Dispatch} (h : w.Yields x.run (.error e) store handed) :
    w.Yields (x >>= f).run (.error e) store handed := by
  obtain ⟨v, hv, hrun⟩ := h
  exact ⟨v, hv, Activity.run_bind_error hrun⟩

/-- An output that is there is read at once. -/
theorem yields_of_present (hw : w.faults = []) {key : String} {output : Json}
    (h : w.store.content? (.value key) = some output) {f : Json → ExceptT FanOutError Activity α}
    {result : Except FanOutError α} {store : Store} {handed : List Dispatch}
    (hf : (w.after (.get key)).Yields (f output).run result store handed) :
    w.Yields (awaitOutput settings key settings.pollReads >>= f).run result store handed := by
  rw [pollReads_eq_succ, awaitOutput, bind_assoc]
  exact yields_get hw h hf

/-- An output that nobody puts is awaited in vain, and the readings and pauses leave no trace. -/
theorem awaitOutput_timeout (hw : w.faults = []) (hlater : w.later = []) {key : String}
    (h : w.store.content? (.value key) = none) (reads : Nat) :
    w.Yields (awaitOutput settings key reads).run (.error (.outputTimeout key settings.pollReads))
      w.store [] := by
  induction reads generalizing w with
  | zero => exact yields_done w _
  | succ reads ih =>
    have hafter : (w.after (.get key)).later = [] := hlater
    have hpause := outcome_pause hafter settings.pollInterval
    have hlater' : ((w.after (.get key)).pause settings.pollInterval).later = [] := by
      rw [World.pause_of_later_eq_nil hafter]
    have hrest := ih (hpause.faults.trans hw) hlater' (by rw [hpause.store]; exact h)
    rw [hpause.store] at hrest
    rw [awaitOutput]
    exact yields_get hw h (yields_of_outcome hpause rfl hrest)

/-- The first output that nobody puts is the end of the gathering. -/
theorem collect_timeout (hw : w.faults = []) (hlater : w.later = []) {finished keys : List String}
    {before after : List String} {key : String}
    (first : keys.filter (· ∈ finished) = before ++ key :: after)
    (put : ∀ key ∈ before, w.store.content? (.value key) ≠ none)
    (missing : w.store.content? (.value key) = none) :
    w.Yields (collect settings finished keys).run
      (.error (.outputTimeout key settings.pollReads)) w.store [] := by
  -- Every reading of an output that is there leads to another world with the same store.
  induction keys generalizing w before with
  | nil => simp at first
  | cons head rest ih =>
    rw [collect]
    by_cases hmem : head ∈ finished
    case neg =>
      rw [List.filter_cons_of_neg (by simpa using hmem)] at first
      rw [if_neg hmem, pure_bind]
      exact yields_bind_error (ih hw hlater first put missing)
    case pos =>
      rw [List.filter_cons_of_pos (by simpa using hmem)] at first
      rw [if_pos hmem]
      cases before with
      | nil =>
        obtain ⟨rfl, -⟩ := List.cons.inj first
        exact yields_bind_error (awaitOutput_timeout hw hlater missing _)
      | cons other before =>
        obtain ⟨rfl, hrest⟩ := List.cons.inj first
        obtain ⟨output, houtput⟩ := Option.ne_none_iff_exists'.mp (put head List.mem_cons_self)
        refine yields_of_present hw houtput (yields_bind_error ?_)
        exact ih hw hlater hrest (fun key hkey => put key (List.mem_cons_of_mem _ hkey)) missing

end parts

/-! ## The join -/

section join

variable {w : World} {settings : Settings} {d : Definition} {trigger : JoinTrigger}
  {result : Except FanOutError JoinOutcome} {store : Store} {handed : List Dispatch}
  {record : FanOutRecord}

/-- If there is an output for every name in the set, the outputs are gathered. -/
theorem forall₂_gathered {s : Store}
    (put : ∀ key ∈ entered s record, s.content? (.value key) ≠ none) :
    List.Forall₂ (fun key output => if key ∈ s.membersOf record.outputSet
      then s.content? (.value key) = some output else output = .null) record.branchOutputs
      (gathered s record) := by
  refine List.forall₂_map_right_iff.mpr (List.forall₂_same.mpr fun key hkey => ?_)
  by_cases hmem : key ∈ s.membersOf record.outputSet
  · have hput := put key (List.mem_filter.mpr ⟨hkey, by simpa using hmem⟩)
    obtain ⟨output, houtput⟩ := Option.ne_none_iff_exists'.mp hput
    rw [if_pos hmem, if_pos hmem, houtput]
    rfl
  · rw [if_neg hmem, if_neg hmem]

/-- The calls of a join that finds a record leave the store as it was, without what the final one
removes. -/
theorem performAll_recordCalls (s : Store) (record : FanOutRecord) (metadataKey : String)
    (isFinal : Bool) :
    s.performAll (recordCalls record metadataKey (s.membersOf record.outputSet) isFinal) =
      if isFinal then s.without (removed record metadataKey (entered s record)) else s := by
  have hreadings : s.performAll (.get metadataKey :: .members record.outputSet ::
      (entered s record).map .get) = s := by
    refine Store.performAll_of_readings fun c hc => ?_
    simp only [List.mem_cons, List.mem_map] at hc
    rcases hc with rfl | rfl | ⟨key, -, rfl⟩ <;> rfl
  have hsplit : recordCalls record metadataKey (s.membersOf record.outputSet) isFinal =
      (.get metadataKey :: .members record.outputSet :: (entered s record).map .get) ++
        if isFinal then (removed record metadataKey (entered s record)).map Place.removal else [] :=
    rfl
  rw [hsplit, Store.performAll_append, hreadings]
  cases isFinal with
  | true => exact Place.performAll_removals s _
  | false => rfl

/-- A join that finds a record, and the output for every name in its set, gathers the outputs and
hands them on; it removes what the record has kept if the count is the last. -/
theorem yields_joined (settings : Settings) (hw : w.faults = [])
    (found : FindsRecord d trigger w.store record)
    (begun : w.store.membersOf record.outputSet ≠ [])
    (put : ∀ key ∈ entered w.store record, w.store.content? (.value key) ≠ none) :
    w.Yields (join settings d trigger).run
      (.ok (.joined (gathered w.store record) (trigger.counterValue.natAbs == record.threshold)))
      (if trigger.counterValue.natAbs == record.threshold then
        w.store.without (removed record trigger.metadataKey (entered w.store record)) else w.store)
      (handedOn d (.array (gathered w.store record))) := by
  obtain ⟨stored, hstored, hrecord⟩ := found.exists_stored
  have hperforms := join_performs_record settings hstored hrecord (by simpa using begun)
    (forall₂_gathered put)
  have hyields := hperforms.yields hw
  rw [performAll_recordCalls] at hyields
  exact hyields

/-- A join that finds no record that it could join fails, having changed nothing. -/
theorem yields_of_storedRecord_error (hw : w.faults = []) {stored : Json} {e : FanOutError}
    (present : w.store.content? (.value trigger.metadataKey) = some stored)
    (h : storedRecord d trigger stored = .error e) :
    w.Yields (join settings d trigger).run (.error e) w.store [] := by
  unfold join
  refine yields_get hw present ?_
  simp only [h]
  exact yields_done (w.after (.get trigger.metadataKey)) _

/-- A join whose set has no members fails, having changed nothing. -/
theorem yields_of_membersOf_eq_nil (settings : Settings) (hw : w.faults = [])
    (found : FindsRecord d trigger w.store record)
    (empty : w.store.membersOf record.outputSet = []) :
    w.Yields (join settings d trigger).run (.error (.emptyOutputSet record.outputSet)) w.store
      [] := by
  obtain ⟨stored, hstored, hrecord⟩ := found.exists_stored
  have hmembers : (w.store.perform (.members record.outputSet)).1 = .ok [] :=
    congrArg Except.ok empty
  unfold join
  refine yields_get hw hstored ?_
  simp only [hrecord, Activity.run_lift_bind_ok]
  exact yields_reading (w := w.after (.get trigger.metadataKey)) hw rfl hmembers
    (yields_done ((w.after _).after _) _)

/-- A join that misses an output for a name in the set fails, having changed nothing. -/
theorem yields_of_missing_output (settings : Settings) (hw : w.faults = []) (hlater : w.later = [])
    (found : FindsRecord d trigger w.store record) {before after : List String} {key : String}
    (first : entered w.store record = before ++ key :: after)
    (put : ∀ key ∈ before, w.store.content? (.value key) ≠ none)
    (missing : w.store.content? (.value key) = none) :
    w.Yields (join settings d trigger).run (.error (.outputTimeout key settings.pollReads)) w.store
      [] := by
  obtain ⟨stored, hstored, hrecord⟩ := found.exists_stored
  have hmembers : (w.store.perform (.members record.outputSet)).1 =
      .ok (w.store.membersOf record.outputSet) := rfl
  have hkey : key ∈ w.store.membersOf record.outputSet := by
    have hmem : key ∈ entered w.store record := first ▸ by simp
    simpa using (List.mem_filter.mp hmem).2
  have hbegun : ¬(w.store.membersOf record.outputSet).isEmpty = true := fun h => by
    rw [List.isEmpty_iff.mp h] at hkey
    cases hkey
  unfold join
  refine yields_get hw hstored ?_
  simp only [hrecord, Activity.run_lift_bind_ok]
  refine yields_reading (w := w.after (.get trigger.metadataKey)) hw rfl hmembers ?_
  rw [if_neg hbegun]
  exact yields_bind_error (collect_timeout (w := (w.after _).after _) hw hlater first put missing)

/-- A join has its effect. -/
theorem JoinEffect.yields (hw : w.faults = [])
    (h : JoinEffect settings d trigger w result store handed) :
    w.Yields (join settings d trigger).run result store handed := by
  cases h with
  | @partly record found begun put count =>
    have hcount : (trigger.counterValue.natAbs == record.threshold) = false :=
      beq_false_of_ne count
    have hjoined := yields_joined settings hw found begun put
    rw [hcount] at hjoined
    exact hjoined
  | @fully record found begun put count =>
    have hcount : (trigger.counterValue.natAbs == record.threshold) = true :=
      beq_iff_eq.mpr count
    have hjoined := yields_joined settings hw found begun put
    rw [hcount] at hjoined
    exact hjoined
  | alreadyJoined missing => exact join_of_missing settings hw trigger missing
  | unreadable present corrupt =>
    exact yields_of_storedRecord_error hw present (by simp only [storedRecord, corrupt])
  | noRecord present read missing =>
    exact yields_of_storedRecord_error hw present (by simp only [storedRecord, read, missing])
  | emptySet found empty => exact yields_of_membersOf_eq_nil settings hw found empty
  | timedOut found first put missing alone =>
    exact yields_of_missing_output settings hw alone found first put missing

/-- Of some outputs either all are there, or there is a first one that is not. -/
theorem put_or_missing (s : Store) (keys : List String) :
    (∀ key ∈ keys, s.content? (.value key) ≠ none) ∨ ∃ before key after,
      keys = before ++ key :: after ∧ (∀ key ∈ before, s.content? (.value key) ≠ none) ∧
        s.content? (.value key) = none := by
  cases hfind : keys.find? fun key => (s.content? (.value key)).isNone with
  | none =>
    have hall := List.find?_eq_none.mp hfind
    exact .inl fun key hkey => by simpa using hall key hkey
  | some key =>
    obtain ⟨hkey, before, after, hsplit, hbefore⟩ := List.find?_eq_some_iff_append.mp hfind
    refine .inr ⟨before, key, after, hsplit, fun other hother => ?_, by simpa using hkey⟩
    exact Option.isSome_iff_ne_none.mp (by simpa using hbefore other hother)

/-- Where no call is to come, a join has an effect. -/
theorem exists_joinEffect (hlater : w.later = []) :
    ∃ result store handed, JoinEffect settings d trigger w result store handed := by
  cases hstored : w.store.content? (.value trigger.metadataKey) with
  | none => exact ⟨_, _, _, .alreadyJoined hstored⟩
  | some stored =>
    cases hread : Metadata.ofJson? stored with
    | none => exact ⟨_, _, _, .unreadable hstored hread⟩
    | some metadata =>
      cases hrecord : metadata.fanOut? d.name trigger.executionId with
      | none => exact ⟨_, _, _, .noRecord hstored hread hrecord⟩
      | some record =>
        have found : FindsRecord d trigger w.store record :=
          ⟨stored, metadata, hstored, hread, hrecord⟩
        by_cases hset : w.store.membersOf record.outputSet = []
        · exact ⟨_, _, _, .emptySet found hset⟩
        · rcases put_or_missing w.store (entered w.store record) with
            put | ⟨before, key, after, first, put, missing⟩
          · by_cases hcount : trigger.counterValue.natAbs = record.threshold
            · exact ⟨_, _, _, .fully found hset put hcount⟩
            · exact ⟨_, _, _, .partly found hset put hcount⟩
          · exact ⟨_, _, _, .timedOut found first put missing hlater⟩

/-- What becomes of a world without faults by a join is the effect of the join; and there is one,
whatever the join finds, unless it would have to wait for a call that is to come. -/
theorem join_has_effect (settings : Settings) (d : Definition) (trigger : JoinTrigger) {w : World}
    (hw : w.faults = []) :
    (∀ result store handed, JoinEffect settings d trigger w result store handed →
      w.Yields (join settings d trigger).run result store handed) ∧
    (w.later = [] → ∃ result store handed, JoinEffect settings d trigger w result store handed) :=
  ⟨fun _ _ _ h => h.yields hw, exists_joinEffect⟩

end join

/-- A record with a threshold before the last, and with fewer outputs than it has branches. -/
def unevenRecord : FanOutRecord where
  counter := "c"
  branchOutputs := ["one", "two", "three"]
  outputSet := "set"
  thresholds := [1, 3]
  totalBranches := 5
  executionId := "run"
  topic := "wf_Fan"

/-- The state that `unevenRecord` belongs to, which ends the workflow and has a state follow all the
same. -/
def unevenState : Definition where
  name := "Fan"
  kind := .parallel
  document := .null
  body := { typeName := some "Parallel", next := some "After", isEnd := true }

/-- A trigger of `unevenRecord` at some count. -/
def unevenTrigger (count : Int) : JoinTrigger where
  action := .join
  metadataKey := "metadata"
  counterValue := count
  thresholds := [1, 3]
  totalBranches := 5
  executionId := "run"
  topic := "wf_Fan"

/-- A world with `unevenRecord`, in which one output has been put and entered, another only put, and
the set has a member that is no output. -/
def unevenWorld : World where
  store := Store.performAll .empty [
    .createCounter "c" 1,
    .putTrigger "c_metadata" (unevenTrigger 0),
    .put "metadata" (({} : Metadata).setFanOut "Fan" "run" unevenRecord).toJson,
    .put "one" (.nat 7),
    .put "two" (.nat 8),
    .addMember "set" "one",
    .addMember "set" "stray"]

/-- The triggers of `unevenRecord` lead to it in `unevenWorld`. -/
theorem findsRecord_uneven (count : Int) :
    FindsRecord unevenState (unevenTrigger count) unevenWorld.store unevenRecord := by
  refine ⟨_, ({} : Metadata).setFanOut "Fan" "run" unevenRecord, rfl, ?_, ?_⟩
  · decide +kernel
  · exact Metadata.fanOut?_setFanOut _ "Fan" "run" unevenRecord

/-- In `unevenWorld` a join gives null for the outputs that are not entered, and both follow-ups;
and it removes what the record has kept only if its count is taken for the last. -/
theorem join_unevenWorld :
    unevenWorld.Yields (join {} unevenState (unevenTrigger 1)).run
      (.ok (.joined [.nat 7, .null, .null] false)) unevenWorld.store
      [⟨"After", .array [.nat 7, .null, .null]⟩, ⟨"end", .array [.nat 7, .null, .null]⟩] ∧
    unevenWorld.Yields (join {} unevenState (unevenTrigger (-3))).run
      (.ok (.joined [.nat 7, .null, .null] true))
      (unevenWorld.store.without
        [.counter "c", .trigger "c_metadata", .value "metadata", .value "one", .set "set"])
      [⟨"After", .array [.nat 7, .null, .null]⟩, ⟨"end", .array [.nat 7, .null, .null]⟩] := by
  have hgathered : gathered unevenWorld.store unevenRecord = [.nat 7, .null, .null] := by
    decide +kernel
  have hentered : entered unevenWorld.store unevenRecord = ["one"] := by decide +kernel
  have hbegun : unevenWorld.store.membersOf unevenRecord.outputSet ≠ [] := by decide +kernel
  have hput : ∀ key ∈ entered unevenWorld.store unevenRecord,
      unevenWorld.store.content? (.value key) ≠ none := by
    rw [hentered]
    decide +kernel
  have hpartly := (join_has_effect {} unevenState (unevenTrigger 1) (w := unevenWorld) rfl).1 _ _
    _ (.partly (findsRecord_uneven 1) hbegun hput (by decide))
  have hfully := (join_has_effect {} unevenState (unevenTrigger (-3)) (w := unevenWorld) rfl).1 _ _
    _ (.fully (findsRecord_uneven (-3)) hbegun hput (by decide))
  rw [hgathered] at hpartly hfully
  rw [hentered] at hfully
  exact ⟨hpartly, hfully⟩

end Workflow.FanOut
