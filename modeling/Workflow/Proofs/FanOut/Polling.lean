import Mathlib.Logic.Function.Iterate
import Workflow.Proofs.FanOut.JoinEffect

/-!
# A join that waits for outputs

The names of the outputs are in the set before a join begins, but the outputs themselves may be put
while it runs. The join reads them one after the other, each until it is there, and pauses after
every reading in vain. So the time at which it comes to an output depends on how long it has waited
for those before.

All that others do meanwhile happens in the pauses, whatever it is. Their doings are known by the
worlds that the pauses lead to, and those are the same as without the join: as long as it reads, the
join leaves no trace but in the journal.

* **Traces** (`World.Alike`): worlds that differ in their journals only.
* **Pauses** (`FanOut.Meanwhile`, `FanOut.Meanwhile.answer`, `FanOut.Meanwhile.ofPause`): what goes
  on in a pause, and the runs of activities in such surroundings.
* **Idle worlds** (`FanOut.Meanwhile.idle`, `FanOut.Meanwhile.seen`): what becomes of a world when
  time passes, and what can then be read in it.
* **Readings** (`FanOut.Meanwhile.readings`, `FanOut.Meanwhile.Reads`): the values that a run reads
  with the times of reading.
* **Rounds** (`FanOut.Polls`, `FanOut.exists_polls`, `FanOut.Polls.ok_iff`): when each output is
  read, and what comes of it, told without the join.
* **The join** (`FanOut.Meanwhile.reads_collect`, `FanOut.join_polls`): it reads at these times and
  no others; if it gives up, everything is as if it had not run.
-/

namespace Workflow

/-! ## Traces -/

namespace World

/-- The worlds differ in nothing but their journals. -/
def Alike (w v : World) : Prop := ∃ journal, v = { w with journal }

namespace Alike

variable {w v u : World}

/-- If a first world differs from a second in its journal only, and that from a third, so does the
first from the third. -/
theorem trans (h : w.Alike v) (h' : v.Alike u) : w.Alike u := by
  obtain ⟨journal, rfl⟩ := h
  obtain ⟨journal', rfl⟩ := h'
  exact ⟨journal', rfl⟩

/-- Worlds that are alike have the same store. -/
theorem store (h : w.Alike v) : v.store = w.store := by
  obtain ⟨journal, rfl⟩ := h
  rfl

/-- Worlds that are alike have the same time. -/
theorem clock (h : w.Alike v) : v.clock = w.clock := by
  obtain ⟨journal, rfl⟩ := h
  rfl

/-- Worlds that are alike have the same faults. -/
theorem faults (h : w.Alike v) : v.faults = w.faults := by
  obtain ⟨journal, rfl⟩ := h
  rfl

/-- What becomes of a world becomes also of one that is alike. -/
theorem outcome (h : w.Alike v) {store : Store} {handed : List Dispatch}
    (hu : v.Outcome store handed u) : w.Outcome store handed u := by
  obtain ⟨journal, rfl⟩ := h
  exact ⟨hu.store, hu.queue, hu.fired, hu.firesTriggers, hu.faults⟩

end Alike

/-- A reading is entered into the journal and leaves no other trace. -/
theorem alike_after {c : StoreCall} (h : c.place? = none) (w : World) : w.Alike (w.after c) := by
  have hfired : (w.after c).fired = w.fired := (FanOut.outcome_after h w).fired
  have hstore : (w.after c).store = w.store := (FanOut.outcome_after h w).store
  refine ⟨(w.after c).journal, ?_⟩
  rw [← hfired, ← hstore]
  rfl

/-- A call is answered alike in worlds that are alike, and leaves them alike. -/
theorem alike_call {w v : World} (h : w.Alike v) (c : StoreCall) :
    (v.call c).1 = (w.call c).1 ∧ (w.call c).2.Alike (v.call c).2 := by
  obtain ⟨journal, rfl⟩ := h
  simp only [call]
  rcases Fault.strike c w.faults with ⟨_ | e, faults⟩
  · exact ⟨rfl, journal, rfl⟩
  · exact ⟨rfl, journal, rfl⟩

/-- Calls that come due leave worlds alike that are alike. -/
theorem alike_makeCalls {w v : World} (h : w.Alike v) (calls : List (Nat × StoreCall)) :
    (w.makeCalls calls).Alike (v.makeCalls calls) := by
  induction calls generalizing w v with
  | nil => exact h
  | cons entry rest ih => exact ih (alike_call h entry.2).2

/-- A pause leaves worlds alike that are alike. -/
theorem alike_pause {w v : World} (h : w.Alike v) (d : Duration) :
    (w.pause d).Alike (v.pause d) := by
  obtain ⟨journal, rfl⟩ := h
  exact alike_makeCalls ⟨journal, rfl⟩ _

/-- A request is answered alike, and leads to worlds that are alike. -/
theorem alike_answer {w v : World} (h : w.Alike v) (request : Request) :
    (answer request v).1 = (answer request w).1 ∧
      (answer request w).2.Alike (answer request v).2 := by
  cases request with
  | store c =>
    obtain ⟨hreply, journal, hcall⟩ := alike_call h c
    refine ⟨hreply, (answer (.store c) v).2.journal, ?_⟩
    simp only [answer, journaledCall, hcall]
  | sleep d => exact ⟨rfl, alike_pause h d⟩
  | dispatch _ | now | work _ | connect | send _ =>
    obtain ⟨journal, rfl⟩ := h
    exact ⟨rfl, journal, rfl⟩

/-- The calls that come due in a pause do not take any time. -/
theorem clock_makeCalls (w : World) (calls : List (Nat × StoreCall)) :
    (w.makeCalls calls).clock = w.clock := by
  induction calls generalizing w with
  | nil => rfl
  | cons entry rest ih =>
    refine (ih _).trans ?_
    simp only [call]
    rcases Fault.strike entry.2 w.faults with ⟨_ | e, faults⟩ <;> rfl

/-- Calls that come due bring about no faults in a world without any. -/
theorem faults_makeCalls {w : World} (hw : w.faults = []) (calls : List (Nat × StoreCall)) :
    (w.makeCalls calls).faults = [] := by
  induction calls generalizing w with
  | nil => exact hw
  | cons entry rest ih =>
    refine ih ?_
    simp only [call, hw, Fault.strike]

end World

/-- The key of the value that a request is to read. -/
def Request.readKey? : Request → Option String
  | store (.get key) => some key
  | _ => none

/-- Whether a request neither reads a value nor takes any time. -/
def Request.IsTimeless (request : Request) : Prop :=
  request.readKey? = none ∧ ∀ d, request ≠ sleep d

namespace FanOut

/-! ## Pauses -/

/-- What goes on in the pauses of a join: whatever it is, a pause between two readings takes the
time that the settings give, no fault comes up in it, and nobody looks at the journal. -/
structure Meanwhile (settings : Settings) where
  pass : Duration → World → World
  clock_pass : ∀ w, (pass settings.pollInterval w).clock = w.clock + settings.pollMillis
  faults_pass : ∀ d w, w.faults = [] → (pass d w).faults = []
  alike_pass : ∀ d w v, w.Alike v → (pass d w).Alike (pass d v)

namespace Meanwhile

variable {settings : Settings} {α β : Type}

/-- A world in which this goes on in the pauses. -/
def answer (others : Meanwhile settings) : Environment World
  | .sleep d, w => ((), others.pass d w)
  | request, w => World.answer request w

/-- The calls that are to be made later can go on in the pauses, unless a pause is longer than any
that there are. -/
def ofPause (h : settings.pollMillis ≤ Duration.thirtyYears) : Meanwhile settings where
  pass d w := w.pause d
  clock_pass w := by
    have hmillis : settings.pollInterval.millis = settings.pollMillis := by
      simp only [Settings.pollInterval, Duration.ofMillis, Duration.millis, Duration.perMilli]
      omega
    rw [World.pause, World.clock_makeCalls, Duration.pauseMillis, hmillis, Nat.min_eq_left h]
  faults_pass d w hw := by
    rw [World.pause]
    refine World.faults_makeCalls ?_ _
    exact hw
  alike_pass d _ _ h := World.alike_pause h d

/-- With the calls that are to be made later in the pauses, the world is the simulated one. -/
theorem answer_ofPause (h : settings.pollMillis ≤ Duration.thirtyYears) :
    (ofPause h).answer = World.answer := by
  funext request w
  cases request <;> rfl

/-- What goes on leads from worlds that are alike to worlds that are alike, with the same answer. -/
theorem alike_answer (others : Meanwhile settings) {w v : World} (h : w.Alike v)
    (request : Request) :
    (others.answer request v).1 = (others.answer request w).1 ∧
      (others.answer request w).2.Alike (others.answer request v).2 := by
  cases request with
  | sleep d => exact ⟨rfl, others.alike_pass d w v h⟩
  | store _ | dispatch _ | now | work _ | connect | send _ => exact World.alike_answer h _

/-- Every activity comes to the same result in worlds that are alike, whatever goes on in the
pauses. -/
theorem alike_run (others : Meanwhile settings) (a : Activity α) {w v : World} (h : w.Alike v) :
    (a.run others.answer v).1 = (a.run others.answer w).1 ∧
      (a.run others.answer w).2.Alike (a.run others.answer v).2 := by
  induction a generalizing w v with
  | done result => exact ⟨rfl, h⟩
  | ask request resume ih =>
    obtain ⟨hreply, hnext⟩ := others.alike_answer h request
    rw [Activity.run_ask, Activity.run_ask, hreply]
    exact ih _ hnext

/-! ## Idle worlds -/

/-- What becomes of a world in a number of pauses. -/
def idle (others : Meanwhile settings) (n : Nat) (w : World) : World :=
  (others.pass settings.pollInterval)^[n] w

/-- After one pause more, what goes on has gone on once more. -/
theorem idle_succ (others : Meanwhile settings) (n : Nat) (w : World) :
    others.idle (n + 1) w = others.pass settings.pollInterval (others.idle n w) :=
  Function.iterate_succ_apply' _ n w

/-- So many pauses take so many times the interval of the settings. -/
theorem clock_idle (others : Meanwhile settings) (n : Nat) (w : World) :
    (others.idle n w).clock = w.clock + n * settings.pollMillis := by
  induction n with
  | zero => rw [Nat.zero_mul]; rfl
  | succ n ih => rw [idle_succ, others.clock_pass, ih, Nat.succ_mul, Nat.add_assoc]

/-- A world without faults has none after any number of pauses. -/
theorem faults_idle (others : Meanwhile settings) {w : World} (hw : w.faults = []) (n : Nat) :
    (others.idle n w).faults = [] := by
  induction n with
  | zero => exact hw
  | succ n ih => rw [idle_succ]; exact others.faults_pass _ _ ih

/-- What can be read under a key after a number of pauses. -/
def seen (others : Meanwhile settings) (w : World) (n : Nat) (key : String) : Option Json :=
  (others.idle n w).store.content? (.value key)

/-! ## Readings -/

/-- The values that a run reads, by their keys, each with the time of reading. -/
def readings (others : Meanwhile settings) : Activity α → World → List (Nat × String)
  | .done _, _ => []
  | .ask request resume, w =>
    request.readKey?.toList.map (w.clock, ·) ++
      readings others (resume (others.answer request w).1) (others.answer request w).2

/-- In a world, an activity reads these values at these times, comes to this result and leads to
this world. -/
structure Reads (others : Meanwhile settings) (a : Activity α) (w : World)
    (read : List (Nat × String)) (result : α) (v : World) : Prop where
  readings : others.readings a w = read
  run : a.run others.answer w = (result, v)

namespace Reads

variable {others : Meanwhile settings} {w v u : World} {read more : List (Nat × String)}

/-- The rule of the end. -/
theorem done (result : α) : others.Reads (.done result) w [] result w := ⟨rfl, rfl⟩

/-- The rule of a request. -/
theorem ask {request : Request} {resume : request.Reply → Activity α} {reply : request.Reply}
    {result : α} (hanswer : others.answer request w = (reply, v))
    (h : others.Reads (resume reply) v read result u) :
    others.Reads (.ask request resume) w (request.readKey?.toList.map (w.clock, ·) ++ read) result
      u := by
  obtain ⟨hreadings, hrun⟩ := h
  refine ⟨?_, ?_⟩
  · rw [Meanwhile.readings, hanswer, hreadings]
  · rw [Activity.run_ask, hanswer, hrun]

/-- The rule of sequence. -/
theorem bind {a : Activity α} {f : α → Activity β} {x : α} {result : β}
    (ha : others.Reads a w read x v) (hf : others.Reads (f x) v more result u) :
    others.Reads (a >>= f) w (read ++ more) result u := by
  obtain ⟨rfl, hrun⟩ := ha
  induction a generalizing w with
  | done y =>
    cases hrun
    exact hf
  | ask request resume ih =>
    rw [Meanwhile.readings, List.append_assoc]
    exact ask rfl (ih _ hrun)

/-- The rule of sequence for activities that may fail. -/
theorem bindOk {ε : Type} {x : ExceptT ε Activity α} {f : α → ExceptT ε Activity β} {a : α}
    {result : Except ε β} (hx : others.Reads x.run w read (.ok a) v)
    (hf : others.Reads (f a).run v more result u) :
    others.Reads (x >>= f).run w (read ++ more) result u := by
  rw [ExceptT.run_bind]
  exact hx.bind hf

/-- The rule of sequence after a failure: what was to follow reads nothing. -/
theorem bindError {ε : Type} {x : ExceptT ε Activity α} {f : α → ExceptT ε Activity β} {e : ε}
    (hx : others.Reads x.run w read (.error e) v) :
    others.Reads (x >>= f).run w read (.error e) v := by
  rw [ExceptT.run_bind, ← List.append_nil read]
  exact hx.bind (done (Except.error e))

/-- Giving the result in other words reads nothing more. -/
theorem bindPure {ε : Type} {x : ExceptT ε Activity α} {result : Except ε α}
    (hx : others.Reads x.run w read result v) (g : α → β) :
    others.Reads (x >>= fun a => pure (g a)).run w read (result.map g) v := by
  cases result with
  | ok a =>
    have hdone : others.Reads (pure (g a) : ExceptT ε Activity β).run v [] (.ok (g a)) v := done _
    rw [← List.append_nil read]
    exact hx.bindOk hdone
  | error e => exact hx.bindError

/-- The rule of a call and what follows it, in a world without faults. -/
theorem callBind {c : StoreCall} {f : c.Reply → ExceptT FanOutError Activity α}
    (hw : w.faults = []) {reply : c.Reply} (hreply : (w.store.perform c).1 = .ok reply)
    {result : Except FanOutError α} (h : others.Reads (f reply).run (w.after c) read result u) :
    others.Reads (call c >>= f).run w ((Request.store c).readKey?.toList.map (w.clock, ·) ++ read)
      result u := by
  rw [call_bind_run]
  refine ask (World.answer_store hw c) ?_
  rw [hreply]
  exact h

/-- What asks for such things only takes its course at one moment, whatever others do. -/
theorem of_onlyAsks {a : Activity α} (ha : a.OnlyAsks Request.IsTimeless) {result : α}
    (hrun : a.run World.answer w = (result, v)) : others.Reads a w [] result v := by
  induction a generalizing w with
  | done _ =>
    cases hrun
    exact done _
  | ask request resume ih =>
    obtain ⟨⟨hkey, hsleep⟩, hresume⟩ := ha
    have hanswer : others.answer request w = World.answer request w := by
      cases request with
      | sleep d => exact absurd rfl (hsleep d)
      | store _ | dispatch _ | now | work _ | connect | send _ => rfl
    have hask := ask hanswer (ih _ (hresume _) hrun)
    rwa [hkey] at hask

end Reads

end Meanwhile

/-! ## Rounds -/

/-- Readings of a key, one in each of a number of rounds. -/
def roundsOf (key : String) (start count : Nat) : List (Nat × String) :=
  (List.range count).map fun m => (start + m, key)

/-- The readings of a key in some rounds are that of the first round and those of the others. -/
theorem roundsOf_succ (key : String) (start count : Nat) :
    roundsOf key start (count + 1) = (start, key) :: roundsOf key (start + 1) count := by
  simp [roundsOf, List.range_succ_eq_map, Nat.add_right_comm, Nat.add_assoc]

/-- The readings of a key in some rounds are of this key, and in these rounds. -/
theorem mem_roundsOf {key : String} {start count : Nat} {reading : Nat × String} :
    reading ∈ roundsOf key start count ↔
      reading.2 = key ∧ ∃ m < count, reading.1 = start + m := by
  obtain ⟨n, other⟩ := reading
  simp only [roundsOf, List.mem_map, List.mem_range, Prod.mk.injEq]
  constructor
  · rintro ⟨m, hm, rfl, rfl⟩
    exact ⟨rfl, m, hm, rfl⟩
  · rintro ⟨rfl, m, hm, rfl⟩
    exact ⟨m, hm, rfl, rfl⟩

/-- How outputs are gathered from a round on, if these can be seen under the keys in each round: the
readings by rounds, the round at the end, and the outputs, or the key that was given up. A key whose
name is not in the set is not read; the others are read once a round, until there is something. -/
inductive Polls (seen : Nat → String → Option Json) (reads : Nat) (finished : List String) :
    (start : Nat) → (keys : List String) → (readings : List (Nat × String)) → (stop : Nat) →
      (outcome : Except String (List Json)) → Prop
  | done {start : Nat} : Polls seen reads finished start [] [] start (.ok [])
  | untracked {start : Nat} {key : String} {keys : List String} {readings : List (Nat × String)}
      {stop : Nat} {outcome : Except String (List Json)} (untracked : key ∉ finished)
      (rest : Polls seen reads finished start keys readings stop outcome) :
      Polls seen reads finished start (key :: keys) readings stop (outcome.map (.null :: ·))
  | found {start waited : Nat} {key : String} {output : Json} {keys : List String}
      {readings : List (Nat × String)} {stop : Nat} {outcome : Except String (List Json)}
      (tracked : key ∈ finished) (inTime : waited < reads)
      (missing : ∀ m < waited, seen (start + m) key = none)
      (present : seen (start + waited) key = some output)
      (rest : Polls seen reads finished (start + waited) keys readings stop outcome) :
      Polls seen reads finished start (key :: keys)
        (roundsOf key start (waited + 1) ++ readings) stop (outcome.map (output :: ·))
  | missed {start : Nat} {key : String} {keys : List String} (tracked : key ∈ finished)
      (missing : ∀ m < reads, seen (start + m) key = none) :
      Polls seen reads finished start (key :: keys) (roundsOf key start reads) (start + reads)
        (.error key)

section rounds

variable {seen : Nat → String → Option Json} {reads : Nat} {finished keys : List String}
  {start stop : Nat} {read : List (Nat × String)} {outcome : Except String (List Json)}

/-- A key is seen in one of a number of rounds for the first time, or in none. -/
theorem first_seen_or (seen : Nat → String → Option Json) (start : Nat) (key : String)
    (reads : Nat) :
    (∃ waited < reads, (∀ m < waited, seen (start + m) key = none) ∧
      ∃ output, seen (start + waited) key = some output) ∨
    ∀ m < reads, seen (start + m) key = none := by
  induction reads with
  | zero => exact .inr fun m hm => absurd hm (Nat.not_lt_zero m)
  | succ reads ih =>
    rcases ih with ⟨waited, hwaited, hfirst⟩ | hnone
    · exact .inl ⟨waited, Nat.lt_succ_of_lt hwaited, hfirst⟩
    · cases hseen : seen (start + reads) key with
      | some output => exact .inl ⟨reads, Nat.lt_succ_self reads, hnone, output, hseen⟩
      | none =>
        refine .inr fun m hm => ?_
        rcases Nat.lt_succ_iff_lt_or_eq.mp hm with hlt | rfl
        · exact hnone m hlt
        · exact hseen

/-- Whatever can be seen, something comes of the gathering. -/
theorem exists_polls (seen : Nat → String → Option Json) (reads : Nat) (finished : List String)
    (start : Nat) (keys : List String) :
    ∃ readings stop outcome, Polls seen reads finished start keys readings stop outcome := by
  induction keys generalizing start with
  | nil => exact ⟨_, _, _, .done⟩
  | cons key keys ih =>
    by_cases hkey : key ∈ finished
    · rcases first_seen_or seen start key reads with ⟨waited, hwaited, hnone, output, hseen⟩ | hnone
      · obtain ⟨readings, stop, outcome, hrest⟩ := ih (start + waited)
        exact ⟨_, _, _, .found hkey hwaited hnone hseen hrest⟩
      · exact ⟨_, _, _, .missed hkey hnone⟩
    · obtain ⟨readings, stop, outcome, hrest⟩ := ih start
      exact ⟨_, _, _, .untracked hkey hrest⟩

/-- There are outputs exactly if every key whose name is in the set is there at one of its readings,
provided that the keys differ. -/
theorem Polls.ok_iff (h : Polls seen reads finished start keys read stop outcome)
    (hkeys : keys.Nodup) :
    (∃ outputs, outcome = .ok outputs) ↔ ∀ key ∈ keys, key ∈ finished →
      ∃ n, (n, key) ∈ read ∧ ∃ output, seen n key = some output := by
  induction h with
  | done => simp
  | @untracked start key keys readings stop outcome untracked rest ih =>
    have hmap : (∃ outputs, outcome.map (.null :: ·) = .ok outputs) ↔
        ∃ outputs, outcome = .ok outputs := by
      cases outcome <;> simp [Except.map]
    rw [hmap, ih hkeys.of_cons, List.forall_mem_cons]
    exact (and_iff_right fun htracked => absurd htracked untracked).symm
  | @found start waited key output keys readings stop outcome tracked inTime missing present rest
      ih =>
    obtain ⟨hkey, hkeys⟩ := List.nodup_cons.mp hkeys
    have hmap : (∃ outputs, outcome.map (output :: ·) = .ok outputs) ↔
        ∃ outputs, outcome = .ok outputs := by
      cases outcome <;> simp [Except.map]
    have hhere : (start + waited, key) ∈ roundsOf key start (waited + 1) :=
      mem_roundsOf.mpr ⟨rfl, waited, Nat.lt_succ_self waited, rfl⟩
    rw [hmap, ih hkeys, List.forall_mem_cons, and_iff_right fun _ =>
      ⟨start + waited, List.mem_append_left _ hhere, output, present⟩]
    -- The readings of this key are not those of the others.
    refine forall₂_congr fun other hother => imp_congr_right fun _ => exists_congr fun n => ?_
    refine and_congr_left fun _ => ?_
    rw [List.mem_append, or_iff_right]
    intro hmem
    exact hkey ((mem_roundsOf.mp hmem).1 ▸ hother)
  | @missed start key keys tracked missing =>
    constructor
    · rintro ⟨outputs, houtputs⟩
      cases houtputs
    · intro hall
      obtain ⟨n, hread, output, hseen⟩ := hall key List.mem_cons_self tracked
      obtain ⟨-, m, hm, rfl⟩ := mem_roundsOf.mp hread
      rw [missing m hm] at hseen
      cases hseen

end rounds

/-! ## The join -/

namespace Meanwhile

variable {settings : Settings} {others : Meanwhile settings} {w v : World} {start : Nat}

/-- The time of a reading in some round. -/
def timed (settings : Settings) (w : World) (reading : Nat × String) : Nat × String :=
  (w.clock + reading.1 * settings.pollMillis, reading.2)

/-- A reading shows what can be seen in its round. -/
theorem reads_get (hw : w.faults = []) (hv : (others.idle start w).Alike v) (key : String)
    {α : Type} {f : (StoreCall.get key).Reply → ExceptT FanOutError Activity α}
    {read : List (Nat × String)} {result : Except FanOutError α} {u : World}
    (h : others.Reads (f (others.seen w start key)).run (v.after (.get key)) read result u) :
    others.Reads (call (.get key) >>= f).run v (timed settings w (start, key) :: read) result
      u := by
  have hfaults : v.faults = [] := hv.faults.trans (others.faults_idle hw start)
  have hclock : v.clock = w.clock + start * settings.pollMillis :=
    hv.clock.trans (others.clock_idle start w)
  have hreply : (v.store.perform (.get key)).1 = .ok (others.seen w start key) := by
    rw [hv.store]
    rfl
  have hreads := Reads.callBind hfaults hreply h
  rw [hclock] at hreads
  exact hreads

/-- A reading in vain is followed by a pause, and the next reading is that of the next round. -/
theorem exists_reads_awaitOutput_succ (hw : w.faults = []) (hv : (others.idle start w).Alike v)
    {key : String} (hnone : others.seen w start key = none) :
    ∃ v', (others.idle (start + 1) w).Alike v' ∧ ∀ reads read result u,
      others.Reads (awaitOutput settings key reads).run v' read result u →
      others.Reads (awaitOutput settings key (reads + 1)).run v
        (timed settings w (start, key) :: read) result u := by
  refine ⟨others.pass settings.pollInterval (v.after (.get key)), ?_,
    fun reads read result u hrest => ?_⟩
  · rw [idle_succ]
    exact others.alike_pass _ _ _ (hv.trans (World.alike_after rfl v))
  · rw [awaitOutput]
    refine reads_get hw hv key ?_
    rw [hnone]
    have hanswer (v : World) : others.answer (.sleep settings.pollInterval) v =
        ((), others.pass settings.pollInterval v) := rfl
    exact .ask (hanswer _) hrest

/-- An output that is there in time is read in every round until then. -/
theorem reads_awaitOutput_found (hw : w.faults = []) {key : String} {waited : Nat} {output : Json}
    (hv : (others.idle start w).Alike v)
    (missing : ∀ m < waited, others.seen w (start + m) key = none)
    (present : others.seen w (start + waited) key = some output) {reads : Nat}
    (inTime : waited < reads) :
    ∃ u, (others.idle (start + waited) w).Alike u ∧
      others.Reads (awaitOutput settings key reads).run v
        ((roundsOf key start (waited + 1)).map (timed settings w)) (.ok output) u := by
  obtain ⟨reads, rfl⟩ := Nat.exists_eq_succ_of_ne_zero (Nat.ne_zero_of_lt inTime)
  induction waited generalizing start v reads with
  | zero =>
    refine ⟨v.after (.get key), hv.trans (World.alike_after rfl v), ?_⟩
    rw [awaitOutput]
    refine reads_get hw hv key ?_
    rw [Nat.add_zero] at present
    rw [present]
    exact .done _
  | succ waited ih =>
    obtain ⟨v', hv', hnext⟩ := exists_reads_awaitOutput_succ hw hv
      (missing 0 (Nat.succ_pos waited))
    obtain ⟨reads, rfl⟩ := Nat.exists_eq_succ_of_ne_zero
      (Nat.ne_zero_of_lt (Nat.succ_lt_succ_iff.mp inTime))
    obtain ⟨u, hu, hreads⟩ := ih hv'
      (fun m hm => by
        rw [Nat.add_right_comm, Nat.add_assoc]
        exact missing (m + 1) (Nat.succ_lt_succ hm))
      (by rwa [Nat.add_right_comm, Nat.add_assoc]) reads (Nat.succ_lt_succ_iff.mp inTime)
    rw [Nat.add_right_comm, Nat.add_assoc] at hu
    rw [roundsOf_succ]
    exact ⟨u, hu, hnext _ _ _ _ hreads⟩

/-- An output that is not there in time is read in every round in vain. -/
theorem reads_awaitOutput_missed (hw : w.faults = []) {key : String} {reads : Nat}
    (hv : (others.idle start w).Alike v)
    (missing : ∀ m < reads, others.seen w (start + m) key = none) :
    ∃ u, (others.idle (start + reads) w).Alike u ∧
      others.Reads (awaitOutput settings key reads).run v
        ((roundsOf key start reads).map (timed settings w))
        (.error (.outputTimeout key settings.pollReads)) u := by
  induction reads generalizing start v with
  | zero => exact ⟨v, hv, .done _⟩
  | succ reads ih =>
    obtain ⟨v', hv', hnext⟩ := exists_reads_awaitOutput_succ hw hv
      (missing 0 (Nat.succ_pos reads))
    obtain ⟨u, hu, hreads⟩ := ih hv' fun m hm => by
      rw [Nat.add_right_comm, Nat.add_assoc]
      exact missing (m + 1) (Nat.succ_lt_succ hm)
    rw [Nat.add_right_comm, Nat.add_assoc] at hu
    rw [roundsOf_succ]
    exact ⟨u, hu, hnext _ _ _ _ hreads⟩

/-- The outputs of branches are gathered in rounds, and the failure is that of the first output that
is not there in time. -/
theorem reads_collect (hw : w.faults = []) {finished keys : List String}
    {readings : List (Nat × String)} {stop : Nat} {outcome : Except String (List Json)}
    (hv : (others.idle start w).Alike v)
    (h : Polls (others.seen w) settings.pollReads finished start keys readings stop outcome) :
    ∃ u, (others.idle stop w).Alike u ∧
      others.Reads (collect settings finished keys).run v (readings.map (timed settings w))
        (outcome.mapError (.outputTimeout · settings.pollReads)) u := by
  have hmap (g : List Json → List Json) (outcome : Except String (List Json)) :
      (outcome.map g).mapError (.outputTimeout · settings.pollReads) =
        (outcome.mapError (FanOutError.outputTimeout · settings.pollReads)).map g := by
    cases outcome <;> rfl
  induction h generalizing v with
  | done => exact ⟨v, hv, .done _⟩
  | @untracked start key keys readings stop outcome untracked rest ih =>
    obtain ⟨u, hu, hreads⟩ := ih hv
    refine ⟨u, hu, ?_⟩
    rw [collect, if_neg untracked, pure_bind, hmap (.null :: ·)]
    exact hreads.bindPure (.null :: ·)
  | @found start waited key output keys readings stop outcome tracked inTime missing present rest
      ih =>
    obtain ⟨v', hv', hfirst⟩ := reads_awaitOutput_found hw hv missing present inTime
    obtain ⟨u, hu, hreads⟩ := ih hv'
    refine ⟨u, hu, ?_⟩
    rw [collect, if_pos tracked, List.map_append]
    rw [hmap (output :: ·)]
    exact hfirst.bindOk (hreads.bindPure (output :: ·))
  | missed tracked missing =>
    obtain ⟨u, hu, hreads⟩ := reads_awaitOutput_missed hw hv missing
    refine ⟨u, hu, ?_⟩
    rw [collect, if_pos tracked]
    exact hreads.bindError

/-- What makes calls only, and reads nothing by them, takes its course at one moment. -/
theorem reads_performs (others : Meanwhile settings) (hv : v.faults = []) {α : Type}
    {a : Activity (Except FanOutError α)} {calls : List StoreCall} {result : α}
    {handed : List Dispatch}
    (h : v.Performs a calls result handed) (ha : a.OnlyAsks Request.IsTimeless) :
    ∃ u, v.Outcome (v.store.performAll calls) handed u ∧ others.Reads a v [] (.ok result) u := by
  obtain ⟨u, hu, hrun⟩ := h.yields hv
  exact ⟨u, hu, .of_onlyAsks ha hrun⟩

/-- The end of a join that has its outputs takes no time, and reads nothing more. -/
theorem reads_conclusion (others : Meanwhile settings) (hv : v.faults = []) (d : Definition)
    (record : FanOutRecord) (metadataKey : String) (consumed : List String) (outputs : List Json)
    (isFinal : Bool) :
    ∃ u, v.Outcome
        (if isFinal then v.store.without (removed record metadataKey consumed) else v.store)
        (handedOn d (.array outputs)) u ∧
      others.Reads (do
        if isFinal then
          cleanUp record metadataKey consumed
        proceed d (.array outputs)
        return .joined outputs isFinal : ExceptT FanOutError Activity JoinOutcome).run v []
        (.ok (.joined outputs isFinal)) u := by
  have hproceed : (proceed d (.array outputs)).OnlyAsks Request.IsTimeless := by
    rw [proceed_eq]
    exact handAll_onlyAsks fun _ _ => ⟨rfl, nofun⟩
  have hhanded (u : World) : u.Performs (do
      proceed d (.array outputs)
      return .joined outputs isFinal : ExceptT FanOutError Activity JoinOutcome).run []
      (.joined outputs isFinal) (handedOn d (.array outputs)) := by
    rw [proceed_eq]
    exact (World.Performs.handAll u _).bindPure _
  have hlast : (do
      proceed d (.array outputs)
      return .joined outputs isFinal : ExceptT FanOutError Activity JoinOutcome).run.OnlyAsks
      Request.IsTimeless := .bindFailing hproceed.liftM fun _ => .nothing _
  cases isFinal with
  | false => exact reads_performs others hv (hhanded v) hlast
  | true =>
    have hcleanUp := cleanUp_performs v record metadataKey consumed
    have hremoval (place : Place) : Request.IsTimeless (.store place.removal) := by
      cases place <;> exact ⟨rfl, nofun⟩
    have hreads := reads_performs others hv (hcleanUp.bindOk fun u _ => hhanded u)
      (.bindFailing (cleanUp_onlyAsks fun place _ => hremoval place) fun _ => hlast)
    rw [List.append_nil, Place.performAll_removals] at hreads
    exact hreads

/-- A join that finds its record reads the metadata and the set, which takes no time, and then
gathers the outputs. -/
theorem exists_reads_join (others : Meanwhile settings) (hw : w.faults = []) {d : Definition}
    {trigger : JoinTrigger} {record : FanOutRecord} (found : FindsRecord d trigger w.store record)
    (begun : w.store.membersOf record.outputSet ≠ []) :
    ∃ v, w.Alike v ∧ ∀ read result u, others.Reads (do
        let outputs ← collect settings (w.store.membersOf record.outputSet) record.branchOutputs
        if trigger.counterValue.natAbs == record.threshold then
          cleanUp record trigger.metadataKey (entered w.store record)
        proceed d (.array outputs)
        return .joined outputs (trigger.counterValue.natAbs == record.threshold) :
          ExceptT FanOutError Activity JoinOutcome).run v read result u →
      others.Reads (join settings d trigger).run w ((w.clock, trigger.metadataKey) :: read) result
        u := by
  obtain ⟨stored, hstored, hrecord⟩ := found.exists_stored
  have hreply : (w.store.perform (.get trigger.metadataKey)).1 = .ok (some stored) :=
    congrArg Except.ok hstored
  have hmembers : ((w.after (.get trigger.metadataKey)).store.perform
      (.members record.outputSet)).1 = .ok (w.store.membersOf record.outputSet) := rfl
  have hbegun : ¬(w.store.membersOf record.outputSet).isEmpty = true := by simpa using begun
  have halike : w.Alike ((w.after (.get trigger.metadataKey)).after (.members record.outputSet)) :=
    (World.alike_after rfl w).trans (World.alike_after rfl _)
  refine ⟨_, halike, fun read result u hrest => ?_⟩
  unfold join
  refine Reads.callBind hw hreply ?_
  simp only [hrecord, Activity.run_lift_bind_ok]
  refine Reads.callBind (w := w.after (.get trigger.metadataKey)) hw hmembers ?_
  rw [if_neg hbegun]
  exact hrest

end Meanwhile

/-- A join that finds its record and a set with members gathers the outputs whose names are in the
set, in the order of the record. Whatever goes on in its pauses, it reads each of them once a round,
from the round in which it has read the one before until the output is there, and no more often than
the settings allow; and it reads nothing else but the metadata. If all outputs are there in time, it
gives them, removes what the record has kept if the count is the last, and hands them on. If one is
not, it fails with the first that is not, and the world is the one that it would be without the
join, but for the journal; so the trigger can come again, and the join then comes to what it would
have come to if it had not run before. -/
theorem join_polls {settings : Settings} (others : Meanwhile settings) (d : Definition)
    (trigger : JoinTrigger) {w : World} (hw : w.faults = []) {record : FanOutRecord}
    (found : FindsRecord d trigger w.store record)
    (begun : w.store.membersOf record.outputSet ≠ []) :
    (∃ readings stop outcome, Polls (others.seen w) settings.pollReads
      (w.store.membersOf record.outputSet) 0 record.branchOutputs readings stop outcome) ∧
    ∀ readings stop outcome, Polls (others.seen w) settings.pollReads
      (w.store.membersOf record.outputSet) 0 record.branchOutputs readings stop outcome →
      others.readings (join settings d trigger).run w = (w.clock, trigger.metadataKey) ::
        readings.map (fun (n, key) => (w.clock + n * settings.pollMillis, key)) ∧
      (record.branchOutputs.Nodup →
        ((∃ joined, ((join settings d trigger).run.run others.answer w).1 = .ok joined) ↔
          ∀ key ∈ record.branchOutputs, key ∈ w.store.membersOf record.outputSet →
            ∃ n, (n, key) ∈ readings ∧ ∃ output, others.seen w n key = some output)) ∧
      match outcome with
      | .ok outputs => ∃ v,
        (join settings d trigger).run.run others.answer w =
          (.ok (.joined outputs (trigger.counterValue.natAbs == record.threshold)), v) ∧
        (others.idle stop w).Outcome
          (if trigger.counterValue.natAbs == record.threshold then
            (others.idle stop w).store.without
              (removed record trigger.metadataKey (entered w.store record))
          else (others.idle stop w).store)
          (handedOn d (.array outputs)) v
      | .error key => ∃ v,
        (join settings d trigger).run.run others.answer w =
          (.error (.outputTimeout key settings.pollReads), v) ∧
        (others.idle stop w).Alike v ∧
        ∀ again, ((join settings d again).run.run others.answer v).1 =
          ((join settings d again).run.run others.answer (others.idle stop w)).1 := by
  refine ⟨exists_polls _ _ _ _ _, fun readings stop outcome hpolls => ?_⟩
  obtain ⟨v, hv, hjoin⟩ := Meanwhile.exists_reads_join others hw found begun
  have hv₀ : (others.idle 0 w).Alike v := hv
  obtain ⟨u, hu, hcollect⟩ := Meanwhile.reads_collect hw hv₀ hpolls
  cases outcome with
  | error key =>
    obtain ⟨hreadings, hrun⟩ := hjoin _ _ _ hcollect.bindError
    refine ⟨hreadings, fun hkeys => ?_, u, hrun, hu, fun again => (others.alike_run _ hu).1⟩
    rw [← hpolls.ok_iff hkeys, hrun]
    constructor <;> rintro ⟨_, ⟨⟩⟩
  | ok outputs =>
    obtain ⟨t, ht, hconclusion⟩ := Meanwhile.reads_conclusion others
      (hu.faults.trans (others.faults_idle hw stop)) d record trigger.metadataKey
      (entered w.store record) outputs (trigger.counterValue.natAbs == record.threshold)
    obtain ⟨hreadings, hrun⟩ := hjoin _ _ _ (hcollect.bindOk hconclusion)
    rw [List.append_nil] at hreadings
    rw [hu.store] at ht
    refine ⟨hreadings, fun hkeys => ?_, t, hrun, hu.outcome ht⟩
    rw [← hpolls.ok_iff hkeys, hrun]
    exact ⟨fun _ => ⟨_, rfl⟩, fun _ => ⟨_, rfl⟩⟩

/-- Settings with ten pauses in a second and some readings. -/
def patience (reads : Nat) : Settings := { pollAttempts := reads }

/-- The pauses of `patience` are short enough. -/
theorem pollMillis_patience (reads : Nat) :
    (patience reads).pollMillis ≤ Duration.thirtyYears := by
  change 100 ≤ Duration.thirtyYears
  decide

/-- Two outputs are in the set but come late, one after the other. -/
def lateWorld : World :=
  { unevenWorld with
    store := unevenWorld.store.performAll [.delete "one", .addMember "set" "three"]
    later := [(150, .put "one" (.nat 7)), (320, .put "three" (.nat 9))] }

/-- The triggers of `unevenRecord` lead to it in `lateWorld`. -/
theorem findsRecord_late (count : Int) :
    FindsRecord unevenState (unevenTrigger count) lateWorld.store unevenRecord := by
  refine ⟨_, ({} : Metadata).setFanOut "Fan" "run" unevenRecord, rfl, ?_, ?_⟩
  · decide +kernel
  · exact Metadata.fanOut?_setFanOut _ "Fan" "run" unevenRecord

/-- In `lateWorld`, with three readings of each output they are in time, as the second one is read
only from the time when the first one has been found; with two readings the first one is not. -/
theorem join_polls_lateWorld :
    ((Meanwhile.ofPause (pollMillis_patience 3)).readings
        (join (patience 3) unevenState (unevenTrigger 3)).run lateWorld =
      [(0, "metadata"), (0, "one"), (100, "one"), (200, "one"), (200, "three"), (300, "three"),
        (400, "three")] ∧
      ∃ v, (join (patience 3) unevenState (unevenTrigger 3)).run.run World.answer lateWorld =
        (.ok (.joined [.nat 7, .null, .nat 9] true), v)) ∧
    ∃ v, (join (patience 2) unevenState (unevenTrigger 3)).run.run World.answer lateWorld =
        (.error (.outputTimeout "one" 2), v) ∧
      ((Meanwhile.ofPause (pollMillis_patience 2)).idle 2 lateWorld).Alike v := by
  have hbegun : lateWorld.store.membersOf unevenRecord.outputSet ≠ [] := by decide +kernel
  constructor
  case left =>
    have hpolls : Polls ((Meanwhile.ofPause (pollMillis_patience 3)).seen lateWorld)
        (patience 3).pollReads (lateWorld.store.membersOf unevenRecord.outputSet) 0
        unevenRecord.branchOutputs _ _ _ :=
      @Polls.found _ _ _ 0 2 "one" (.nat 7) _ _ _ _ (by decide +kernel) (by decide)
        (by decide +kernel) (by decide +kernel)
        (.untracked (by decide +kernel)
          (@Polls.found _ _ _ 2 2 "three" (.nat 9) _ _ _ _ (by decide +kernel) (by decide)
            (by decide +kernel) (by decide +kernel) .done))
    obtain ⟨hreadings, -, v, hrun, -⟩ := (join_polls (Meanwhile.ofPause (pollMillis_patience 3))
      unevenState (unevenTrigger 3) rfl (findsRecord_late 3) hbegun).2 _ _ _ hpolls
    rw [Meanwhile.answer_ofPause] at hrun
    exact ⟨hreadings, v, hrun⟩
  case right =>
    have hpolls : Polls ((Meanwhile.ofPause (pollMillis_patience 2)).seen lateWorld)
        (patience 2).pollReads (lateWorld.store.membersOf unevenRecord.outputSet) 0
        unevenRecord.branchOutputs _ _ _ :=
      @Polls.missed _ _ _ 0 "one" _ (by decide +kernel) (by decide +kernel)
    obtain ⟨-, -, v, hrun, halike, -⟩ := (join_polls (Meanwhile.ofPause (pollMillis_patience 2))
      unevenState (unevenTrigger 3) rfl (findsRecord_late 3) hbegun).2 _ _ _ hpolls
    rw [Meanwhile.answer_ofPause] at hrun
    exact ⟨v, hrun, halike⟩

end FanOut

end Workflow
