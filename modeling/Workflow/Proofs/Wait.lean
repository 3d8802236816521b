import Workflow.Wait

/-!
# A delay that is written and one that is found

A Wait state can write its delay down, as seconds or as a timestamp, or name a path to it. The two
ways agree as long as the delay is not negative: what is found at the path means the same as if it
stood in the state. Only a timestamp that is past is passed over where it is written, and refused
where it is found.

* **Forms** (`WaitForm`, `StateBody.waitForms`): what a state says about its delay, in the order in
  which it counts.
* **The first form** (`WaitForm.delay`, `StateBody.waitDelay_eq`, `StateBody.waitDelay_congr`): it
  alone decides, whatever the others are.
* **Time that is left** (`delayUntil?_eq_some_iff`, `Moment.since_eq`): a delay is as long as the
  time from one moment to the other.
* **Both ways** (`Timed`, `StateBody.waitDelay_written_found`): where they agree and where they do
  not.
-/

namespace Workflow

/-! ## Forms -/

/-- What a state can say about how long it waits. -/
inductive WaitForm where
  | seconds (value : Json)
  | secondsPath (path : String)
  | timestamp (literal : String)
  | timestampPath (path : String)
  deriving DecidableEq, Repr

/-- What the state says about how long it waits; what comes first counts. -/
def StateBody.waitForms (body : StateBody) : List WaitForm :=
  (body.seconds.map .seconds).toList ++ (body.secondsPath.map .secondsPath).toList ++
    (body.timestamp.map .timestamp).toList ++ (body.timestampPath.map .timestampPath).toList

/-! ## The first form -/

/-- The delay that a form stands for. -/
def WaitForm.delay (input : Json) (now : Moment) : WaitForm → Except WaitError Duration
  | seconds value => secondsDelay value
  | secondsPath path => do secondsDelay (← waitValue path input)
  | timestamp literal => do return (delayUntil? (← waitMoment literal) now).getD .zero
  | timestampPath path => do
    match ← waitValue path input with
    | .string literal =>
      match delayUntil? (← waitMoment literal) now with
      | some delay => return delay
      | none => throw (.past literal)
    | _ => throw (.notAText path)

/-- The delay of a state is that of its first form. -/
theorem StateBody.waitDelay_eq (body : StateBody) (input : Json) (now : Moment) :
    body.waitDelay input now =
      body.waitForms.head?.elim (.error .noField) (WaitForm.delay input now) := by
  rw [waitDelay, waitForms]
  cases body.seconds with
  | some value => rfl
  | none =>
    cases body.secondsPath with
    | some path => rfl
    | none =>
      cases body.timestamp with
      | some literal => rfl
      | none => cases body.timestampPath <;> rfl

/-- States with the same first form wait equally long, whatever else they say. -/
theorem StateBody.waitDelay_congr {a b : StateBody} (h : a.waitForms.head? = b.waitForms.head?)
    (input : Json) (now : Moment) : a.waitDelay input now = b.waitDelay input now := by
  rw [waitDelay_eq, waitDelay_eq, h]

/-- The value that a path of a Wait state leads to is its first match in the input. -/
theorem waitValue_of_first? {path : String} {compiled : Path} {input found : Json}
    (hread : Path.parse path = .ok compiled) (hfirst : compiled.first? input = some found) :
    waitValue path input = .ok found := by
  simp only [waitValue, hread, hfirst]

/-! ## Time that is left -/

/-- Time is left until a moment that is not past, as much as lies in between. -/
theorem delayUntil?_eq_some_iff {target now : Moment} {delay : Duration} :
    delayUntil? target now = some delay ↔ (delay.nanoseconds : Int) = target.since now := by
  simp only [delayUntil?, Option.ite_none_right_eq_some, Option.some.injEq]
  constructor
  · rintro ⟨hle, rfl⟩
    exact Int.toNat_of_nonneg hle
  · intro h
    rw [← h]
    exact ⟨Int.natCast_nonneg _, rfl⟩

/-- No time is left until a moment that is past. -/
theorem delayUntil?_eq_none_iff {target now : Moment} :
    delayUntil? target now = none ↔ target.since now < 0 := by
  simp [delayUntil?]

/-- Between moments without leap seconds lie the seconds from one to the other. -/
theorem Moment.since_eq {a b : Moment} (ha : a.nanos < 1000000000) (hb : b.nanos < 1000000000) :
    a.since b = (a.seconds - b.seconds) * 1000000000 + (a.nanos - b.nanos) := by
  have hleap (m : Moment) (hm : m.nanos < 1000000000) :
      (if 1000000000 ≤ m.nanos then 1 else 0 : Int) = 0 := if_neg (Nat.not_le.mpr hm)
  have hsplit (m : Moment) : m.day * perDay + m.secondOfDay = m.seconds :=
    Int.ediv_mul_add_emod m.seconds perDay
  simp only [since, hleap a ha, hleap b hb, Int.neg_zero, ite_self, Int.add_zero]
  rw [← hsplit a, ← hsplit b]
  simp only [perDay]
  omega

/-! ## Both ways -/

/-- What comes of a timestamp that is written in the state, and of the same one found at a path. -/
inductive Timed (literal : String) (now : Moment) :
    (written found : Except WaitError Duration) → Prop
  | unreadable (unread : Moment.ofUtcLiteral? literal = none) :
      Timed literal now (.error (.notATimestamp literal)) (.error (.notATimestamp literal))
  | ahead {target : Moment} {delay : Duration} (read : Moment.ofUtcLiteral? literal = some target)
      (left : (delay.nanoseconds : Int) = target.since now) :
      Timed literal now (.ok delay) (.ok delay)
  | past {target : Moment} (read : Moment.ofUtcLiteral? literal = some target)
      (elapsed : target.since now < 0) :
      Timed literal now (.ok .zero) (.error (.past literal))

namespace WaitForm

variable {path : String} {input : Json}

/-- Seconds that are found count as seconds that are written. -/
theorem delay_secondsPath {v : Json} (hfound : waitValue path input = .ok v) (now : Moment) :
    (secondsPath path).delay input now = secondsDelay v := by
  simp only [delay, hfound, bind, Except.bind]

/-- A timestamp that is found counts as one that is written, unless it is past. -/
theorem timed_delay {literal : String} (hfound : waitValue path input = .ok (.string literal))
    (other : Json) (now : Moment) :
    Timed literal now ((timestamp literal).delay other now)
      ((timestampPath path).delay input now) := by
  cases hread : Moment.ofUtcLiteral? literal with
  | none =>
    have hmoment : waitMoment literal = .error (.notATimestamp literal) := by
      rw [waitMoment, hread]
    simp only [delay, hfound, hmoment, bind, Except.bind]
    exact .unreadable hread
  | some target =>
    have hmoment : waitMoment literal = .ok target := by rw [waitMoment, hread]
    simp only [delay, hfound, hmoment, bind, Except.bind]
    cases hleft : delayUntil? target now with
    | none => exact .past hread (delayUntil?_eq_none_iff.mp hleft)
    | some delay => exact .ahead hread (delayUntil?_eq_some_iff.mp hleft)

end WaitForm

/-- Seconds come to a delay, or are refused as the value that they are. -/
theorem secondsDelay_cases (v : Json) :
    (∃ delay, secondsDelay v = .ok delay) ∨ secondsDelay v = .error (.notSeconds v) := by
  rw [secondsDelay]
  cases (secondsOf? v).bind Duration.ofSeconds? with
  | none => exact .inr rfl
  | some delay => exact .inl ⟨delay, rfl⟩

namespace StateBody

/-- The delay of a state is that of the first form among those that it states. -/
theorem waitDelay_of_head? {body : StateBody} {form : WaitForm}
    (h : body.waitForms.head? = some form) (input : Json) (now : Moment) :
    body.waitDelay input now = form.delay input now := by
  rw [waitDelay_eq, h, Option.elim_some]

/-- What a state writes down about its delay means the same as when it is the first match of a path:
seconds come to the same delay or the same error, whatever they are and whatever the moment is;
timestamps too, unless they are past, which means no delay where they are written and an error where
they are found. In either case only the first form counts, and those after it are not looked at. -/
theorem waitDelay_written_found :
    (∀ path compiled input found, Path.parse path = .ok compiled →
      compiled.first? input = some found → ∀ (written byPath : StateBody) other now,
        (written.waitForms.head? = some (.seconds found) →
          byPath.waitForms.head? = some (.secondsPath path) →
          byPath.waitDelay input now = written.waitDelay other now ∧
          ((∃ delay, written.waitDelay other now = .ok delay) ∨
            written.waitDelay other now = .error (.notSeconds found))) ∧
        ∀ literal, found = .string literal →
          written.waitForms.head? = some (.timestamp literal) →
          byPath.waitForms.head? = some (.timestampPath path) →
          Timed literal now (written.waitDelay other now) (byPath.waitDelay input now)) ∧
    ∀ (body fuller : StateBody) form rest more, body.waitForms = form :: rest →
      fuller.waitForms = form :: more →
      ∀ input now, fuller.waitDelay input now = body.waitDelay input now := by
  refine ⟨fun path compiled input found hread hfirst written byPath other now => ⟨?_, ?_⟩, ?_⟩
  · intro hwritten hbyPath
    have hfound := waitValue_of_first? hread hfirst
    rw [waitDelay_of_head? hwritten, waitDelay_of_head? hbyPath,
      WaitForm.delay_secondsPath hfound, WaitForm.delay]
    exact ⟨rfl, secondsDelay_cases found⟩
  · rintro literal rfl hwritten hbyPath
    rw [waitDelay_of_head? hwritten, waitDelay_of_head? hbyPath]
    exact WaitForm.timed_delay (waitValue_of_first? hread hfirst) other now
  · intro body fuller form rest more hbody hfuller input now
    exact waitDelay_congr (by rw [hbody, hfuller, List.head?_cons, List.head?_cons]) input now

/-- Two and a half seconds in a text, and a moment that is ahead at first and past later; a path
that is none does no harm after a form that counts. -/
theorem waitDelay_written_found_teaTime :
    (Path.parse "$.tea" = .ok ⟨"$.tea", [.field "tea"]⟩ ∧
      ({ secondsPath := some "$.tea" } : StateBody).waitDelay
          (.object [("tea", .string " 2.5 ")]) ⟨0, 0⟩ =
        ({ seconds := some (.string " 2.5 ") } : StateBody).waitDelay .null ⟨0, 0⟩) ∧
    (∀ now, Timed "1970-01-01T00:01:00Z" now
      (({ timestamp := some "1970-01-01T00:01:00Z" } : StateBody).waitDelay .null now)
      (({ timestampPath := some "$.tea" } : StateBody).waitDelay
        (.object [("tea", .string "1970-01-01T00:01:00Z")]) now)) ∧
    Moment.ofUtcLiteral? "1970-01-01T00:01:00Z" = some ⟨60, 0⟩ ∧
    Moment.since ⟨60, 0⟩ ⟨20, 0⟩ = 40000000000 ∧ Moment.since ⟨60, 0⟩ ⟨61, 0⟩ < 0 ∧
    ({ seconds := some .null, secondsPath := some "tea" } : StateBody).waitDelay .null ⟨0, 0⟩ =
      ({ seconds := some .null } : StateBody).waitDelay .null ⟨0, 0⟩ := by
  have hread : Path.parse "$.tea" = .ok ⟨"$.tea", [.field "tea"]⟩ := rfl
  refine ⟨⟨hread, ?_⟩, fun now => ?_, by decide +kernel, by decide, by decide, ?_⟩
  · exact ((waitDelay_written_found.1 _ _ _ _ hread rfl _ _ _ ⟨0, 0⟩).1 rfl rfl).1
  · exact (waitDelay_written_found.1 _ _ _ _ hread rfl _ _ _ now).2 _ rfl rfl rfl
  · exact waitDelay_written_found.2 _ _ _ _ _ rfl rfl _ _

end StateBody

end Workflow
