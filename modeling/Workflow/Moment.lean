import Workflow.Duration

/-!
# Moments in time

The proleptic Gregorian calendar in UTC, with leap seconds as clocks show them: second 60 is the
second 59 with more than a full second of nanoseconds.

* `daysOfDate?`: the day of a date, counted from the first of January 1970, if the date exists.
* `Moment`: a moment as whole seconds since then, and nanoseconds.
* `Moment.ofClock?`: the moment of a date and a time of day.
* `Moment.compare`: the order of moments.
* `Moment.since`: how long one moment is after another.
-/

namespace Workflow

/-! ## The calendar -/

/-- Whether February of a year has 29 days. -/
def isLeapYear (year : Int) : Bool :=
  year % 4 == 0 && (year % 100 != 0 || year % 400 == 0)

/-- The lengths of the months of a year. -/
def monthLengths (year : Int) : List Nat :=
  [31, if isLeapYear year then 29 else 28, 31, 30, 31, 30, 31, 31, 30, 31, 30, 31]

/-- The total length of consecutive months. -/
def totalLength : List Nat → Nat
  | [] => 0
  | length :: rest => length + totalLength rest

/-- Days from the first of January of the year 1 to that of the given year. -/
def daysBeforeYear (year : Int) : Int :=
  let past := year - 1
  365 * past + past / 4 - past / 100 + past / 400

/-- The day of a date, counted from the first of January 1970; `none` if there is no such date. -/
def daysOfDate? (year : Int) (month day : Nat) : Option Int :=
  match month with
  | 0 => none
  | m + 1 =>
    match (monthLengths year)[m]? with
    | none => none
    | some length =>
      if 1 ≤ day ∧ day ≤ length then
        let days := totalLength ((monthLengths year).take m) + (day - 1)
        some (daysBeforeYear year - daysBeforeYear 1970 + days)
      else none

/-! ## Moments -/

/-- A moment: seconds since the first of January 1970, and nanoseconds, of which a leap second has
more than a full second. -/
structure Moment where
  seconds : Int
  nanos : Nat
  deriving DecidableEq, Repr

namespace Moment

/-- Seconds in a day. -/
def perDay : Int := 86400

/-- The moment of a date and a time of day that is `offset` seconds ahead of UTC; `none` if the date
or the time does not exist. Any minute may have a second 60. -/
def ofClock? (year : Int) (month day hour minute second nanos : Nat) (offset : Int) :
    Option Moment := do
  let days ← daysOfDate? year month day
  if 23 < hour ∨ 59 < minute ∨ 60 < second then none
  let leap := second = 60
  let shown := if leap then 59 else second
  return {
    seconds := days * perDay + (hour * 3600 + minute * 60 + shown : Nat) - offset
    nanos := nanos + if leap then 1000000000 else 0 }

/-- The earlier of two moments comes first. -/
def compare (a b : Moment) : Ordering :=
  (Ord.compare a.seconds b.seconds).then (Ord.compare a.nanos b.nanos)

/-- The day of a moment. -/
def day (a : Moment) : Int := a.seconds / perDay

/-- The time of day of a moment, in seconds. -/
def secondOfDay (a : Moment) : Int := a.seconds % perDay

/-- Nanoseconds from `b` to `a`. A leap second counts only if it lies between the two times of
day. -/
def since (a b : Moment) : Int :=
  let leap (m : Moment) : Int := if 1000000000 ≤ m.nanos then 1 else 0
  let inserted : Int :=
    if b.secondOfDay < a.secondOfDay then leap b
    else if a.secondOfDay < b.secondOfDay then -leap a
    else 0
  let seconds := (a.day - b.day) * perDay + (a.secondOfDay - b.secondOfDay) + inserted
  seconds * 1000000000 + (a.nanos - b.nanos)

end Moment

end Workflow
