import Workflow.Double

/-!
# Durations

A length of time in whole nanoseconds. The longest has as many seconds as a word of 64 bits can
count.

* `Duration`, `Duration.zero`, `Duration.max`.
* `Duration.ofMillis`, `Duration.ofSeconds?`: from milliseconds, and from a double of seconds.
* `Duration.millis`: in milliseconds, every begun one counted.
* `Duration.pauseMillis`: the milliseconds that a pause takes.
-/

namespace Workflow

/-- A length of time. -/
structure Duration where
  nanoseconds : Nat
  deriving DecidableEq, Repr

namespace Duration

/-- Nanoseconds in a second. -/
def perSecond : Nat := 1000000000

/-- Nanoseconds in a millisecond. -/
def perMilli : Nat := 1000000

/-- No time at all. -/
def zero : Duration := ⟨0⟩

/-- The longest duration. -/
def max : Duration := ⟨Word.count64 * perSecond - 1⟩

/-- A number of milliseconds. -/
def ofMillis (millis : Nat) : Duration := ⟨millis * perMilli⟩

/-- A number of seconds, rounded to the nearest nanosecond; refused if it is negative, no number, or
too large. -/
def ofSeconds? (seconds : Double) : Option Duration := seconds.nanoseconds?.map (⟨·⟩)

/-- The whole seconds. -/
def seconds (d : Duration) : Nat := d.nanoseconds / perSecond

/-- The nanoseconds beyond the whole seconds. -/
def subsecond (d : Duration) : Nat := d.nanoseconds % perSecond

/-- The number of milliseconds, rounded up. -/
def millis (d : Duration) : Nat := (d.nanoseconds + (perMilli - 1)) / perMilli

/-- Milliseconds of thirty years. -/
def thirtyYears : Nat := 30 * 365 * 24 * 60 * 60 * 1000

/-- The milliseconds that a pause of a duration takes: it ends after thirty years at the latest. -/
def pauseMillis (d : Duration) : Nat := min d.millis thirtyYears

end Duration

end Workflow
