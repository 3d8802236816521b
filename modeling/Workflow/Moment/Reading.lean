import Workflow.Moment
import Workflow.Text.Blank
import Workflow.Text.Digits

/-!
# Reading timestamps

Two written forms of a moment.

* `Moment.ofRfc3339?`: the profile of RFC 3339, with a date and a time apart by `T` or a blank, any
  number of decimal places, and `Z` or an offset from UTC. The offset is kept beside the moment.
* `Moment.ofUtcLiteral?`: a date and a time in UTC, ending in `Z`, where each number may have fewer
  digits than usual and white space before it, and the year may have a sign.
-/

namespace Workflow.Moment

/-- Reads the given character. -/
def exactly (expected : Char) : List Char → Option (List Char)
  | c :: rest => if c = expected then some rest else none
  | [] => none

/-! ## RFC 3339 -/

/-- Reads a number of exactly `width` digits. -/
def fixedDigits (width : Nat) (cs : List Char) : Option (Nat × List Char) :=
  let digits := cs.take width
  if digits.length = width ∧ digits.all Char.isDigit then
    some (Text.digitsValue digits, cs.drop width)
  else none

/-- Reads the decimal places of a second, if there are any, as nanoseconds. Places past the ninth
are read over. -/
def fraction : List Char → Option (Nat × List Char)
  | '.' :: rest =>
    let (digits, rest) := Text.spanDigits rest
    if digits.isEmpty then none
    else
      let kept := digits.take 9
      some (Text.digitsValue kept * Nat.pow 10 (9 - kept.length), rest)
  | rest => some (0, rest)

/-- Reads an offset from UTC in seconds; the minus may be a hyphen or the mathematical sign. -/
def offset : List Char → Option (Int × List Char)
  | [] => none
  | c :: rest =>
    if c = 'Z' ∨ c = 'z' then some (0, rest)
    else if c = '+' ∨ c = '-' ∨ c = '\u2212' then do
      let (hours, rest) ← fixedDigits 2 rest
      let rest ← exactly ':' rest
      let (minutes, rest) ← fixedDigits 2 rest
      if 59 < minutes ∨ 23 < hours then none
      let magnitude : Int := (hours * 3600 + minutes * 60 : Nat)
      return (if c = '+' then magnitude else -magnitude, rest)
    else none

/-- Reads the character between date and time. -/
def timeMark : List Char → Option (List Char)
  | c :: rest => if c = 'T' ∨ c = 't' ∨ c = ' ' then some rest else none
  | [] => none

/-- Reads a whole text as a moment with its offset from UTC. -/
def ofRfc3339? (text : String) : Option (Moment × Int) := do
  let (year, rest) ← fixedDigits 4 text.toList
  let rest ← exactly '-' rest
  let (month, rest) ← fixedDigits 2 rest
  let rest ← exactly '-' rest
  let (day, rest) ← fixedDigits 2 rest
  let rest ← timeMark rest
  let (hour, rest) ← fixedDigits 2 rest
  let rest ← exactly ':' rest
  let (minute, rest) ← fixedDigits 2 rest
  let rest ← exactly ':' rest
  let (second, rest) ← fixedDigits 2 rest
  let (nanos, rest) ← fraction rest
  let (offset, rest) ← offset rest
  if !rest.isEmpty then none
  let moment ← ofClock? year month day hour minute second nanos offset
  return (moment, offset)

/-! ## UTC literals -/

/-- Reads a number of at least one and at most `width` digits. -/
def upToDigits (width : Nat) (cs : List Char) : Option (Nat × List Char) :=
  let digits := (cs.take width).takeWhile Char.isDigit
  if digits.isEmpty then none else some (Text.digitsValue digits, cs.drop digits.length)

/-- Reads a number of at most `width` digits after white space. -/
def looseNumber (width : Nat) (cs : List Char) : Option (Nat × List Char) :=
  upToDigits width (Text.trimLeft cs)

/-- Reads a year after white space: up to four digits, or a sign and any number of digits. -/
def looseYear (cs : List Char) : Option (Int × List Char) :=
  match Text.trimLeft cs with
  | '-' :: rest => (upToDigits rest.length rest).map fun (n, rest) => (-(n : Int), rest)
  | '+' :: rest => (upToDigits rest.length rest).map fun (n, rest) => ((n : Int), rest)
  | rest => (upToDigits 4 rest).map fun (n, rest) => ((n : Int), rest)

/-- The years that the calendar reaches. -/
def inCalendar (year : Int) : Bool := -262143 ≤ year && year ≤ 262142

/-- Reads a whole text as a moment in UTC. -/
def ofUtcLiteral? (text : String) : Option Moment := do
  let (year, rest) ← looseYear text.toList
  let rest ← exactly '-' rest
  let (month, rest) ← looseNumber 2 rest
  let rest ← exactly '-' rest
  let (day, rest) ← looseNumber 2 rest
  let rest ← exactly 'T' rest
  let (hour, rest) ← looseNumber 2 rest
  let rest ← exactly ':' rest
  let (minute, rest) ← looseNumber 2 rest
  let rest ← exactly ':' rest
  let (second, rest) ← looseNumber 2 rest
  let rest ← exactly 'Z' rest
  if !rest.isEmpty || !inCalendar year then none
  ofClock? year month day hour minute second 0 0

end Workflow.Moment
