import Workflow.Text.Digits

/-!
# Execution ids

A run that is started gets an id that orders by time: 128 bits, of which the first 48 are the
milliseconds of its start, and the others random but for a version and a variant. It is written in
hexadecimal digits, in five groups.

* `hexDigits`: the last hexadecimal digits of a number.
* `timeOrderedId`: the id of a moment and a random number.
-/

namespace Workflow

/-- The last `count` hexadecimal digits of a number. -/
def hexDigits : (count : Nat) → Nat → List Char
  | 0, _ => []
  | count + 1, n => hexDigits count (n / 16) ++ [Nat.digitChar (n % 16)]

/-- The id for a start at the given milliseconds: version 7 stands before the first 12 random bits,
variant 2 before the other 62. -/
def timeOrderedId (millis random : Nat) : String :=
  let high := hexDigits 12 millis
  let version := '7' :: hexDigits 3 (random / Nat.pow 2 62)
  let variant := hexDigits 4 (0x8000 + random / Nat.pow 2 48 % 0x4000)
  let low := hexDigits 12 random
  .ofList (high.take 8 ++ '-' :: high.drop 8 ++ '-' :: version ++ '-' :: variant ++ '-' :: low)

end Workflow
