import Workflow.Double.Shortest

/-!
# Reading a double from a text

The double nearest to a decimal text. The text is an optional sign and digits with an optional
point and exponent, at least one digit standing before or after the point; or a name of infinity or
of not a number, in any case.

* `Double.ofDecimal`: the double nearest to `digits * 10 ^ exponent`.
* `Double.ofText?`: the reader.
-/

namespace Workflow.Double

/-- The double nearest to `digits * 10 ^ exponent`. Past three hundred and ten places before the
point there is only infinity, and past four hundred after it only zero, so no larger power of ten
is ever computed. -/
def ofDecimal (negative : Bool) (digits : Nat) (exponent : Int) : Double :=
  if digits = 0 then finite negative 0
  else
    let point := exponent + (Text.natDigits digits).length
    if 310 < point then infinite negative
    else if point < -400 then finite negative 0
    else
      let d : Decimal := ⟨digits, exponent⟩
      nearest negative d.num d.den

/-- Reads an exponent that ends the text: an optional sign and at least one digit. -/
def exponentOfText? (cs : List Char) : Option Int :=
  let (negative, digits) := match cs with
    | '-' :: rest => (true, rest)
    | '+' :: rest => (false, rest)
    | rest => (false, rest)
  if digits.isEmpty || !digits.all Char.isDigit then none
  else
    let n : Int := Text.digitsValue digits
    some (if negative then -n else n)

/-- Reads a number without its sign. -/
def magnitudeOfText? (negative : Bool) (cs : List Char) : Option Double :=
  let (whole, rest) := Text.spanDigits cs
  let (fraction, rest) := match rest with
    | '.' :: rest => Text.spanDigits rest
    | rest => ([], rest)
  let digits := whole ++ fraction
  if digits.isEmpty then none
  else
    let value (exponent : Int) :=
      ofDecimal negative (Text.digitsValue digits) (exponent - fraction.length)
    match rest with
    | [] => some (value 0)
    | 'e' :: rest | 'E' :: rest => (exponentOfText? rest).map value
    | _ => none

/-- Reads a text as a double. -/
def ofText? (cs : List Char) : Option Double :=
  let (negative, rest) := match cs with
    | '-' :: rest => (true, rest)
    | '+' :: rest => (false, rest)
    | rest => (false, rest)
  let name := rest.map Char.toLower
  if name = "inf".toList ∨ name = "infinity".toList then some (infinite negative)
  else if name = "nan".toList then some nan
  else magnitudeOfText? negative rest

end Workflow.Double
