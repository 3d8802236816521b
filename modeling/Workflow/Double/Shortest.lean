import Workflow.Double
import Workflow.Text.Digits

/-!
# The text of a double: the fewest digits that read back

A double is written with the fewest decimal digits whose nearest double is the one written; of
several such numbers the nearest to it is taken, and of two equally near the one with an even last
digit.

* `Decimal`: digits with a power of ten.
* `Double.readsBack`: whether a decimal's nearest double has the given magnitude.
* `Double.shortest`: the decimal that is written.
* `Double.text`: positional while the exponent of the first digit lies between -5 and 15, and with
  a signed exponent elsewhere. A positional text always has a fractional part.
-/

namespace Workflow

/-- The decimal number `digits * 10 ^ exponent`. -/
structure Decimal where
  digits : Nat
  exponent : Int
  deriving DecidableEq, Repr

namespace Decimal

/-- Numerator of a decimal as a ratio of naturals. -/
def num (d : Decimal) : Nat := d.digits * Nat.pow 10 d.exponent.toNat

/-- Denominator of a decimal as a ratio of naturals. -/
def den (d : Decimal) : Nat := Nat.pow 10 (-d.exponent).toNat

end Decimal

namespace Double

/-! ## Digits -/

/-- Whether the double nearest to `d` has the magnitude `units`. -/
def readsBack (units : Nat) (d : Decimal) : Bool := nearestUnits (d.num * one) d.den == units

/-- The multiple of `10 ^ exponent` next to the magnitude `units` that reads back, if there is
one: only the two multiples that enclose the magnitude can be nearest to it. -/
def gridPoint? (units : Nat) (exponent : Int) : Option Decimal :=
  let num := units * Nat.pow 10 (-exponent).toNat
  let den := one * Nat.pow 10 exponent.toNat
  let below : Decimal := ⟨num / den, exponent⟩
  let above : Decimal := ⟨num / den + 1, exponent⟩
  match readsBack units below, readsBack units above with
  | true, true => some (if roundHalfEven num den = below.digits then below else above)
  | true, false => some below
  | false, true => some above
  | false, false => none

/-- Searches the decimal grids from coarse to fine. Every double is a multiple of `10 ^ (-1074)`,
which is what remains when `grids` of them are exhausted. -/
def shortestFrom (units : Nat) : (grids : Nat) → (exponent : Int) → Decimal
  | 0, _ => ⟨units * Nat.pow 5 1074, -1074⟩
  | grids + 1, exponent =>
    match gridPoint? units exponent with
    | some d => d
    | none => shortestFrom units grids (exponent - 1)

/-- An exponent whose power of ten exceeds the magnitude `units`: `1233 / 4096` is just below the
logarithm of two, and two is added for the rounding. -/
def exponentAbove (units : Nat) : Int := ((units.log2 : Int) - 1074) * 1233 / 4096 + 2

/-- The decimal with the fewest digits that reads back as the magnitude `units`. Seventeen digits
always do, so twenty grids from one that is too coarse suffice. -/
def shortest (units : Nat) : Decimal := shortestFrom units 20 (exponentAbove units)

/-! ## Layout -/

/-- The digits with a point after the first `point` of them; zeros fill either side. -/
def positional (digits : List Char) (point : Int) : List Char :=
  if point ≤ 0 then '0' :: '.' :: List.replicate (-point).toNat '0' ++ digits
  else
    let whole := digits.take point.toNat
    let rest := digits.drop point.toNat
    whole ++ List.replicate (point.toNat - whole.length) '0' ++ '.' :: (if rest.isEmpty then ['0'] else rest)

/-- One digit, the point and the other digits if there are others, and a signed exponent. -/
def scientific (digits : List Char) (exponent : Int) : List Char :=
  let sign := if exponent < 0 then '-' else '+'
  let fraction := if digits.length ≤ 1 then [] else '.' :: digits.drop 1
  digits.take 1 ++ fraction ++ 'e' :: sign :: Text.natDigits exponent.natAbs

/-- A decimal laid out: positional while its first digit stands between `10 ^ (-5)` and
`10 ^ 15`. -/
def layout (d : Decimal) : List Char :=
  let digits := Text.natDigits d.digits
  let point := d.exponent + digits.length
  if -5 < point ∧ point ≤ 16 then positional digits point else scientific digits (point - 1)

/-- A double as it is written. What is not finite has no number to write. -/
def text : Double → String
  | finite negative units =>
    let magnitude := if units = 0 then ['0', '.', '0'] else layout (shortest units)
    String.ofList (if negative then '-' :: magnitude else magnitude)
  | infinite _ => "null"
  | nan => "null"

end Double

end Workflow
