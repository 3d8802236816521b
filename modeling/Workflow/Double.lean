import Workflow.Word

/-!
# Doubles: binary floating point numbers of 53 bits, exactly

A finite double is a sign and a whole number of *units* of `2 ^ (-1074)`, the smallest positive
double. Every double is a whole number of units, so comparison is comparison of integers, and each
operation is the exact rational result brought back to the grid of doubles by one rounding.

* `Double`: a finite double, an infinity or not a number.
* `Double.nearest`: the double nearest to a ratio of naturals, ties to the even neighbour. Every
  other operation goes through it.
* `Double.mul`, `Double.div`, `Double.ofInt`, `Double.pow`, `Double.powInt`: arithmetic.
* `Double.compare?`: the partial order; not a number is incomparable.
* `Double.nanoseconds?`: a number of seconds as whole nanoseconds.
-/

namespace Workflow

/-- The whole number nearest to `num / den`; a tie goes to the even one. -/
def roundHalfEven (num den : Nat) : Nat :=
  let quotient := num / den
  let twice := 2 * (num % den)
  if twice < den then quotient
  else if den < twice then quotient + 1
  else quotient + quotient % 2

/-- A binary floating point number. A finite one is `units * 2 ^ (-1074)`, with its sign apart, so
that the two zeros differ. -/
inductive Double where
  | finite (negative : Bool) (units : Nat)
  | infinite (negative : Bool)
  | nan
  deriving DecidableEq, Repr

namespace Double

/-! ## The grid -/

/-- Units in the number one. -/
def one : Nat := Nat.pow 2 1074

/-- The magnitude, in units, at which finite doubles end. -/
def limit : Nat := Nat.pow 2 2098

/-- Distance, in units, between neighbouring doubles at a magnitude whose whole part is `units`:
53 significant bits are kept. -/
def spacing (units : Nat) : Nat := Nat.pow 2 (units.log2 - 52)

/-- The grid point nearest to `num / den` units, ties to even. -/
def nearestUnits (num den : Nat) : Nat :=
  let step := spacing (num / den)
  roundHalfEven num (den * step) * step

/-- The double nearest to `num / den` units; past the largest finite double lies infinity. -/
def ofUnits (negative : Bool) (num den : Nat) : Double :=
  let units := nearestUnits num den
  if units < limit then finite negative units else infinite negative

/-- The double nearest to the ratio `num / den`. -/
def nearest (negative : Bool) (num den : Nat) : Double := ofUnits negative (num * one) den

/-- The double nearest to a natural number. -/
def ofNat (n : Nat) : Double := nearest false n 1

/-- The double nearest to an integer. -/
def ofInt (i : Int) : Double := nearest (i < 0) i.natAbs 1

/-- Positive zero. -/
def zero : Double := finite false 0

/-- The nearest double to `10 ^ k`. -/
def tenTo (k : Nat) : Double := ofNat (Nat.pow 10 k)

/-! ## Order -/

/-- Position on the number line in units; an infinity stands at the limit, past all finite ones.
The two zeros share a position, and not a number has none. -/
def position? : Double → Option Int
  | finite negative units => some (if negative then -(units : Int) else units)
  | infinite negative => some (if negative then -(limit : Int) else limit)
  | nan => none

/-- How `x` compares with `y`; `none` when either is not a number. -/
def compare? (x y : Double) : Option Ordering := do
  let p ← x.position?
  let q ← y.position?
  return compare p q

/-- Whether `x` is a zero of either sign. -/
def isZero (x : Double) : Bool := x.compare? zero == some .eq

/-! ## Arithmetic -/

/-- The double with the opposite sign. -/
def neg : Double → Double
  | finite negative units => finite (!negative) units
  | infinite negative => infinite (!negative)
  | nan => nan

/-- The sign bit; not a number counts as positive. -/
def sign : Double → Bool
  | finite negative _ => negative
  | infinite negative => negative
  | nan => false

/-- The rounded product. Infinity times zero is not a number. -/
def mul (x y : Double) : Double :=
  let negative := x.sign != y.sign
  match x, y with
  | nan, _ | _, nan => nan
  | finite _ a, finite _ b => ofUnits negative (a * b) one
  | finite _ a, infinite _ | infinite _, finite _ a => if a = 0 then nan else infinite negative
  | infinite _, infinite _ => infinite negative

/-- The rounded quotient. Zero over zero and infinity over infinity are not a number. -/
def div (x y : Double) : Double :=
  let negative := x.sign != y.sign
  match x, y with
  | nan, _ | _, nan => nan
  | finite _ a, finite _ b =>
    if b = 0 then (if a = 0 then nan else infinite negative)
    else nearest negative a b
  | finite _ _, infinite _ => finite negative 0
  | infinite _, finite _ _ => infinite negative
  | infinite _, infinite _ => nan

/-- Multiplies `acc` by `x ^ n`, squaring `x` once per binary digit of `n`. -/
def powFrom (acc x : Double) (n : Nat) : Double :=
  let acc := if n % 2 = 1 then acc.mul x else acc
  if n < 2 then acc else powFrom acc (x.mul x) (n / 2)

/-- The power `x ^ n` by repeated squaring, every product rounded. -/
def pow (x : Double) (n : Nat) : Double := powFrom (ofNat 1) x n

/-- The power with an integer exponent: a negative one gives the reciprocal of the power. -/
def powInt (x : Double) (n : Int) : Double :=
  let power := x.pow n.natAbs
  if n < 0 then (ofNat 1).div power else power

/-! ## Seconds -/

/-- A number of seconds as nanoseconds, rounded to the nearest, ties to even. Refused are negative
numbers, not a number, and whatever does not fit a word of 64 bits of whole seconds. -/
def nanoseconds? : Double → Option Nat
  | finite negative units =>
    if (negative && units != 0) || Word.count64 * one ≤ units then none
    else some (roundHalfEven (units * 1000000000) one)
  | infinite _ => none
  | nan => none

end Double

end Workflow
