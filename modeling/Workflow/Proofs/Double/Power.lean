import Workflow.Proofs.Double

/-!
# Powers of doubles

A power is made of products, each of them rounded, so that the laws of exponents fail. Its order is
kept nevertheless: rounding changes the place of no two numbers, and the power with the next
exponent is made of factors that are not smaller.

* **Sizes** (`Double.size`, `Double.IsRounded`): how far a double lies from zero, and what is known
  of the size of a result.
* **Products and reciprocals** (`Double.size_mul`, `Double.size_mul_mono_right`,
  `Double.size_one_div_anti`): what they do to sizes.
* **Powers** (`Double.powFrom_of_mul`, `Double.size_powFrom_succ`, `Double.size_pow_mono`): what
  products keep, powers keep; and of a number from one on, a power does not shrink when its exponent
  grows.
* **Order** (`Double.one_le_size_of_le`, `Double.isUnsigned_of_le`): what comparisons say about
  sizes and signs.
-/

namespace Workflow.Double

variable {x x' y y' acc acc' : Double} {num den m n : Nat}

/-! ## Sizes -/

/-- How far a double lies from zero, in units. An infinity lies at the limit, and not a number at
zero. -/
def size : Double → Nat
  | finite _ units => units
  | infinite _ => limit
  | nan => 0

/-- The size of a finite double is its number of units. -/
@[simp] theorem size_finite (negative : Bool) (units : Nat) :
    (finite negative units).size = units := rfl

/-- The size of an infinity is the limit. -/
@[simp] theorem size_infinite (negative : Bool) : (infinite negative).size = limit := rfl

/-- A double that an operation can result in: if it is finite, it is a point of the grid below the
limit. -/
inductive IsRounded : Double → Prop
  | finite (negative : Bool) {units : Nat} (hdvd : spacing units ∣ units) (hlt : units < limit) :
      IsRounded (.finite negative units)
  | infinite (negative : Bool) : IsRounded (.infinite negative)
  | nan : IsRounded .nan

/-- The limit is a power of two. -/
theorem exists_limit_eq : ∃ e, limit = Nat.pow 2 e := by
  unfold limit
  exact ⟨2098, rfl⟩

/-- One is not above the limit of the finite doubles. -/
theorem one_le_limit : one ≤ limit := by decide +kernel

/-- The limit is a point of the grid it would lie on. -/
theorem spacing_limit_dvd : spacing limit ∣ limit := by
  obtain ⟨e, he⟩ := exists_limit_eq
  rw [he]
  exact spacing_dvd_two_pow (by rw [Nat.pow_eq, Nat.log2_two_pow])

namespace IsRounded

/-- No result of an operation is larger than the limit. -/
theorem size_le (h : x.IsRounded) : x.size ≤ limit := by
  cases h with
  | finite negative hdvd hlt => exact hlt.le
  | infinite negative => exact le_rfl
  | nan => exact Nat.zero_le _

/-- The size of a result is a point of the grid. -/
theorem dvd_size (h : x.IsRounded) : spacing x.size ∣ x.size := by
  cases h with
  | finite negative hdvd hlt => exact hdvd
  | infinite negative => exact spacing_limit_dvd
  | nan => exact Nat.dvd_zero _

/-- Rounding the size of a result changes nothing. -/
theorem nearestUnits_size (h : x.IsRounded) : nearestUnits x.size 1 = x.size :=
  nearestUnits_of_dvd h.dvd_size

end IsRounded

/-- A ratio that rounds to fewer units than the limit gives a finite double. -/
theorem ofUnits_of_lt (negative : Bool) (h : nearestUnits num den < limit) :
    ofUnits negative num den = finite negative (nearestUnits num den) := by
  unfold ofUnits
  simp only [if_pos h]

/-- A ratio that rounds to the limit or more gives an infinity. -/
theorem ofUnits_of_le (negative : Bool) (h : limit ≤ nearestUnits num den) :
    ofUnits negative num den = infinite negative := by
  unfold ofUnits
  simp only [if_neg (not_lt.mpr h)]

/-- The size of a rounded ratio is the rounded number of units, cut at the limit. -/
theorem size_ofUnits (negative : Bool) (num den : Nat) :
    (ofUnits negative num den).size = min (nearestUnits num den) limit := by
  rcases lt_or_ge (nearestUnits num den) limit with h | h
  · rw [ofUnits_of_lt negative h, size_finite, Nat.min_eq_left h.le]
  · rw [ofUnits_of_le negative h, size_infinite, Nat.min_eq_right h]

/-- A rounded ratio is a result, if the denominator is not zero. -/
theorem isRounded_ofUnits (negative : Bool) (num : Nat) (hden : 0 < den) :
    (ofUnits negative num den).IsRounded := by
  rcases lt_or_ge (nearestUnits num den) limit with h | h
  · rw [ofUnits_of_lt negative h]
    exact .finite negative (spacing_dvd_nearestUnits hden) h
  · rw [ofUnits_of_le negative h]
    exact .infinite negative

/-! ## Products and reciprocals -/

/-- The product of two finite doubles is the rounded product of their units. -/
theorem mul_finite (s t : Bool) (a b : Nat) :
    (finite s a).mul (finite t b) = ofUnits (s != t) (a * b) one := rfl

/-- A finite double times an infinity is an infinity, and not a number if the double is zero. -/
theorem mul_finite_infinite (s t : Bool) (a : Nat) :
    (finite s a).mul (infinite t) = if a = 0 then nan else infinite (s != t) := rfl

/-- An infinity times a finite double is an infinity, and not a number if the double is zero. -/
theorem mul_infinite_finite (s t : Bool) (b : Nat) :
    (infinite s).mul (finite t b) = if b = 0 then nan else infinite (s != t) := rfl

/-- The product of two infinities is an infinity. -/
theorem mul_infinite (s t : Bool) : (infinite s).mul (infinite t) = infinite (s != t) := rfl

/-- A product is a result, whatever its factors. -/
theorem isRounded_mul (x y : Double) : (x.mul y).IsRounded := by
  cases x with
  | nan => exact .nan
  | finite s a =>
    cases y with
    | nan => exact .nan
    | finite t b =>
      rw [mul_finite]
      exact isRounded_ofUnits _ _ one_pos
    | infinite t =>
      rw [mul_finite_infinite]
      split
      · exact .nan
      · exact .infinite _
  | infinite s =>
    cases y with
    | nan => exact .nan
    | finite t b =>
      rw [mul_infinite_finite]
      split
      · exact .nan
      · exact .infinite _
    | infinite t => exact .infinite _

/-- A size that is not below the limit, times one that is not below one, is rounded to the limit or
more. -/
theorem limit_le_nearestUnits {a b : Nat} (ha : limit ≤ a) (hb : one ≤ b) :
    limit ≤ nearestUnits (a * b) one := by
  calc limit = nearestUnits limit 1 := (nearestUnits_of_dvd spacing_limit_dvd).symm
    _ ≤ nearestUnits (a * b) one := by
      refine nearestUnits_ratio_mono Nat.one_pos one_pos ?_
      rw [Nat.mul_one]
      exact Nat.mul_le_mul ha hb

/-- The size of a product, if neither factor is smaller than one. -/
theorem size_mul (hx : one ≤ x.size) (hy : one ≤ y.size) :
    (x.mul y).size = min (nearestUnits (x.size * y.size) one) limit := by
  have hone := one_pos
  cases x with
  | nan => exact absurd hx (not_le.mpr hone)
  | finite s a =>
    rw [size_finite] at hx
    cases y with
    | nan => exact absurd hy (not_le.mpr hone)
    | finite t b => rw [mul_finite, size_ofUnits, size_finite, size_finite]
    | infinite t =>
      rw [mul_finite_infinite, if_neg (hone.trans_le hx).ne', size_infinite, size_finite,
        size_infinite, Nat.mul_comm, Nat.min_eq_right (limit_le_nearestUnits le_rfl hx)]
  | infinite s =>
    cases y with
    | nan => exact absurd hy (not_le.mpr hone)
    | finite t b =>
      rw [size_finite] at hy
      rw [mul_infinite_finite, if_neg (hone.trans_le hy).ne', size_infinite, size_finite,
        size_infinite, Nat.min_eq_right (limit_le_nearestUnits le_rfl hy)]
    | infinite t =>
      rw [mul_infinite, size_infinite, size_infinite, size_infinite,
        Nat.min_eq_right (limit_le_nearestUnits le_rfl one_le_limit)]

/-- One is a point of the grid it lies on. -/
theorem spacing_one_dvd : spacing one ∣ one := by
  obtain ⟨e, he⟩ := exists_one_eq
  rw [he]
  exact spacing_dvd_two_pow (by rw [Nat.pow_eq, Nat.log2_two_pow])

/-- One is below the limit of the finite doubles. -/
theorem one_lt_limit : one < limit := by decide +kernel

/-- Rounding one changes nothing. -/
theorem nearestUnits_one : nearestUnits one 1 = one := nearestUnits_of_dvd spacing_one_dvd

/-- The double of the natural number 1 is one, without a minus. -/
theorem ofNat_one : ofNat 1 = finite false one := by
  unfold ofNat nearest
  rw [Nat.one_mul, ofUnits_of_lt false (by rw [nearestUnits_one]; exact one_lt_limit),
    nearestUnits_one]

/-- The size of the double of 1 is one. -/
theorem one_le_size_ofNat_one : one ≤ (ofNat 1).size := by rw [ofNat_one, size_finite]

/-- The product of two doubles of size one or more has size one or more. -/
theorem one_le_size_mul (hx : one ≤ x.size) (hy : one ≤ y.size) : one ≤ (x.mul y).size := by
  rw [size_mul hx hy]
  refine le_min ?_ one_le_limit
  calc one = nearestUnits one 1 := nearestUnits_one.symm
    _ ≤ nearestUnits (x.size * y.size) one := by
      refine nearestUnits_ratio_mono Nat.one_pos one_pos ?_
      rw [Nat.mul_one]
      exact Nat.mul_le_mul hx hy

/-- The product of two doubles of size one or more does not shrink when its left factor grows. -/
theorem size_mul_mono_left (hx : one ≤ x.size) (hy : one ≤ y.size) (h : x.size ≤ x'.size) :
    (x.mul y).size ≤ (x'.mul y).size := by
  rw [size_mul hx hy, size_mul (hx.trans h) hy]
  refine min_le_min_right limit (nearestUnits_ratio_mono one_pos one_pos ?_)
  exact Nat.mul_le_mul_right one (Nat.mul_le_mul_right _ h)

/-- Zero is rounded to zero. -/
theorem nearestUnits_zero (hden : 0 < den) : nearestUnits 0 den = 0 :=
  Nat.le_zero.mp (nearestUnits_ratio_le hden (Nat.dvd_zero _) (Nat.zero_le _))

/-- The size of an infinity times a double is the limit, and zero if that of the double is zero. -/
theorem size_infinite_mul (s : Bool) (y : Double) :
    ((infinite s).mul y).size = if y.size = 0 then 0 else limit := by
  cases y with
  | nan => rfl
  | finite t b =>
    rw [mul_infinite_finite, size_finite]
    split <;> rfl
  | infinite t =>
    rw [size_infinite, if_neg (one_pos.trans_le one_le_limit).ne']
    rfl

/-- The product of a finite double and another does not shrink when the other grows. Times zero it
is zero, and times anything else at most an infinity. -/
theorem size_finite_mul_mono (s : Bool) (a : Nat) (hy' : y'.IsRounded) (h : y.size ≤ y'.size) :
    ((finite s a).mul y).size ≤ ((finite s a).mul y').size := by
  have hzero {b : Nat} (hb : a * b = 0) (t : Bool) : ((finite s a).mul (finite t b)).size = 0 := by
    rw [mul_finite, size_ofUnits, hb, nearestUnits_zero one_pos, Nat.zero_min]
  cases y with
  | nan => exact Nat.zero_le _
  | finite t b =>
    cases hy' with
    | nan =>
      obtain rfl : b = 0 := Nat.le_zero.mp h
      exact (hzero (Nat.mul_zero a) t).le
    | finite t' hdvd hlt =>
      rw [mul_finite, mul_finite, size_ofUnits, size_ofUnits]
      refine min_le_min_right limit (nearestUnits_ratio_mono one_pos one_pos ?_)
      exact Nat.mul_le_mul_right one (Nat.mul_le_mul_left a h)
    | infinite t' =>
      by_cases ha : a = 0
      · rw [hzero (by rw [ha, Nat.zero_mul]) t]
        exact Nat.zero_le _
      · rw [mul_finite_infinite, if_neg ha]
        exact (isRounded_mul _ _).size_le
  | infinite t =>
    -- nothing but an infinity is as large
    cases hy' with
    | nan => exact absurd h (not_le.mpr (one_pos.trans_le one_le_limit))
    | finite t' hdvd hlt => exact absurd h (not_le.mpr hlt)
    | infinite t' =>
      rw [mul_finite_infinite, mul_finite_infinite]
      split <;> exact Nat.le_refl _

/-- A product does not shrink when its right factor grows, also if the left one is smaller than one,
or an infinity. -/
theorem size_mul_mono_right (x : Double) (hy' : y'.IsRounded) (h : y.size ≤ y'.size) :
    (x.mul y).size ≤ (x.mul y').size := by
  cases x with
  | nan => exact Nat.zero_le _
  | finite s a => exact size_finite_mul_mono s a hy' h
  | infinite s =>
    rw [size_infinite_mul, size_infinite_mul]
    split
    case isTrue => exact Nat.zero_le _
    case isFalse hy => rw [if_neg (by omega)]

/-! ### Reciprocals -/

/-- The reciprocal of a finite double other than zero is a rounded ratio. -/
theorem one_div_finite (t : Bool) {b : Nat} (hb : 0 < b) :
    (ofNat 1).div (finite t b) = ofUnits (false != t) (one * one) b := by
  rw [ofNat_one]
  exact if_neg hb.ne'

/-- The reciprocal of an infinity is zero. -/
theorem one_div_infinite (t : Bool) : (ofNat 1).div (infinite t) = finite (false != t) 0 := by
  rw [ofNat_one]
  rfl

/-- The reciprocal of a double of size one or more is a result. -/
theorem isRounded_one_div (hy : one ≤ y.size) : ((ofNat 1).div y).IsRounded := by
  cases y with
  | nan => exact absurd hy (not_le.mpr one_pos)
  | finite t b =>
    have hb : 0 < b := one_pos.trans_le hy
    rw [one_div_finite t hb]
    exact isRounded_ofUnits _ _ hb
  | infinite t =>
    rw [one_div_infinite]
    exact .finite _ (Nat.dvd_zero _) (one_pos.trans_le one_le_limit)

/-- The reciprocal of a double of size one or more does not grow when the double does. -/
theorem size_one_div_anti (hy : one ≤ y.size) (hy' : y'.IsRounded) (h : y.size ≤ y'.size) :
    ((ofNat 1).div y').size ≤ ((ofNat 1).div y).size := by
  cases hy' with
  | nan => exact absurd (hy.trans h) (not_le.mpr one_pos)
  | infinite t' =>
    rw [one_div_infinite]
    exact Nat.zero_le _
  | @finite t' b' hdvd hlt =>
    cases y with
    | nan => exact absurd hy (not_le.mpr one_pos)
    | infinite t => exact absurd h (not_le.mpr hlt)
    | finite t b =>
      have hb : 0 < b := one_pos.trans_le hy
      have hb' : 0 < b' := hb.trans_le h
      rw [one_div_finite t hb, one_div_finite t' hb', size_ofUnits, size_ofUnits]
      refine min_le_min_right limit (nearestUnits_ratio_mono hb' hb ?_)
      exact Nat.mul_le_mul_left _ h

/-- The reciprocal of a double of size one or more is at most one. -/
theorem size_one_div_le (hy : one ≤ y.size) : ((ofNat 1).div y).size ≤ one := by
  cases y with
  | nan => exact absurd hy (not_le.mpr one_pos)
  | infinite t =>
    rw [one_div_infinite]
    exact Nat.zero_le _
  | finite t b =>
    have hb : 0 < b := one_pos.trans_le hy
    rw [one_div_finite t hb, size_ofUnits]
    refine (Nat.min_le_left _ _).trans ?_
    calc nearestUnits (one * one) b ≤ nearestUnits one 1 := by
          refine nearestUnits_ratio_mono hb Nat.one_pos ?_
          rw [Nat.mul_one]
          exact Nat.mul_le_mul_left one hy
      _ = one := nearestUnits_one

/-! ## Powers -/

/-- What has been multiplied up once the lowest binary digit of the exponent has been read. -/
def readDigit (acc x : Double) (n : Nat) : Double := if n % 2 = 1 then acc.mul x else acc

/-- With exponent zero, nothing is multiplied up. -/
theorem powFrom_zero (acc x : Double) : powFrom acc x 0 = acc := by
  rw [powFrom]
  rfl

/-- The power is the power of the square, with half the exponent, from what the lowest digit of the
exponent leaves. -/
theorem powFrom_eq (acc x : Double) (n : Nat) :
    powFrom acc x n = powFrom (readDigit acc x n) (x.mul x) (n / 2) := by
  rw [powFrom]
  change (if n < 2 then readDigit acc x n else _) = _
  split
  case isTrue hn => rw [Nat.div_eq_of_lt hn, powFrom_zero]
  case isFalse => rfl

/-- Reading a digit keeps what has been multiplied up at size one or more. -/
theorem one_le_size_readDigit (hacc : one ≤ acc.size) (hx : one ≤ x.size) (n : Nat) :
    one ≤ (readDigit acc x n).size := by
  rw [readDigit]
  split
  · exact one_le_size_mul hacc hx
  · exact hacc

/-- A property that products keep, powers keep: `P` of what has been multiplied up, if `Q` holds of
the number that is squared again and again and multiplied in. -/
theorem powFrom_of_mul {P Q : Double → Prop} (hmul : ∀ y z, P y → Q z → P (y.mul z))
    (hsquare : ∀ z, Q z → Q (z.mul z)) (hacc : P acc) (hx : Q x) (n : Nat) :
    P (powFrom acc x n) := by
  -- on the exponent, which loses a binary digit
  induction n using Nat.strong_induction_on generalizing acc x with
  | _ n ih =>
    rcases Nat.eq_zero_or_pos n with rfl | hn
    · rwa [powFrom_zero]
    · rw [powFrom_eq]
      refine ih (n / 2) (by omega) ?_ (hsquare x hx)
      rw [readDigit]
      split
      · exact hmul acc x hacc hx
      · exact hacc

/-- A power that is multiplied up from a larger double is not smaller. -/
theorem size_powFrom_mono (hacc : one ≤ acc.size) (hx : one ≤ x.size) (h : acc.size ≤ acc'.size)
    (n : Nat) : (powFrom acc x n).size ≤ (powFrom acc' x n).size := by
  induction n using Nat.strong_induction_on generalizing acc acc' x with
  | _ n ih =>
    rcases Nat.eq_zero_or_pos n with rfl | hn
    · rwa [powFrom_zero, powFrom_zero]
    · rw [powFrom_eq acc, powFrom_eq acc']
      refine ih (n / 2) (by omega) (one_le_size_readDigit hacc hx n) (one_le_size_mul hx hx) ?_
      rw [readDigit, readDigit]
      split
      · exact size_mul_mono_left hacc hx h
      · exact h

/-- A result that is not larger than a double of size one or more is not larger than that double
rounded. -/
theorem IsRounded.size_le_one_mul (h : acc.IsRounded) (hx : one ≤ x.size)
    (hle : acc.size ≤ x.size) : acc.size ≤ ((ofNat 1).mul x).size := by
  rw [size_mul one_le_size_ofNat_one hx, ofNat_one, size_finite]
  refine le_min ?_ h.size_le
  calc acc.size = nearestUnits acc.size 1 := h.nearestUnits_size.symm
    _ ≤ nearestUnits (one * x.size) one := by
      refine nearestUnits_ratio_mono Nat.one_pos one_pos ?_
      calc acc.size * one ≤ x.size * one := Nat.mul_le_mul_right one hle
        _ = one * x.size := Nat.mul_comm _ _
        _ = one * x.size * 1 := (Nat.mul_one _).symm

/-- The double of a natural number is a result. -/
theorem isRounded_ofNat (k : Nat) : (ofNat k).IsRounded := by
  unfold ofNat nearest
  exact isRounded_ofUnits _ _ Nat.one_pos

/-- The next exponent ends in a one where this one has a zero, and below it in zeros where this one
has ones. So up to that digit the next power is still one, and then a factor comes in that is not
smaller than all those of this power so far; from there on, both have the same factors. -/
theorem size_powFrom_succ (hacc : one ≤ acc.size) (hrounded : acc.IsRounded)
    (hle : acc.size ≤ x.size) (n : Nat) :
    (powFrom acc x n).size ≤ (powFrom (ofNat 1) x (n + 1)).size := by
  induction n using Nat.strong_induction_on generalizing acc x with
  | _ n ih =>
    have hx : one ≤ x.size := hacc.trans hle
    rw [powFrom_eq acc, powFrom_eq (ofNat 1)]
    rcases Nat.mod_two_eq_zero_or_one n with heven | hodd
    · rw [readDigit, if_neg (by omega), readDigit, if_pos (by omega),
        show (n + 1) / 2 = n / 2 by omega]
      exact size_powFrom_mono hacc (one_le_size_mul hx hx) (hrounded.size_le_one_mul hx hle) _
    · rw [readDigit, if_pos hodd, readDigit, if_neg (by omega),
        show (n + 1) / 2 = n / 2 + 1 by omega]
      exact ih (n / 2) (by omega) (one_le_size_mul hacc hx) (isRounded_mul acc x)
        (size_mul_mono_left hacc hx hle)

/-- The power with exponent zero is one. -/
theorem pow_zero (x : Double) : x.pow 0 = ofNat 1 := powFrom_zero _ x

/-- A power with a natural exponent is a result. -/
theorem isRounded_pow (x : Double) (n : Nat) : (x.pow n).IsRounded :=
  powFrom_of_mul (Q := fun _ => True) (fun y z _ _ => isRounded_mul y z) (fun _ _ => trivial)
    (isRounded_ofNat 1) trivial n

/-- A power of a double of size one or more has size one or more. -/
theorem one_le_size_pow (hx : one ≤ x.size) (n : Nat) : one ≤ (x.pow n).size :=
  powFrom_of_mul (P := fun y => one ≤ y.size) (fun _ _ => one_le_size_mul)
    (fun _ hz => one_le_size_mul hz hz) one_le_size_ofNat_one hx n

/-- A power of a double of size one or more does not shrink when its exponent grows. -/
theorem size_pow_mono (hx : one ≤ x.size) : Monotone fun n => (x.pow n).size := by
  refine monotone_nat_of_le_succ fun n => ?_
  refine size_powFrom_succ one_le_size_ofNat_one (isRounded_ofNat 1) ?_ n
  rwa [ofNat_one, size_finite]

/-! ### Exponents with a sign -/

/-- The power with an integer exponent that is a natural number is the power with that number. -/
theorem powInt_natCast (x : Double) (n : Nat) : x.powInt n = x.pow n := by
  rw [powInt, Int.natAbs_natCast]
  exact if_neg (Int.not_lt.mpr (Int.natCast_nonneg n))

/-- The power with a negative exponent is the reciprocal of the power with the opposite one. -/
theorem powInt_neg (x : Double) (hn : 0 < n) : x.powInt (-n) = (ofNat 1).div (x.pow n) := by
  rw [powInt, Int.natAbs_neg, Int.natAbs_natCast]
  exact if_pos (by omega)

/-- An integer is a natural number, or the negative of a positive one. -/
theorem exponent_cases (k : Int) : (∃ n : Nat, k = n) ∨ ∃ n : Nat, 0 < n ∧ k = -n := by
  rcases Int.lt_or_le k 0 with hk | hk
  · exact .inr ⟨k.natAbs, by omega, by omega⟩
  · exact .inl ⟨k.toNat, by omega⟩

/-- A power of a double of size one or more is a result, also with a negative exponent. -/
theorem isRounded_powInt (hx : one ≤ x.size) (k : Int) : (x.powInt k).IsRounded := by
  rcases exponent_cases k with ⟨n, rfl⟩ | ⟨n, hn, rfl⟩
  · rw [powInt_natCast]
    exact isRounded_pow x n
  · rw [powInt_neg x hn]
    exact isRounded_one_div (one_le_size_pow hx n)

/-- A power of a double of size one or more does not shrink when its integer exponent grows, also
below zero and from below zero to beyond it. -/
theorem size_powInt_mono (hx : one ≤ x.size) {i j : Int} (hij : i ≤ j) :
    (x.powInt i).size ≤ (x.powInt j).size := by
  rcases exponent_cases i with ⟨m, rfl⟩ | ⟨m, hm, rfl⟩
  · obtain ⟨n, rfl⟩ := (exponent_cases j).resolve_right fun ⟨n, hn, hj⟩ => by omega
    rw [powInt_natCast, powInt_natCast]
    exact size_pow_mono hx (Int.ofNat_le.mp hij)
  · rw [powInt_neg x hm]
    rcases exponent_cases j with ⟨n, rfl⟩ | ⟨n, hn, rfl⟩
    · rw [powInt_natCast]
      exact (size_one_div_le (one_le_size_pow hx m)).trans (one_le_size_pow hx n)
    · rw [powInt_neg x hn]
      exact size_one_div_anti (one_le_size_pow hx n) (isRounded_pow x m)
        (size_pow_mono hx (by omega))

/-! ## Signs -/

/-- A rounded ratio has the sign it is given. -/
theorem sign_ofUnits (negative : Bool) (num den : Nat) :
    (ofUnits negative num den).sign = negative := by
  rcases lt_or_ge (nearestUnits num den) limit with h | h
  · rw [ofUnits_of_lt negative h]
    rfl
  · rw [ofUnits_of_le negative h]
    rfl

/-- The double of a natural number has no minus. -/
theorem sign_ofNat (k : Nat) : (ofNat k).sign = false := by
  unfold ofNat nearest
  exact sign_ofUnits _ _ _

/-- A product of doubles without a minus has no minus. -/
theorem sign_mul (hx : x.sign = false) (hy : y.sign = false) : (x.mul y).sign = false := by
  cases x with
  | nan => rfl
  | finite s a =>
    obtain rfl : s = false := hx
    cases y with
    | nan => rfl
    | finite t b =>
      obtain rfl : t = false := hy
      rw [mul_finite, sign_ofUnits]
      rfl
    | infinite t =>
      obtain rfl : t = false := hy
      rw [mul_finite_infinite]
      split <;> rfl
  | infinite s =>
    obtain rfl : s = false := hx
    cases y with
    | nan => rfl
    | finite t b =>
      obtain rfl : t = false := hy
      rw [mul_infinite_finite]
      split <;> rfl
    | infinite t =>
      obtain rfl : t = false := hy
      rfl

/-- A power of a double without a minus has no minus. -/
theorem sign_pow (hx : x.sign = false) (n : Nat) : (x.pow n).sign = false :=
  powFrom_of_mul (P := fun y => y.sign = false) (fun _ _ => sign_mul)
    (fun _ hz => sign_mul hz hz) (sign_ofNat 1) hx n

/-- The reciprocal of a double without a minus, of size one or more, has no minus. -/
theorem sign_one_div (hsign : y.sign = false) (hy : one ≤ y.size) :
    ((ofNat 1).div y).sign = false := by
  cases y with
  | nan => exact absurd hy (not_le.mpr one_pos)
  | finite t b =>
    obtain rfl : t = false := hsign
    have hb : 0 < b := one_pos.trans_le hy
    rw [one_div_finite false hb, sign_ofUnits]
    rfl
  | infinite t =>
    obtain rfl : t = false := hsign
    rw [one_div_infinite]
    rfl

/-- A power of a double without a minus, of size one or more, has no minus, whatever its
exponent. -/
theorem sign_powInt (hsign : x.sign = false) (hx : one ≤ x.size) (k : Int) :
    (x.powInt k).sign = false := by
  rcases exponent_cases k with ⟨n, rfl⟩ | ⟨n, hn, rfl⟩
  · rw [powInt_natCast, sign_pow hsign]
  · rw [powInt_neg x hn, sign_one_div (sign_pow hsign n) (one_le_size_pow hx n)]

/-- Whether a double has no minus, or is zero, or not a number. -/
def IsUnsigned (x : Double) : Prop := x.sign = false ∨ x.size = 0

/-- A double without a minus, or zero, or not a number, stays so when it is multiplied by one
without a minus. -/
theorem isUnsigned_mul (hx : x.IsUnsigned) (hy : y.sign = false) : (x.mul y).IsUnsigned := by
  rcases hx with hsign | hzero
  · exact .inl (sign_mul hsign hy)
  · cases x with
    | nan => exact .inl rfl
    | infinite s => exact absurd hzero (one_pos.trans_le one_le_limit).ne'
    | finite s a =>
      obtain rfl : a = 0 := hzero
      cases y with
      | nan => exact .inl rfl
      | finite t b =>
        refine .inr ?_
        rw [mul_finite, Nat.zero_mul, size_ofUnits, nearestUnits_zero one_pos, Nat.zero_min]
      | infinite t => exact .inl rfl

/-! ## Order -/

/-- A double is at most another if it is so compared. Not a number is comparable with nothing. -/
instance : LE Double := ⟨fun x y => (x.compare? y).any (·.isLE) = true⟩

instance : DecidableLE Double := fun _ _ => inferInstanceAs (Decidable (_ = true))

/-- A double is at most another if both have a place on the number line and its own is not behind
the other's. -/
theorem le_iff : x ≤ y ↔ ∃ p q, x.position? = some p ∧ y.position? = some q ∧ p ≤ q := by
  change (x.compare? y).any (·.isLE) = true ↔ _
  rcases hx : x.position? with _ | p
  · simp [compare?, hx]
  · rcases hy : y.position? with _ | q
    · simp [compare?, hx, hy]
    · simp [compare?, hx, hy, Int.isLE_compare]

/-- A double that is at least zero has no minus, or is zero. -/
theorem isUnsigned_of_le (h : zero ≤ x) : x.IsUnsigned := by
  obtain ⟨p, q, hp, hq, hle⟩ := le_iff.mp h
  obtain rfl : 0 = p := Option.some.inj hp
  cases x with
  | nan => exact .inl rfl
  | finite s units =>
    cases s with
    | false => exact .inl rfl
    | true =>
      obtain rfl : -(units : Int) = q := Option.some.inj hq
      exact .inr (by rw [size_finite]; omega)
  | infinite s =>
    cases s with
    | false => exact .inl rfl
    | true =>
      obtain rfl : -(limit : Int) = q := Option.some.inj hq
      have hlimit := one_pos.trans_le one_le_limit
      omega

/-- A double that is at least one has no minus, and its size is one or more. -/
theorem one_le_size_of_le (h : ofNat 1 ≤ x) : x.sign = false ∧ one ≤ x.size := by
  obtain ⟨p, q, hp, hq, hle⟩ := le_iff.mp h
  rw [ofNat_one] at hp
  obtain rfl : (one : Int) = p := Option.some.inj hp
  have hone := one_pos
  cases x with
  | nan => cases hq
  | finite s units =>
    cases s with
    | false =>
      obtain rfl : (units : Int) = q := Option.some.inj hq
      exact ⟨rfl, Int.ofNat_le.mp hle⟩
    | true =>
      obtain rfl : -(units : Int) = q := Option.some.inj hq
      omega
  | infinite s =>
    cases s with
    | false => exact ⟨rfl, one_le_limit⟩
    | true =>
      obtain rfl : -(limit : Int) = q := Option.some.inj hq
      omega

end Workflow.Double
