import Mathlib.Data.Nat.Log
import Mathlib.Tactic.Ring
import Workflow.Double

/-!
# Rounding to doubles

The grid of doubles gets coarser with the magnitude, so that rounding to it keeps numbers apart that
are small or lie far from each other, and otherwise can make them one.

* **Rounding to whole numbers** (`roundHalfEven_mul`, `roundHalfEven_ratio_mono`,
  `roundHalfEven_error`).
* **Rounding to the grid** (`Double.nearestUnits_ratio_le`, `Double.le_nearestUnits_ratio`,
  `Double.nearestUnits_ratio_mono`, `Double.spacing_dvd_nearestUnits`,
  `Double.nearestUnits_error`): no point of the grid is passed, nothing changes its place with
  another, the result is a point of the grid, and at most half of a step is lost.
* **Integers of 64 bits** (`Double.ofInt_eq`, `Double.ofInt_injective`, `Double.ofInt_ne_of_far`):
  the double nearest to an integer, and which integers have a double of their own.
* **Order** (`Double.place`, `Double.place_mono`, `Double.place_eq_iff`): where integers lie on the
  number line of the doubles.
-/

namespace Workflow

/-! ## Rounding to whole numbers -/

section whole

variable {num other den den' : Nat}

/-- A number is rounded down, or up, or to the even neighbour. -/
theorem roundHalfEven_cases (num den : Nat) :
    (2 * (num % den) < den ∧ roundHalfEven num den = num / den) ∨
      (den < 2 * (num % den) ∧ roundHalfEven num den = num / den + 1) ∨
      (2 * (num % den) = den ∧ roundHalfEven num den = num / den + num / den % 2) := by
  unfold roundHalfEven
  simp only
  split
  · exact .inl ⟨‹_›, rfl⟩
  · split
    · exact .inr (.inl ⟨‹_›, rfl⟩)
    · exact .inr (.inr ⟨by omega, rfl⟩)

/-- A whole number stays as it is. -/
theorem roundHalfEven_mul (k : Nat) (hden : 0 < den) : roundHalfEven (k * den) den = k := by
  have hquotient : k * den / den = k := Nat.mul_div_cancel k hden
  have hrest : k * den % den = 0 := Nat.mul_mod_left k den
  have := roundHalfEven_cases (k * den) den
  rw [hquotient, hrest] at this
  omega

/-- A larger numerator is rounded to no less. -/
theorem roundHalfEven_mono (h : num ≤ other) :
    roundHalfEven num den ≤ roundHalfEven other den := by
  have hquotient : num / den ≤ other / den := Nat.div_le_div_right h
  have hnum := roundHalfEven_cases num den
  have hother := roundHalfEven_cases other den
  rcases hquotient.lt_or_eq with hlt | heq
  · omega
  · have hrest : num % den ≤ other % den := by
      have hnumDiv := Nat.div_add_mod num den
      have hotherDiv := Nat.div_add_mod other den
      rw [heq] at hnumDiv
      omega
    rw [heq] at hnum
    omega

/-- A fraction that has been expanded is rounded to the same number. -/
theorem roundHalfEven_scale (num den : Nat) {k : Nat} (hk : 0 < k) :
    roundHalfEven (num * k) (den * k) = roundHalfEven num den := by
  simp only [roundHalfEven, Nat.mul_div_mul_right _ _ hk, Nat.mul_mod_mul_right, ← Nat.mul_assoc,
    Nat.mul_lt_mul_right hk]

/-- Of two ratios, the smaller one is rounded to at most as much. -/
theorem roundHalfEven_ratio_mono (hden : 0 < den) (hden' : 0 < den')
    (h : num * den' ≤ other * den) : roundHalfEven num den ≤ roundHalfEven other den' := by
  calc roundHalfEven num den = roundHalfEven (num * den') (den * den') :=
        (roundHalfEven_scale num den hden').symm
    _ ≤ roundHalfEven (other * den) (den * den') := roundHalfEven_mono h
    _ = roundHalfEven other den' := by
        rw [Nat.mul_comm den, roundHalfEven_scale other den' hden]

/-- Rounding moves a number by at most a half. -/
theorem roundHalfEven_error (num : Nat) (hden : 0 < den) :
    2 * num ≤ 2 * (roundHalfEven num den * den) + den ∧
      2 * (roundHalfEven num den * den) ≤ 2 * num + den := by
  have hdiv := Nat.div_add_mod num den
  rw [Nat.mul_comm] at hdiv
  have hparity := Nat.mod_two_eq_zero_or_one (num / den)
  rcases roundHalfEven_cases num den with ⟨hrest, h⟩ | ⟨hrest, h⟩ | ⟨hrest, h⟩
  · rw [h]
    omega
  · have hlt : num % den < den := Nat.mod_lt _ hden
    rw [h, Nat.add_mul, Nat.one_mul]
    omega
  · rw [h, Nat.add_mul]
    rcases hparity with hparity | hparity
    · rw [hparity, Nat.zero_mul]
      omega
    · rw [hparity, Nat.one_mul]
      omega

end whole

namespace Double

/-! ## Rounding to the grid -/

section grid

variable {units others point num other den den' : Nat}

/-- The points of the grid lie some distance apart. -/
theorem spacing_pos (units : Nat) : 0 < spacing units := Nat.two_pow_pos _

/-- The grid gets coarser with the magnitude, and every grid holds the coarser ones. -/
theorem spacing_dvd_of_log2_le (h : units.log2 ≤ others.log2) : spacing units ∣ spacing others :=
  Nat.pow_dvd_pow 2 (Nat.sub_le_sub_right h 52)

/-- The grid at a magnitude holds the powers of two that are not smaller. -/
theorem spacing_dvd_two_pow {k : Nat} (h : units.log2 ≤ k) : spacing units ∣ 2 ^ k :=
  Nat.pow_dvd_pow 2 (by omega)

/-- The grid at a magnitude below `2 ^ (k + 53)` holds `2 ^ k`. -/
theorem spacing_dvd_pow {k : Nat} (h : units < 2 ^ (k + 53)) : spacing units ∣ 2 ^ k := by
  refine Nat.pow_dvd_pow 2 ?_
  rcases Nat.eq_zero_or_pos units with rfl | hpos
  · simp
  · have := (Nat.log2_lt hpos.ne').mpr h
    omega

/-! ### Ratios -/

/-- A ratio below a point of the grid is rounded to at most this point. -/
theorem nearestUnits_ratio_le (hden : 0 < den) (hpoint : spacing (num / den) ∣ point)
    (h : num ≤ point * den) : nearestUnits num den ≤ point := by
  obtain ⟨k, rfl⟩ := hpoint
  have hstep : 0 < den * spacing (num / den) := Nat.mul_pos hden (spacing_pos _)
  have hle : roundHalfEven num (den * spacing (num / den)) ≤ k := by
    rw [← roundHalfEven_mul k hstep]
    refine roundHalfEven_mono (h.trans_eq ?_)
    ring
  calc nearestUnits num den ≤ k * spacing (num / den) := Nat.mul_le_mul_right _ hle
    _ = spacing (num / den) * k := Nat.mul_comm _ _

/-- A ratio above a point of the grid is rounded to at least this point. -/
theorem le_nearestUnits_ratio (hden : 0 < den) (hpoint : spacing (num / den) ∣ point)
    (h : point * den ≤ num) : point ≤ nearestUnits num den := by
  obtain ⟨k, rfl⟩ := hpoint
  have hstep : 0 < den * spacing (num / den) := Nat.mul_pos hden (spacing_pos _)
  have hle : k ≤ roundHalfEven num (den * spacing (num / den)) := by
    rw [← roundHalfEven_mul k hstep]
    refine roundHalfEven_mono (le_of_eq_of_le ?_ h)
    ring
  calc spacing (num / den) * k = k * spacing (num / den) := Nat.mul_comm _ _
    _ ≤ nearestUnits num den := Nat.mul_le_mul_right _ hle

/-- Rounding keeps the order: between two magnitudes with a different number of digits there is a
power of two, and that is a point of the grid. -/
theorem nearestUnits_ratio_mono (hden : 0 < den) (hden' : 0 < den')
    (h : num * den' ≤ other * den) : nearestUnits num den ≤ nearestUnits other den' := by
  have hquotient : num / den ≤ other / den' := by
    rw [Nat.le_div_iff_mul_le hden']
    refine Nat.le_of_mul_le_mul_right ?_ hden
    calc num / den * den' * den = num / den * den * den' := by ring
      _ ≤ num * den' := Nat.mul_le_mul_right _ (Nat.div_mul_le_self num den)
      _ ≤ other * den := h
  have hlog : (num / den).log2 ≤ (other / den').log2 := by
    rw [Nat.log2_eq_log_two, Nat.log2_eq_log_two]
    exact Nat.log_mono_right hquotient
  rcases hlog.lt_or_eq with hlt | heq
  · have hother : other / den' ≠ 0 := by
      rintro hzero
      simp [hzero] at hlt
    have hbelow : num ≤ 2 ^ (other / den').log2 * den := by
      refine (Nat.lt_mul_of_div_lt ?_ hden).le
      exact Nat.lt_log2_self.trans_le (Nat.pow_le_pow_right (by omega) hlt)
    have habove : 2 ^ (other / den').log2 * den' ≤ other :=
      (Nat.le_div_iff_mul_le hden').mp (Nat.log2_self_le hother)
    exact (nearestUnits_ratio_le hden (spacing_dvd_two_pow hlt.le) hbelow).trans
      (le_nearestUnits_ratio hden' (spacing_dvd_two_pow le_rfl) habove)
  · have hspacing : spacing (num / den) = spacing (other / den') := by
      rw [spacing, spacing, heq]
    have hstep := spacing_pos (other / den')
    refine Nat.mul_le_mul ?_ hspacing.le
    rw [hspacing]
    refine roundHalfEven_ratio_mono (Nat.mul_pos hden hstep) (Nat.mul_pos hden' hstep) ?_
    calc num * (den' * spacing (other / den')) = num * den' * spacing (other / den') := by ring
      _ ≤ other * den * spacing (other / den') := Nat.mul_le_mul_right _ h
      _ = other * (den * spacing (other / den')) := by ring

/-- What has been rounded to the grid is a point of the grid: it may have become a power of two, and
at that magnitude the grid is coarser, but it holds the power. -/
theorem spacing_dvd_nearestUnits (hden : 0 < den) :
    spacing (nearestUnits num den) ∣ nearestUnits num den := by
  have hle : nearestUnits num den ≤ 2 ^ ((num / den).log2 + 1) := by
    refine nearestUnits_ratio_le hden (spacing_dvd_two_pow (Nat.le_succ _)) ?_
    exact (Nat.lt_mul_of_div_lt Nat.lt_log2_self hden).le
  rcases hle.lt_or_eq with hlt | heq
  · refine (spacing_dvd_of_log2_le ?_).trans (Nat.dvd_mul_left _ _)
    rcases Nat.eq_zero_or_pos (nearestUnits num den) with hzero | hpos
    · rw [hzero]
      simp
    · exact Nat.lt_succ_iff.mp ((Nat.log2_lt hpos.ne').mpr hlt)
  · rw [heq]
    exact spacing_dvd_two_pow (by rw [Nat.log2_two_pow])

/-! ### Whole numbers of units -/

/-- A whole number of units is rounded to the step of the grid at its own magnitude. -/
theorem nearestUnits_eq (units : Nat) :
    nearestUnits units 1 = roundHalfEven units (spacing units) * spacing units := by
  simp [nearestUnits]

/-- A number below a point of the grid is rounded to at most this point. -/
theorem nearestUnits_le_of_dvd (hpoint : spacing units ∣ point) (h : units ≤ point) :
    nearestUnits units 1 ≤ point :=
  nearestUnits_ratio_le Nat.one_pos (by rwa [Nat.div_one]) (by rwa [Nat.mul_one])

/-- A number above a point of the grid is rounded to at least this point. -/
theorem le_nearestUnits_of_dvd (hpoint : spacing units ∣ point) (h : point ≤ units) :
    point ≤ nearestUnits units 1 :=
  le_nearestUnits_ratio Nat.one_pos (by rwa [Nat.div_one]) (by rwa [Nat.mul_one])

/-- A point of the grid stays as it is. -/
theorem nearestUnits_of_dvd (h : spacing units ∣ units) : nearestUnits units 1 = units :=
  Nat.le_antisymm (nearestUnits_le_of_dvd h le_rfl) (le_nearestUnits_of_dvd h le_rfl)

/-- Rounding whole numbers of units keeps the order. -/
theorem nearestUnits_mono (h : units ≤ others) : nearestUnits units 1 ≤ nearestUnits others 1 :=
  nearestUnits_ratio_mono Nat.one_pos Nat.one_pos (Nat.mul_le_mul_right 1 h)

/-- Rounding moves a number by at most half of a step. -/
theorem nearestUnits_error (units : Nat) :
    2 * units ≤ 2 * nearestUnits units 1 + spacing units ∧
      2 * nearestUnits units 1 ≤ 2 * units + spacing units := by
  rw [nearestUnits_eq]
  exact roundHalfEven_error units (spacing_pos units)

end grid

/-! ## Integers of 64 bits -/

section integers

variable {i j : Int}

/-- The magnitude of the double nearest to an integer. -/
def magnitude (i : Int) : Nat := nearestUnits (i.natAbs * one) 1

/-- All integers of 65 bits are below the limit. -/
theorem mul_one_le_limit : 2 ^ 65 * one ≤ limit := by decide +kernel

/-- One is a power of two; which one makes no difference here. -/
theorem exists_one_eq : ∃ e, one = Nat.pow 2 e := by
  unfold one
  exact ⟨1074, rfl⟩

/-- One is more than zero units. -/
theorem one_pos : 0 < one := by
  obtain ⟨e, hone⟩ := exists_one_eq
  rw [hone]
  exact Nat.two_pow_pos e

/-- The grid at an integer below `2 ^ (k + 53)` holds the integer `2 ^ k`. -/
theorem spacing_dvd_mul_one {n k : Nat} (h : n < 2 ^ (k + 53)) :
    spacing (n * one) ∣ 2 ^ k * one := by
  obtain ⟨e, hone⟩ := exists_one_eq
  rw [hone, Nat.pow_eq, ← Nat.pow_add]
  refine spacing_dvd_pow ?_
  rw [show k + e + 53 = k + 53 + e by omega, Nat.pow_add 2 (k + 53) e]
  exact Nat.mul_lt_mul_of_pos_right h (Nat.two_pow_pos e)

/-- An integer of less than 54 bits is a double. -/
theorem magnitude_of_lt (h : i.natAbs < 2 ^ 53) : magnitude i = i.natAbs * one := by
  have hdvd : spacing (i.natAbs * one) ∣ one := by
    simpa only [Nat.pow_zero, Nat.one_mul] using spacing_dvd_mul_one (k := 0) h
  have hmultiple : one ∣ i.natAbs * one := Nat.dvd_mul_left one i.natAbs
  exact nearestUnits_of_dvd (hdvd.trans hmultiple)

/-- An integer that is further from zero has no smaller magnitude. -/
theorem magnitude_mono (h : i.natAbs ≤ j.natAbs) : magnitude i ≤ magnitude j := by
  exact nearestUnits_mono (Nat.mul_le_mul_right _ h)

/-- An integer of 64 bits is off by at most 1024. -/
theorem magnitude_error (h : i.natAbs < 2 ^ 64) :
    i.natAbs * one ≤ magnitude i + 1024 * one ∧ magnitude i ≤ i.natAbs * one + 1024 * one := by
  have hspacing := Nat.le_of_dvd (Nat.mul_pos (by omega) one_pos) (spacing_dvd_mul_one (k := 11) h)
  have herror := nearestUnits_error (i.natAbs * one)
  unfold magnitude
  omega

/-- An integer of 64 bits has a finite double. -/
theorem ofInt_eq (h : i.natAbs < 2 ^ 64) : ofInt i = finite (i < 0) (magnitude i) := by
  have hlimit : magnitude i < limit := by
    have hle : (i.natAbs + 1025) * one ≤ 2 ^ 65 * one := Nat.mul_le_mul_right one (by omega)
    have herror := (magnitude_error h).2
    have hlimit := mul_one_le_limit
    have hpos := one_pos
    rw [Nat.add_mul] at hle
    omega
  unfold ofInt nearest ofUnits magnitude at *
  simp only [if_pos hlimit]

/-- Two integers of 64 bits have the same double exactly if they have the same magnitude and
sign. -/
theorem ofInt_eq_iff (hi : i.natAbs < 2 ^ 64) (hj : j.natAbs < 2 ^ 64) :
    ofInt i = ofInt j ↔ (i < 0 ↔ j < 0) ∧ magnitude i = magnitude j := by
  rw [ofInt_eq hi, ofInt_eq hj, finite.injEq, decide_eq_decide]

/-- Small integers share their double with no other. -/
theorem ofInt_injective (hi : i.natAbs < 2 ^ 53) (hj : j.natAbs < 2 ^ 64)
    (h : ofInt i = ofInt j) : i = j := by
  obtain ⟨hsign, hmagnitude⟩ := (ofInt_eq_iff (by omega) hj).mp h
  rw [magnitude_of_lt hi] at hmagnitude
  rcases Nat.lt_or_ge j.natAbs (2 ^ 53) with hlt | hge
  · rw [magnitude_of_lt hlt] at hmagnitude
    have habs := Nat.eq_of_mul_eq_mul_right one_pos hmagnitude
    omega
  · -- the grid has a point at the power of two, which the larger one does not pass
    have hdvd : spacing (j.natAbs * one) ∣ 2 ^ 53 * one :=
      (spacing_dvd_mul_one (k := 11) hj).trans (Nat.mul_dvd_mul_right (by decide) one)
    have hle := le_nearestUnits_of_dvd hdvd (Nat.mul_le_mul_right one hge)
    rw [← magnitude, ← hmagnitude] at hle
    have := Nat.le_of_mul_le_mul_right hle one_pos
    omega

/-- Integers of 64 bits that lie far from each other have different doubles. -/
theorem ofInt_ne_of_far (hi : i.natAbs < 2 ^ 64) (hj : j.natAbs < 2 ^ 64)
    (hfar : 2048 < (i - j).natAbs) : ofInt i ≠ ofInt j := by
  intro h
  obtain ⟨hsign, hmagnitude⟩ := (ofInt_eq_iff hi hj).mp h
  obtain ⟨hlower, hupper⟩ := magnitude_error hi
  obtain ⟨hlower', hupper'⟩ := magnitude_error hj
  have hle : i.natAbs * one ≤ (j.natAbs + 2048) * one := by
    rw [Nat.add_mul]
    omega
  have hge : j.natAbs * one ≤ (i.natAbs + 2048) * one := by
    rw [Nat.add_mul]
    omega
  have hle' := Nat.le_of_mul_le_mul_right hle one_pos
  have hge' := Nat.le_of_mul_le_mul_right hge one_pos
  omega

/-! ### Order -/

/-- The place of an integer on the number line of the doubles. -/
def place (i : Int) : Int := if i < 0 then -(magnitude i : Int) else magnitude i

/-- The double of an integer of 64 bits lies on the number line at the place of the integer. -/
theorem position_ofInt (h : i.natAbs < 2 ^ 64) : (ofInt i).position? = some (place i) := by
  rw [ofInt_eq h]
  simp [position?, place]

/-- A larger integer has no smaller place. -/
theorem place_mono (h : i ≤ j) : place i ≤ place j := by
  unfold place
  rcases lt_or_ge i 0 with hi | hi
  · rcases lt_or_ge j 0 with hj | hj
    · have := @magnitude_mono j i (by omega)
      rw [if_pos hi, if_pos hj]
      omega
    · rw [if_pos hi, if_neg (by omega)]
      omega
  · have := @magnitude_mono i j (by omega)
    rw [if_neg (by omega), if_neg (by omega)]
    omega

/-- Integers of different places lie there as they do otherwise. -/
theorem place_lt_iff (h : place i ≠ place j) : place i < place j ↔ i < j := by
  constructor
  · intro hlt
    by_contra hge
    exact absurd (place_mono (not_lt.mp hge)) (not_le.mpr hlt)
  · intro hlt
    exact lt_of_le_of_ne (place_mono hlt.le) h

/-- The magnitude of an integer other than zero is positive. -/
theorem magnitude_pos (h : i ≠ 0) : 0 < magnitude i := by
  have hone : magnitude 1 = one := by rw [magnitude_of_lt (by decide), Int.natAbs_one, Nat.one_mul]
  have hmono := @magnitude_mono 1 i (by omega)
  have := one_pos
  omega

/-- Integers have the same place just if they have the same double. -/
theorem place_eq_iff (hi : i.natAbs < 2 ^ 64) (hj : j.natAbs < 2 ^ 64) :
    place i = place j ↔ ofInt i = ofInt j := by
  rw [ofInt_eq_iff hi hj]
  have hpos := @magnitude_pos i
  have hpos' := @magnitude_pos j
  unfold place
  split <;> split <;> omega

end integers

end Double

end Workflow
