import Workflow.Proofs.Double.Power
import Workflow.State.Policy

/-!
# Delays that grow

The delay before a retry is the interval times a power of the backoff rate. If the rate is not below
one, the power does not shrink when its exponent grows, rounded as it is, and neither does the
delay. But the exponent does not always grow with the retry: it is a word with sign, which turns
negative after half its range.

* **Durations** (`Duration.ofSize`, `Duration.ofSize_mono`): what a number of seconds comes to, up
  to the longest duration.
* **Exponents** (`RetryPolicy.exponent_mono`, `RetryPolicy.exponent_neg`): how they go on from one
  retry to the next.
* **Delays** (`RetryPolicy.delay_mono_of_exponent`, `RetryPolicy.delays_grow_iff`): when the later
  of two retries does not wait less.
-/

namespace Workflow

open Double

/-! ## Durations -/

attribute [ext] Duration

namespace Duration

/-- The nanoseconds of a number of seconds, given in units, if no more than the longest duration. -/
def ofSize (size : Nat) : Nat :=
  if Word.count64 * one ≤ size then max.nanoseconds else roundHalfEven (size * 1000000000) one

/-- Below the longest duration there is room: the points of the grid that are so large lie more than
a second apart. -/
theorem add_one_le_of_dvd {size : Nat} (hdvd : spacing size ∣ size)
    (h : size < Word.count64 * one) : size + one ≤ Word.count64 * one := by
  obtain ⟨e, he⟩ := exists_one_eq
  rw [Nat.pow_eq] at he
  have hcount : Word.count64 * one = 2 ^ (64 + e) := by rw [he, Nat.pow_add]
  rcases lt_or_ge size (2 ^ 53 * one) with hsmall | hlarge
  · have hle : 2 ^ 53 * one + one ≤ Word.count64 * one := by
      rw [← Nat.succ_mul]
      exact Nat.mul_le_mul_right one (by decide)
    omega
  · rw [hcount] at h ⊢
    have hpos : size ≠ 0 := by
      have := Double.one_pos
      omega
    have hstep : one ≤ spacing size := by
      rw [he, ← Nat.pow_add] at hlarge
      have hlog := (Nat.le_log2 hpos).mpr hlarge
      rw [he]
      exact Nat.pow_le_pow_right (by decide) (by omega)
    have hgap : spacing size ∣ 2 ^ (64 + e) - size :=
      Nat.dvd_sub (spacing_dvd_two_pow ((Nat.log2_lt hpos).mpr h).le) hdvd
    have hle := Nat.le_of_dvd (by omega) hgap
    omega

/-- No number of seconds comes to more than the longest duration. -/
theorem ofSize_le_max {size : Nat} (hdvd : spacing size ∣ size) :
    ofSize size ≤ max.nanoseconds := by
  rw [ofSize]
  split
  case isTrue => exact Nat.le_refl _
  case isFalse h =>
    have hroom := add_one_le_of_dvd hdvd (not_le.mp h)
    have hsize : size * 1000000000 ≤ (Word.count64 - 1) * 1000000000 * one := by
      calc size * 1000000000 ≤ (Word.count64 - 1) * one * 1000000000 := by
            refine Nat.mul_le_mul_right _ ?_
            rw [Nat.sub_mul, Nat.one_mul]
            omega
        _ = (Word.count64 - 1) * 1000000000 * one := Nat.mul_right_comm _ _ _
    have hle := @roundHalfEven_mono _ _ one hsize
    rw [roundHalfEven_mul _ Double.one_pos] at hle
    exact hle.trans (by decide)

/-- More seconds come to no shorter duration. -/
theorem ofSize_mono {size other : Nat} (hdvd : spacing size ∣ size) (h : size ≤ other) :
    ofSize size ≤ ofSize other := by
  by_cases hother : Word.count64 * one ≤ other
  · rw [ofSize.eq_def other, if_pos hother]
    exact ofSize_le_max hdvd
  · rw [ofSize, ofSize, if_neg hother, if_neg (by omega)]
    exact roundHalfEven_mono (Nat.mul_le_mul_right _ h)

/-- No seconds come to no duration. -/
theorem ofSize_zero : ofSize 0 = 0 := by decide +kernel

/-- An infinity of seconds comes to the longest duration. -/
theorem ofSize_limit : ofSize limit = max.nanoseconds := by decide +kernel

/-- A finite number of seconds without a minus has nanoseconds if a word can count the seconds. -/
theorem nanoseconds?_finite (units : Nat) : (finite false units).nanoseconds? =
    if Word.count64 * one ≤ units then none
    else some (roundHalfEven (units * 1000000000) one) := by
  simp only [nanoseconds?, Bool.false_and, Bool.false_or, decide_eq_true_eq]

/-- A finite number of seconds without a minus comes to the duration of its size, and to the longest
one if it is too large for any. -/
theorem nanoseconds_ofSeconds (units : Nat) :
    ((ofSeconds? (finite false units)).getD max).nanoseconds = ofSize units := by
  rw [ofSeconds?, nanoseconds?_finite, ofSize]
  by_cases h : Word.count64 * one ≤ units
  · rw [if_pos h, if_pos h, Option.map_none, Option.getD_none]
  · rw [if_neg h, if_neg h, Option.map_some, Option.getD_some]

end Duration

/-! ## Exponents -/

namespace RetryPolicy

variable {p : RetryPolicy} {m n : Nat}

/-- Half the range of the word that counts the retries. -/
def halfway : Nat := Word.count32 / 2

/-- The exponent counts the retries before, up to half the range of the word. -/
theorem exponent_of_le (h : n ≤ halfway) : exponent n = (n - 1 : Nat) := by
  simp only [exponent, halfway, Word.count32] at h ⊢
  split <;> omega

/-- Beyond half the range of the word the exponent is below zero, by the retries that are to come
until the word is full. -/
theorem exponent_of_lt (h : halfway < n) : exponent n = (n - 1 : Nat) - Word.count32 := by
  simp only [exponent, halfway, Word.count32] at h ⊢
  split <;> omega

/-- On either side of the middle, the exponent does not shrink. -/
theorem exponent_mono (hmn : m ≤ n) (hside : n ≤ halfway ∨ halfway < m) :
    exponent m ≤ exponent n := by
  rcases hside with hn | hm
  · rw [exponent_of_le (hmn.trans hn), exponent_of_le hn]
    omega
  · rw [exponent_of_lt hm, exponent_of_lt (hm.trans_le hmn)]
    omega

/-- Up to the middle the exponent is not below that of the first retry. -/
theorem exponent_one_le (h : n ≤ halfway) : exponent 1 ≤ exponent n := by
  rw [exponent_of_le h, exponent_of_le (by decide)]
  omega

/-- Beyond the middle the exponent is not above that of the first retry. -/
theorem exponent_le_one (h : halfway < n) (hn : n < Word.count32) : exponent n ≤ exponent 1 := by
  rw [exponent_of_lt h, exponent_of_le (by decide)]
  omega

/-! ## Delays -/

/-- A delay is what its seconds come to, if these have no minus. -/
theorem nanoseconds_delay (h : (p.delaySeconds n).IsUnsigned) :
    (p.delay n).nanoseconds = Duration.ofSize (p.delaySeconds n).size := by
  rw [delay]
  generalize p.delaySeconds n = seconds at h ⊢
  have hpos {i : Int} (hi : 0 < i) : some (compare i 0) = some Ordering.gt :=
    congrArg some (compare_gt_iff_gt.mpr hi)
  cases seconds with
  | nan => exact Duration.ofSize_zero.symm
  | finite negative units =>
    rcases Nat.eq_zero_or_pos units with rfl | hunits
    · have heq : (finite negative 0).compare? zero = some .eq := by cases negative <;> rfl
      simp only [heq]
      exact Duration.ofSize_zero.symm
    · obtain rfl : negative = false := h.resolve_right hunits.ne'
      have hgt : (finite false units).compare? zero = some .gt := hpos (Int.natCast_pos.mpr hunits)
      simp only [hgt]
      exact Duration.nanoseconds_ofSeconds units
  | infinite negative =>
    have hlimit : 0 < limit := Double.one_pos.trans_le one_le_limit
    obtain rfl : negative = false := h.resolve_right hlimit.ne'
    have hgt : (infinite false).compare? zero = some .gt := hpos (Int.natCast_pos.mpr hlimit)
    simp only [hgt]
    exact Duration.ofSize_limit.symm

section grows

variable (hinterval : zero ≤ p.intervalSeconds) (hrate : ofNat 1 ≤ p.backoffRate)

include hinterval hrate

/-- A delay is what its seconds come to, if the interval is not below zero and the rate not below
one. -/
theorem nanoseconds_delay_eq (n : Nat) :
    (p.delay n).nanoseconds = Duration.ofSize (p.delaySeconds n).size := by
  obtain ⟨hsign, hsize⟩ := one_le_size_of_le hrate
  refine nanoseconds_delay ?_
  exact isUnsigned_mul (isUnsigned_of_le hinterval) (sign_powInt hsign hsize _)

omit hinterval hrate in
/-- The seconds of a delay are a point of the grid. -/
theorem dvd_size_delaySeconds (p : RetryPolicy) (n : Nat) :
    spacing (p.delaySeconds n).size ∣ (p.delaySeconds n).size := (isRounded_mul _ _).dvd_size

/-- No delay is longer than the longest duration. -/
theorem delay_le_max (n : Nat) : (p.delay n).nanoseconds ≤ Duration.max.nanoseconds := by
  rw [nanoseconds_delay_eq hinterval hrate]
  exact Duration.ofSize_le_max (dvd_size_delaySeconds p n)

/-- The delay does not shrink when the exponent grows. -/
theorem delay_mono_of_exponent (h : exponent m ≤ exponent n) :
    (p.delay m).nanoseconds ≤ (p.delay n).nanoseconds := by
  have hsize := (one_le_size_of_le hrate).2
  rw [nanoseconds_delay_eq hinterval hrate, nanoseconds_delay_eq hinterval hrate]
  refine Duration.ofSize_mono (dvd_size_delaySeconds p m) ?_
  exact size_mul_mono_right _ (isRounded_powInt hsize _) (size_powInt_mono hsize h)

/-- Beyond the middle no retry waits longer than the first one. -/
theorem delay_le_delay_one (hm : halfway < m) (hlt : m < Word.count32) :
    (p.delay m).nanoseconds ≤ (p.delay 1).nanoseconds :=
  delay_mono_of_exponent hinterval hrate (exponent_le_one hm hlt)

/-- Up to the middle no retry waits less than the first one. -/
theorem delay_one_le_delay (hm : m ≤ halfway) :
    (p.delay 1).nanoseconds ≤ (p.delay m).nanoseconds :=
  delay_mono_of_exponent hinterval hrate (exponent_one_le hm)

/-- Of two retries the later one waits no less exactly if both are on one side of the middle, or if
both wait as long as the first one. -/
theorem delay_le_delay_iff (hmn : m ≤ n) (hn : n < Word.count32) :
    (p.delay m).nanoseconds ≤ (p.delay n).nanoseconds ↔
      n ≤ halfway ∨ halfway < m ∨ p.delay m = p.delay 1 ∧ p.delay n = p.delay 1 := by
  constructor
  · intro hle
    by_contra! hcross
    obtain ⟨hlt, hm, hdiffer⟩ := hcross
    have hbelow := delay_le_delay_one hinterval hrate hlt hn
    have habove := delay_one_le_delay hinterval hrate hm
    exact hdiffer (Duration.ext (by omega)) (Duration.ext (by omega))
  · rintro (hside | hside | ⟨hm, hn⟩)
    · exact delay_mono_of_exponent hinterval hrate (exponent_mono hmn (.inl hside))
    · exact delay_mono_of_exponent hinterval hrate (exponent_mono hmn (.inr hside))
    · rw [hm, hn]

end grows

/-- If the interval is not below zero and the rate not below one, the later of two retries waits no
less than the earlier one exactly if both are on one side of the middle of the word that counts
them, or both wait as long as the first retry. On one side, the longest delay stays the longest. So
no delay at all is less than an earlier one exactly if all delays are the same. -/
theorem delays_grow_iff (hinterval : zero ≤ p.intervalSeconds) (hrate : ofNat 1 ≤ p.backoffRate) :
    (∀ m n, m ≤ n → n < Word.count32 →
        ((p.delay m).nanoseconds ≤ (p.delay n).nanoseconds ↔
          n ≤ halfway ∨ halfway < m ∨ p.delay m = p.delay 1 ∧ p.delay n = p.delay 1)) ∧
      (∀ m n, m ≤ n → n < Word.count32 → n ≤ halfway ∨ halfway < m →
        p.delay m = .max → p.delay n = .max) ∧
      ((∀ m n, m ≤ n → n < Word.count32 → (p.delay m).nanoseconds ≤ (p.delay n).nanoseconds) ↔
        ∀ n, n < Word.count32 → p.delay n = p.delay 1) := by
  refine ⟨fun m n => delay_le_delay_iff hinterval hrate, fun m n hmn hn hside hmax => ?_,
    fun hgrow n hn => ?_, fun hsame m n hmn hn => ?_⟩
  · have hle := delay_mono_of_exponent hinterval hrate (exponent_mono hmn hside)
    rw [hmax] at hle
    exact Duration.ext (Nat.le_antisymm (delay_le_max hinterval hrate n) hle)
  · have hmiddle : halfway < halfway + 1 := Nat.lt_succ_self _
    rcases le_or_gt n halfway with hside | hside
    · -- a retry before the middle waits no less than the first one, and that no less than the one
      -- behind the middle
      have hlower := delay_one_le_delay hinterval hrate hside
      have hupper := hgrow n (halfway + 1) (by omega) (by decide)
      have hnext := delay_le_delay_one hinterval hrate hmiddle (by decide)
      exact Duration.ext (by omega)
    · have hupper := delay_le_delay_one hinterval hrate hside hn
      have hlower := hgrow 1 n (by omega) hn
      exact Duration.ext (by omega)
  · rw [hsame m (hmn.trans_lt hn), hsame n hn]

/-- A policy whose delays grow by half from retry to retry. -/
def halfMore : RetryPolicy := ⟨["Busy"], 3, .ofNat 2, (ofNat 3).div (ofNat 2)⟩

/-- With `halfMore` the third retry waits no less than the second one, and the delays that have
become the longest stay so up to the middle. -/
theorem halfMore_grows :
    (halfMore.delay 2).nanoseconds ≤ (halfMore.delay 3).nanoseconds ∧
      halfMore.delay 3 = .ofMillis 4500 ∧ halfMore.delay 2147483648 = .max := by
  have hinterval : zero ≤ halfMore.intervalSeconds := by decide +kernel
  have hrate : ofNat 1 ≤ halfMore.backoffRate := by decide +kernel
  have hgrow := delays_grow_iff hinterval hrate
  have hmax : halfMore.delay 150 = .max := by decide +kernel
  exact ⟨(hgrow.1 2 3 (by decide) (by decide)).mpr (.inl (by decide)), by decide +kernel,
    hgrow.2.1 150 2147483648 (by decide) (by decide) (.inl (by decide)) hmax⟩

/-- A policy whose delays double from retry to retry. -/
def doubling : RetryPolicy := { errorEquals := ["Busy"], backoffRate := .ofNat 2 }

/-- With `doubling` the last delay before the middle is the longest one, and the first behind it is
none. -/
theorem doubling_shrinks :
    zero ≤ doubling.intervalSeconds ∧ ofNat 1 ≤ doubling.backoffRate ∧
      doubling.delay 2 = .ofMillis 2000 ∧ doubling.delay 2147483648 = .max ∧
      doubling.delay 2147483649 = .zero ∧
      ¬ (doubling.delay 2147483648).nanoseconds ≤ (doubling.delay 2147483649).nanoseconds := by
  decide +kernel

end RetryPolicy

end Workflow
