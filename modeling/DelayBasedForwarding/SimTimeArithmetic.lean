import DelayBasedForwarding.Packet
import DelayBasedForwarding.Library.Rounding

/-!
# The arithmetic of simulation times

`simtime_t` is a class of the simulation library: a 64-bit count of a fixed part of a
second, whose sums and conversions throw when they leave the range of the count.  The
code converts times to `double`, computes with these and converts back, so each step
rounds.  This module says what the code relies on of both, and gives the two
arithmetics that matter: the exact one, and picoseconds with the `double` of IEEE 754.
-/

namespace DelayBasedForwarding

open Rounding

/-- What a conversion to a simulation time or a sum of times ends with instead of a time. -/
inductive SimTimeError where
  | outOfRange      -- the range check of `SimTime` throws
  | notANumber      -- `0.0 / 0.0` has no integer value to be converted to
deriving DecidableEq, Repr

/-- The operations on `double` and `simtime_t`, and the laws the proofs use: they keep
    the order, zero and one, and the range of the times has no gaps. -/
structure SimTimeArithmetic where
  /-- the `double` nearest to the exact result of an operation -/
  round : ℚ → ℚ
  /-- `SimTime::dbl` -/
  dbl : SimTime → ℚ
  /-- the time `SimTime(double)` converts to if it is in range -/
  truncate : ℚ → SimTime
  /-- the quotient of two times, a `double` -/
  ratio : SimTime → SimTime → ℚ
  /-- the times a count can hold -/
  inRange : SimTime → Bool
  /-- what `SimTime(double)` makes of `0.0 / 0.0`, which the language leaves undefined -/
  notANumber : Except SimTimeError SimTime
  round_mono : Monotone round
  round_zero : round 0 = 0
  dbl_mono : Monotone dbl
  dbl_zero : dbl 0 = 0
  dbl_one : dbl 1 = 1
  round_dbl : ∀ t, round (dbl t) = dbl t
  truncate_mono : Monotone truncate
  truncate_zero : truncate 0 = 0
  truncate_one : truncate 1 = 1
  ratio_mono : ∀ {s t window}, 0 < window → s ≤ t → ratio s window ≤ ratio t window
  ratio_zero : ∀ window, ratio 0 window = 0
  ratio_self : ∀ {window}, 0 < window → ratio window window = 1
  inRange_zero : inRange 0 = true
  inRange_one : inRange 1 = true
  inRange_between : ∀ {r s t}, inRange r = true → inRange t = true → r ≤ s → s ≤ t →
    inRange s = true

namespace SimTimeArithmetic

variable (arith : SimTimeArithmetic)

/-! ## Checked operations -/

def checked (t : SimTime) : Except SimTimeError SimTime :=
  if arith.inRange t then .ok t else .error .outOfRange

/-- `operator+` and `operator+=` of `SimTime`. -/
def add (s t : SimTime) : Except SimTimeError SimTime := arith.checked (s + t)

/-- `operator-` of `SimTime`. -/
def sub (s t : SimTime) : Except SimTimeError SimTime := arith.checked (s - t)

/-- The constructor `SimTime(double)`. -/
def ofDouble (d : ℚ) : Except SimTimeError SimTime := arith.checked (arith.truncate d)

section

variable {arith} {r s t u : SimTime} {d : ℚ}

@[simp] theorem checked_eq_ok_iff : arith.checked t = .ok u ↔ arith.inRange t = true ∧ t = u := by
  unfold checked
  split_ifs with h <;> simp [h]

@[simp] theorem add_eq_ok_iff : arith.add s t = .ok u ↔ arith.inRange (s + t) = true ∧ s + t = u :=
  checked_eq_ok_iff

@[simp] theorem sub_eq_ok_iff : arith.sub s t = .ok u ↔ arith.inRange (s - t) = true ∧ s - t = u :=
  checked_eq_ok_iff

@[simp] theorem ofDouble_eq_ok_iff : arith.ofDouble d = .ok t ↔
    arith.inRange (arith.truncate d) = true ∧ arith.truncate d = t :=
  checked_eq_ok_iff

theorem truncate_nonneg (h : 0 ≤ d) : 0 ≤ arith.truncate d :=
  arith.truncate_zero.symm.trans_le (arith.truncate_mono h)

theorem truncate_le_one (h : d ≤ 1) : arith.truncate d ≤ 1 :=
  (arith.truncate_mono h).trans_eq arith.truncate_one

theorem dbl_nonneg (h : 0 ≤ t) : 0 ≤ arith.dbl t :=
  arith.dbl_zero.symm.trans_le (arith.dbl_mono h)

theorem dbl_le_one (h : t ≤ 1) : arith.dbl t ≤ 1 :=
  (arith.dbl_mono h).trans_eq arith.dbl_one

theorem inRange_unit (hzero : 0 ≤ t) (hone : t ≤ 1) : arith.inRange t = true :=
  arith.inRange_between arith.inRange_zero arith.inRange_one hzero hone

/-- The part of a window that has passed. -/
theorem ratio_unit (hwindow : 0 < t) (hzero : 0 ≤ s) (hle : s ≤ t) :
    0 ≤ arith.ratio s t ∧ arith.ratio s t ≤ 1 :=
  ⟨(arith.ratio_zero t).symm.trans_le (arith.ratio_mono hwindow hzero),
    (arith.ratio_mono hwindow hle).trans_eq (arith.ratio_self hwindow)⟩

end

/-! ## Exact arithmetic -/

def exact : SimTimeArithmetic where
  round q := q
  dbl t := t
  truncate d := d
  ratio s t := s / t
  inRange _ := true
  notANumber := .error .notANumber
  round_mono := monotone_id
  round_zero := rfl
  dbl_mono := monotone_id
  dbl_zero := rfl
  dbl_one := rfl
  round_dbl _ := rfl
  truncate_mono := monotone_id
  truncate_zero := rfl
  truncate_one := rfl
  ratio_mono hwindow hle := div_le_div_of_nonneg_right hle hwindow.le
  ratio_zero := zero_div
  ratio_self hwindow := div_self hwindow.ne'
  inRange_zero := rfl
  inRange_one := rfl
  inRange_between _ _ _ _ := rfl

/-! ## Picoseconds -/

/-- The counts in a second. -/
def scale : ℚ := 10 ^ 12

theorem scale_pos : 0 < scale := by norm_num [scale]

/-- `10 ^ 12` counts in a second, and a `double` of 53 digits.  Its exponent is not
    bounded here: what is beyond the largest `double` is beyond the range of the count,
    and no result below the smallest one reaches a picosecond.  A count of `2 ^ 63`,
    which the range check lets pass and the cast leaves undefined, is out of range. -/
def picoseconds : SimTimeArithmetic where
  round := roundTo 52
  dbl t := roundTo 52 (roundTo 52 (t * scale) * roundTo 52 (1 / scale))
  truncate d := towardZero (roundTo 52 (d * scale)) / scale
  ratio s t := roundTo 52 (roundTo 52 (s * scale) / roundTo 52 (t * scale))
  inRange t := decide (-2 ^ 63 ≤ t * scale) && decide (t * scale < 2 ^ 63)
  notANumber := .ok (-2 ^ 63 / scale)
  round_mono := roundTo_mono 52
  round_zero := roundTo_zero
  dbl_mono s t hle := by
    apply roundTo_mono 52
    apply mul_le_mul_of_nonneg_right _ (roundTo_nonneg (one_div_pos.mpr scale_pos).le)
    exact roundTo_mono 52 (mul_le_mul_of_nonneg_right hle scale_pos.le)
  dbl_zero := by simp
  dbl_one := by decide +kernel
  round_dbl t := roundTo_roundTo 52 _
  truncate_mono d e hle := by
    apply div_le_div_of_nonneg_right _ scale_pos.le
    exact_mod_cast towardZero_mono (roundTo_mono 52 (mul_le_mul_of_nonneg_right hle scale_pos.le))
  truncate_zero := by
    have h : towardZero 0 = 0 := towardZero_intCast 0
    simp [h]
  truncate_one := by decide +kernel
  ratio_mono hwindow hle := by
    apply roundTo_mono 52
    apply div_le_div_of_nonneg_right _ (roundTo_pos (mul_pos hwindow scale_pos)).le
    exact roundTo_mono 52 (mul_le_mul_of_nonneg_right hle scale_pos.le)
  ratio_zero window := by simp
  ratio_self hwindow := by
    rw [div_self (roundTo_pos (mul_pos hwindow scale_pos)).ne']
    decide +kernel
  inRange_zero := by decide +kernel
  inRange_one := by decide +kernel
  inRange_between hr ht hrs hst := by
    simp only [Bool.and_eq_true, decide_eq_true_eq] at hr ht ⊢
    exact ⟨hr.1.trans (mul_le_mul_of_nonneg_right hrs scale_pos.le),
      (mul_le_mul_of_nonneg_right hst scale_pos.le).trans_lt ht.2⟩

/-! ## Counts -/

/-- The times are counts of `tick` and are bounded, as 64 bits make them. -/
structure FixedPoint (arith : SimTimeArithmetic) (tick : SimTime) : Prop where
  tick_pos : 0 < tick
  inRange_tick : arith.inRange tick = true
  truncate_dbl : arith.truncate (arith.dbl tick) = tick
  tick_le : ∀ {d}, 0 < arith.truncate d → tick ≤ arith.truncate d
  bounded : ∃ bound, ∀ t, arith.inRange t = true → |t| ≤ bound

theorem picoseconds_fixedPoint : picoseconds.FixedPoint (1 / scale) where
  tick_pos := one_div_pos.mpr scale_pos
  inRange_tick := by decide +kernel
  truncate_dbl := by decide +kernel
  tick_le {d} hpos := by
    have hcount : (0 : ℚ) < towardZero (roundTo 52 (d * scale)) :=
      (div_pos_iff_of_pos_right scale_pos).mp hpos
    apply div_le_div_of_nonneg_right _ scale_pos.le
    exact_mod_cast hcount
  bounded := by
    refine ⟨2 ^ 63 / scale, fun t ht => ?_⟩
    simp only [picoseconds, Bool.and_eq_true, decide_eq_true_eq] at ht
    rw [le_div_iff₀ scale_pos]
    calc |t| * scale = |t * scale| := by rw [abs_mul, abs_of_pos scale_pos]
      _ ≤ 2 ^ 63 := abs_le.mpr ⟨ht.1, ht.2.le⟩

end SimTimeArithmetic

end DelayBasedForwarding
