import Mathlib.Data.Int.ConditionallyCompleteOrder
import Mathlib.Data.Int.Log
import Mathlib.Data.Rat.Floor
import Mathlib.Tactic.Linarith
import Mathlib.Tactic.Push
import Mathlib.Tactic.Ring

/-!
# Rounding to significant digits

An operation on binary floating-point numbers returns the number of the format
nearest to its exact result, and of two the one whose last digit is even.  Here
the format has `p` binary digits after the leading one and an exponent without
bounds: 52 of them are the `double` of IEEE 754 away from its largest and smallest
numbers.  Rounding keeps the order and fixes the numbers of the format, which is
all that a proof about a comparison of rounded results needs.
-/

namespace Rounding

/-! ## The nearest integer -/

/-- The integer nearest to `q`, of two the even one. -/
def roundEven (q : ℚ) : ℤ :=
  if q - ⌊q⌋ < 1 / 2 then ⌊q⌋
  else if 1 / 2 < q - ⌊q⌋ then ⌊q⌋ + 1
  else if ⌊q⌋ % 2 = 0 then ⌊q⌋
  else ⌊q⌋ + 1

theorem roundEven_intCast (n : ℤ) : roundEven n = n := by
  simp [roundEven]

theorem floor_le_roundEven (q : ℚ) : ⌊q⌋ ≤ roundEven q := by
  unfold roundEven
  split_ifs <;> omega

theorem roundEven_le_floor_add_one (q : ℚ) : roundEven q ≤ ⌊q⌋ + 1 := by
  unfold roundEven
  split_ifs <;> omega

theorem roundEven_mono : Monotone roundEven := by
  intro q r hle
  rcases (Int.floor_mono hle).lt_or_eq with hlt | heq
  · -- an integer lies between
    have hq := roundEven_le_floor_add_one q
    have hr := floor_le_roundEven r
    omega
  · unfold roundEven
    rw [heq]
    split_ifs <;> first | omega | linarith

/-- Negation exchanges floor and ceiling, and keeps what is even. -/
theorem roundEven_neg (q : ℚ) : roundEven (-q) = -roundEven q := by
  by_cases hint : q = ⌊q⌋
  · rw [hint, ← Int.cast_neg, roundEven_intCast, roundEven_intCast]
  · have hlow : (⌊q⌋ : ℚ) < q := lt_of_le_of_ne (Int.floor_le q) (Ne.symm hint)
    have hhigh : q < ⌊q⌋ + 1 := Int.lt_floor_add_one q
    have hfloor : ⌊-q⌋ = -⌊q⌋ - 1 := by
      rw [Int.floor_eq_iff]
      push_cast
      constructor <;> linarith
    unfold roundEven
    rw [hfloor]
    push_cast
    split_ifs <;> first | omega | linarith

/-- The integer part of `q`. -/
def towardZero (q : ℚ) : ℤ := if 0 ≤ q then ⌊q⌋ else ⌈q⌉

theorem towardZero_intCast (n : ℤ) : towardZero n = n := by
  simp [towardZero]

theorem towardZero_mono : Monotone towardZero := by
  intro q r hle
  unfold towardZero
  split_ifs with hq hr hr
  · exact Int.floor_mono hle
  · exact absurd (hq.trans hle) hr
  · -- zero lies between
    have hneg : ⌈q⌉ ≤ 0 := Int.ceil_le.mpr (by simpa using (not_le.mp hq).le)
    exact hneg.trans (Int.floor_nonneg.mpr hr)
  · exact Int.ceil_mono hle

/-! ## The nearest number of the format -/

/-- The distance of the numbers of the format around `q`. -/
def ulp (p : ℕ) (q : ℚ) : ℚ := 2 ^ (Int.log 2 |q| - p)

/-- The number of the format nearest to `q`. -/
def roundTo (p : ℕ) (q : ℚ) : ℚ := roundEven (q / ulp p q) * ulp p q

section

variable {p : ℕ} {q r : ℚ}

theorem ulp_pos : 0 < ulp p q := zpow_pos (by norm_num) _

@[simp] theorem roundTo_zero : roundTo p 0 = 0 := by
  have h : roundEven 0 = 0 := roundEven_intCast 0
  simp [roundTo, h]

theorem roundTo_neg (q : ℚ) : roundTo p (-q) = -roundTo p q := by
  simp [roundTo, ulp, neg_div, roundEven_neg]

theorem pow_mul_ulp (k : ℕ) : 2 ^ k * ulp p q = (2 : ℚ) ^ (Int.log 2 |q| - p + k) := by
  unfold ulp
  rw [← zpow_natCast, ← zpow_add₀ (by norm_num : (2 : ℚ) ≠ 0), add_comm]

/-- Rounding stays between the powers of two around a number. -/
theorem le_roundTo (hq : 0 < q) : 2 ^ Int.log 2 q ≤ roundTo p q := by
  have hle : ((2 ^ p : ℤ) : ℚ) ≤ q / ulp p q := by
    rw [le_div_iff₀ ulp_pos]
    push_cast
    rw [pow_mul_ulp, sub_add_cancel, abs_of_pos hq]
    exact_mod_cast Int.zpow_log_le_self (by norm_num) hq
  have hround := roundEven_mono hle
  rw [roundEven_intCast] at hround
  calc (2 : ℚ) ^ Int.log 2 q = 2 ^ p * ulp p q := by
        rw [pow_mul_ulp, sub_add_cancel, abs_of_pos hq]
    _ ≤ roundEven (q / ulp p q) * ulp p q := by
        apply mul_le_mul_of_nonneg_right _ ulp_pos.le
        exact_mod_cast hround

theorem roundTo_le (hq : 0 < q) : roundTo p q ≤ 2 ^ (Int.log 2 q + 1) := by
  have hpow : (2 : ℚ) ^ (p + 1) * ulp p q = 2 ^ (Int.log 2 q + 1) := by
    rw [pow_mul_ulp, abs_of_pos hq]
    congr 1
    push_cast
    ring
  have hle : q / ulp p q ≤ ((2 ^ (p + 1) : ℤ) : ℚ) := by
    rw [div_le_iff₀ ulp_pos]
    push_cast
    rw [hpow]
    exact_mod_cast (Int.lt_zpow_succ_log_self (by norm_num) q).le
  have hround := roundEven_mono hle
  rw [roundEven_intCast] at hround
  calc roundTo p q ≤ 2 ^ (p + 1) * ulp p q := by
        apply mul_le_mul_of_nonneg_right _ ulp_pos.le
        exact_mod_cast hround
    _ = 2 ^ (Int.log 2 q + 1) := hpow

theorem roundTo_pos (hq : 0 < q) : 0 < roundTo p q :=
  lt_of_lt_of_le (zpow_pos (by norm_num) _) (le_roundTo hq)

theorem roundTo_nonneg (hq : 0 ≤ q) : 0 ≤ roundTo p q := by
  rcases hq.eq_or_lt with rfl | hpos
  · simp
  · exact (roundTo_pos hpos).le

theorem roundTo_le_of_pos (hq : 0 < q) (hle : q ≤ r) : roundTo p q ≤ roundTo p r := by
  have hr : 0 < r := hq.trans_le hle
  rcases (Int.log_mono_right hq hle : Int.log 2 q ≤ Int.log 2 r).lt_or_eq with hlt | heq
  · -- a power of two lies between
    calc roundTo p q ≤ 2 ^ (Int.log 2 q + 1) := roundTo_le hq
      _ ≤ 2 ^ Int.log 2 r := zpow_le_zpow_right₀ (by norm_num) hlt
      _ ≤ roundTo p r := le_roundTo hr
  · have hulp : ulp p q = ulp p r := by
      unfold ulp
      rw [abs_of_pos hq, abs_of_pos hr, heq]
    unfold roundTo
    rw [hulp]
    apply mul_le_mul_of_nonneg_right _ ulp_pos.le
    exact_mod_cast roundEven_mono (div_le_div_of_nonneg_right hle ulp_pos.le)

theorem roundTo_mono (p : ℕ) : Monotone (roundTo p) := by
  intro q r hle
  rcases lt_or_ge 0 q with hq | hq
  · exact roundTo_le_of_pos hq hle
  · rcases lt_or_ge r 0 with hr | hr
    · -- both are negative
      have h := @roundTo_le_of_pos p (-r) (-q) (by linarith) (by linarith)
      rw [roundTo_neg, roundTo_neg] at h
      linarith
    · have hneg := @roundTo_nonneg p (-q) (by linarith)
      rw [roundTo_neg] at hneg
      exact (by linarith : roundTo p q ≤ 0).trans (roundTo_nonneg hr)

/-! ## The numbers of the format -/

theorem roundTo_of_dvd {m : ℤ} (h : q = m * ulp p q) : roundTo p q = q := by
  have hm : q / ulp p q = m := by
    rw [div_eq_iff ulp_pos.ne']
    exact h
  unfold roundTo
  rw [hm, roundEven_intCast]
  exact h.symm

theorem roundTo_zpow (k : ℤ) : roundTo p (2 ^ k) = 2 ^ k := by
  have hpos : (0 : ℚ) < 2 ^ k := zpow_pos (by norm_num) k
  have hlog : Int.log 2 ((2 : ℚ) ^ k) = k := by
    exact_mod_cast Int.log_zpow (R := ℚ) (by norm_num : 1 < 2) k
  apply @roundTo_of_dvd _ _ (2 ^ p)
  push_cast
  rw [pow_mul_ulp, sub_add_cancel, abs_of_pos hpos, hlog]

/-- `p + 1` digits are enough for a number of the format. -/
theorem roundTo_of_digits {m k : ℤ} (hm : |m| ≤ 2 ^ (p + 1)) :
    roundTo p (m * 2 ^ k) = m * 2 ^ k := by
  have htwo : (2 : ℚ) ≠ 0 := by norm_num
  by_cases hzero : m = 0
  · simp [hzero]
  have hpos : (0 : ℚ) < |(m : ℚ) * 2 ^ k| :=
    abs_pos.mpr (mul_ne_zero (by exact_mod_cast hzero) (zpow_ne_zero _ htwo))
  rcases le_or_gt (Int.log 2 |(m : ℚ) * 2 ^ k| - p) k with hle | hlt
  · -- the last digit of `m` counts no less than the distance
    obtain ⟨j, hj⟩ := Int.le.dest hle
    apply @roundTo_of_dvd _ _ (m * 2 ^ j)
    unfold ulp
    push_cast
    rw [mul_assoc, ← zpow_natCast, ← zpow_add₀ htwo, add_comm, hj]
  · -- only `2 ^ (p + 1)` has a larger one
    have hlog : k + (p + 1 : ℕ) ≤ Int.log 2 |(m : ℚ) * 2 ^ k| := by
      push_cast
      omega
    have hlower := (Int.zpow_le_iff_le_log (by norm_num) hpos).mpr hlog
    have hupper : |(m : ℚ) * 2 ^ k| ≤ 2 ^ (k + (p + 1 : ℕ)) := by
      rw [abs_mul, abs_of_pos (zpow_pos (by norm_num : (0 : ℚ) < 2) k), ← Int.cast_abs,
        zpow_add₀ htwo, mul_comm, zpow_natCast]
      apply mul_le_mul_of_nonneg_left _ (zpow_pos (by norm_num) k).le
      exact_mod_cast hm
    rcases eq_or_eq_neg_of_abs_eq (le_antisymm hupper (by exact_mod_cast hlower)) with h | h
    · rw [h, roundTo_zpow]
    · rw [h, roundTo_neg, roundTo_zpow]

theorem abs_roundEven_le (p : ℕ) (q : ℚ) : |roundEven (q / ulp p q)| ≤ 2 ^ (p + 1) := by
  have hmul : |(roundEven (q / ulp p q) : ℚ)| * ulp p q = |roundTo p q| := by
    rw [roundTo, abs_mul, abs_of_pos ulp_pos]
  have hle : |roundTo p q| ≤ 2 ^ (p + 1) * ulp p q := by
    rw [pow_mul_ulp]
    have hexp : Int.log 2 |q| - p + (p + 1 : ℕ) = Int.log 2 |q| + 1 := by
      push_cast
      ring
    rw [hexp]
    rcases lt_trichotomy q 0 with hneg | rfl | hpos
    · have h := @roundTo_le p (-q) (by linarith)
      have hnonneg := @roundTo_nonneg p (-q) (by linarith)
      rw [roundTo_neg] at h hnonneg
      rw [abs_of_neg hneg, abs_of_nonpos (by linarith)]
      exact h
    · simp
    · rw [abs_of_pos (roundTo_pos hpos), abs_of_pos hpos]
      exact roundTo_le hpos
  rw [← hmul] at hle
  exact_mod_cast le_of_mul_le_mul_right hle ulp_pos

@[simp] theorem roundTo_roundTo (p : ℕ) (q : ℚ) : roundTo p (roundTo p q) = roundTo p q :=
  roundTo_of_digits (abs_roundEven_le p q)

end

end Rounding
