import Mathlib.Algebra.Order.Archimedean.Basic
import Mathlib.Algebra.Order.Field.Basic
import Mathlib.Order.Bounds.Basic
import Mathlib.Tactic.Linarith

/-!
# Rounding up to a positive multiple

A value is rounded up to the least multiple of a step that reaches it, the step
itself being the smallest result.  Rounding is monotone, and a cut-off is never
overshot exactly when it is a multiple itself.
-/

namespace PositiveMultiples

variable {R : Type*} [Field R] [LinearOrder R]

/-- The positive multiples of `step` from `value` on. -/
def multiplesFrom (step value : R) : Set R :=
  {multiple | ∃ k : ℕ, 1 ≤ k ∧ multiple = k * step ∧ value ≤ multiple}

/-- `value` rounds up to `multiple`. -/
def RoundsUpTo (step value multiple : R) : Prop := IsLeast (multiplesFrom step value) multiple

variable {step value value' multiple multiple' cutoff : R}

theorem RoundsUpTo.unique (h : RoundsUpTo step value multiple)
    (h' : RoundsUpTo step value multiple') : multiple = multiple' :=
  IsLeast.unique h h'

theorem RoundsUpTo.mono (h : RoundsUpTo step value multiple)
    (h' : RoundsUpTo step value' multiple') (hle : value ≤ value') : multiple ≤ multiple' := by
  apply IsLeast.mono h' h
  rintro other ⟨k, hk, hother, hvalue'⟩
  exact ⟨k, hk, hother, hle.trans hvalue'⟩

/-- The rounded value stays below a bound exactly if some multiple does. -/
theorem RoundsUpTo.le_iff (h : RoundsUpTo step value multiple) :
    multiple ≤ cutoff ↔ ∃ k : ℕ, 1 ≤ k ∧ value ≤ k * step ∧ k * step ≤ cutoff := by
  constructor
  · intro hle
    obtain ⟨k, hk, rfl, hvalue⟩ := h.1
    exact ⟨k, hk, hvalue, hle⟩
  · rintro ⟨k, hk, hvalue, hle⟩
    exact (h.2 ⟨k, hk, rfl, hvalue⟩).trans hle

/-- A positive value lies above a multiple, possibly zero, and not above the next one. -/
theorem exists_multiple_lt_le [Archimedean R] (hstep : 0 < step) (hpos : 0 < value) :
    ∃ k : ℕ, k * step < value ∧ value ≤ (k + 1 : ℕ) * step := by
  classical
  have hreached : ∃ k : ℕ, value ≤ k * step := by
    obtain ⟨k, hk⟩ := Archimedean.arch value hstep
    exact ⟨k, by simpa [nsmul_eq_mul] using hk⟩
  have hfirst : value ≤ Nat.find hreached * step := Nat.find_spec hreached
  cases hk : Nat.find hreached with
  | zero =>
      rw [hk, Nat.cast_zero, zero_mul] at hfirst
      exact absurd hfirst (not_le.mpr hpos)
  | succ k =>
      rw [hk] at hfirst
      exact ⟨k, not_le.mp (Nat.find_min hreached (by omega)), hfirst⟩

variable [IsStrictOrderedRing R]

/-- The first multiple that reaches the value is the least one. -/
theorem roundsUpTo_of_first (hstep : 0 < step) {k : ℕ} (hreached : value ≤ (k + 1 : ℕ) * step)
    (hbefore : ∀ j < k, ((j + 1 : ℕ) : R) * step < value) :
    RoundsUpTo step value ((k + 1 : ℕ) * step) := by
  constructor
  · exact ⟨k + 1, by omega, rfl, hreached⟩
  · rintro other ⟨j, hj, rfl, hother⟩
    have hle : k + 1 ≤ j := by
      by_contra hlt
      obtain ⟨i, rfl⟩ : ∃ i, j = i + 1 := ⟨j - 1, by omega⟩
      exact absurd (hbefore i (by omega)) (not_lt.mpr hother)
    exact mul_le_mul_of_nonneg_right (Nat.cast_le.mpr hle) hstep.le

/-- A cut-off that is no multiple is overshot by a value between it and the last
    multiple below it. -/
theorem exists_overshoot [Archimedean R] (hstep : 0 < step) (hcutoff : 0 < cutoff)
    (hnot : ¬ ∃ k : ℕ, 1 ≤ k ∧ cutoff = k * step) :
    ∃ value, 0 ≤ value ∧ value < cutoff ∧
      ¬ ∃ k : ℕ, 1 ≤ k ∧ value ≤ k * step ∧ k * step ≤ cutoff := by
  obtain ⟨k, hlast, hnext⟩ := exists_multiple_lt_le hstep hcutoff
  have hnonneg : 0 ≤ (k : R) * step := mul_nonneg (Nat.cast_nonneg k) hstep.le
  refine ⟨((k : R) * step + cutoff) / 2, by linarith, by linarith, ?_⟩
  rintro ⟨j, hj, hvalue, hle⟩
  have hbehind : k + 1 ≤ j := by
    by_contra hbefore
    have : (j : R) * step ≤ k * step :=
      mul_le_mul_of_nonneg_right (Nat.cast_le.mpr (by omega)) hstep.le
    linarith
  have : ((k + 1 : ℕ) : R) * step ≤ j * step :=
    mul_le_mul_of_nonneg_right (Nat.cast_le.mpr hbehind) hstep.le
  exact hnot ⟨j, hj, le_antisymm (by linarith) hle⟩

end PositiveMultiples
