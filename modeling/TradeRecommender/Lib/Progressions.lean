import Mathlib.Data.Int.GCD
import Mathlib.Tactic.Common
import Mathlib.Tactic.LinearCombination

/-!
# Progressions

The points that a start and a step make, and when two of them meet.
-/

/-- The points of a start in steps. -/
def IsGridPoint (start : ℤ) (step : ℕ) (t : ℤ) : Prop := ∃ k : ℕ, t = start + k * step

namespace IsGridPoint

variable {a b t : ℤ} {m n : ℕ}

theorem start_le (h : IsGridPoint a m t) : a ≤ t := by
  obtain ⟨k, rfl⟩ := h
  exact le_add_of_nonneg_right (mul_nonneg (Nat.cast_nonneg k) (Nat.cast_nonneg m))

/-- Far enough behind a number of points there is a number of points not below zero. -/
theorem exists_ahead (u : ℤ) {bound w : ℕ} (hw : 0 < w) (short : u.natAbs ≤ bound) :
    ∃ k : ℕ, (k : ℤ) = u + bound * w := by
  have wide : (bound : ℤ) ≤ bound * w := by exact_mod_cast Nat.le_mul_of_pos_right bound hw
  have ahead : 0 ≤ u + bound * w := by omega
  obtain ⟨k, same⟩ := Int.eq_ofNat_of_zero_le ahead
  exact ⟨k, same.symm⟩

/-- A common multiple of the steps moves a meeting of both progressions behind their starts. -/
theorem advance (hm : 0 < m) (hn : 0 < n) {u v : ℤ} (meet : a + u * m = b + v * n) :
    ∃ t, IsGridPoint a m t ∧ IsGridPoint b n t := by
  obtain ⟨i, first⟩ := exists_ahead u hn (Nat.le_add_right u.natAbs v.natAbs)
  obtain ⟨j, second⟩ := exists_ahead v hm (Nat.le_add_left v.natAbs u.natAbs)
  refine ⟨a + i * m, ⟨i, rfl⟩, ⟨j, ?_⟩⟩
  rw [first, second]
  linear_combination meet

/-- **Two progressions meet** exactly when the common divisor of their steps divides the difference
of their starts. -/
theorem exists_common_iff (hm : 0 < m) (hn : 0 < n) :
    (∃ t, IsGridPoint a m t ∧ IsGridPoint b n t) ↔ ((Nat.gcd m n : ℕ) : ℤ) ∣ a - b := by
  constructor
  · rintro ⟨t, ⟨i, rfl⟩, ⟨j, same⟩⟩
    have left : ((Nat.gcd m n : ℕ) : ℤ) ∣ m := Int.natCast_dvd_natCast.mpr (Nat.gcd_dvd_left m n)
    have right : ((Nat.gcd m n : ℕ) : ℤ) ∣ n := Int.natCast_dvd_natCast.mpr (Nat.gcd_dvd_right m n)
    have apart : a - b = j * n - i * m := by linear_combination same
    rw [apart]
    exact Int.dvd_sub (right.mul_left _) (left.mul_left _)
  · rintro ⟨k, apart⟩
    refine advance hm hn (u := -(Nat.gcdA m n * k)) (v := Nat.gcdB m n * k) ?_
    rw [Nat.gcd_eq_gcd_ab] at apart
    linear_combination apart

end IsGridPoint
