import TradeRecommender.Lib.RoundingError

/-!
# Smoothing

An average that moves a fraction of the way to each observation, in decimal arithmetic. A step is
rounded three times; a fraction that leaves room for two roundings does not carry the average past
the observation, and the third rounding keeps the order.

1. the move of one step;
2. one step;
3. all the observations.
-/

namespace Rounding

/-- `value + alpha * (observation - value)` -/
def smooth (p : ℕ) (alpha value observation : ℚ) : ℚ :=
  add p value (mul p alpha (sub p observation value))

/-- A fraction that stays one after two roundings. -/
structure Fraction (p : ℕ) (alpha : ℚ) : Prop where
  nonneg : 0 ≤ alpha
  room : alpha * (1 + unitRoundoff p) ^ 2 ≤ 1

section
variable {p : ℕ} {alpha value observation low high : ℚ}

/-! ## The move -/

theorem fl_le_mul (nonneg : 0 ≤ value) : fl p value ≤ (1 + unitRoundoff p) * value := by
  have near := (abs_le.mp (abs_fl_sub_le_mul p value)).2
  rw [abs_of_nonneg nonneg] at near
  linarith

/-- The move towards an observation above the average does not pass it. -/
theorem Fraction.move (fraction : Fraction p alpha) (nonneg : 0 ≤ value) :
    0 ≤ mul p alpha (fl p value) ∧ mul p alpha (fl p value) ≤ value := by
  have part : 0 ≤ alpha * fl p value := mul_nonneg fraction.nonneg (fl_nonneg p nonneg)
  have grow : 0 ≤ 1 + unitRoundoff p := add_nonneg zero_le_one (unitRoundoff_nonneg p)
  refine ⟨fl_nonneg p part, ?_⟩
  calc mul p alpha (fl p value)
      ≤ (1 + unitRoundoff p) * (alpha * fl p value) := fl_le_mul part
    _ ≤ (1 + unitRoundoff p) * (alpha * ((1 + unitRoundoff p) * value)) :=
        mul_le_mul_of_nonneg_left (mul_le_mul_of_nonneg_left (fl_le_mul nonneg) fraction.nonneg) grow
    _ = alpha * (1 + unitRoundoff p) ^ 2 * value := by ring
    _ ≤ 1 * value := mul_le_mul_of_nonneg_right fraction.room nonneg
    _ = value := one_mul value

/-! ## One step -/

theorem smooth_neg : smooth p alpha (-value) (-observation) = -smooth p alpha value observation := by
  have move : mul p alpha (sub p (-observation) (-value)) =
      -mul p alpha (sub p observation value) := by
    rw [mul, mul, sub, sub, ← fl_neg, ← mul_neg, ← fl_neg]
    congr 3
    ring
  rw [smooth, smooth, move, add, add, ← neg_add, fl_neg]

/-- A step up ends between the average and the observation. -/
theorem Fraction.up (hp : 0 < p) (fraction : Fraction p alpha) (le : value ≤ observation) :
    fl p value ≤ smooth p alpha value observation ∧
      smooth p alpha value observation ≤ fl p observation := by
  obtain ⟨forward, short⟩ := fraction.move (sub_nonneg.mpr le)
  constructor
  · exact fl_mono hp (le_add_of_nonneg_right forward)
  · refine fl_mono hp ?_
    have bound : mul p alpha (sub p observation value) ≤ observation - value := short
    linarith

/-- A step stays within bounds that hold of the average and of the observation. -/
theorem Fraction.step (hp : 0 < p) (fraction : Fraction p alpha)
    (old : low ≤ fl p value ∧ fl p value ≤ high)
    (new : low ≤ fl p observation ∧ fl p observation ≤ high) :
    low ≤ smooth p alpha value observation ∧ smooth p alpha value observation ≤ high := by
  rcases le_total value observation with le | ge
  · obtain ⟨above, below⟩ := fraction.up hp le
    exact ⟨old.1.trans above, below.trans new.2⟩
  · obtain ⟨above, below⟩ := fraction.up hp (neg_le_neg ge)
    rw [smooth_neg, fl_neg, neg_le_neg_iff] at above below
    exact ⟨new.1.trans below, above.trans old.2⟩

/-! ## All the observations -/

/-- The average of a list stays within bounds that hold of its first value and of every
observation. -/
theorem Fraction.foldl (hp : 0 < p) (fraction : Fraction p alpha) {observations : List ℚ}
    (old : low ≤ fl p value ∧ fl p value ≤ high)
    (all : ∀ x ∈ observations, low ≤ fl p x ∧ fl p x ≤ high) :
    low ≤ fl p (observations.foldl (smooth p alpha) value) ∧
      fl p (observations.foldl (smooth p alpha) value) ≤ high := by
  induction observations generalizing value with
  | nil => exact old
  | cons x observations ih =>
    have step := fraction.step hp old (all x List.mem_cons_self)
    refine ih ?_ fun y mem => all y (List.mem_cons_of_mem x mem)
    rw [smooth, add, fl_fl hp]
    exact step

end

end Rounding
