import TradeRecommender.Lib.Rounding

/-!
# Running sums in rounded arithmetic

A sum of decimals rounds at every addition.  Its error is half a unit in the last place of the
running totals for each addition, so it is small as long as the running totals are.
-/

namespace Rounding

variable {p : ℕ}

/-- A number below a power of ten is rounded by half a unit of that power's last digit at most. -/
theorem abs_fl_sub_le_of_lt {q : ℚ} {e : ℤ} (h : |q| < 10 ^ (e + 1)) :
    |fl p q - q| ≤ 10 ^ (e - (p - 1)) / 2 := by
  by_cases hq : q = 0
  · subst hq
    rw [fl_zero, sub_zero, abs_zero]
    exact (half_pos (ten_zpow_pos _)).le
  · have hlog : Int.log 10 |q| ≤ e := by
      have hlt := (Int.lt_zpow_iff_log_lt (b := 10) (by norm_num) (abs_pos.mpr hq)).mp
        (by exact_mod_cast h)
      omega
    refine le_trans (abs_fl_sub_le p q) ?_
    have hpow : (10 : ℚ) ^ lastDigit p q ≤ 10 ^ (e - (p - 1)) :=
      zpow_le_zpow_right₀ (by norm_num) (by unfold lastDigit; omega)
    linarith

/-- Every running total from a start, before it is rounded, is zero or below a ceiling. -/
def Below (p : ℕ) (top : ℚ) : ℚ → List ℚ → Prop
  | _, [] => True
  | a, x :: xs => (a + x = 0 ∨ |a + x| < top) ∧ Below p top (add p a x) xs

/-- **Half a unit for each addition.** -/
theorem abs_foldl_sub_le {e : ℤ} {a : ℚ} {xs : List ℚ} (h : Below p (10 ^ (e + 1)) a xs) :
    |xs.foldl (add p) a - (a + xs.sum)| ≤ xs.length * (10 ^ (e - (p - 1)) / 2) := by
  induction xs generalizing a with
  | nil => simp
  | cons x xs ih =>
    obtain ⟨hx, hxs⟩ := h
    have hlt : |a + x| < 10 ^ (e + 1) := by
      rcases hx with hx | hx
      · rw [hx, abs_zero]
        exact ten_zpow_pos _
      · exact hx
    have hhead := abs_fl_sub_le_of_lt (p := p) hlt
    have htail := ih hxs
    have hsplit : xs.foldl (add p) (add p a x) - (a + (x + xs.sum)) =
        (xs.foldl (add p) (add p a x) - (add p a x + xs.sum)) + (fl p (a + x) - (a + x)) := by
      unfold add
      ring
    rw [List.foldl_cons, List.sum_cons, hsplit, List.length_cons]
    push_cast
    have htriangle := abs_add_le (xs.foldl (add p) (add p a x) - (add p a x + xs.sum))
      (fl p (a + x) - (a + x))
    linarith

/-- Running totals that are all zero end at zero. -/
theorem foldl_of_below_zero {xs : List ℚ} (h : Below p 0 0 xs) : xs.foldl (add p) 0 = 0 := by
  induction xs with
  | nil => rfl
  | cons x xs ih =>
    obtain ⟨hx, hxs⟩ := h
    have hzero : 0 + x = 0 := by
      rcases hx with hx | hx
      · exact hx
      · exact absurd hx (not_lt.mpr (abs_nonneg _))
    have hadd : add p 0 x = 0 := by
      unfold add
      rw [hzero, fl_zero]
    rw [hadd] at hxs
    rw [List.foldl_cons, hadd, ih hxs]

theorem abs_fl (p : ℕ) (q : ℚ) : |fl p q| = fl p |q| := by
  rcases le_total 0 q with h | h
  · rw [abs_of_nonneg h, abs_of_nonneg (fl_nonneg p h)]
  · have := fl_nonneg p (neg_nonneg.mpr h)
    rw [abs_of_nonpos h, fl_neg] at *
    rw [abs_of_nonpos (by linarith)]

/-- A sum of absolute values does not fall below its start. -/
theorem le_foldl_abs (hp : 0 < p) {b : ℚ} (hb : fl p b = b) (xs : List ℚ) :
    b ≤ (xs.map (|·|)).foldl (add p) b := by
  induction xs generalizing b with
  | nil => exact le_rfl
  | cons x xs ih =>
    have hle : b ≤ add p b |x| := by
      calc b = fl p b := hb.symm
        _ ≤ fl p (b + |x|) := fl_mono hp (by linarith [abs_nonneg x])
    exact le_trans hle (ih (fl_fl hp _))

theorem fl_zpow (hp : 0 < p) (e : ℤ) : fl p (10 ^ e) = 10 ^ e :=
  fl_of_representable hp ⟨1, e, by
    rw [abs_one]
    exact one_le_pow₀ (by norm_num), by simp⟩

/-- Running totals stay below a power of ten that the sum of absolute values does not reach. -/
theorem below_of_foldl_abs (hp : 0 < p) {e : ℤ} {a b : ℚ} (hab : |a| ≤ b) (hb : fl p b = b)
    {xs : List ℚ} (h : (xs.map (|·|)).foldl (add p) b < 10 ^ e) : Below p (10 ^ e) a xs := by
  induction xs generalizing a b with
  | nil => trivial
  | cons x xs ih =>
    have hstep : |a + x| ≤ b + |x| := le_trans (abs_add_le a x) (by linarith)
    have hlt : b + |x| < 10 ^ e := by
      by_contra hge
      have hfl : (10 : ℚ) ^ e ≤ add p b |x| := by
        rw [← fl_zpow hp e]
        exact fl_mono hp (not_lt.mp hge)
      have hrest := le_foldl_abs hp (b := add p b |x|) (fl_fl hp _) xs
      exact absurd h (not_lt.mpr (le_trans hfl hrest))
    refine ⟨.inr (lt_of_le_of_lt hstep hlt), ih ?_ (fl_fl hp _) h⟩
    unfold add
    rw [abs_fl]
    exact fl_mono hp hstep

end Rounding
