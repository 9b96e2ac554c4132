import TradeRecommender.Lib.IsoRoundTrip

/-!
# Midnights as texts

Between 2019 and 2025 the texts `isoformat` writes for midnights compare as the midnights do.
-/

namespace Civil

open Py

section
variable {n : ℤ}

/-- Dates come in the order of their days: later years and months, or later days of one month. -/
theorem ofDays_lt {m : ℤ} (low : 17903 ≤ m) (high : n < 20100) (less : m < n) :
    12 * (Date.ofDays m).year + (Date.ofDays m).month <
        12 * (Date.ofDays n).year + (Date.ofDays n).month ∨
      12 * (Date.ofDays m).year + (Date.ofDays m).month =
        12 * (Date.ofDays n).year + (Date.ofDays n).month ∧
      (Date.ofDays m).day < (Date.ofDays n).day := by
  have era : ∀ k : ℤ, 17903 ≤ k → k < 20100 →
      (k + 719468) / 146097 = 5 ∧ (k + 719468) % 146097 = k - 11017 ∧
        (k - 11017) / 36524 = 0 ∧ (k - 11017) / 146096 = 0 := by
    intro k _ _
    omega
  obtain ⟨m1, m2, m3, m4⟩ := era m low (by omega)
  obtain ⟨n1, n2, n3, n4⟩ := era n (by omega) high
  simp only [Date.ofDays, m1, m2, m3, m4, n1, n2, n3, n4]
  generalize hy : (m - 11017 - (m - 11017) / 1460 + 0 - 0) / 365 = y
  generalize hz : (n - 11017 - (n - 11017) / 1460 + 0 - 0) / 365 = z
  have years : y ≤ z := by omega
  have small : y / 100 = 0 ∧ z / 100 = 0 := by omega
  rw [small.1, small.2]
  generalize hd : m - 11017 - (365 * y + y / 4 - 0) = d
  generalize he : n - 11017 - (365 * z + z / 4 - 0) = e
  generalize hj : (5 * d + 2) / 153 = j
  generalize hk : (5 * e + 2) / 153 = k
  have inYear : 0 ≤ d ∧ d ≤ 365 ∧ 0 ≤ e ∧ e ≤ 365 := by omega
  have months : 0 ≤ j ∧ j ≤ 11 ∧ 0 ≤ k ∧ k ≤ 11 := by omega
  have counted : ∀ x i : ℤ, 12 * (if i < 10 then x + 5 * 400 else x + 5 * 400 + 1) +
      (if i < 10 then i + 3 else i - 9) = 12 * x + i + 24003 := by
    intro x i
    split_ifs <;> omega
  rw [counted, counted]
  rcases lt_or_eq_of_le years with later | rfl
  · left
    omega
  · -- in one year the months follow the days, and within a month the days do
    have later : d < e := by omega
    have ordered : j ≤ k := by omega
    rcases lt_or_eq_of_le ordered with h | rfl
    · left
      omega
    · right
      omega

/-- The fields of a date between 2019 and 2025. -/
theorem ofDays_fields (low : 17903 ≤ n) (high : n < 20100) : ∃ y m d : ℕ,
    Date.ofDays n = ⟨y, m, d⟩ ∧ y < 10000 ∧ 1 ≤ m ∧ m ≤ 12 ∧ 1 ≤ d ∧ d ≤ 31 := by
  have first : (Date.mk 1 1 1).toDays = -719162 := by decide
  have last : (Date.mk 9999 12 31).toDays = 2932896 := by decide
  exact exists_fields (ofDays_valid (by omega) (by omega)).1

/-- What `isoformat` writes for a midnight. -/
theorem toList_midnight {y m d : ℕ} (date : Date.ofDays n = ⟨y, m, d⟩) (hy : y < 10000)
    (hm : m ≤ 12) (hd : d ≤ 31) : (isoformat (n * day)).toList =
      fixed 4 y ++ ('-' :: (fixed 2 m ++ ('-' :: (fixed 2 d ++ "T00:00:00+00:00".toList)))) := by
  have whole : n * day / day = n := Int.mul_ediv_cancel n (by decide)
  have rest : n * day % day = 0 := Int.mul_emod_left n day
  rw [← whole] at date
  exact toList_isoformat (h := 0) (m := 0) (s := 0) (f := 0) date hy (by omega) (by omega)
    (by decide) (by decide) (by decide) (by decide) (by rw [rest]; rfl) (by rw [rest]; rfl)
    (by rw [rest]; rfl) (by rw [rest]; rfl)

/-- `fromisoformat` reads a midnight back. -/
theorem fromisoformat_midnight (low : 17903 ≤ n) (high : n < 20100) :
    fromisoformat (isoformat (n * day)) = .ok ⟨n * day, some 0⟩ := by
  have first : minInstant = -719162 * day := by decide
  have last : endInstant = 2932897 * day := by decide
  have lower : (-719162 : ℤ) ≤ n := by omega
  have upper : n < 2932897 := by omega
  have lowest : minInstant ≤ n * day := by
    rw [first]
    exact mul_le_mul_of_nonneg_right lower (by decide)
  have highest : n * day < endInstant := by
    rw [last]
    exact mul_lt_mul_of_pos_right upper (by decide)
  exact fromisoformat_isoformat lowest highest

/-- Midnights compare as their texts. -/
theorem isoformat_lt {m : ℤ} (low : 17903 ≤ m) (high : n < 20100) (less : m < n) :
    isoformat (m * day) < isoformat (n * day) := by
  obtain ⟨y, k, d, hm, y2, k1, k2, d1, d2⟩ := ofDays_fields low (by omega)
  obtain ⟨z, l, e, hn, z2, l1, l2, e1, e2⟩ := ofDays_fields (by omega) high
  rw [String.lt_iff_toList_lt, toList_midnight hm y2 k2 d2, toList_midnight hn z2 l2 e2]
  have order := ofDays_lt low high less
  rw [hm, hn] at order
  dsimp only at order
  by_cases years : y < z
  · exact fixed_append_lt (by omega) (by omega) years _ _
  · obtain rfl : y = z := by omega
    refine List.append_left_lt (List.Lex.cons ?_)
    by_cases months : k < l
    · exact fixed_append_lt (by omega) (by omega) months _ _
    · obtain rfl : k = l := by omega
      refine List.append_left_lt (List.Lex.cons ?_)
      exact fixed_append_lt (by omega) (by omega) (by omega) _ _

end

end Civil
