import TradeRecommender.Lib.Rounding

/-!
# Rounding errors

How far a computed amount is from the exact one it stands for. `Tracks p e fine n s v q` says that
`v` is `q` up to `n` roundings to `p` digits of amounts no larger than `s`, and is `q` itself where
the inputs are fine, on the grid of `10 ^ e`, and `p` digits reach from that grid to `s`.

1. one rounding;
2. the rules for sums, signs, halves and roundings;
3. two amounts that stand for the same one.
-/

namespace Rounding

/-! ## One rounding -/

/-- The largest relative error of one rounding. -/
def unitRoundoff (p : ℕ) : ℚ := 10 ^ (1 - p : ℤ) / 2

/-- The relative error that `n` roundings may grow to. -/
def growth (p n : ℕ) : ℚ := (1 + unitRoundoff p) ^ n - 1

/-- The multiples of `10 ^ e`. -/
def OnGrid (e : ℤ) (q : ℚ) : Prop := ∃ n : ℤ, q = n * 10 ^ e

theorem unitRoundoff_nonneg (p : ℕ) : 0 ≤ unitRoundoff p :=
  div_nonneg (ten_zpow_pos _).le (by norm_num)

theorem abs_fl_sub_le_mul (p : ℕ) (q : ℚ) : |fl p q - q| ≤ unitRoundoff p * |q| := by
  rcases eq_or_ne q 0 with rfl | hq
  · rw [fl_zero, sub_zero, abs_zero, mul_zero]
  · have low : (10 : ℚ) ^ Int.log 10 |q| ≤ |q| := by
      exact_mod_cast Int.zpow_log_le_self (by norm_num : 1 < 10) (abs_pos.mpr hq)
    have split : (10 : ℚ) ^ lastDigit p q = 10 ^ (1 - p : ℤ) * 10 ^ Int.log 10 |q| := by
      rw [← zpow_add₀ (by norm_num), lastDigit]
      congr 1
      ring
    calc |fl p q - q| ≤ 10 ^ lastDigit p q / 2 := abs_fl_sub_le p q
      _ = unitRoundoff p * 10 ^ Int.log 10 |q| := by rw [split, unitRoundoff]; ring
      _ ≤ unitRoundoff p * |q| := mul_le_mul_of_nonneg_left low (unitRoundoff_nonneg p)

theorem growth_nonneg (p n : ℕ) : 0 ≤ growth p n :=
  sub_nonneg.mpr (one_le_pow₀ (le_add_of_nonneg_right (unitRoundoff_nonneg p)))

theorem growth_mono (p : ℕ) {n m : ℕ} (h : n ≤ m) : growth p n ≤ growth p m :=
  sub_le_sub_right (pow_le_pow_right₀ (le_add_of_nonneg_right (unitRoundoff_nonneg p)) h) 1

theorem growth_succ (p n : ℕ) :
    growth p (n + 1) = unitRoundoff p + (1 + unitRoundoff p) * growth p n := by
  unfold growth
  ring

theorem OnGrid.add {e : ℤ} {q r : ℚ} (hq : OnGrid e q) (hr : OnGrid e r) : OnGrid e (q + r) := by
  obtain ⟨n, rfl⟩ := hq
  obtain ⟨m, rfl⟩ := hr
  exact ⟨n + m, by push_cast; ring⟩

theorem OnGrid.neg {e : ℤ} {q : ℚ} (hq : OnGrid e q) : OnGrid e (-q) := by
  obtain ⟨n, rfl⟩ := hq
  exact ⟨-n, by push_cast; ring⟩

theorem OnGrid.mul {d e : ℤ} {q r : ℚ} (hq : OnGrid d q) (hr : OnGrid e r) :
    OnGrid (d + e) (q * r) := by
  obtain ⟨n, rfl⟩ := hq
  obtain ⟨m, rfl⟩ := hr
  refine ⟨n * m, ?_⟩
  push_cast
  rw [zpow_add₀ (by norm_num)]
  ring

theorem OnGrid.abs {e : ℤ} {q : ℚ} (hq : OnGrid e q) : OnGrid e |q| := by
  rcases abs_choice q with same | neg
  · rw [same]
    exact hq
  · rw [neg]
    exact hq.neg

theorem OnGrid.half {e : ℤ} {q : ℚ} (hq : OnGrid e q) : OnGrid (e - 1) (q / 2) := by
  obtain ⟨n, rfl⟩ := hq
  refine ⟨5 * n, ?_⟩
  rw [zpow_sub_one₀ (by norm_num)]
  push_cast
  ring

theorem OnGrid.finer {e : ℤ} {q : ℚ} (hq : OnGrid e q) : OnGrid (e - 1) q := by
  obtain ⟨n, rfl⟩ := hq
  refine ⟨10 * n, ?_⟩
  rw [zpow_sub_one₀ (by norm_num)]
  push_cast
  ring

theorem OnGrid.ten {e : ℤ} {q : ℚ} (hq : OnGrid e q) : OnGrid (e + 1) (10 * q) := by
  obtain ⟨n, rfl⟩ := hq
  refine ⟨n, ?_⟩
  rw [zpow_add_one₀ (by norm_num)]
  ring

/-- Rounding to digits stays on a grid. -/
theorem OnGrid.fl {p : ℕ} {e : ℤ} {q : ℚ} (hq : OnGrid e q) : OnGrid e (fl p q) := by
  rcases le_or_gt (lastDigit p q) e with finer | coarser
  · obtain ⟨n, rfl⟩ := hq
    exact ⟨n, quantize_of_coarser finer n⟩
  · obtain ⟨d, steps⟩ := Int.le.dest coarser.le
    refine ⟨halfEven (q / 10 ^ lastDigit p q) * 10 ^ d, ?_⟩
    rw [Rounding.fl, quantize, ← steps, zpow_add₀ (by norm_num)]
    push_cast
    rw [zpow_natCast]
    ring

/-- An amount on the grid is its own rounding while the digits reach to it. -/
theorem fl_of_onGrid {p : ℕ} (hp : 0 < p) {e : ℤ} {q : ℚ} (grid : OnGrid e q)
    (size : |q| ≤ 10 ^ p * 10 ^ e) : fl p q = q := by
  obtain ⟨n, rfl⟩ := grid
  refine fl_of_representable hp ⟨n, e, ?_, rfl⟩
  rw [abs_mul, abs_of_pos (ten_zpow_pos e)] at size
  exact_mod_cast le_of_mul_le_mul_right size (ten_zpow_pos e)

/-! ## The rules -/

/-- `v` is `q` up to `n` roundings of amounts no larger than `s`, and exactly on a grid that the
digits reach. -/
structure Tracks (p : ℕ) (e : ℤ) (fine : Prop) (n : ℕ) (s v q : ℚ) : Prop where
  near : |v - q| ≤ growth p n * s
  size : |q| ≤ s
  exact : fine → s ≤ 10 ^ p * 10 ^ e → v = q ∧ OnGrid e q

namespace Tracks

variable {p : ℕ} {e : ℤ} {fine : Prop} {n m : ℕ} {s t v w q r : ℚ}

theorem input (grid : fine → OnGrid e q) : Tracks p e fine 0 |q| q q where
  near := by
    rw [sub_self, abs_zero]
    exact mul_nonneg (growth_nonneg p 0) (abs_nonneg q)
  size := le_refl _
  exact given _ := ⟨rfl, grid given⟩

theorem scale_nonneg (h : Tracks p e fine n s v q) : 0 ≤ s := (abs_nonneg q).trans h.size

theorem mono (h : Tracks p e fine n s v q) (more : n ≤ m) (larger : s ≤ t) :
    Tracks p e fine m t v q where
  near := h.near.trans (mul_le_mul (growth_mono p more) larger h.scale_nonneg (growth_nonneg p m))
  size := h.size.trans larger
  exact given reach := h.exact given (larger.trans reach)

theorem congr (h : Tracks p e fine n s v q) (value : w = v) (stands : q = r) :
    Tracks p e fine n s w r := by
  rw [value, ← stands]
  exact h

theorem neg (h : Tracks p e fine n s v q) : Tracks p e fine n s (-v) (-q) where
  near := by
    rw [← neg_sub', abs_neg]
    exact h.near
  size := (abs_neg q).trans_le h.size
  exact given reach :=
    ⟨congrArg Neg.neg (h.exact given reach).1, (h.exact given reach).2.neg⟩

theorem add (h : Tracks p e fine n s v q) (k : Tracks p e fine n t w r) :
    Tracks p e fine n (s + t) (v + w) (q + r) where
  near := by
    have apart : v + w - (q + r) = (v - q) + (w - r) := by ring
    calc |v + w - (q + r)| ≤ |v - q| + |w - r| := apart ▸ abs_add_le _ _
      _ ≤ growth p n * s + growth p n * t := add_le_add h.near k.near
      _ = growth p n * (s + t) := by ring
  size := (abs_add_le q r).trans (add_le_add h.size k.size)
  exact given reach := by
    obtain ⟨rfl, hq⟩ := h.exact given ((le_add_of_nonneg_right k.scale_nonneg).trans reach)
    obtain ⟨rfl, hr⟩ := k.exact given ((le_add_of_nonneg_left h.scale_nonneg).trans reach)
    exact ⟨rfl, hq.add hr⟩

theorem sub (h : Tracks p e fine n s v q) (k : Tracks p e fine n t w r) :
    Tracks p e fine n (s + t) (v - w) (q - r) := by
  rw [sub_eq_add_neg, sub_eq_add_neg]
  exact h.add k.neg

theorem twice (h : Tracks p e fine n s v q) : Tracks p e fine n (2 * s) (2 * v) (2 * q) := by
  rw [two_mul, two_mul, two_mul]
  exact h.add h

/-- Multiplying by a direction. -/
theorem directed {d : ℤ} (unit : d = -1 ∨ d = 1) (h : Tracks p e fine n s v q) :
    Tracks p e fine n s (d * v) (d * q) := by
  rcases unit with rfl | rfl
  · push_cast
    rw [neg_one_mul, neg_one_mul]
    exact h.neg
  · push_cast
    rw [one_mul, one_mul]
    exact h

/-- Halving an amount whose half is on the grid as well. -/
theorem half (h : Tracks p e fine n s v q) (grid : fine → OnGrid e (q / 2)) :
    Tracks p e fine n s (v / 2) (q / 2) where
  near := by
    rw [← sub_div, abs_div, abs_of_pos (zero_lt_two' ℚ)]
    exact (half_le_self (abs_nonneg _)).trans h.near
  size := by
    rw [abs_div, abs_of_pos (zero_lt_two' ℚ)]
    exact (half_le_self (abs_nonneg _)).trans h.size
  exact given reach := ⟨by rw [(h.exact given reach).1], grid given⟩

/-- One more rounding. -/
theorem round (hp : 0 < p) (h : Tracks p e fine n s v q) : Tracks p e fine (n + 1) s (fl p v) q where
  near := by
    have unit := unitRoundoff_nonneg p
    have apart : fl p v - q = (fl p v - v) + (v - q) := by ring
    have value : |v| ≤ growth p n * s + s := by
      have split : v = (v - q) + q := by ring
      calc |v| ≤ |v - q| + |q| := by
            conv_lhs => rw [split]
            exact abs_add_le _ _
        _ ≤ growth p n * s + s := add_le_add h.near h.size
    calc |fl p v - q| ≤ |fl p v - v| + |v - q| := apart ▸ abs_add_le _ _
      _ ≤ unitRoundoff p * (growth p n * s + s) + growth p n * s :=
        add_le_add ((abs_fl_sub_le_mul p v).trans (mul_le_mul_of_nonneg_left value unit)) h.near
      _ = growth p (n + 1) * s := by rw [growth_succ]; ring
  size := h.size
  exact given reach := by
    obtain ⟨rfl, grid⟩ := h.exact given reach
    exact ⟨fl_of_onGrid hp grid (h.size.trans reach), grid⟩

/-- A sum from the left with each partial sum rounded. -/
theorem sum_from (hp : 0 < p) (xs : List ℚ) (grid : fine → ∀ x ∈ xs, OnGrid e x) :
    ∀ {n : ℕ} {s v q : ℚ}, Tracks p e fine n s v q →
      Tracks p e fine (n + xs.length) (s + (xs.map (|·|)).sum) (xs.foldl (Rounding.add p) v)
        (q + xs.sum) := by
  induction xs with
  | nil =>
    intro n s v q h
    rw [List.map_nil, List.sum_nil, add_zero, add_zero]
    exact h
  | cons x xs ih =>
    intro n s v q h
    have head : Tracks p e fine n |x| x x :=
      (input fun given => grid given x List.mem_cons_self).mono (Nat.zero_le n) (le_refl _)
    have step := ih (fun given y mem => grid given y (List.mem_cons_of_mem x mem))
      ((h.add head).round hp)
    rw [List.length_cons, List.map_cons, List.sum_cons, List.sum_cons, ← add_assoc s,
      ← add_assoc q, Nat.add_comm xs.length, ← Nat.add_assoc]
    exact step

/-- A sum without roundings. -/
theorem exact_sum (xs : List ℚ) (grid : fine → ∀ x ∈ xs, OnGrid e x) :
    Tracks p e fine 0 (xs.map (|·|)).sum xs.sum xs.sum := by
  induction xs with
  | nil =>
    refine (input (q := 0) fun _ => ⟨0, by norm_num⟩).mono (Nat.le_refl 0) ?_
    rw [abs_zero, List.map_nil, List.sum_nil]
  | cons x xs ih =>
    have head : Tracks p e fine 0 |x| x x := input fun given => grid given x List.mem_cons_self
    exact head.add (ih fun given y mem => grid given y (List.mem_cons_of_mem x mem))

/-- A sum from zero, each partial sum rounded. -/
theorem sum (hp : 0 < p) (xs : List ℚ) (grid : fine → ∀ x ∈ xs, OnGrid e x) :
    Tracks p e fine xs.length (xs.map (|·|)).sum (Rounding.sum p xs) xs.sum := by
  have zero : Tracks p e fine 0 |(0 : ℚ)| 0 0 := input fun _ => ⟨0, by norm_num⟩
  have tracked := sum_from hp xs grid zero
  rw [abs_zero, zero_add, zero_add, zero_add] at tracked
  exact tracked

/-! ## Two amounts for one -/

/-- Two amounts that stand for the same one are close. -/
theorem abs_sub_le (h : Tracks p e fine n s v q) (k : Tracks p e fine n s w q) :
    |v - w| ≤ 2 * growth p n * s := by
  have apart : v - w = (v - q) + -(w - q) := by ring
  calc |v - w| ≤ |v - q| + |-(w - q)| := apart ▸ abs_add_le _ _
    _ ≤ growth p n * s + growth p n * s := add_le_add h.near ((abs_neg _).trans_le k.near)
    _ = 2 * growth p n * s := by ring

/-- On a grid that the digits reach they are the same. -/
theorem eq (h : Tracks p e fine n s v q) (k : Tracks p e fine n s w q) (given : fine)
    (reach : s ≤ 10 ^ p * 10 ^ e) : v = w :=
  (h.exact given reach).1.trans (k.exact given reach).1.symm

end Tracks

end Rounding
