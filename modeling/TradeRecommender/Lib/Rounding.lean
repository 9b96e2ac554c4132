import Mathlib.Data.Int.Log
import Mathlib.Data.Rat.Floor
import Mathlib.Tactic

/-!
# Decimal rounding

A decimal of `p` significant digits is a rational on the grid of its own last digit, and an
arithmetic operation of a decimal context is the exact operation followed by one rounding onto that
grid. `fl p` is that rounding with ties to even; `quantize` rounds onto a grid chosen by the caller.
The facts below are the ones an error analysis needs: both are monotone, odd, idempotent and within
half a unit of the last digit.
-/

namespace Rounding

/-! ## Rounding to an integer -/

/-- The integer nearest to `q`; a tie goes to the even neighbour. -/
def halfEven (q : ℚ) : ℤ :=
  if q - ⌊q⌋ < 1 / 2 then ⌊q⌋
  else if 1 / 2 < q - ⌊q⌋ then ⌊q⌋ + 1
  else if ⌊q⌋ % 2 = 0 then ⌊q⌋ else ⌊q⌋ + 1

@[simp]
theorem halfEven_intCast (n : ℤ) : halfEven n = n := by
  simp [halfEven]

@[simp]
theorem halfEven_zero : halfEven 0 = 0 := by
  simpa using halfEven_intCast 0

/-- The rounding is one of the two integers around its argument. -/
theorem halfEven_eq (q : ℚ) : halfEven q = ⌊q⌋ ∨ halfEven q = ⌊q⌋ + 1 := by
  unfold halfEven
  split_ifs <;> simp

theorem abs_halfEven_sub_le (q : ℚ) : |(halfEven q : ℚ) - q| ≤ 1 / 2 := by
  have low := Int.floor_le q
  have high := Int.lt_floor_add_one q
  rw [abs_le]
  unfold halfEven
  split_ifs <;> push_cast <;> constructor <;> linarith

theorem halfEven_mono {q r : ℚ} (h : q ≤ r) : halfEven q ≤ halfEven r := by
  rcases lt_or_eq_of_le (Int.floor_mono h) with hlt | heq
  · have hq : halfEven q ≤ ⌊q⌋ + 1 := by rcases halfEven_eq q with e | e <;> omega
    have hr : ⌊r⌋ ≤ halfEven r := by rcases halfEven_eq r with e | e <;> omega
    omega
  · -- on one unit interval only the fraction decides
    unfold halfEven
    rw [heq]
    split_ifs <;> first | omega | (exfalso; linarith)

theorem halfEven_neg (q : ℚ) : halfEven (-q) = -halfEven q := by
  by_cases hq : q = ⌊q⌋
  · rw [hq, ← Int.cast_neg, halfEven_intCast, halfEven_intCast]
  have low : (⌊q⌋ : ℚ) < q := lt_of_le_of_ne (Int.floor_le q) (Ne.symm hq)
  have high := Int.lt_floor_add_one q
  have floor_neg : ⌊-q⌋ = -⌊q⌋ - 1 := by
    rw [Int.floor_eq_iff]
    push_cast
    constructor <;> linarith
  unfold halfEven
  rw [floor_neg]
  push_cast
  split_ifs <;> first | omega | (exfalso; linarith)

/-! ## Rounding onto a grid -/

theorem ten_zpow_pos (e : ℤ) : (0 : ℚ) < 10 ^ e := zpow_pos (by norm_num) e

/-- `q` rounded by `r` to a multiple of `10 ^ e`. -/
def quantize (r : ℚ → ℤ) (e : ℤ) (q : ℚ) : ℚ := r (q / 10 ^ e) * 10 ^ e

theorem quantize_mono {r : ℚ → ℤ} (hr : Monotone r) (e : ℤ) : Monotone (quantize r e) := by
  intro q q' h
  have pos := ten_zpow_pos e
  have hdiv : q / 10 ^ e ≤ q' / 10 ^ e := by gcongr
  have hround : (r (q / 10 ^ e) : ℚ) ≤ r (q' / 10 ^ e) := by exact_mod_cast hr hdiv
  unfold quantize
  gcongr

theorem halfEven_monotone : Monotone halfEven := fun _ _ h => halfEven_mono h

theorem abs_quantize_sub_le (e : ℤ) (q : ℚ) : |quantize halfEven e q - q| ≤ 10 ^ e / 2 := by
  have pos := ten_zpow_pos e
  have hsub : quantize halfEven e q - q = ((halfEven (q / 10 ^ e) : ℚ) - q / 10 ^ e) * 10 ^ e := by
    unfold quantize
    field_simp
  rw [hsub, abs_mul, abs_of_pos pos]
  calc |(halfEven (q / 10 ^ e) : ℚ) - q / 10 ^ e| * 10 ^ e
      ≤ 1 / 2 * 10 ^ e := by gcongr; exact abs_halfEven_sub_le _
    _ = 10 ^ e / 2 := by ring

/-- A multiple of the grid is its own rounding. -/
theorem quantize_of_grid (e n : ℤ) : quantize halfEven e (n * 10 ^ e) = n * 10 ^ e := by
  have ne : (10 : ℚ) ^ e ≠ 0 := (ten_zpow_pos e).ne'
  unfold quantize
  rw [mul_div_cancel_right₀ _ ne, halfEven_intCast]

theorem quantize_neg (e : ℤ) (q : ℚ) : quantize halfEven e (-q) = -quantize halfEven e q := by
  unfold quantize
  rw [neg_div, halfEven_neg]
  push_cast
  ring

/-! ## Rounding to significant digits -/

/-- The exponent of the last of `p` significant digits of `q`. -/
def lastDigit (p : ℕ) (q : ℚ) : ℤ := Int.log 10 |q| - (p - 1)

/-- `q` rounded half-even to `p` significant digits. -/
def fl (p : ℕ) (q : ℚ) : ℚ := quantize halfEven (lastDigit p q) q

/-- The numbers that `p` digits and an exponent can write. -/
def Representable (p : ℕ) (q : ℚ) : Prop := ∃ m e : ℤ, |m| ≤ 10 ^ p ∧ q = m * 10 ^ e

@[simp]
theorem fl_zero (p : ℕ) : fl p 0 = 0 := by
  simp [fl, quantize]

theorem fl_neg (p : ℕ) (q : ℚ) : fl p (-q) = -fl p q := by
  have h : lastDigit p (-q) = lastDigit p q := by simp [lastDigit]
  rw [fl, h, quantize_neg, fl]

theorem abs_fl_sub_le (p : ℕ) (q : ℚ) : |fl p q - q| ≤ 10 ^ lastDigit p q / 2 :=
  abs_quantize_sub_le _ q

/-- A multiple of a coarser power of ten is on the grid too. -/
theorem quantize_of_coarser {e k : ℤ} (h : e ≤ k) (n : ℤ) :
    quantize halfEven e (n * 10 ^ k) = n * 10 ^ k := by
  obtain ⟨d, rfl⟩ := Int.le.dest h
  have grid : (n : ℚ) * 10 ^ (e + d) = ((n * 10 ^ d : ℤ) : ℚ) * 10 ^ e := by
    rw [zpow_add₀ (by norm_num)]
    push_cast
    rw [zpow_natCast]
    ring
  rw [grid, quantize_of_grid]

theorem quantize_zpow {e k : ℤ} (h : e ≤ k) : quantize halfEven e (10 ^ k) = 10 ^ k := by
  simpa using quantize_of_coarser h 1

/-- A positive number rounds between the powers of ten around it. -/
theorem fl_bounds {p : ℕ} (hp : 0 < p) {q : ℚ} (hq : 0 < q) :
    10 ^ Int.log 10 q ≤ fl p q ∧ fl p q ≤ 10 ^ (Int.log 10 q + 1) := by
  have habs : |q| = q := abs_of_pos hq
  have hlow : (10 : ℚ) ^ Int.log 10 q ≤ q := by
    exact_mod_cast Int.zpow_log_le_self (by norm_num : 1 < 10) hq
  have hhigh : q ≤ (10 : ℚ) ^ (Int.log 10 q + 1) := by
    exact_mod_cast (Int.lt_zpow_succ_log_self (by norm_num : 1 < 10) q).le
  have hdigit : lastDigit p q = Int.log 10 q - (p - 1) := by rw [lastDigit, habs]
  have mono := quantize_mono halfEven_monotone (lastDigit p q)
  constructor
  · calc (10 : ℚ) ^ Int.log 10 q
        = quantize halfEven (lastDigit p q) (10 ^ Int.log 10 q) :=
          (quantize_zpow (by omega)).symm
      _ ≤ fl p q := mono hlow
  · calc fl p q ≤ quantize halfEven (lastDigit p q) (10 ^ (Int.log 10 q + 1)) := mono hhigh
      _ = 10 ^ (Int.log 10 q + 1) := quantize_zpow (by omega)

theorem fl_nonneg (p : ℕ) {q : ℚ} (hq : 0 ≤ q) : 0 ≤ fl p q := by
  have h := quantize_mono halfEven_monotone (lastDigit p q) hq
  have hzero : quantize halfEven (lastDigit p q) 0 = 0 := by simp [quantize]
  rwa [hzero] at h

theorem fl_pos {p : ℕ} (hp : 0 < p) {q : ℚ} (hq : 0 < q) : 0 < fl p q :=
  lt_of_lt_of_le (ten_zpow_pos _) (fl_bounds hp hq).1

theorem fl_mono_pos {p : ℕ} (hp : 0 < p) {q r : ℚ} (hq : 0 < q) (h : q ≤ r) :
    fl p q ≤ fl p r := by
  have hr : 0 < r := lt_of_lt_of_le hq h
  rcases lt_or_eq_of_le (Int.log_mono_right (b := 10) hq h) with hlt | heq
  · -- a power of ten separates the two
    calc fl p q ≤ 10 ^ (Int.log 10 q + 1) := (fl_bounds hp hq).2
      _ ≤ 10 ^ Int.log 10 r := zpow_le_zpow_right₀ (by norm_num) (by omega)
      _ ≤ fl p r := (fl_bounds hp hr).1
  · have hdigit : lastDigit p q = lastDigit p r := by
      rw [lastDigit, lastDigit, abs_of_pos hq, abs_of_pos hr, heq]
    rw [fl, fl, hdigit]
    exact quantize_mono halfEven_monotone _ h

/-- **Monotonicity.** Rounding never reverses an order. -/
theorem fl_mono {p : ℕ} (hp : 0 < p) : Monotone (fl p) := by
  intro q r h
  rcases lt_trichotomy q 0 with hq | rfl | hq
  · rcases lt_or_ge r 0 with hr | hr
    · have hneg := fl_mono_pos hp (neg_pos.mpr hr) (neg_le_neg h)
      rw [fl_neg, fl_neg] at hneg
      exact neg_le_neg_iff.mp hneg
    · have hq' := fl_nonneg p (neg_nonneg.mpr hq.le)
      rw [fl_neg] at hq'
      have hr' := fl_nonneg p hr
      linarith
  · simpa using fl_nonneg p h
  · exact fl_mono_pos hp hq h

/-! ## Representable numbers -/

theorem representable_neg {p : ℕ} {q : ℚ} (h : Representable p q) : Representable p (-q) := by
  obtain ⟨m, e, bound, rfl⟩ := h
  exact ⟨-m, e, by rwa [abs_neg], by push_cast; ring⟩

theorem representable_fl_pos {p : ℕ} (hp : 0 < p) {q : ℚ} (hq : 0 < q) :
    Representable p (fl p q) := by
  refine ⟨halfEven (q / 10 ^ lastDigit p q), lastDigit p q, ?_, rfl⟩
  have pos := ten_zpow_pos (lastDigit p q)
  have hdigit : Int.log 10 q + 1 = lastDigit p q + p := by
    rw [lastDigit, abs_of_pos hq]
    ring
  have upper : ((halfEven (q / 10 ^ lastDigit p q) : ℤ) : ℚ) ≤ 10 ^ p := by
    have h := (fl_bounds hp hq).2
    rw [hdigit, zpow_add₀ (by norm_num), zpow_natCast, mul_comm] at h
    exact le_of_mul_le_mul_right h pos
  have lower : 0 ≤ halfEven (q / 10 ^ lastDigit p q) := by
    simpa using halfEven_mono (div_nonneg hq.le pos.le)
  rw [abs_of_nonneg lower]
  exact_mod_cast upper

/-- Every rounded number is representable. -/
theorem representable_fl {p : ℕ} (hp : 0 < p) (q : ℚ) : Representable p (fl p q) := by
  rcases lt_trichotomy q 0 with hq | rfl | hq
  · have h := representable_neg (representable_fl_pos hp (neg_pos.mpr hq))
    rwa [fl_neg, neg_neg] at h
  · exact ⟨0, 0, by simp, by simp⟩
  · exact representable_fl_pos hp hq

/-- **Exactness.** A representable number is its own rounding. -/
theorem fl_of_representable {p : ℕ} (hp : 0 < p) {q : ℚ} (h : Representable p q) :
    fl p q = q := by
  obtain ⟨m, e, bound, rfl⟩ := h
  rcases eq_or_ne m 0 with rfl | hm
  · simp
  have pos := ten_zpow_pos e
  have hm' : (0 : ℚ) < |(m : ℚ)| := abs_pos.mpr (by exact_mod_cast hm)
  have habs : |(m : ℚ) * 10 ^ e| = |(m : ℚ)| * 10 ^ e := by rw [abs_mul, abs_of_pos pos]
  have hq : 0 < |(m : ℚ) * 10 ^ e| := by rw [habs]; exact mul_pos hm' pos
  unfold fl
  rcases lt_or_eq_of_le bound with hlt | heq
  · apply quantize_of_coarser
    have below : |(m : ℚ) * 10 ^ e| < ((10 : ℕ) : ℚ) ^ (p + e : ℤ) := by
      rw [habs, zpow_add₀ (by norm_num), zpow_natCast]
      have : |(m : ℚ)| < ((10 : ℕ) : ℚ) ^ p := by exact_mod_cast hlt
      push_cast at this ⊢
      gcongr
    have hlog := (Int.lt_zpow_iff_log_lt (by norm_num : 1 < 10) hq).mp below
    unfold lastDigit
    omega
  · -- the one coefficient of `p + 1` digits is a power of ten
    have value : |(m : ℚ) * 10 ^ e| = ((10 : ℕ) : ℚ) ^ (p + e : ℤ) := by
      rw [habs, zpow_add₀ (by norm_num), zpow_natCast]
      have : |(m : ℚ)| = ((10 : ℕ) : ℚ) ^ p := by exact_mod_cast heq
      rw [this]
      push_cast
      ring
    have hlog : Int.log 10 |(m : ℚ) * 10 ^ e| = p + e := by
      rw [value, Int.log_zpow (by norm_num)]
    have sign : (m : ℚ) * 10 ^ e = ((Int.sign m : ℤ) : ℚ) * 10 ^ (p + e : ℤ) := by
      have hsign : m = Int.sign m * 10 ^ p := by rw [← heq]; exact (Int.sign_mul_abs m).symm
      rw [zpow_add₀ (by norm_num), zpow_natCast, ← mul_assoc]
      congr 1
      exact_mod_cast hsign
    have digit : lastDigit p ((m : ℚ) * 10 ^ e) = e + 1 := by
      unfold lastDigit
      rw [hlog]
      ring
    rw [digit, sign]
    exact quantize_of_coarser (by omega) _

@[simp]
theorem fl_fl {p : ℕ} (hp : 0 < p) (q : ℚ) : fl p (fl p q) = fl p q :=
  fl_of_representable hp (representable_fl hp q)

/-- Rounding keeps the sign. -/
theorem fl_nonpos_iff {p : ℕ} (hp : 0 < p) {q : ℚ} : fl p q ≤ 0 ↔ q ≤ 0 := by
  constructor
  · intro h
    by_contra positive
    exact absurd h (not_le.mpr (fl_pos hp (not_le.mp positive)))
  · intro h
    simpa using fl_mono hp h

theorem fl_nonneg_iff {p : ℕ} (hp : 0 < p) {q : ℚ} : 0 ≤ fl p q ↔ 0 ≤ q := by
  have := fl_nonpos_iff (q := -q) hp
  rw [fl_neg] at this
  simpa using this

theorem fl_ne_zero {p : ℕ} (hp : 0 < p) {q : ℚ} (hq : q ≠ 0) : fl p q ≠ 0 := by
  intro zero
  rcases lt_or_gt_of_ne hq with neg | pos
  · exact absurd ((fl_nonneg_iff hp).mp zero.ge) (not_le.mpr neg)
  · exact absurd ((fl_nonpos_iff hp).mp zero.le) (not_le.mpr pos)

/-! ## The operations of a context -/

/-- Decimal addition at precision `p`. -/
def add (p : ℕ) (a b : ℚ) : ℚ := fl p (a + b)

/-- Decimal subtraction at precision `p`. -/
def sub (p : ℕ) (a b : ℚ) : ℚ := fl p (a - b)

/-- Decimal multiplication at precision `p`. -/
def mul (p : ℕ) (a b : ℚ) : ℚ := fl p (a * b)

/-- Decimal division at precision `p`. -/
def div (p : ℕ) (a b : ℚ) : ℚ := fl p (a / b)

/-- The absolute value, an operation that rounds as the others do. -/
def abs (p : ℕ) (a : ℚ) : ℚ := fl p |a|

/-- A sum from the left, each partial sum rounded. -/
def sum (p : ℕ) (xs : List ℚ) : ℚ := xs.foldl (add p) 0

/-- **Sums on a grid are exact** while their absolute total fits the digits. -/
theorem foldl_add_of_grid {p : ℕ} (hp : 0 < p) {e : ℤ} {xs : List ℚ} {a : ℚ}
    (ha : ∃ n : ℤ, a = n * 10 ^ e) (hxs : ∀ x ∈ xs, ∃ n : ℤ, x = n * 10 ^ e)
    (hsize : |a| + (xs.map (|·|)).sum ≤ 10 ^ p * 10 ^ e) :
    xs.foldl (add p) a = a + xs.sum := by
  induction xs generalizing a with
  | nil => simp
  | cons x xs ih =>
    have pos := ten_zpow_pos e
    obtain ⟨n, rfl⟩ := ha
    obtain ⟨m, rfl⟩ := hxs x (by simp)
    rw [List.map_cons, List.sum_cons] at hsize
    have htail : 0 ≤ (xs.map (|·|)).sum := by
      apply List.sum_nonneg
      intro y hy
      obtain ⟨z, _, rfl⟩ := List.mem_map.mp hy
      exact abs_nonneg z
    have hsum : (n : ℚ) * 10 ^ e + m * 10 ^ e = ((n + m : ℤ) : ℚ) * 10 ^ e := by
      push_cast
      ring
    have htriangle := abs_add_le ((n : ℚ) * 10 ^ e) (m * 10 ^ e)
    have hcoefficient : |n + m| ≤ 10 ^ p := by
      have h : |((n + m : ℤ) : ℚ)| * 10 ^ e ≤ 10 ^ p * 10 ^ e := by
        rw [← abs_of_pos pos, ← abs_mul, abs_of_pos pos, ← hsum]
        linarith
      have h' := le_of_mul_le_mul_right h pos
      exact_mod_cast h'
    have hadd : add p ((n : ℚ) * 10 ^ e) (m * 10 ^ e) = n * 10 ^ e + m * 10 ^ e := by
      unfold add
      rw [hsum]
      exact fl_of_representable hp ⟨n + m, e, hcoefficient, rfl⟩
    rw [List.foldl_cons, hadd, List.sum_cons, ih]
    · ring
    · exact ⟨n + m, hsum⟩
    · intro y hy
      exact hxs y (by simp [hy])
    · linarith

theorem abs_sub_of_le {p : ℕ} (hp : 0 < p) {a b : ℚ} (h : a ≤ b) :
    abs p (sub p b a) = sub p b a := by
  unfold abs sub
  rw [abs_of_nonneg (fl_nonneg p (sub_nonneg.mpr h)), fl_fl hp]

theorem abs_sub_comm {p : ℕ} (a b : ℚ) : abs p (sub p a b) = abs p (sub p b a) := by
  unfold abs sub
  rw [← neg_sub b a, fl_neg, abs_neg]

theorem sub_le_sub {p : ℕ} (hp : 0 < p) {a b c d : ℚ} (hab : a ≤ b) (hcd : c ≤ d) :
    sub p a d ≤ sub p b c :=
  fl_mono hp (by linarith)

end Rounding
