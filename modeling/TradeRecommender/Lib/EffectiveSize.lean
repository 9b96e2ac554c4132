import Mathlib.Algebra.BigOperators.Group.List.Basic
import Mathlib.Algebra.Order.Field.Rat
import Mathlib.Tactic.FieldSimp
import Mathlib.Tactic.GCongr
import Mathlib.Tactic.Linarith
import Mathlib.Tactic.Positivity

/-!
# Effective sizes

The effective number of observations in clusters of given sizes: the square of their number over
the sum of the squared sizes. It is one for a single cluster, the number of observations where
every cluster is of one, and no smaller where the clusters are split.
-/

namespace EffectiveSize

/-- The sum of the squared sizes. -/
def squares (sizes : List ℕ) : ℕ := (sizes.map fun size => size * size).sum

/-- The effective size, zero for no observations. -/
def kish (sizes : List ℕ) : ℚ :=
  if squares sizes = 0 then 0 else ((sizes.sum * sizes.sum : ℕ) : ℚ) / (squares sizes : ℕ)

variable {sizes : List ℕ} {groups : List (List ℕ)}

theorem squares_cons {size : ℕ} : squares (size :: sizes) = size * size + squares sizes := by
  unfold squares
  rw [List.map_cons, List.sum_cons]

theorem squares_append {sizes' : List ℕ} :
    squares (sizes ++ sizes') = squares sizes + squares sizes' := by
  unfold squares
  rw [List.map_append, List.sum_append]

theorem squares_perm {sizes' : List ℕ} (perm : sizes.Perm sizes') :
    squares sizes = squares sizes' :=
  (perm.map _).sum_eq

theorem squares_le (sizes : List ℕ) : squares sizes ≤ sizes.sum * sizes.sum := by
  induction sizes with
  | nil => exact Nat.le_refl _
  | cons size sizes ih =>
    rw [squares_cons, List.sum_cons]
    nlinarith [Nat.zero_le (size * sizes.sum)]

theorem sum_le_squares (sizes : List ℕ) : sizes.sum ≤ squares sizes := by
  induction sizes with
  | nil => exact Nat.le_refl _
  | cons size sizes ih =>
    rw [squares_cons, List.sum_cons]
    exact Nat.add_le_add (Nat.le_mul_self size) ih

/-- Splitting clusters leaves a smaller sum of squares. -/
theorem squares_flatten_le (groups : List (List ℕ)) :
    squares groups.flatten ≤ squares (groups.map List.sum) := by
  induction groups with
  | nil => exact Nat.le_refl _
  | cons group groups ih =>
    rw [List.flatten_cons, squares_append, List.map_cons, squares_cons]
    exact Nat.add_le_add (squares_le group) ih

theorem squares_pos (some_ : 0 < sizes.sum) : 0 < squares sizes :=
  Nat.lt_of_lt_of_le some_ (sum_le_squares sizes)

theorem kish_of_pos (some_ : 0 < sizes.sum) :
    kish sizes = ((sizes.sum * sizes.sum : ℕ) : ℚ) / (squares sizes : ℕ) :=
  if_neg (Nat.ne_of_gt (squares_pos some_))

theorem kish_perm {sizes' : List ℕ} (perm : sizes.Perm sizes') : kish sizes = kish sizes' := by
  unfold kish
  rw [squares_perm perm, perm.sum_eq]

/-- The effective size is at least one. -/
theorem one_le_kish (some_ : 0 < sizes.sum) : 1 ≤ kish sizes := by
  have positive : (0 : ℚ) < (squares sizes : ℕ) := Nat.cast_pos.mpr (squares_pos some_)
  rw [kish_of_pos some_, one_le_div positive]
  exact_mod_cast squares_le sizes

/-- The effective size is at most the number of observations. -/
theorem kish_le_sum (some_ : 0 < sizes.sum) : kish sizes ≤ (sizes.sum : ℕ) := by
  have positive : (0 : ℚ) < (squares sizes : ℕ) := Nat.cast_pos.mpr (squares_pos some_)
  rw [kish_of_pos some_, div_le_iff₀ positive]
  exact_mod_cast Nat.mul_le_mul_left sizes.sum (sum_le_squares sizes)

/-- **Splitting clusters** makes the effective size no smaller. -/
theorem kish_le_flatten (some_ : 0 < groups.flatten.sum) :
    kish (groups.map List.sum) ≤ kish groups.flatten := by
  have whole : (groups.map List.sum).sum = groups.flatten.sum := List.sum_flatten.symm
  have positive : (0 : ℚ) < (squares groups.flatten : ℕ) := Nat.cast_pos.mpr (squares_pos some_)
  rw [kish_of_pos some_, kish_of_pos (whole ▸ some_), whole]
  refine div_le_div_of_nonneg_left (Nat.cast_nonneg _) positive ?_
  exact_mod_cast squares_flatten_le groups

end EffectiveSize
