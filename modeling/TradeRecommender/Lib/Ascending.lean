import Mathlib.Data.Int.Notation
import Mathlib.Data.Int.Order.Basic
import Mathlib.Data.List.Pairwise
import Mathlib.Tactic.Linarith
import Mathlib.Tactic.Ring

/-!
# Lists in the order of a key

Two parts of a list of which one lies below the other, and how many elements fit between two keys.
-/

namespace Ascending

variable {α : Type} {key : α → ℤ} {xs : List α}

/-- A part of a list, and a part above it, are the part of both. -/
theorem filter_append_filter {p q : α → Bool} (increasing : xs.Pairwise fun x y => key x < key y)
    (below : ∀ x ∈ xs, ∀ y ∈ xs, p x = true → q y = true → key x < key y) :
    xs.filter p ++ xs.filter q = xs.filter fun x => p x || q x := by
  induction xs with
  | nil => rfl
  | cons x xs ih =>
    obtain ⟨above, increasing⟩ := List.pairwise_cons.mp increasing
    have tail := ih increasing fun y hy z hz =>
      below y (List.mem_cons_of_mem _ hy) z (List.mem_cons_of_mem _ hz)
    by_cases hp : p x = true
    · have hq : q x ≠ true := fun hq =>
        lt_irrefl _ (below x List.mem_cons_self x List.mem_cons_self hp hq)
      rw [List.filter_cons_of_pos hp, List.filter_cons_of_neg hq,
        List.filter_cons_of_pos (by rw [hp, Bool.true_or]), List.cons_append, tail]
    · by_cases hq : q x = true
      · -- nothing of the lower part lies behind an element of the upper one
        have none_ : xs.filter p = [] := by
          rw [List.filter_eq_nil_iff]
          intro y hy hp'
          have := below y (List.mem_cons_of_mem _ hy) x List.mem_cons_self hp' hq
          linarith [above y hy]
        have either : (p x || q x) = true := by rw [hq, Bool.or_true]
        rw [none_, List.nil_append] at tail
        rw [List.filter_cons_of_neg hp, none_, List.nil_append, List.filter_cons_of_pos hq, tail,
          List.filter_cons, if_pos either]
      · have neither : ¬ (p x || q x) = true := by simp [hp, hq]
        rw [List.filter_cons_of_neg hp, List.filter_cons_of_neg hq, tail, List.filter_cons,
          if_neg neither]

/-- Keys a step apart, of which no more than a number fit between two bounds. -/
theorem length_le_of_spaced {step : ℤ} {n : ℕ} (low : ℤ)
    (spaced : xs.Pairwise fun x y => key x + step ≤ key y) (above : ∀ x ∈ xs, low ≤ key x)
    (below : ∀ x ∈ xs, key x < low + n * step) : xs.length ≤ n := by
  induction xs generalizing n low with
  | nil => exact Nat.zero_le _
  | cons x xs ih =>
    obtain ⟨apart, spaced⟩ := List.pairwise_cons.mp spaced
    have first := above x List.mem_cons_self
    have last := below x List.mem_cons_self
    cases n with
    | zero =>
      rw [Nat.cast_zero, zero_mul] at last
      linarith
    | succ n =>
      refine Nat.succ_le_succ (ih (low + step) spaced (fun y hy => ?_) fun y hy => ?_)
      · linarith [apart y hy]
      · have bound := below y (List.mem_cons_of_mem _ hy)
        push_cast at bound
        linarith

variable (key) in
/-- The last element has the greatest key. -/
theorem le_getLast {x last : α} (increasing : xs.Pairwise fun x y => key x < key y)
    (h : xs.getLast? = some last) (mem : x ∈ xs) : key x ≤ key last := by
  obtain ⟨front, rfl⟩ := List.getLast?_eq_some_iff.mp h
  rcases List.mem_append.mp mem with mem | mem
  · exact ((List.pairwise_append.mp increasing).2.2 x mem last (List.mem_singleton_self last)).le
  · rw [List.mem_singleton.mp mem]

end Ascending
