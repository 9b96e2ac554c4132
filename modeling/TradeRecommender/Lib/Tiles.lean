import Mathlib.Data.Int.Order.Basic
import Mathlib.Data.List.Basic
import Mathlib.Tactic.Linarith
import Mathlib.Tactic.Ring

/-!
# Tiled intervals

A half-open interval cut into tiles of one length, the last one shorter, and an increasing list read
tile by tile.
-/

namespace Tiles

/-- The tiles of the interval from a start to an end; the fuel bounds their number. -/
def tilesFrom (step finish : ℤ) : ℕ → ℤ → List (ℤ × ℤ)
  | 0, _ => []
  | fuel + 1, start =>
    if start < finish then
      (start, min (start + step) finish) :: tilesFrom step finish fuel (min (start + step) finish)
    else []

/-- The tiles of an interval. -/
def tiles (step start finish : ℤ) : List (ℤ × ℤ) :=
  tilesFrom step finish (((finish - start) / step).toNat + 1) start

section
variable {α : Type} {key : α → ℤ} {xs : List α}

/-- The elements with a key in the half-open interval. -/
def within (key : α → ℤ) (xs : List α) (start finish : ℤ) : List α :=
  xs.filter fun x => start ≤ key x ∧ key x < finish

theorem mem_within {x : α} {start finish : ℤ} :
    x ∈ within key xs start finish ↔ x ∈ xs ∧ start ≤ key x ∧ key x < finish := by
  rw [within, List.mem_filter, decide_eq_true_eq]

theorem within_empty {start finish : ℤ} (h : finish ≤ start) : within key xs start finish = [] := by
  refine List.eq_nil_iff_forall_not_mem.mpr fun x hx => ?_
  have := mem_within.mp hx
  omega

/-- An increasing list meets an interval in its first part and then in its second. -/
theorem within_append (increasing : xs.Pairwise fun x y => key x < key y) {start mid finish : ℤ}
    (first : start ≤ mid) (second : mid ≤ finish) :
    within key xs start mid ++ within key xs mid finish = within key xs start finish := by
  induction xs with
  | nil => rfl
  | cons x xs ih =>
    obtain ⟨above, increasing⟩ := List.pairwise_cons.mp increasing
    have rest := ih increasing
    simp only [within, List.filter_cons] at rest ⊢
    by_cases early : key x < mid
    · by_cases late : start ≤ key x
      · rw [if_pos (by simpa using ⟨late, early⟩), if_neg (by simp; omega),
          if_pos (by simp; omega), List.cons_append, rest]
      · rw [if_neg (by simp; omega), if_neg (by simp; omega), if_neg (by simp; omega), rest]
    · -- from here on every key lies behind the middle
      have none : xs.filter (fun y => decide (start ≤ key y ∧ key y < mid)) = [] := by
        refine List.filter_eq_nil_iff.mpr fun y hy h => ?_
        have := of_decide_eq_true h
        have := above y hy
        omega
      rw [none, List.nil_append] at rest
      rw [if_neg (by simp; omega), none, List.nil_append]
      by_cases inside : key x < finish
      · rw [if_pos (by simp; omega), if_pos (by simp; omega), rest]
      · rw [if_neg (by simp; omega), if_neg (by simp; omega), rest]

theorem flatMap_tilesFrom (increasing : xs.Pairwise fun x y => key x < key y) {step finish : ℤ}
    (positive : 0 < step) (fuel : ℕ) (start : ℤ) (enough : finish ≤ start + fuel * step) :
    (tilesFrom step finish fuel start).flatMap (fun tile => within key xs tile.1 tile.2) =
      within key xs start finish := by
  induction fuel generalizing start with
  | zero =>
    rw [Nat.cast_zero, zero_mul, add_zero] at enough
    rw [within_empty enough]
    rfl
  | succ fuel ih =>
    rw [tilesFrom]
    by_cases open_ : start < finish
    · rw [if_pos open_, List.flatMap_cons]
      have stop : start ≤ min (start + step) finish := le_min (by linarith) open_.le
      have reach : finish ≤ min (start + step) finish + fuel * step := by
        push_cast at enough
        have : 0 ≤ (fuel : ℤ) * step := mul_nonneg (Int.natCast_nonneg _) positive.le
        rcases min_choice (start + step) finish with h | h <;> rw [h] <;> linarith
      rw [ih _ reach]
      exact within_append increasing stop (min_le_right _ _)
    · rw [if_neg open_, within_empty (not_lt.mp open_)]
      rfl

/-- Read tile by tile, an increasing list gives its part in the interval. -/
theorem flatMap_tiles (increasing : xs.Pairwise fun x y => key x < key y) {step : ℤ}
    (positive : 0 < step) (start finish : ℤ) :
    (tiles step start finish).flatMap (fun tile => within key xs tile.1 tile.2) =
      within key xs start finish := by
  refine flatMap_tilesFrom increasing positive _ start ?_
  have division := Int.mul_ediv_add_emod (finish - start) step
  have rest := Int.emod_lt_of_pos (finish - start) positive
  have whole : (finish - start) / step ≤ (((finish - start) / step).toNat : ℤ) :=
    Int.self_le_toNat _
  have scaled := mul_le_mul_of_nonneg_right whole positive.le
  push_cast
  linarith

end

/-- A tile lies in its interval, starts a number of steps behind the start and is not empty. -/
theorem mem_tilesFrom {step finish : ℤ} (positive : 0 < step) {fuel : ℕ} {start : ℤ}
    {tile : ℤ × ℤ} (mem : tile ∈ tilesFrom step finish fuel start) :
    (∃ n : ℕ, tile.1 = start + n * step) ∧ tile.1 < tile.2 ∧ tile.2 ≤ finish := by
  induction fuel generalizing start with
  | zero => cases mem
  | succ fuel ih =>
    rw [tilesFrom] at mem
    by_cases open_ : start < finish
    · rw [if_pos open_] at mem
      rcases List.mem_cons.mp mem with rfl | mem
      · exact ⟨⟨0, by simp⟩, lt_min (by linarith) open_, min_le_right _ _⟩
      · obtain ⟨⟨n, at_⟩, nonempty, inside⟩ := ih mem
        refine ⟨?_, nonempty, inside⟩
        rcases le_total (start + step) finish with short | long
        · rw [min_eq_left short] at at_
          exact ⟨n + 1, by rw [at_]; push_cast; ring⟩
        · -- behind the last tile there is none
          have := Int.natCast_nonneg n
          have : 0 ≤ (n : ℤ) * step := mul_nonneg this positive.le
          rw [min_eq_right long] at at_
          exact absurd (nonempty.trans_le inside) (by rw [at_]; linarith)
    · rw [if_neg open_] at mem
      cases mem

theorem mem_tiles {step start finish : ℤ} (positive : 0 < step) {tile : ℤ × ℤ}
    (mem : tile ∈ tiles step start finish) :
    (∃ n : ℕ, tile.1 = start + n * step) ∧ tile.1 < tile.2 ∧ tile.2 ≤ finish :=
  mem_tilesFrom positive mem

end Tiles
