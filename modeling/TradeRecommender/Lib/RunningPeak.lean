import Mathlib.Data.List.Basic
import Mathlib.Order.MinMax

/-!
# Running peaks

The values of a series, each with the greatest so far, and the greatest of a list from a first
value on.
-/

namespace RunningPeak

variable {α : Type} [LinearOrder α]

/-- Each value behind the greatest of a first one and those up to it. -/
def marks (peak : α) : List α → List (α × α)
  | [] => []
  | x :: xs => (max peak x, x) :: marks (max peak x) xs

/-- The greatest of a first value and a list. -/
def greatest (first : α) (xs : List α) : α := xs.foldl max first

variable {peak first : α} {xs : List α}

/-- A peak lies at or above the first one and the value it belongs to. -/
theorem le_of_mem_marks {mark : α × α} (mem : mark ∈ marks peak xs) :
    peak ≤ mark.1 ∧ mark.2 ≤ mark.1 ∧ mark.2 ∈ xs := by
  induction xs generalizing peak with
  | nil => cases mem
  | cons x xs ih =>
    rcases List.mem_cons.mp mem with rfl | mem
    · exact ⟨le_max_left _ _, le_max_right _ _, List.mem_cons_self⟩
    · obtain ⟨above, below, member⟩ := ih mem
      exact ⟨(le_max_left _ _).trans above, below, List.mem_cons_of_mem _ member⟩

/-- A peak is the first one or a value. -/
theorem peak_mem_of_mem_marks {mark : α × α} (mem : mark ∈ marks peak xs) :
    mark.1 ∈ peak :: xs := by
  induction xs generalizing peak with
  | nil => cases mem
  | cons x xs ih =>
    have choice : max peak x ∈ peak :: x :: xs := by
      rcases max_choice peak x with h | h <;> rw [h]
      · exact List.mem_cons_self
      · exact List.mem_cons_of_mem _ List.mem_cons_self
    rcases List.mem_cons.mp mem with rfl | mem
    · exact choice
    · rcases List.mem_cons.mp (ih mem) with same | mem
      · rw [same]
        exact choice
      · exact List.mem_cons_of_mem _ (List.mem_cons_of_mem _ mem)

/-- Behind a value, the peak lies at or above it. -/
theorem exists_mark_behind {first last between : List α} {x y : α}
    (h : xs = first ++ x :: between ++ y :: last) : ∃ p, (p, y) ∈ marks peak xs ∧ x ≤ p := by
  subst h
  have behind : ∀ (between : List α) (peak : α), x ≤ peak →
      ∃ p, (p, y) ∈ marks peak (between ++ y :: last) ∧ x ≤ p := by
    intro between
    induction between with
    | nil =>
      intro peak above
      exact ⟨max peak y, List.mem_cons_self, above.trans (le_max_left _ _)⟩
    | cons z between ih =>
      intro peak above
      obtain ⟨p, mem, above⟩ := ih (max peak z) (above.trans (le_max_left _ _))
      exact ⟨p, List.mem_cons_of_mem _ mem, above⟩
  induction first generalizing peak with
  | nil =>
    obtain ⟨p, mem, above⟩ := behind between (max peak x) (le_max_right _ _)
    exact ⟨p, List.mem_cons_of_mem _ mem, above⟩
  | cons z first ih =>
    obtain ⟨p, mem, above⟩ : ∃ p, (p, y) ∈ marks (max peak z)
        (first ++ x :: between ++ y :: last) ∧ x ≤ p := ih
    exact ⟨p, List.mem_cons_of_mem _ mem, above⟩

theorem marks_ne_nil (h : xs ≠ []) : marks peak xs ≠ [] := by
  cases xs with
  | nil => exact absurd rfl h
  | cons x xs => exact List.cons_ne_nil _ _

theorem greatest_cons (x : α) : greatest first (x :: xs) = greatest (max first x) xs := rfl

theorem le_greatest {x : α} (mem : x ∈ first :: xs) : x ≤ greatest first xs := by
  induction xs generalizing first x with
  | nil =>
    rw [List.mem_singleton.mp mem]
    exact le_refl _
  | cons y xs ih =>
    rw [greatest_cons]
    have next : max first y ≤ greatest (max first y) xs := ih List.mem_cons_self
    rcases List.mem_cons.mp mem with rfl | mem
    · exact (le_max_left _ _).trans next
    · rcases List.mem_cons.mp mem with rfl | mem
      · exact (le_max_right _ _).trans next
      · exact ih (List.mem_cons_of_mem _ mem)

theorem greatest_mem : greatest first xs ∈ first :: xs := by
  induction xs generalizing first with
  | nil => exact List.mem_singleton.mpr rfl
  | cons y xs ih =>
    rw [greatest_cons]
    rcases List.mem_cons.mp ih with same | mem
    · rw [same]
      rcases max_choice first y with h | h <;> rw [h]
      · exact List.mem_cons_self
      · exact List.mem_cons_of_mem _ List.mem_cons_self
    · exact List.mem_cons_of_mem _ (List.mem_cons_of_mem _ mem)

/-- Where no value lies below the first, the greatest is one of them. -/
theorem greatest_mem_of_le (nonempty : xs ≠ []) (low : ∀ x ∈ xs, first ≤ x) :
    greatest first xs ∈ xs := by
  rcases List.mem_cons.mp (greatest_mem : greatest first xs ∈ first :: xs) with same | mem
  · obtain ⟨x, mem⟩ := List.exists_mem_of_ne_nil xs nonempty
    have bound : x ≤ first := by
      rw [← same]
      exact le_greatest (List.mem_cons_of_mem _ mem)
    rw [same, le_antisymm (low x mem) bound]
    exact mem
  · exact mem

end RunningPeak
