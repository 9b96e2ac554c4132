import Mathlib.Data.List.Sort
import Mathlib.Order.Basic

/-!
# Bisection

Insertion points in an ascending list. `left xs x` is the number of rows before `x`, `right xs x`
the number of rows at or before it; the parts of the list on either side are filters of it.
-/

namespace Bisect

variable {α : Type} [LinearOrder α]

def left (xs : List α) (x : α) : ℕ := (xs.takeWhile (· < x)).length

def right (xs : List α) (x : α) : ℕ := (xs.takeWhile (· ≤ x)).length

/-! ## Cutting an ascending list -/

/-- A predicate that holds of everything below whatever it holds of. -/
def DownClosed (p : α → Bool) : Prop := ∀ a b, a ≤ b → p b = true → p a = true

theorem downClosed_lt (x : α) : DownClosed fun a => decide (a < x) := by
  intro a b hab hb
  simp only [decide_eq_true_eq] at hb ⊢
  exact lt_of_le_of_lt hab hb

theorem downClosed_le (x : α) : DownClosed fun a => decide (a ≤ x) := by
  intro a b hab hb
  simp only [decide_eq_true_eq] at hb ⊢
  exact hab.trans hb

theorem takeWhile_eq_filter {p : α → Bool} (hp : DownClosed p) {xs : List α}
    (h : xs.Pairwise (· ≤ ·)) : xs.takeWhile p = xs.filter p := by
  induction xs with
  | nil => rfl
  | cons x xs ih =>
    have hrest := ih h.tail
    by_cases hx : p x = true
    · rw [List.takeWhile_cons_of_pos hx, List.filter_cons_of_pos hx, hrest]
    · have hnone : xs.filter p = [] := by
        rw [List.filter_eq_nil_iff]
        intro y hy hpy
        exact hx (hp x y (List.rel_of_pairwise_cons h hy) hpy)
      rw [List.takeWhile_cons_of_neg hx, List.filter_cons_of_neg hx, hnone]

theorem dropWhile_eq_filter {p : α → Bool} (hp : DownClosed p) {xs : List α}
    (h : xs.Pairwise (· ≤ ·)) : xs.dropWhile p = xs.filter fun x => !p x := by
  induction xs with
  | nil => rfl
  | cons x xs ih =>
    have hrest := ih h.tail
    by_cases hx : p x = true
    · rw [List.dropWhile_cons_of_pos hx, List.filter_cons_of_neg (by simp [hx]), hrest]
    · have hall : (x :: xs).filter (fun y => !p y) = x :: xs := by
        rw [List.filter_eq_self]
        intro y hy
        rcases List.mem_cons.mp hy with rfl | hy
        · simpa using hx
        · have : ¬ p y = true := fun hpy => hx (hp x y (List.rel_of_pairwise_cons h hy) hpy)
          simpa using this
      rw [List.dropWhile_cons_of_neg hx, hall]

omit [LinearOrder α] in
theorem take_length_takeWhile (p : α → Bool) (xs : List α) :
    xs.take (xs.takeWhile p).length = xs.takeWhile p := by
  have split := List.takeWhile_append_dropWhile (p := p) (l := xs)
  calc xs.take (xs.takeWhile p).length
      = (xs.takeWhile p ++ xs.dropWhile p).take (xs.takeWhile p).length := by rw [split]
    _ = xs.takeWhile p := List.take_left

omit [LinearOrder α] in
theorem drop_length_takeWhile (p : α → Bool) (xs : List α) :
    xs.drop (xs.takeWhile p).length = xs.dropWhile p := by
  have split := List.takeWhile_append_dropWhile (p := p) (l := xs)
  calc xs.drop (xs.takeWhile p).length
      = (xs.takeWhile p ++ xs.dropWhile p).drop (xs.takeWhile p).length := by rw [split]
    _ = xs.dropWhile p := List.drop_left

/-- **The rows between two cuts** are those past the first predicate and inside the second. -/
theorem take_drop_between {p q : α → Bool} (hp : DownClosed p) (hq : DownClosed q)
    (hpq : ∀ x, p x = true → q x = true) {xs : List α} (h : xs.Pairwise (· ≤ ·)) :
    (xs.drop (xs.takeWhile p).length).take ((xs.takeWhile q).length - (xs.takeWhile p).length) =
      xs.filter fun x => !p x && q x := by
  have hinside : xs.take (xs.takeWhile q).length = xs.filter q := by
    rw [take_length_takeWhile, takeWhile_eq_filter hq h]
  have hsorted : (xs.filter q).Pairwise (· ≤ ·) := h.sublist List.filter_sublist
  have hcut : ((xs.filter q).takeWhile p).length = (xs.takeWhile p).length := by
    rw [takeWhile_eq_filter hp hsorted, takeWhile_eq_filter hp h, List.filter_filter]
    congr 1
    apply List.filter_congr
    intro x _
    by_cases hx : p x = true
    · simp [hx, hpq x hx]
    · simp [hx]
  rw [← List.drop_take, hinside, ← hcut, drop_length_takeWhile, dropWhile_eq_filter hp hsorted,
    List.filter_filter]

theorem drop_left {xs : List α} (h : xs.Pairwise (· ≤ ·)) (x : α) :
    xs.drop (left xs x) = xs.filter fun y => !decide (y < x) := by
  rw [left, drop_length_takeWhile, dropWhile_eq_filter (downClosed_lt x) h]

theorem drop_right {xs : List α} (h : xs.Pairwise (· ≤ ·)) (x : α) :
    xs.drop (right xs x) = xs.filter fun y => !decide (y ≤ x) := by
  rw [right, drop_length_takeWhile, dropWhile_eq_filter (downClosed_le x) h]

/-- The row before a left insertion point comes before the value. -/
theorem lt_of_getElem?_left {xs : List α} (x : α) {i : ℕ} {y : α} (hi : i < left xs x)
    (hy : xs[i]? = some y) : y < x := by
  have hmem : y ∈ xs.takeWhile (· < x) := by
    rw [← take_length_takeWhile]
    apply List.mem_of_getElem? (i := i)
    unfold left at hi
    rw [List.getElem?_take_of_lt hi, hy]
  have hall := List.all_takeWhile (l := xs) (p := fun a => decide (a < x))
  rw [List.all_eq_true] at hall
  simpa using hall y hmem

/-- In an ascending list a row is found at its place after the rows that exceed it are dropped. -/
theorem getElem?_filter_le {xs : List α} (h : xs.Pairwise (· ≤ ·)) {i : ℕ} {x y : α}
    (hy : xs[i]? = some y) (hle : y ≤ x) : (xs.filter (· ≤ x))[i]? = some y := by
  rw [← takeWhile_eq_filter (downClosed_le x) h]
  have split := List.takeWhile_append_dropWhile (p := fun a => decide (a ≤ x)) (l := xs)
  rcases lt_or_ge i (xs.takeWhile (· ≤ x)).length with hi | hi
  · rw [← hy, ← List.getElem?_append_left hi, split]
  · exfalso
    rw [← split, List.getElem?_append_right hi, dropWhile_eq_filter (downClosed_le x) h] at hy
    have hmem := (List.mem_filter.mp (List.mem_of_getElem? hy)).2
    simp [not_lt.mpr hle] at hmem

end Bisect
