import Mathlib.Data.List.Basic
import Mathlib.Tactic.Common

/-!
# Slices of one size

A list cut into slices of a size, the last one shorter where the size does not divide its length;
the span of a list between two places; and facts read off each place of a list from a span that ends
a fixed reach behind it.
-/

namespace Py

section
variable {α : Type}

/-- `[values[offset : offset + size] for offset in range(0, len(values), size)]` -/
def slices (size : ℕ) (values : List α) : List (List α) :=
  (List.range ((values.length + size - 1) / size)).map fun i =>
    (values.drop (i * size)).take size

variable {size : ℕ} {values : List α}

theorem flatten_range_slices (n : ℕ) :
    ((List.range n).map fun i => (values.drop (i * size)).take size).flatten =
      values.take (n * size) := by
  induction n with
  | zero => rw [Nat.zero_mul]; rfl
  | succ n ih =>
    rw [List.range_succ, List.map_append, List.flatten_append, ih, Nat.succ_mul, List.take_add]
    simp

/-- The slices joined are the list. -/
theorem flatten_slices (positive : 0 < size) : (slices size values).flatten = values := by
  rw [slices, flatten_range_slices]
  refine List.take_of_length_le ?_
  have := Nat.div_add_mod (values.length + size - 1) size
  have := Nat.mod_lt (values.length + size - 1) positive
  rw [Nat.mul_comm]
  omega

/-- A slice is the beginning of what is left behind a place of the list. -/
theorem mem_slices (positive : 0 < size) {slice : List α} (mem : slice ∈ slices size values) :
    ∃ k < values.length, slice = (values.drop k).take size := by
  obtain ⟨i, inside, rfl⟩ := List.mem_map.mp mem
  refine ⟨i * size, ?_, rfl⟩
  have bound : i + 1 ≤ (values.length + size - 1) / size := List.mem_range.mp inside
  have := (Nat.le_div_iff_mul_le positive).mp bound
  rw [Nat.add_mul] at this
  omega

end

/-! ## Spans -/

section
variable {α β : Type}

/-- `values[start:stop]` -/
def span (values : List α) (start stop : ℕ) : List α := (values.drop start).take (stop - start)

theorem span_eq (values : List α) (start stop : ℕ) :
    span values start stop = (values.take stop).drop start := by
  rw [span, List.drop_take]

/-- A span inside a list is that of any longer list. -/
theorem span_append {values : List α} {start stop : ℕ} (inside : stop ≤ values.length)
    (more : List α) : span (values ++ more) start stop = span values start stop := by
  rw [span_eq, span_eq, List.take_append_of_le_length inside]

/-- A place of a list is that of any longer list. -/
theorem getElem?_append_left' {values : List α} {i : ℕ} (inside : i < values.length)
    (more : List α) : (values ++ more)[i]? = values[i]? :=
  List.getElem?_append_left inside

/-- `for i in range(start, len(values) - reach)`, with what each place adds. -/
def scan (start reach : ℕ) (facts : List α → ℕ → List β) (values : List α) : List β :=
  (List.range' start (values.length - reach - start)).flatMap (facts values)

/-- Facts that nothing behind their reach enters are not rewritten when a list grows. -/
theorem scan_extends {start reach : ℕ} {facts : List α → ℕ → List β}
    (settled : ∀ values more i, i + reach < values.length →
      facts (values ++ more) i = facts values i) (values more : List α) :
    scan start reach facts values <+: scan start reach facts (values ++ more) := by
  have longer : (values ++ more).length - reach - start = values.length - reach - start +
      ((values ++ more).length - reach - start - (values.length - reach - start)) := by
    rw [List.length_append]
    omega
  have before : (List.range' start (values.length - reach - start)).flatMap (facts (values ++ more)) =
      (List.range' start (values.length - reach - start)).flatMap (facts values) := by
    refine List.flatMap_congr fun i mem => settled values more i ?_
    rw [List.mem_range'_1] at mem
    omega
  rw [scan, scan, longer, ← List.range'_append_1, List.flatMap_append, before]
  exact List.prefix_append _ _

end

end Py
