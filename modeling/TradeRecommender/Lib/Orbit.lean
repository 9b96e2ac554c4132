import Mathlib.Order.Lattice
import Mathlib.Logic.Function.Iterate
import Mathlib.Order.Monotone.Basic
import Mathlib.Data.List.Pairwise
import Mathlib.Tactic.Common

/-!
# Orbits

The points that a rule makes of a start, one from the other, and the loop that takes them up to a
bound.

1. points, and rules that move forward;
2. the points up to a bound and the first behind it;
3. windows that follow each other.
-/

namespace Orbit

variable {α : Type} [LinearOrder α] {next : α → α} {start bound t : α}

/-! ## Points -/

/-- A point of the orbit of a start. -/
def IsPoint (next : α → α) (start t : α) : Prop := ∃ n, t = next^[n] start

/-- Every point of the orbit lies before the one behind it. -/
def Forward (next : α → α) (start : α) : Prop := ∀ n, next^[n] start < next^[n + 1] start

omit [LinearOrder α] in
theorem isPoint_start : IsPoint next start start := ⟨0, rfl⟩

omit [LinearOrder α] in
theorem isPoint_iff : IsPoint next start t ↔ t = start ∨ IsPoint next (next start) t := by
  constructor
  · rintro ⟨n, rfl⟩
    cases n with
    | zero => exact .inl rfl
    | succ n => exact .inr ⟨n, rfl⟩
  · rintro (rfl | ⟨n, rfl⟩)
    · exact isPoint_start
    · exact ⟨n + 1, rfl⟩

theorem Forward.tail (h : Forward next start) : Forward next (next start) := fun n => h (n + 1)

theorem Forward.iterate (h : Forward next start) (n : ℕ) : Forward next (next^[n] start) := by
  intro m
  rw [← Function.iterate_add_apply, ← Function.iterate_add_apply, Nat.add_right_comm]
  exact h (m + n)

theorem Forward.strictMono (h : Forward next start) : StrictMono fun n => next^[n] start :=
  strictMono_nat_of_lt_succ h

theorem Forward.start_le (h : Forward next start) (point : IsPoint next start t) : start ≤ t := by
  obtain ⟨n, rfl⟩ := point
  exact h.strictMono.monotone (Nat.zero_le n)

theorem Forward.lt_tail (h : Forward next start) (point : IsPoint next (next start) t) :
    start < t := lt_of_lt_of_le (h 0) (h.tail.start_le point)

/-! ## The points up to a bound -/

/-- The loop from a start: the points up to the bound, and the first that it does not take. -/
inductive Until (next : α → α) (bound : α) : α → List α → α → Prop
  | stop {start : α} : bound < start → Until next bound start [] start
  | step {start last : α} {due : List α} : start ≤ bound →
      Until next bound (next start) due last → Until next bound start (start :: due) last

variable {last last' bound' : α} {due due' : List α}

theorem Until.bound_lt (h : Until next bound start due last) : bound < last := by
  induction h with
  | stop behind => exact behind
  | step _ _ ih => exact ih

theorem Until.iterate (h : Until next bound start due last) : last = next^[due.length] start := by
  induction h with
  | stop _ => rfl
  | step _ _ ih => exact ih

/-- Where the first points are up to the bound and the one behind them is not, the loop takes
these. -/
theorem until_of_iterate (n : ℕ) : ∀ {start : α}, (∀ m < n, next^[m] start ≤ bound) →
    bound < next^[n] start →
      Until next bound start ((List.range n).map fun m => next^[m] start) (next^[n] start) := by
  induction n with
  | zero => exact fun _ behind => .stop behind
  | succ n ih =>
    intro start inside behind
    rw [List.range_succ_eq_map, List.map_cons, List.map_map]
    exact .step (inside 0 (Nat.zero_lt_succ n))
      (ih (fun m less => inside (m + 1) (Nat.succ_lt_succ less)) behind)

theorem Until.le_last (forward : Forward next start) (h : Until next bound start due last)
    (point : IsPoint next start t) (behind : bound < t) : last ≤ t := by
  induction h with
  | stop _ => exact forward.start_le point
  | step inside _ ih =>
    rcases isPoint_iff.mp point with rfl | point
    · exact absurd behind (not_lt.mpr inside)
    · exact ih forward.tail point

theorem Until.mem_iff (forward : Forward next start) (h : Until next bound start due last) :
    t ∈ due ↔ IsPoint next start t ∧ t ≤ bound := by
  induction h with
  | stop behind =>
    refine ⟨fun mem => absurd mem List.not_mem_nil, fun ⟨point, inside⟩ => ?_⟩
    exact absurd (lt_of_lt_of_le behind (forward.start_le point)) (not_lt.mpr inside)
  | @step start last due inside _ ih =>
    have cases_ : IsPoint next start t ↔ t = start ∨ IsPoint next (next start) t := isPoint_iff
    rw [List.mem_cons, ih forward.tail, cases_, or_and_right]
    exact or_congr_left ⟨fun same => ⟨same, same.trans_le inside⟩, And.left⟩

theorem Until.ascending (forward : Forward next start) (h : Until next bound start due last) :
    due.Pairwise (· < ·) := by
  induction h with
  | stop _ => exact .nil
  | step inside rest ih =>
    refine List.pairwise_cons.mpr ⟨fun t mem => ?_, ih forward.tail⟩
    exact forward.lt_tail ((rest.mem_iff forward.tail).mp mem).1

/-! ## Windows -/

/-- The points of a start up to a bound, in order, and the least point behind it. -/
structure Window (next : α → α) (start bound : α) (due : List α) (last : α) : Prop where
  ascending : due.Pairwise (· < ·)
  mem_iff : ∀ t, t ∈ due ↔ IsPoint next start t ∧ t ≤ bound
  isPoint : IsPoint next start last
  behind : bound < last
  least : ∀ t, IsPoint next start t → bound < t → last ≤ t

/-- **The loop** takes the window of its bound. -/
theorem Until.window (forward : Forward next start) (h : Until next bound start due last) :
    Window next start bound due last where
  ascending := h.ascending forward
  mem_iff _ := h.mem_iff forward
  isPoint := ⟨due.length, h.iterate⟩
  behind := h.bound_lt
  least _ point behind := h.le_last forward point behind

/-- The points of a point are those from it on. -/
theorem isPoint_of_isPoint (forward : Forward next start) (isPoint : IsPoint next start last) :
    IsPoint next last t ↔ IsPoint next start t ∧ last ≤ t := by
  obtain ⟨n, rfl⟩ := isPoint
  constructor
  · intro point
    refine ⟨?_, (forward.iterate n).start_le point⟩
    obtain ⟨m, rfl⟩ := point
    exact ⟨m + n, (Function.iterate_add_apply next m n start).symm⟩
  · rintro ⟨⟨m, rfl⟩, le⟩
    obtain ⟨k, rfl⟩ := Nat.exists_eq_add_of_le' (forward.strictMono.le_iff_le.mp le)
    exact ⟨k, Function.iterate_add_apply next k n start⟩

namespace Window

theorem forward (h : Window next start bound due last) (forward : Forward next start) :
    Forward next last := by
  obtain ⟨n, rfl⟩ := h.isPoint
  exact forward.iterate n

/-- What is due lies before the first that is not. -/
theorem mem_iff_lt (h : Window next start bound due last) :
    t ∈ due ↔ IsPoint next start t ∧ t < last := by
  rw [h.mem_iff]
  refine and_congr_right fun point =>
    ⟨fun inside => lt_of_le_of_lt inside h.behind, fun less => ?_⟩
  by_contra behind
  exact absurd less (not_lt.mpr (h.least t point (not_le.mp behind)))

/-- **A window and the one that goes on from its end** are one window. -/
theorem append (h : Window next start bound due last) (forward : Forward next start)
    (later : bound ≤ bound') (h' : Window next last bound' due' last') :
    Window next start bound' (due ++ due') last' where
  ascending := by
    refine List.pairwise_append.mpr ⟨h.ascending, h'.ascending, fun t mem t' mem' => ?_⟩
    have before := ((h.mem_iff t).mp mem).2
    have behind := ((isPoint_of_isPoint forward h.isPoint).mp ((h'.mem_iff t').mp mem').1).2
    exact lt_of_le_of_lt before (lt_of_lt_of_le h.behind behind)
  mem_iff t := by
    rw [List.mem_append, h.mem_iff, h'.mem_iff, isPoint_of_isPoint forward h.isPoint]
    constructor
    · rintro (⟨point, inside⟩ | ⟨⟨point, -⟩, inside⟩)
      · exact ⟨point, inside.trans later⟩
      · exact ⟨point, inside⟩
    · rintro ⟨point, inside⟩
      rcases le_or_gt t bound with before | behind
      · exact .inl ⟨point, before⟩
      · exact .inr ⟨⟨point, h.least t point behind⟩, inside⟩
  isPoint := ((isPoint_of_isPoint forward h.isPoint).mp h'.isPoint).1
  behind := h'.behind
  least t point behind := by
    have from_ := h.least t point (lt_of_le_of_lt later behind)
    exact h'.least t ((isPoint_of_isPoint forward h.isPoint).mpr ⟨point, from_⟩) behind

end Window

end Orbit
