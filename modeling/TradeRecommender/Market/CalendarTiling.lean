import Mathlib.Order.CompletePartialOrder
import Mathlib.Data.Int.ConditionallyCompleteOrder
import Mathlib.Order.Lattice
import Mathlib.Order.Interval.Set.Defs
import Mathlib.Order.Disjoint
import Mathlib.Data.Set.Basic
import TradeRecommender.Lib.NewYorkClock
import TradeRecommender.Market.RegisteredCalendar

/-!
# Tiling the registered calendar

The intervals from a registered start on: where they lie, that they do not overlap, and the ranges
they make up.

1. inside an interval the clock does not change and the market is open;
2. the intervals of a chain of successors.
-/

namespace TradeRecommender.Market

open Py Civil

/-! ## One interval -/

section
variable {c : SundayClock} {g : Granularity} {t x : ℤ}

/-- An interval of at most a day lies in one week of trading. -/
theorem open_inside (short : g ≠ .w) {w v : ℤ} (aligned : isAligned g w = true) (low : w ≤ v)
    (high : v < w + g.step) : marketIsOpen v = true := by
  rw [marketIsOpen_iff]
  cases g with
  | w => exact absurd rfl short
  | d =>
    rw [isAligned_d] at aligned
    simp only [Granularity.step, List.mem_cons, List.not_mem_nil, or_false, weekday, hour, day]
      at aligned high ⊢
    omega
  | h4 =>
    rw [isAligned_h4, marketIsOpen_iff] at aligned
    simp only [Granularity.step, weekday, hour, day] at aligned high ⊢
    omega
  | h1 =>
    rw [isAligned_h1, marketIsOpen_iff] at aligned
    simp only [Granularity.step, weekday, hour, day] at aligned high ⊢
    omega
  | m15 =>
    rw [isAligned_m15, marketIsOpen_iff] at aligned
    simp only [Granularity.step, weekday, minute, hour, day] at aligned high ⊢
    omega

/-- From the end of an interval to a change of the clock it is more than a day. -/
theorem change_after (short : g ≠ .w) {w z : ℤ} (aligned : isAligned g w = true)
    (change : SundayTwo z) (later : w < z) : w + g.step + 33 * hour ≤ z := by
  obtain ⟨sunday, two⟩ := change
  cases g with
  | w => exact absurd rfl short
  | d =>
    rw [isAligned_d] at aligned
    simp only [Granularity.step, List.mem_cons, List.not_mem_nil, or_false, weekday, hour, day] at *
    omega
  | h4 =>
    rw [isAligned_h4, marketIsOpen_iff] at aligned
    simp only [Granularity.step, weekday, hour, day] at *
    omega
  | h1 =>
    rw [isAligned_h1, marketIsOpen_iff] at aligned
    simp only [Granularity.step, weekday, hour, day] at *
    omega
  | m15 =>
    rw [isAligned_m15, marketIsOpen_iff] at aligned
    simp only [Granularity.step, weekday, minute, hour, day] at *
    omega

/-- The clock does not change inside an interval of at most a day. -/
theorem offset_inside (short : g ≠ .w) (aligned : isAligned g (c.wall t) = true) (low : t ≤ x)
    (high : x ≤ candleCompletion c g t) : c.offset x = c.offset t := by
  by_contra changed
  obtain ⟨y, after, before, change⟩ := SundayClock.exists_change low changed
  have later : c.wall t < y + c.offset t := by
    rw [SundayClock.wall]
    linarith
  have far := change_after short aligned change later
  rw [candleCompletion] at high
  rcases c.two t with h | h <;> rw [h] at far <;>
    rcases SundayClock.utc_cases (c := c) (c.wall t + g.step) with h' | h' <;> rw [h'] at high <;>
      simp only [hour] at far high <;> unfold Instant at * <;> omega

/-- Such an interval lasts its step. -/
theorem completion_eq (short : g ≠ .w) (aligned : isAligned g (c.wall t) = true) :
    candleCompletion c g t = t + g.step := by
  obtain ⟨-, regular, positive, -⟩ := successorWall_spec aligned
  have same := offset_inside short aligned (candle_spec aligned).2.1.le (le_refl _)
  have back : c.wall (candleCompletion c g t) = c.wall t + g.step :=
    SundayClock.wall_utc regular.unskipped
  simp only [SundayClock.wall, same] at back
  linarith

/-- The market is open at every moment of it. -/
theorem market_open_inside (short : g ≠ .w) (aligned : isAligned g (c.wall t) = true) (low : t ≤ x)
    (high : x < candleCompletion c g t) : marketIsOpen (c.wall x) = true := by
  have same := offset_inside short aligned low high.le
  rw [completion_eq short aligned] at high
  refine open_inside short aligned ?_ ?_
  · simp only [SundayClock.wall, same]
    linarith
  · simp only [SundayClock.wall, same]
    linarith

/-! ## The chain -/

theorem startAfter_succ (n : ℕ) (t : Instant) :
    startAfter c g (n + 1) t = candleSuccessor c g (startAfter c g n t) := by
  induction n generalizing t with
  | zero => rfl
  | succ n ih =>
    rw [startAfter, ih, startAfter]

/-- An interval ends before a later one starts. -/
theorem completion_le_start (aligned : isAligned g (c.wall t) = true) (m k : ℕ) :
    candleCompletion c g (startAfter c g m t) ≤ startAfter c g (m + k + 1) t := by
  induction k with
  | zero =>
    rw [Nat.add_zero, startAfter_succ]
    exact (candle_spec (startAfter_spec m aligned).1).2.2
  | succ k ih =>
    have next := candle_spec (startAfter_spec (m + k + 1) aligned).1
    have step : m + (k + 1) + 1 = m + k + 1 + 1 := by ring
    rw [step, startAfter_succ]
    exact ih.trans (next.2.1.le.trans next.2.2)

theorem disjoint_intervals (aligned : isAligned g (c.wall t) = true) {m n : ℕ} (before : m < n) :
    Disjoint (Set.Ico (startAfter c g m t) (candleCompletion c g (startAfter c g m t)))
      (Set.Ico (startAfter c g n t) (candleCompletion c g (startAfter c g n t))) := by
  obtain ⟨k, rfl⟩ := Nat.exists_eq_add_of_lt before
  rw [Set.disjoint_left]
  intro x first second
  exact absurd (completion_le_start aligned m k) (not_le.mpr (lt_of_le_of_lt second.1 first.2))

theorem startsFrom_eq_map (n : ℕ) (t : Instant) :
    startsFrom c g n t = (List.range n).map fun k => startAfter c g k t := by
  induction n generalizing t with
  | zero => rfl
  | succ n ih =>
    rw [startsFrom, ih, List.range_succ_eq_map, List.map_cons, List.map_map]
    rfl

end

/-- The intervals from a start on tile the calendar. -/
structure Tiling (c : SundayClock) (g : Granularity) (start : Instant) : Prop where
  starts : ∀ n, isAligned g (c.wall (startAfter c g n start)) = true ∧
    startAfter c g n start < startAfter c g (n + 1) start
  disjoint : ∀ m n, m ≠ n → Disjoint
    (Set.Ico (startAfter c g m start) (candleCompletion c g (startAfter c g m start)))
    (Set.Ico (startAfter c g n start) (candleCompletion c g (startAfter c g n start)))
  /-- the market is closed from 17:00 of a Friday to 17:00 of the Sunday -/
  opened : g ≠ .w → ∀ n, ∀ x ∈ Set.Ico (startAfter c g n start)
    (candleCompletion c g (startAfter c g n start)), marketIsOpen (c.wall x) = true
  ranges : ∀ finish expected, expectedCandleTimestamps c start finish g = .ok expected ↔
    ∃ k, finish = candleCompletion c g (startAfter c g k start) ∧
      expected = (List.range (k + 1)).map fun n => startAfter c g n start

/-- The successors of a registered start are registered starts in time, whose intervals neither
overlap nor, when of at most a day, reach into the weekend; and the ranges from it expand that end
with one of them, into those up to it. -/
theorem registered_tiling (c : SundayClock) (g : Granularity) (start : Instant)
    (registered : isAligned g (c.wall start) = true) : Tiling c g start := by
  refine ⟨fun n => ?_, fun m n different => ?_, fun short n x inside => ?_, fun finish expected => ?_⟩
  · obtain ⟨aligned, -⟩ := startAfter_spec n registered
    have next := candle_spec aligned
    rw [startAfter_succ]
    exact ⟨aligned, lt_of_lt_of_le next.2.1 next.2.2⟩
  · rcases lt_or_gt_of_ne different with before | behind
    · exact disjoint_intervals registered before
    · exact (disjoint_intervals registered behind).symm
  · exact market_open_inside short (startAfter_spec n registered).1 inside.1 inside.2
  · constructor
    · intro expanded
      obtain ⟨-, k, starts, ends⟩ := expected_spec expanded
      exact ⟨k, ends, by rw [starts, startsFrom_eq_map]⟩
    · rintro ⟨k, rfl, rfl⟩
      rw [expected_starts k registered, startsFrom_eq_map]

/-- From Friday, 6 March 2026, 13:00 in New York. -/
theorem registered_tiling_march : Tiling newYork .h4 1772820000000000 :=
  registered_tiling newYork .h4 1772820000000000 (by decide)

end TradeRecommender.Market
