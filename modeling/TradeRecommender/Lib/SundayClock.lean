import Mathlib.Data.Int.Cast.Basic
import Mathlib.Tactic.Linarith
import Mathlib.Tactic.Ring
import TradeRecommender.Lib.NewYork

/-!
# Clocks that change on Sundays

A zone whose offset from UTC is one of two an hour apart and changes at 02:00 of a Sunday at most,
and the wall readings that survive the way to UTC and back.
-/

namespace Civil

/-- 02:00 of a Sunday, as a wall reading. -/
def SundayTwo (wall : ℤ) : Prop := weekday (wall / day) = 6 ∧ wall % day = 2 * hour

/-- Offsets of `America/New_York`, where they change at 02:00 of a Sunday only. -/
structure SundayClock where
  offset : Instant → ℤ
  two : ∀ t, offset t = -4 * hour ∨ offset t = -5 * hour
  sunday : ∀ t, offset t ≠ offset (t - 1) → SundayTwo (t + offset (t - 1))

namespace SundayClock

variable (c : SundayClock)

/-- `astimezone(NEW_YORK)` -/
def wall (t : Instant) : ℤ := t + c.offset t

/-- `astimezone(UTC)` of a wall reading: its first occurrence, or, where the clock skips it, at the
offset before the change. -/
def utc (wall : ℤ) : Instant :=
  if c.offset (wall + 4 * hour) = -4 * hour then wall + 4 * hour else wall + 5 * hour

variable {c}

/-- A reading goes to one of two instants. -/
theorem utc_cases (w : ℤ) : c.utc w = w + 4 * hour ∨ c.utc w = w + 5 * hour := by
  rw [utc]
  split_ifs
  · exact .inl rfl
  · exact .inr rfl

theorem wall_cases (t : Instant) : c.wall t = t - 4 * hour ∨ c.wall t = t - 5 * hour := by
  rcases c.two t with h | h
  · left
    rw [wall, h]
    ring
  · right
    rw [wall, h]
    ring

/-- The hour of a Sunday that a change may skip. -/
def Skipped (wall : ℤ) : Prop :=
  weekday (wall / day) = 6 ∧ 2 * hour ≤ wall % day ∧ wall % day < 3 * hour

/-- Standard time goes on for an hour after a reading that is not in the skipped hour. -/
theorem offset_standard {w : ℤ} (h : ¬ Skipped w)
    (standard : c.offset (w + 4 * hour) = -5 * hour) (n : ℕ) (within : (n : ℤ) ≤ hour) :
    c.offset (w + 4 * hour + n) = -5 * hour := by
  induction n with
  | zero =>
    rw [Nat.cast_zero, add_zero]
    exact standard
  | succ n ih =>
    push_cast at within ⊢
    have before := ih (by omega)
    have step : w + 4 * hour + (n + 1) - 1 = w + 4 * hour + n := by ring
    by_contra changed
    have differ : c.offset (w + 4 * hour + (n + 1)) ≠
        c.offset (w + 4 * hour + (n + 1) - 1) := by
      rw [step, before]
      exact changed
    have two := c.sunday _ differ
    rw [step, before, SundayTwo, weekday] at two
    refine h ?_
    rw [Skipped, weekday]
    simp only [hour, day] at two within ⊢
    omega

/-- A reading that no change skips is read back from the instant it goes to. -/
theorem wall_utc {w : ℤ} (h : ¬ Skipped w) : c.wall (c.utc w) = w := by
  rw [utc]
  split_ifs with saving
  · rw [wall, saving]
    ring
  · have standard := (c.two (w + 4 * hour)).resolve_left saving
    have later := offset_standard h standard hour.toNat (by simp [hour])
    have same : w + 4 * hour + (hour.toNat : ℤ) = w + 5 * hour := by
      simp only [hour]
      omega
    rw [same] at later
    rw [wall, later]
    ring

/-- An hour or more later on the wall is later. -/
theorem lt_utc_wall {t d : ℤ} (long : hour ≤ d) : t < c.utc (c.wall t + d) := by
  have positive : (0 : ℤ) < hour := by decide
  rw [utc]
  split_ifs with saving
  · rcases c.two t with h | h
    · rw [wall, h]
      linarith
    · rcases lt_or_eq_of_le long with longer | same
      · rw [wall, h]
        linarith
      · -- the same instant has one offset
        have back : c.wall t + d + 4 * hour = t := by
          rw [wall, h, ← same]
          ring
        rw [back, h] at saving
        linarith
  · rcases wall_cases (c := c) t with h | h
    · rw [h]
      linarith
    · rw [h]
      linarith

/-- Readings an hour apart or more keep their order. -/
theorem utc_le_utc {w w' : ℤ} (apart : w + hour ≤ w') : c.utc w ≤ c.utc w' := by
  have positive : (0 : ℤ) < hour := by decide
  rcases utc_cases (c := c) w with h | h <;> rcases utc_cases (c := c) w' with h' | h' <;>
    · rw [h, h']
      linarith

/-- A reading taken at an instant goes back to it, or to the hour before that it repeats. -/
theorem utc_wall_le (t : Instant) : c.utc (c.wall t) ≤ t := by
  have positive : (0 : ℤ) < hour := by decide
  rcases c.two t with h | h
  · have back : c.wall t + 4 * hour = t := by
      rw [wall, h]
      ring
    rw [utc, back, if_pos h]
  · rw [utc, wall, h]
    split_ifs
    · linarith
    · linarith

/-- Between instants of two offsets lies 02:00 of a Sunday, read at the first of them. -/
theorem exists_change {t s : ℤ} (later : t ≤ s) (changed : c.offset s ≠ c.offset t) :
    ∃ x, t < x ∧ x ≤ s ∧ SundayTwo (x + c.offset t) := by
  obtain ⟨n, rfl⟩ := Int.le.dest later
  clear later
  induction n with
  | zero =>
    rw [Nat.cast_zero, add_zero] at changed
    exact absurd rfl changed
  | succ n ih =>
    push_cast at changed ⊢
    by_cases before : c.offset (t + n) = c.offset t
    · have step : t + (n + 1) - 1 = t + n := by ring
      have two := c.sunday (t + (n + 1)) (by rw [step, before]; exact changed)
      rw [step, before] at two
      exact ⟨t + (n + 1), by omega, le_refl _, two⟩
    · obtain ⟨x, low, high, two⟩ := ih before
      exact ⟨x, low, by omega, two⟩

/-- A reading that a change neither skips nor repeats. -/
def Regular (wall : ℤ) : Prop :=
  ¬ (weekday (wall / day) = 6 ∧ hour ≤ wall % day ∧ wall % day < 3 * hour)

theorem Regular.unskipped {w : ℤ} (h : Regular w) : ¬ Skipped w := by
  intro skipped
  refine h ?_
  simp only [Skipped, hour] at skipped ⊢
  omega

/-- An instant goes to its regular reading and back. -/
theorem utc_wall {t : ℤ} (regular : Regular (c.wall t)) : c.utc (c.wall t) = t := by
  rcases c.two t with h | h
  · have back : c.wall t + 4 * hour = t := by
      rw [wall, h]
      ring
    rw [utc, back, if_pos h]
  · have back : c.wall t + 5 * hour = t := by
      rw [wall, h]
      ring
    rw [utc, back, if_neg]
    intro saving
    -- the clock went back within the hour before
    have earlier : c.wall t + 4 * hour = t - hour := by
      simp only [hour] at back ⊢
      omega
    rw [earlier] at saving
    have changed : c.offset t ≠ c.offset (t - hour) := by
      rw [h, saving]
      decide
    obtain ⟨x, low, high, sunday, two⟩ := exists_change (by simp only [hour]; omega) changed
    rw [saving] at sunday two
    refine regular ?_
    rw [wall, h]
    simp only [weekday, hour, day] at *
    omega

/-- Regular readings and their instants come in one order. -/
theorem utc_lt_utc {w w' : ℤ} (first : Regular w) (second : Regular w') (less : w < w') :
    (c.utc w : ℤ) < c.utc w' := by
  by_contra order
  have back := wall_utc (c := c) first.unskipped
  have back' := wall_utc (c := c) second.unskipped
  have changed : c.offset (c.utc w) ≠ c.offset (c.utc w') := by
    intro same
    simp only [wall, same] at back back'
    unfold Instant at *
    omega
  obtain ⟨x, low, high, sunday, two⟩ := exists_change (not_lt.mp order) changed
  rcases c.two (c.utc w) with h | h <;> rcases c.two (c.utc w') with h' | h' <;>
    rw [h, h'] at changed <;> simp only [wall, h, h'] at back back' <;> rw [h'] at sunday two <;>
    simp only [Regular, weekday, hour, day] at * <;> unfold Instant at * <;> omega

/-- A regular reading has been reached when its instant has. -/
theorem utc_le_iff {w t : ℤ} (regular : Regular w) : (c.utc w : ℤ) ≤ t ↔ w ≤ c.wall t := by
  have back := wall_utc (c := c) regular.unskipped
  constructor
  · intro reached
    by_contra before
    have changed : c.offset t ≠ c.offset (c.utc w) := by
      intro same
      simp only [wall] at back before
      rw [same] at before
      unfold Instant at *
      omega
    obtain ⟨x, low, high, sunday, two⟩ := exists_change reached changed
    rcases c.two (c.utc w) with h | h <;> rcases c.two t with h' | h' <;>
      rw [h, h'] at changed <;> simp only [wall, h, h'] at back before <;> rw [h] at sunday two <;>
      simp only [Regular, weekday, hour, day] at * <;> unfold Instant at * <;> omega
  · intro read
    by_contra later
    have changed : c.offset (c.utc w) ≠ c.offset t := by
      intro same
      simp only [wall] at back read
      rw [same] at back
      unfold Instant at *
      omega
    obtain ⟨x, low, high, sunday, two⟩ := exists_change (not_le.mp later).le changed
    rcases c.two (c.utc w) with h | h <;> rcases c.two t with h' | h' <;>
      rw [h, h'] at changed <;> simp only [wall, h, h'] at back read <;> rw [h'] at sunday two <;>
      simp only [Regular, weekday, hour, day] at * <;> unfold Instant at * <;> omega

/-- The instant of a regular reading is over when the reading is. -/
theorem utc_lt_iff {w t : ℤ} (regular : Regular w) : (c.utc w : ℤ) < t ↔ w < c.wall t := by
  constructor
  · intro before
    refine lt_of_le_of_ne ((utc_le_iff regular).mp before.le) fun same => ?_
    have back : c.utc (c.wall t) = t := utc_wall (same ▸ regular)
    rw [← same] at back
    exact absurd back (Int.ne_of_lt before)
  · intro before
    refine lt_of_le_of_ne ((utc_le_iff regular).mpr before.le) fun same => ?_
    have back := wall_utc (c := c) regular.unskipped
    rw [same] at back
    exact absurd back.symm (Int.ne_of_lt before)

end SundayClock

end Civil
