import Mathlib.Tactic.Linarith
import TradeRecommender.Lib.Civil

/-!
# Time zones

A zone as `zoneinfo` reads it: an offset, and changes of it that lie more than two days apart.

1. the offset at an instant and the one of a reading;
2. readings that a change skips;
3. what a reading becomes: the first instant that shows it, or one behind the change that skips it.
-/

namespace Civil

/-! ## Offsets -/

/-- The offset in force at an instant. -/
def offsetFrom (current : ℤ) : List (Instant × ℤ) → Instant → ℤ
  | [], _ => current
  | (at_, next) :: changes, t => if t < at_ then current else offsetFrom next changes t

/-- The offset of a reading with `fold=0`: a change counts once both its readings have passed. -/
def readingOffset (current : ℤ) : List (Instant × ℤ) → ℤ → ℤ
  | [], _ => current
  | (at_, next) :: changes, wall =>
    if wall < at_ + max current next then current else readingOffset next changes wall

/-- Offsets of less than a day, whose changes lie more than two days apart. -/
structure Spaced (current : ℤ) (changes : List (Instant × ℤ)) : Prop where
  bounded : ∀ offset ∈ current :: changes.map Prod.snd, -day < offset ∧ offset < day
  apart : changes.Pairwise fun change change' => change.1 + 2 * day < change'.1

/-- A zone: the offset before all changes, and the changes. -/
structure Zone where
  first : ℤ
  changes : List (Instant × ℤ)
  spaced : Spaced first changes

namespace Zone

variable (z : Zone)

/-- `utcoffset` at an instant. -/
def offset (t : Instant) : ℤ := offsetFrom z.first z.changes t

/-- `astimezone(zone)` -/
def wall (t : Instant) : ℤ := t + z.offset t

/-- `astimezone(UTC)` of a reading. -/
def utc (wall : ℤ) : Instant := wall - readingOffset z.first z.changes wall

/-- The local date of an instant. -/
def date (t : Instant) : ℤ := z.wall t / day

end Zone

/-! ## Changes -/

section
variable {current : ℤ} {changes : List (ℤ × ℤ)} {at_ next : ℤ} {wall : ℤ} {t : ℤ}

theorem Spaced.tail (h : Spaced current ((at_, next) :: changes)) : Spaced next changes where
  bounded offset mem := h.bounded offset (List.mem_cons_of_mem _ mem)
  apart := (List.pairwise_cons.mp h.apart).2

theorem Spaced.later (h : Spaced current ((at_, next) :: changes)) {change : ℤ × ℤ}
    (mem : change ∈ changes) : at_ + 2 * day < change.1 :=
  (List.pairwise_cons.mp h.apart).1 change mem

theorem Spaced.current_bounds (h : Spaced current changes) : -day < current ∧ current < day :=
  h.bounded current List.mem_cons_self

theorem offsetFrom_bounds (h : Spaced current changes) (t : ℤ) :
    -day < offsetFrom current changes t ∧ offsetFrom current changes t < day := by
  induction changes generalizing current with
  | nil => exact h.current_bounds
  | cons change changes ih =>
    obtain ⟨at_, next⟩ := change
    unfold offsetFrom
    split
    · exact h.current_bounds
    · exact ih h.tail

/-- Before all changes the offset is the current one. -/
theorem offsetFrom_before (early : ∀ change ∈ changes, t < change.1) :
    offsetFrom current changes t = current := by
  cases changes with
  | nil => rfl
  | cons change changes => exact if_pos (early change List.mem_cons_self)

theorem offsetFrom_cons_lt (early : t < at_) :
    offsetFrom current ((at_, next) :: changes) t = current := if_pos early

theorem offsetFrom_cons_le (late : at_ ≤ t) :
    offsetFrom current ((at_, next) :: changes) t = offsetFrom next changes t :=
  if_neg (Int.not_lt.mpr late)

/-- The offset changes at changes only. -/
theorem mem_of_changed (changed : offsetFrom current changes t ≠ offsetFrom current changes (t - 1)) :
    t ∈ changes.map Prod.fst := by
  induction changes generalizing current with
  | nil => exact absurd rfl changed
  | cons change changes ih =>
    obtain ⟨at_, next⟩ := change
    rcases lt_trichotomy t at_ with early | rfl | late
    · rw [offsetFrom_cons_lt early, offsetFrom_cons_lt (show t - 1 < at_ by omega)] at changed
      exact absurd rfl changed
    · exact List.mem_cons_self
    · rw [offsetFrom_cons_le late.le, offsetFrom_cons_le (show at_ ≤ t - 1 by omega)] at changed
      exact List.mem_cons_of_mem _ (ih changed)

theorem readingOffset_bounds (h : Spaced current changes) (wall : ℤ) :
    -day < readingOffset current changes wall ∧ readingOffset current changes wall < day := by
  induction changes generalizing current with
  | nil => exact h.current_bounds
  | cons change changes ih =>
    obtain ⟨at_, next⟩ := change
    unfold readingOffset
    split
    · exact h.current_bounds
    · exact ih h.tail

/-! ## Readings -/

/-- The reading of an instant. -/
def wallFrom (current : ℤ) (changes : List (ℤ × ℤ)) (t : ℤ) : ℤ :=
  t + offsetFrom current changes t

/-- A change at `c` skips a reading. -/
def SkipsFrom (current : ℤ) (changes : List (ℤ × ℤ)) (c : ℤ) (wall : ℤ) : Prop :=
  wallFrom current changes (c - 1) < wall ∧ wall < wallFrom current changes c

variable {c : ℤ}

/-- A change that skips a reading moves the clock forward. -/
theorem SkipsFrom.forward (h : SkipsFrom current changes c wall) :
    offsetFrom current changes (c - 1) < offsetFrom current changes c := by
  have low := h.1
  have high := h.2
  unfold wallFrom at low high
  omega

theorem SkipsFrom.mem (h : SkipsFrom current changes c wall) : c ∈ changes.map Prod.fst :=
  mem_of_changed (Int.ne_of_gt h.forward)

theorem wallFrom_cons_lt (early : t < at_) :
    wallFrom current ((at_, next) :: changes) t = t + current := by
  rw [wallFrom, offsetFrom_cons_lt early]

theorem wallFrom_cons_le (late : at_ ≤ t) :
    wallFrom current ((at_, next) :: changes) t = wallFrom next changes t := by
  rw [wallFrom, offsetFrom_cons_le late, wallFrom]

/-- Up to two days behind a change its offset is in force. -/
theorem wallFrom_soon (h : Spaced current ((at_, next) :: changes)) (soon : t ≤ at_ + 2 * day) :
    wallFrom next changes t = t + next := by
  rw [wallFrom, offsetFrom_before fun change mem => Int.lt_of_le_of_lt soon (h.later mem)]

/-- What a reading becomes: no earlier instant shows as much, and it shows the reading itself or
lies as far behind it as the change that skips it moves the clock. -/
structure ReadsAs (current : ℤ) (changes : List (ℤ × ℤ)) (wall : ℤ) (t : ℤ) : Prop where
  first : ∀ s < t, wallFrom current changes s < wallFrom current changes t
  shown : wallFrom current changes t = wall ∨ ∃ c, SkipsFrom current changes c wall ∧
    wallFrom current changes t =
      wall + (offsetFrom current changes c - offsetFrom current changes (c - 1))

theorem ReadsAs.le (h : ReadsAs current changes wall t) : wall ≤ wallFrom current changes t := by
  rcases h.shown with same | ⟨c, skips, later⟩
  · exact same.ge
  · have forward := skips.forward
    omega

theorem readsAs (h : Spaced current changes) (wall : ℤ) :
    ReadsAs current changes wall (wall - readingOffset current changes wall) := by
  induction changes generalizing current with
  | nil =>
    refine ⟨fun s less => ?_, .inl ?_⟩
    · simp only [wallFrom, offsetFrom, readingOffset] at *
      omega
    · simp only [wallFrom, offsetFrom, readingOffset]
      omega
  | cons change changes ih =>
    obtain ⟨at_, next⟩ := change
    have bounds := h.current_bounds
    have bounds' := h.tail.current_bounds
    by_cases early : wall < at_ + max current next
    · have offset : readingOffset current ((at_, next) :: changes) wall = current := if_pos early
      rw [offset]
      by_cases shown : wall < at_ + current
      · have here : wall - current < at_ := by omega
        refine ⟨fun s less => ?_, .inl ?_⟩
        · rw [wallFrom_cons_lt here, wallFrom_cons_lt (Int.lt_trans less here)]
          omega
        · rw [wallFrom_cons_lt here]
          omega
      · -- the change skips the reading
        have here : at_ ≤ wall - current := by omega
        have soon : wall - current ≤ at_ + 2 * day := by omega
        have reads : wallFrom current ((at_, next) :: changes) (wall - current) =
            wall - current + next := by
          rw [wallFrom_cons_le here, wallFrom_soon h soon]
        refine ⟨fun s less => ?_, .inr ⟨at_, ⟨?_, ?_⟩, ?_⟩⟩
        · rw [reads]
          rcases lt_or_ge s at_ with before | after
          · rw [wallFrom_cons_lt before]
            omega
          · rw [wallFrom_cons_le after, wallFrom_soon h (by omega)]
            omega
        · rw [wallFrom_cons_lt (by omega)]
          omega
        · rw [wallFrom_cons_le (Int.le_refl at_), wallFrom_soon h (by omega)]
          omega
        · rw [reads, offsetFrom_cons_le (Int.le_refl at_), offsetFrom_cons_lt (by omega),
            offsetFrom_before fun change mem => ?_]
          · omega
          · have later := h.later mem
            omega
    · have offset : readingOffset current ((at_, next) :: changes) wall =
          readingOffset next changes wall := if_neg early
      rw [offset]
      have reads := ih h.tail
      have after : at_ ≤ wall - readingOffset next changes wall := by
        by_contra before
        have le := reads.le
        rw [wallFrom_soon h (by omega)] at le
        omega
      have same (t : ℤ) (late : at_ ≤ t) : wallFrom current ((at_, next) :: changes) t =
          wallFrom next changes t := wallFrom_cons_le late
      refine ⟨fun s less => ?_, ?_⟩
      · rw [same _ after]
        rcases lt_or_ge s at_ with before | late
        · have le := reads.le
          rw [wallFrom_cons_lt before]
          omega
        · rw [same s late]
          exact reads.first s less
      · rw [same _ after]
        rcases reads.shown with shown | ⟨c, skips, later⟩
        · exact .inl shown
        · obtain ⟨change, mem, rfl⟩ := List.mem_map.mp skips.mem
          have apart := h.later mem
          refine .inr ⟨change.1, ?_, ?_⟩
          · unfold SkipsFrom
            rw [same _ (by omega), same _ (by omega)]
            exact skips
          · rw [offsetFrom_cons_le (by omega), offsetFrom_cons_le (by omega)]
            exact later

/-- A reading that a change skips lies as far behind it as the change moves the clock. -/
theorem wallFrom_of_skips (h : Spaced current changes) (skips : SkipsFrom current changes c wall) :
    wallFrom current changes (wall - readingOffset current changes wall) =
      wall + (offsetFrom current changes c - offsetFrom current changes (c - 1)) := by
  induction changes generalizing current with
  | nil => cases skips.mem
  | cons change changes ih =>
    obtain ⟨at_, next⟩ := change
    have bounds := h.current_bounds
    have bounds' := h.tail.current_bounds
    have low := skips.1
    have high := skips.2
    rcases List.mem_cons.mp skips.mem with same | mem
    · obtain rfl : c = at_ := same
      rw [wallFrom_cons_lt (by omega)] at low
      rw [wallFrom_cons_le (Int.le_refl c), wallFrom_soon h (by omega)] at high
      have offset : readingOffset current ((c, next) :: changes) wall = current :=
        if_pos (by omega)
      rw [offset, wallFrom_cons_le (by omega), wallFrom_soon h (by omega),
        offsetFrom_cons_le (Int.le_refl c), offsetFrom_cons_lt (by omega),
        offsetFrom_before fun change mem => ?_]
      · omega
      · have later := h.later mem
        omega
    · obtain ⟨change, listed, rfl⟩ := List.mem_map.mp mem
      have apart := h.later listed
      have within := readingOffset_bounds h.tail wall
      have before := offsetFrom_bounds h (change.1 - 1)
      have offset : readingOffset current ((at_, next) :: changes) wall =
          readingOffset next changes wall := if_neg (by
        unfold wallFrom at low
        omega)
      unfold SkipsFrom at skips
      rw [wallFrom_cons_le (by omega), wallFrom_cons_le (by omega)] at skips
      have reads := ih h.tail skips
      unfold wallFrom at low
      rw [offset, wallFrom_cons_le (by omega), offsetFrom_cons_le (by omega),
        offsetFrom_cons_le (by omega)]
      exact reads

end

/-! ## Zones -/

namespace Zone

variable {z : Zone} {wall : ℤ} {c t : ℤ}

/-- A change of the zone at `c` skips a reading. -/
def Skips (z : Zone) (c : Instant) (wall : ℤ) : Prop := z.wall (c - 1) < wall ∧ wall < z.wall c

theorem offset_bounds (z : Zone) (t : ℤ) : -day < z.offset t ∧ z.offset t < day :=
  offsetFrom_bounds z.spaced t

/-- No instant before that of a reading shows as much. -/
theorem wall_lt_wall_utc (before : t < z.utc wall) : z.wall t < z.wall (z.utc wall) :=
  (readsAs z.spaced wall).first t before

/-- The instant of a reading shows it or more. -/
theorem le_wall_utc (z : Zone) (wall : ℤ) : wall ≤ z.wall (z.utc wall) := (readsAs z.spaced wall).le

/-- A reading that no change skips is shown. -/
theorem wall_utc (kept : ∀ c, ¬ z.Skips c wall) : z.wall (z.utc wall) = wall := by
  rcases (readsAs z.spaced wall).shown with shown | ⟨c, skips, -⟩
  · exact shown
  · exact absurd skips (kept c)

/-- A skipped reading is moved as far as its change moves the clock. -/
theorem wall_utc_of_skips (skips : z.Skips c wall) :
    z.wall (z.utc wall) = wall + (z.offset c - z.offset (c - 1)) :=
  wallFrom_of_skips z.spaced skips

end Zone

end Civil
