import TradeRecommender.Lib.IsoRoundTrip
import TradeRecommender.Lib.SundayClock

/-!
# The New York clock

The rule for daylight saving of `America/New_York` changes its clock at 02:00 of a Sunday only, so
that what holds of every such clock holds of it.

1. years, and the rule as a clock;
2. readings and instants, and the 17:00 of each day.
-/

namespace Civil

/-- The first day of a year. -/
def yearStart (year : ℤ) : ℤ := (Date.mk year 1 1).toDays

theorem yearStart_eq (year : ℤ) : yearStart year =
    365 * (year - 1) + (year - 1) / 4 - (year - 1) / 100 + (year - 1) / 400 - 719162 := by
  simp only [yearStart, Date.toDays]
  norm_num
  omega

theorem yearStart_le {a b : ℤ} (h : a ≤ b) : yearStart a ≤ yearStart b := by
  rw [yearStart_eq, yearStart_eq]
  omega

/-- A day lies in its year. -/
theorem ofDays_year_bounds (n : ℤ) :
    yearStart (Date.ofDays n).year ≤ n ∧ n < yearStart ((Date.ofDays n).year + 1) := by
  obtain ⟨era, y, d, m, date, y1, y2, d1, d2, months, split, leap⟩ := ofDays_eq n
  rw [date, yearStart_eq, yearStart_eq]
  dsimp only
  by_cases spring : m < 10
  · rw [if_pos spring]
    omega
  · rw [if_neg spring]
    omega

/-- The year of a day is the one it lies in. -/
theorem ofDays_year_eq {n year : ℤ} (first : yearStart year ≤ n) (last : n < yearStart (year + 1)) :
    (Date.ofDays n).year = year := by
  obtain ⟨low, high⟩ := ofDays_year_bounds n
  rcases lt_trichotomy (Date.ofDays n).year year with h | h | h
  · have := yearStart_le (Int.add_one_le_iff.mpr h)
    omega
  · exact h
  · have := yearStart_le (Int.add_one_le_iff.mpr h)
    omega

/-- Daylight saving begins on a Sunday of March, and ends on one of November. -/
theorem saving_spec (year : ℤ) :
    weekday (savingStart year) = 6 ∧ weekday (savingEnd year) = 6 ∧
      yearStart year + 60 ≤ savingStart year ∧ savingStart year < savingEnd year ∧
      savingEnd year + 40 ≤ yearStart (year + 1) := by
  have march : (Date.mk year 3 8).toDays = 365 * year + year / 4 - year / 100 + year / 400 - 719461 := by
    simp only [Date.toDays]
    norm_num
    omega
  have november : (Date.mk year 11 1).toDays =
      365 * year + year / 4 - year / 100 + year / 400 - 719223 := by
    simp only [Date.toDays]
    norm_num
    omega
  rw [yearStart_eq, yearStart_eq, savingStart, savingEnd, march, november]
  simp only [sundayFrom, weekday]
  omega

/-- The offset at an instant, between a Sunday of March and one of November. -/
def savingOffset (march november t : ℤ) : ℤ :=
  if march * day + 7 * hour ≤ t ∧ t < november * day + 6 * hour then -4 * hour else -5 * hour

theorem savingOffset_sunday {march november t : ℤ} (first : weekday march = 6)
    (last : weekday november = 6) (order : march < november)
    (changes : savingOffset march november t ≠ savingOffset march november (t - 1)) :
    SundayTwo (t + savingOffset march november (t - 1)) := by
  have boundary : t = march * day + 7 * hour ∨ t = november * day + 6 * hour := by
    simp only [savingOffset, hour, day] at changes ⊢
    split_ifs at changes <;> omega
  have sunday : ∀ n : ℤ, weekday n = 6 → SundayTwo (n * day + 2 * hour) := by
    intro n h
    have date : (n * day + 2 * hour) / day = n := by
      simp only [hour, day]
      omega
    refine ⟨by rw [date, h], ?_⟩
    simp only [hour, day]
    omega
  rcases boundary with rfl | rfl
  · have before : savingOffset march november (march * day + 7 * hour - 1) = -5 * hour :=
      if_neg fun h => by omega
    have two : march * day + 7 * hour + -5 * hour = march * day + 2 * hour := by ring
    rw [before, two]
    exact sunday march first
  · have before : savingOffset march november (november * day + 6 * hour - 1) = -4 * hour := by
      refine if_pos ⟨?_, by omega⟩
      simp only [hour, day]
      omega
    have two : november * day + 6 * hour + -4 * hour = november * day + 2 * hour := by ring
    rw [before, two]
    exact sunday november last

/-- The offsets of New York change at 02:00 of a Sunday. -/
theorem newYorkOffset_sunday (t : ℤ) (changes : newYorkOffset t ≠ newYorkOffset (t - 1)) :
    SundayTwo (t + newYorkOffset (t - 1)) := by
  have rule : ∀ s, newYorkOffset s = savingOffset
      (savingStart (Date.ofDays ((s - 5 * hour) / day)).year)
      (savingEnd (Date.ofDays ((s - 5 * hour) / day)).year) s := fun s => rfl
  have days : (t - 1 - 5 * hour) / day = (t - 5 * hour) / day ∨
      (t - 1 - 5 * hour) / day = (t - 5 * hour) / day - 1 ∧
        t - 5 * hour = (t - 5 * hour) / day * day := by
    simp only [hour, day]
    omega
  rw [rule t, rule (t - 1)] at changes
  rw [rule (t - 1)]
  generalize (t - 5 * hour) / day = n at changes days
  generalize (t - 1 - 5 * hour) / day = n' at changes days ⊢
  obtain ⟨low, high⟩ := ofDays_year_bounds n
  obtain ⟨march, november, s1, s2, s3⟩ := saving_spec (Date.ofDays n).year
  by_cases year : (Date.ofDays n').year = (Date.ofDays n).year
  · rw [year] at changes ⊢
    exact savingOffset_sunday march november s2 changes
  · -- the night of a new year is standard time on both sides
    obtain ⟨before, midnight⟩ := days.resolve_left fun same => year (by rw [same])
    obtain ⟨low', high'⟩ := ofDays_year_bounds n'
    obtain ⟨-, -, s1', s2', s3'⟩ := saving_spec (Date.ofDays n').year
    have first : n ≤ yearStart (Date.ofDays n).year := by
      by_contra inside
      exact year (ofDays_year_eq (by omega) (by omega))
    have last : yearStart ((Date.ofDays n').year + 1) ≤ n := by
      by_contra inside
      exact year (ofDays_year_eq (by omega) (by omega)).symm
    have standard : savingOffset (savingStart (Date.ofDays n).year)
        (savingEnd (Date.ofDays n).year) t = -5 * hour := by
      refine if_neg fun h => ?_
      simp only [hour, day] at h midnight
      omega
    have standard' : savingOffset (savingStart (Date.ofDays n').year)
        (savingEnd (Date.ofDays n').year) (t - 1) = -5 * hour := by
      refine if_neg fun h => ?_
      simp only [hour, day] at h midnight
      omega
    rw [standard, standard'] at changes
    exact absurd rfl changes

/-- `America/New_York` -/
def newYork : SundayClock where
  offset := newYorkOffset
  two := newYorkOffset_eq
  sunday := newYorkOffset_sunday

/-- The reading and its instant are those of the clock. -/
theorem newYorkUtc_eq (w : ℤ) : newYorkUtc w = newYork.utc w := by
  have read : newYorkUtc w =
      w - savingOffset (savingStart (Date.ofDays (w / day)).year)
        (savingEnd (Date.ofDays (w / day)).year) (w + 4 * hour) := by
    unfold newYorkUtc newYorkWallOffset savingOffset
    dsimp only
    generalize savingStart (Date.ofDays (w / day)).year = march
    generalize savingEnd (Date.ofDays (w / day)).year = november
    have same : (march * day + 3 * hour ≤ w ∧ w < november * day + 2 * hour) ↔
        (march * day + 7 * hour ≤ w + 4 * hour ∧ w + 4 * hour < november * day + 6 * hour) := by
      simp only [hour, day]
      omega
    exact congrArg (fun offset => w - offset) (if_congr same rfl rfl)
  have clock : newYork.utc w = w - savingOffset (savingStart (Date.ofDays ((w - hour) / day)).year)
      (savingEnd (Date.ofDays ((w - hour) / day)).year) (w + 4 * hour) := by
    have at_ : newYork.offset (w + 4 * hour) =
        savingOffset (savingStart (Date.ofDays ((w - hour) / day)).year)
          (savingEnd (Date.ofDays ((w - hour) / day)).year) (w + 4 * hour) := by
      show newYorkOffset (w + 4 * hour) = _
      have back : w + 4 * hour - 5 * hour = w - hour := by ring
      unfold newYorkOffset savingOffset
      rw [back]
    rw [← at_, SundayClock.utc]
    rcases newYork.two (w + 4 * hour) with saving | standard
    · rw [if_pos saving, saving]
      ring
    · rw [if_neg (by rw [standard]; decide), standard]
      ring
  rw [read, clock]
  have days : (w - hour) / day = w / day ∨
      (w - hour) / day = w / day - 1 ∧ w - hour < w / day * day := by
    simp only [hour, day]
    omega
  have base : w / day * day ≤ w := by
    simp only [day]
    omega
  generalize w / day = n at days base ⊢
  generalize (w - hour) / day = n' at days ⊢
  by_cases year : (Date.ofDays n').year = (Date.ofDays n).year
  · rw [year]
  · -- the first hour of a new year is standard time either way
    obtain ⟨before, midnight⟩ := days.resolve_left fun same => year (by rw [same])
    obtain ⟨low, high⟩ := ofDays_year_bounds n
    obtain ⟨low', high'⟩ := ofDays_year_bounds n'
    obtain ⟨-, -, s1, s2, s3⟩ := saving_spec (Date.ofDays n).year
    obtain ⟨-, -, s1', s2', s3'⟩ := saving_spec (Date.ofDays n').year
    have first : n ≤ yearStart (Date.ofDays n).year := by
      by_contra inside
      exact year (ofDays_year_eq (by omega) (by omega))
    have last : yearStart ((Date.ofDays n').year + 1) ≤ n := by
      by_contra inside
      exact year (ofDays_year_eq (by omega) (by omega)).symm
    have standard : savingOffset (savingStart (Date.ofDays n).year)
        (savingEnd (Date.ofDays n).year) (w + 4 * hour) = -5 * hour := by
      refine if_neg fun h => ?_
      simp only [hour, day] at h midnight base
      omega
    have standard' : savingOffset (savingStart (Date.ofDays n').year)
        (savingEnd (Date.ofDays n').year) (w + 4 * hour) = -5 * hour := by
      refine if_neg fun h => ?_
      simp only [hour, day] at h midnight base
      omega
    rw [standard, standard']

theorem newYorkWall_eq (t : Instant) : newYorkWall t = newYork.wall t := rfl

/-! ## Readings at 17:00 -/

/-- The 17:00 reading of a day. -/
def five (date : ℤ) : ℤ := date * day + 17 * hour

theorem five_regular (date : ℤ) : SundayClock.Regular (five date) := by
  simp only [SundayClock.Regular, five, hour, day]
  omega

theorem five_div (date : ℤ) : five date / day = date := by
  simp only [five, hour, day]
  omega

theorem atFive_eq (wall : ℤ) : atFive wall = five (wall / day) := rfl

/-- `datetime.combine(date, time(17), NEW_YORK).astimezone(UTC)` -/
def fiveAt (date : ℤ) : Instant := newYorkUtc (five date)

/-- The 17:00 of a day has come when its reading has. -/
theorem fiveAt_le_iff {date : ℤ} {t : Instant} : fiveAt date ≤ t ↔ five date ≤ newYorkWall t := by
  unfold fiveAt
  rw [newYorkUtc_eq]
  exact SundayClock.utc_le_iff (five_regular date)

theorem wall_fiveAt (date : ℤ) : newYorkWall (fiveAt date) = five date := by
  unfold fiveAt
  rw [newYorkUtc_eq, newYorkWall_eq]
  exact SundayClock.wall_utc (five_regular date).unskipped

theorem fiveAt_lt {date date' : ℤ} (less : date < date') : fiveAt date < fiveAt date' := by
  unfold fiveAt
  rw [newYorkUtc_eq, newYorkUtc_eq]
  refine SundayClock.utc_lt_utc (five_regular date) (five_regular date') ?_
  simp only [five, hour, day]
  omega

/-- An instant that reads 17:00 is that of its day. -/
theorem eq_fiveAt_iff {date : ℤ} {t : Instant} : fiveAt date = t ↔ newYorkWall t = five date := by
  constructor
  · rintro rfl
    exact wall_fiveAt date
  · intro read
    have regular : SundayClock.Regular (newYork.wall t) := by
      rw [← newYorkWall_eq, read]
      exact five_regular date
    have back := SundayClock.utc_wall regular
    rw [← newYorkWall_eq, read, ← newYorkUtc_eq] at back
    exact back

/-- A later instant is on the same day or a later one. -/
theorem newYorkDay_le {t t' : Instant} (later : t ≤ t') :
    newYorkWall t / day ≤ newYorkWall t' / day := by
  have regular : SundayClock.Regular (newYorkWall t / day * day) := by
    simp only [SundayClock.Regular, hour, day]
    omega
  have passed : newYorkWall t / day * day ≤ newYorkWall t := by
    simp only [day]
    omega
  have midnight := (SundayClock.utc_le_iff (c := newYork) regular).mpr passed
  have still := (SundayClock.utc_le_iff (c := newYork) regular).mp (Int.le_trans midnight later)
  rw [← newYorkWall_eq] at still
  simp only [day] at still ⊢
  omega

end Civil
