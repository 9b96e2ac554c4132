import TradeRecommender.Lib.Civil

/-!
# New York wall time

Offsets of `America/New_York` under the rule in force since 2007: daylight saving from the second
Sunday of March to the first Sunday of November. A wall reading is the microseconds since the
epoch's wall midnight; one that an autumn change repeats is read as its first occurrence.
-/

namespace Civil

/-- The weekday of a day since the epoch, Monday being 0. -/
def weekday (days : ℤ) : ℤ := (days + 3) % 7

/-- The first Sunday on or after a day. -/
def sundayFrom (days : ℤ) : ℤ := days + (6 - weekday days)

/-- The day daylight saving begins. -/
def savingStart (year : ℤ) : ℤ := sundayFrom (Date.mk year 3 8).toDays

/-- The day daylight saving ends. -/
def savingEnd (year : ℤ) : ℤ := sundayFrom (Date.mk year 11 1).toDays

/-- The offset at an instant. -/
def newYorkOffset (instant : Instant) : ℤ :=
  let year := (Date.ofDays ((instant - 5 * hour) / day)).year
  if savingStart year * day + 7 * hour ≤ instant ∧ instant < savingEnd year * day + 6 * hour then
    -4 * hour
  else -5 * hour

/-- The offset a wall reading is taken at. -/
def newYorkWallOffset (wall : ℤ) : ℤ :=
  let year := (Date.ofDays (wall / day)).year
  if savingStart year * day + 3 * hour ≤ wall ∧ wall < savingEnd year * day + 2 * hour then
    -4 * hour
  else -5 * hour

/-- `astimezone(NY)` -/
def newYorkWall (instant : Instant) : ℤ := instant + newYorkOffset instant

/-- `astimezone(UTC)` of a New York wall reading. -/
def newYorkUtc (wall : ℤ) : Instant := wall - newYorkWallOffset wall

/-- `replace(hour=17, minute=0, second=0, microsecond=0)` -/
def atFive (wall : ℤ) : ℤ := wall / day * day + 17 * hour

theorem newYorkWallOffset_eq (wall : ℤ) :
    newYorkWallOffset wall = -4 * hour ∨ newYorkWallOffset wall = -5 * hour := by
  unfold newYorkWallOffset
  dsimp only
  split_ifs <;> simp

theorem newYorkOffset_eq (instant : Instant) :
    newYorkOffset instant = -4 * hour ∨ newYorkOffset instant = -5 * hour := by
  unfold newYorkOffset
  dsimp only
  split_ifs <;> simp

example : newYorkWall (newYorkUtc (20000 * day + 17 * hour)) = 20000 * day + 17 * hour := by decide

end Civil
