import TradeRecommender.Strategy.FixedCapital

/-!
# The development calendar

The 108 months of the development years in order, each ending on a day of its own. A 17:00 New York
mark lies on the New York day it is the mark of, and separates the days before from those after.
-/

namespace TradeRecommender.Strategy.Returns

open Civil (Instant)

/-! ## Marks and days -/

/-- A mark lies between 21:00 and 22:00 UTC of its day. -/
theorem markAt_bounds (d : ℤ) : ∃ mark : ℤ, markAt d = mark ∧
    d * Civil.day + 21 * Civil.hour ≤ mark ∧ mark ≤ d * Civil.day + 22 * Civil.hour := by
  refine ⟨markAt d, rfl, ?_, ?_⟩ <;>
  · unfold markAt Civil.newYorkUtc
    rcases Civil.newYorkWallOffset_eq (d * Civil.day + 17 * Civil.hour) with h | h <;>
      rw [h] <;> simp only [Civil.day, Civil.hour] <;> omega

/-- An instant up to a day's mark lies on that day or before it. -/
theorem newYorkDay_le {t d : ℤ} (h : t ≤ markAt d) : newYorkDay t ≤ d := by
  obtain ⟨mark, hmark, _, hhigh⟩ := markAt_bounds d
  have hle : t ≤ mark := hmark ▸ h
  unfold newYorkDay Civil.newYorkWall
  rcases Civil.newYorkOffset_eq t with hoffset | hoffset <;> rw [hoffset] <;>
    simp only [Civil.day, Civil.hour] at * <;> omega

/-- An instant from a day's mark on lies on that day or after it. -/
theorem le_newYorkDay {t d : ℤ} (h : markAt d ≤ t) : d ≤ newYorkDay t := by
  obtain ⟨mark, hmark, hlow, _⟩ := markAt_bounds d
  have hle : mark ≤ t := hmark ▸ h
  unfold newYorkDay Civil.newYorkWall
  rcases Civil.newYorkOffset_eq t with hoffset | hoffset <;> rw [hoffset] <;>
    simp only [Civil.day, Civil.hour] at * <;> omega

/-- A mark lies on its own day. -/
theorem newYorkDay_markAt (d : ℤ) : newYorkDay (markAt d) = d :=
  le_antisymm (newYorkDay_le le_rfl) (le_newYorkDay le_rfl)

/-! ## Years -/

/-- The year of the era is a piecewise constant function of the day of the era. -/
theorem yearOfEra_bounds {e : ℤ} (h0 : 0 ≤ e) (h : e < 146097) :
    0 ≤ (e - e / 1460 + e / 36524 - e / 146096) / 365 ∧
      (e - e / 1460 + e / 36524 - e / 146096) / 365 ≤ 399 := by omega

/-- A day before the first one lies in an earlier year. -/
theorem year_of_early {d : ℤ} (h : d < firstDay) : (Civil.Date.ofDays d).year < 2010 := by
  have hfirst : firstDay = 14610 := by decide
  have hy := yearOfEra_bounds (e := (d + 719468) % 146097) (by omega) (by omega)
  unfold Civil.Date.ofDays
  dsimp only
  rcases (by omega : (d + 719468) / 146097 ≤ 4 ∨ (d + 719468) / 146097 = 5) with he | he
  · generalize (d + 719468) % 146097 = e at *
    generalize (e - e / 1460 + e / 36524 - e / 146096) / 365 = y at *
    split_ifs <;> omega
  · -- within the era of 2000 the day of the era fixes the year
    have hr : (d + 719468) % 146097 = d - 11017 := by omega
    rw [he, hr]
    generalize d - 11017 = e at *
    have hcentury : e / 36524 = 0 := by omega
    have hera : e / 146096 = 0 := by omega
    rw [hcentury, hera]
    simp only [add_zero, sub_zero]
    generalize hyear : (e - e / 1460) / 365 = y at *
    have hnine : y ≤ 8 ∨ y = 9 := by omega
    split_ifs
    · omega
    · rcases hnine with h | rfl <;> omega

/-- A day after the last one lies in a later year. -/
theorem year_of_late {d : ℤ} (h : firstDay + dayCount ≤ d) : 2018 < (Civil.Date.ofDays d).year := by
  have hlast : firstDay + dayCount = 17897 := by decide
  have hy := yearOfEra_bounds (e := (d + 719468) % 146097) (by omega) (by omega)
  unfold Civil.Date.ofDays
  dsimp only
  rcases (by omega : 6 ≤ (d + 719468) / 146097 ∨ (d + 719468) / 146097 = 5) with he | he
  · generalize (d + 719468) % 146097 = e at *
    generalize (e - e / 1460 + e / 36524 - e / 146096) / 365 = y at *
    split_ifs <;> omega
  · have hr : (d + 719468) % 146097 = d - 11017 := by omega
    have hrange : d - 11017 < 146097 := by omega
    rw [he, hr]
    clear hy
    generalize d - 11017 = e at *
    have heighteen : (e - e / 1460 + e / 36524 - e / 146096) / 365 = 18 ∧ 6880 ≤ e ∧ e < 7305 ∨
        19 ≤ (e - e / 1460 + e / 36524 - e / 146096) / 365 := by omega
    generalize (e - e / 1460 + e / 36524 - e / 146096) / 365 = y at *
    split_ifs
    · rcases heighteen with ⟨rfl, _, _⟩ | h <;> omega
    · omega

/-! ## Months -/

/-- The place of a month among the months from January 2010. -/
def monthIndex (month : Month) : ℤ := (month.1 - 2010) * 12 + month.2 - 1

/-- The place of the month of a day. -/
def dayIndex (d : ℤ) : ℤ := monthIndex (monthOf d)

/-- The last day of the month at a place. -/
def lastDay (i : ℕ) : ℤ :=
  (Civil.Date.mk (2010 + ((i : ℤ) + 1) / 12) (1 + ((i : ℤ) + 1) % 12) 1).toDays - 1

/-- The day of the era of 2000 and the March year it lies in. -/
theorem ofYear_bounds {e y : ℤ} (h0 : 3593 ≤ e) (h : e < 6880) (hy : y = (e - e / 1460) / 365) :
    0 ≤ e - (365 * y + y / 4) ∧ e - (365 * y + y / 4) ≤ 365 := by
  have hq : e / 1460 = 2 ∨ e / 1460 = 3 ∨ e / 1460 = 4 := by omega
  rcases hq with hq | hq | hq <;> rw [hq] at hy <;> omega

/-- Within the development years the place of a month is a count of March months. -/
theorem dayIndex_eq {d y : ℤ} (h0 : firstDay ≤ d) (h : d < firstDay + dayCount)
    (hy : y = (d - 11017 - (d - 11017) / 1460) / 365) :
    dayIndex d = 12 * (y - 10) + (5 * (d - 11017 - (365 * y + y / 4)) + 2) / 153 + 2 := by
  have hfirst : firstDay = 14610 := by decide
  have hlast : firstDay + dayCount = 17897 := by decide
  have he : (d + 719468) / 146097 = 5 := by omega
  have hr : (d + 719468) % 146097 = d - 11017 := by omega
  unfold dayIndex monthIndex monthOf Civil.Date.ofDays
  dsimp only
  rw [he, hr]
  have hcentury : (d - 11017) / 36524 = 0 := by omega
  have hera : (d - 11017) / 146096 = 0 := by omega
  rw [hcentury, hera]
  simp only [add_zero, sub_zero]
  rw [← hy]
  have hhundred : y / 100 = 0 := by omega
  rw [hhundred, sub_zero]
  split_ifs <;> omega

/-- The places of the months ascend with the days. -/
theorem dayIndex_mono {d d' : ℤ} (h0 : firstDay ≤ d) (hle : d ≤ d')
    (h : d' < firstDay + dayCount) : dayIndex d ≤ dayIndex d' := by
  have hfirst : firstDay = 14610 := by decide
  have hlast : firstDay + dayCount = 17897 := by decide
  rw [dayIndex_eq h0 (by omega) rfl, dayIndex_eq (by omega) h rfl]
  have hb := ofYear_bounds (e := d - 11017) (by omega) (by omega) rfl
  have hb' := ofYear_bounds (e := d' - 11017) (by omega) (by omega) rfl
  have hy : (d - 11017 - (d - 11017) / 1460) / 365 ≤ (d' - 11017 - (d' - 11017) / 1460) / 365 := by
    omega
  generalize (d - 11017 - (d - 11017) / 1460) / 365 = y at *
  generalize (d' - 11017 - (d' - 11017) / 1460) / 365 = y' at *
  rcases hy.lt_or_eq with hlt | rfl
  · omega
  · omega

/-- Each month ends on its last day. -/
theorem calendar_months : ∀ i ∈ List.range 108,
    monthKeys[i]? = some (monthOf (lastDay i)) ∧ firstDay ≤ lastDay i ∧
      lastDay i < firstDay + dayCount ∧ dayIndex (lastDay i) = i ∧
      (lastDay i + 1 < firstDay + dayCount → dayIndex (lastDay i + 1) = i + 1) := by
  decide +kernel

theorem mem_monthKeys {month : Month} (h : month ∈ monthKeys) :
    2010 ≤ month.1 ∧ month.1 ≤ 2018 ∧ 1 ≤ month.2 ∧ month.2 ≤ 12 := by
  unfold monthKeys at h
  obtain ⟨y, hy, h⟩ := List.mem_flatMap.mp h
  obtain ⟨m, hm, rfl⟩ := List.mem_map.mp h
  rw [List.mem_range] at hy hm
  dsimp only
  omega

/-- Months with the same place are the same. -/
theorem monthIndex_injOn {a b : Month} (ha : a ∈ monthKeys) (hb : b ∈ monthKeys)
    (h : monthIndex a = monthIndex b) : a = b := by
  obtain ⟨_, _, _, _⟩ := mem_monthKeys ha
  obtain ⟨_, _, _, _⟩ := mem_monthKeys hb
  unfold monthIndex at h
  ext <;> omega

/-- A day of a development month is a development day. -/
theorem development_of_mem {d : ℤ} (h : monthOf d ∈ monthKeys) :
    firstDay ≤ d ∧ d < firstDay + dayCount := by
  obtain ⟨hlow, hhigh, _, _⟩ := mem_monthKeys h
  constructor
  · by_contra hd
    have := year_of_early (not_le.mp hd)
    exact absurd hlow (not_le.mpr this)
  · by_contra hd
    have := year_of_late (not_lt.mp hd)
    exact absurd hhigh (not_le.mpr this)

/-! ## Month ends -/

/-- The instant of a month's last mark. -/
def lastMark (i : ℕ) : Instant := markAt (lastDay i)

variable {i : ℕ}

theorem monthKeys_lastDay (hi : i < 108) : monthKeys[i]? = some (monthOf (lastDay i)) :=
  (calendar_months i (List.mem_range.mpr hi)).1

theorem lastDay_development (hi : i < 108) :
    firstDay ≤ lastDay i ∧ lastDay i < firstDay + dayCount :=
  ⟨(calendar_months i (List.mem_range.mpr hi)).2.1, (calendar_months i (List.mem_range.mpr hi)).2.2.1⟩

theorem dayIndex_lastDay (hi : i < 108) : dayIndex (lastDay i) = i :=
  (calendar_months i (List.mem_range.mpr hi)).2.2.2.1

theorem mem_monthKeys_lastDay (hi : i < 108) : monthOf (lastDay i) ∈ monthKeys :=
  List.mem_of_getElem? (monthKeys_lastDay hi)

/-- An instant up to a month's last mark lies in that month or an earlier one. -/
theorem dayIndex_le_of_le_lastMark {t : Instant} (hi : i < 108) (ht : monthOf (newYorkDay t) ∈ monthKeys)
    (h : t ≤ lastMark i) : dayIndex (newYorkDay t) ≤ i := by
  rw [← dayIndex_lastDay hi]
  exact dayIndex_mono (development_of_mem ht).1 (newYorkDay_le h) (lastDay_development hi).2

/-- An instant after a month's last mark lies in that month or a later one. -/
theorem le_dayIndex_of_lastMark_lt {t : Instant} (hi : i < 108)
    (ht : monthOf (newYorkDay t) ∈ monthKeys) (h : lastMark i < t) :
    (i : ℤ) ≤ dayIndex (newYorkDay t) := by
  rw [← dayIndex_lastDay hi]
  exact dayIndex_mono (lastDay_development hi).1 (le_newYorkDay (le_of_lt h)) (development_of_mem ht).2

/-- The days after a month's last one lie in later months. -/
theorem lt_dayIndex_of_lastDay_lt {d : ℤ} (hi : i < 108) (h : lastDay i < d)
    (hd : d < firstDay + dayCount) : (i : ℤ) < dayIndex d := by
  have hnext := (calendar_months i (List.mem_range.mpr hi)).2.2.2.2 (by omega)
  have hfirst : firstDay ≤ lastDay i + 1 := by
    have := (lastDay_development hi).1
    omega
  have hmono := dayIndex_mono hfirst h hd
  omega

end TradeRecommender.Strategy.Returns
