import Mathlib.Algebra.BigOperators.Group.List.Lemmas
import TradeRecommender.Lib.Bisect
import TradeRecommender.Lib.NewYorkClock
import TradeRecommender.MarketStrategy.Simulation
import TradeRecommender.Strategy.ExploratoryReturns

/-!
# Rollover calendars

Four loops enumerate 17:00 of New York: `_rollover_times` of `research/exploratory_returns_v2.py`,
`financing_days_between` of `forecasts/costs.py`, `crosses_rollover` of
`research/validation_execution.py` and the required rollovers of `market/strategy/simulation.py`.

1. the two loops over dates;
2. the rollovers after an entry, through an exit;
3. the days they count and the days financing is charged for;
4. crossing a rollover.
-/

namespace TradeRecommender.Strategy.Returns

open Civil (Instant day hour weekday newYorkWall newYorkUtc five fiveAt)
open MarketStrategy.Scenario (requiredRollovers)

/-! ## Loops over dates -/

/-- `while cursor <= final_date` -/
def datesThrough (cursor final : ℤ) : List ℤ :=
  (List.range (final - cursor + 1).toNat).map fun n : ℕ => cursor + n

/-- `3 if cursor.weekday() == 2 else 1` -/
def multiplier (date : ℤ) : ℤ := if weekday date = 2 then 3 else 1

/-- `financing_days_between` -/
def financingDaysBetween (start end_ : Instant) : ℤ :=
  if end_ ≤ start then 0
  else ((datesThrough (newYorkWall start / day) (newYorkWall end_ / day)).map fun cursor =>
    if start < fiveAt cursor ∧ fiveAt cursor < end_ ∧ weekday cursor < 5 then multiplier cursor
    else 0).sum

/-- `crosses_rollover` -/
def crossesRollover (start end_ : Instant) : Bool :=
  (datesThrough (newYorkWall start / day) (newYorkWall end_ / day)).any fun date =>
    start ≤ fiveAt date ∧ fiveAt date ≤ end_

theorem mem_datesThrough {cursor final date : ℤ} :
    date ∈ datesThrough cursor final ↔ cursor ≤ date ∧ date ≤ final := by
  unfold datesThrough
  rw [List.mem_map]
  constructor
  · rintro ⟨n, mem, rfl⟩
    rw [List.mem_range] at mem
    omega
  · rintro ⟨first, last⟩
    exact ⟨(date - cursor).toNat, List.mem_range.mpr (by omega), by omega⟩

theorem nodup_datesThrough (cursor final : ℤ) : (datesThrough cursor final).Nodup := by
  refine List.nodup_range.map fun m n same => ?_
  have cast : cursor + (m : ℤ) = cursor + (n : ℤ) := same
  omega

/-! ## The rollovers of a position -/

/-- The date whose 17:00 is the first after the entry. -/
def firstDate (entryAt : Instant) : ℤ :=
  let date := newYorkWall entryAt / day
  if fiveAt date ≤ entryAt then date + 1 else date

section
variable {entryAt exitAt : Instant} {date : ℤ}

theorem five_le {date date' : ℤ} : five date ≤ five date' ↔ date ≤ date' := by
  simp only [five, hour, day]
  omega

theorem laterFive_eq (date : ℤ) (n : ℕ) : laterFive (five date) n = five (date + n) := by
  simp only [laterFive, five]
  ring

/-- A 17:00 after the entry is that of the first date or a later one. -/
theorem entry_lt_fiveAt : entryAt < fiveAt date ↔ firstDate entryAt ≤ date := by
  have passed : fiveAt date ≤ entryAt ↔ five date ≤ newYorkWall entryAt := Civil.fiveAt_le_iff
  rw [← not_iff_not]
  refine Int.not_lt.trans (passed.trans ?_)
  have own : fiveAt (newYorkWall entryAt / day) ≤ entryAt ↔
      five (newYorkWall entryAt / day) ≤ newYorkWall entryAt := Civil.fiveAt_le_iff
  simp only [firstDate, own]
  simp only [five, hour, day]
  split_ifs <;> omega

/-- The dates whose 17:00 the loop runs through. -/
theorem fivesThrough_eq (first : ℤ) : fivesThrough (five first) exitAt =
    ((List.range ((exitAt - five first) / day + 2).toNat).filter fun n : ℕ =>
      fiveAt (first + n) ≤ exitAt).map fun n : ℕ => five (first + n) := by
  have later : Bisect.DownClosed fun n : ℕ => decide (fiveAt (first + n) ≤ exitAt) := by
    intro m n le reached
    rw [decide_eq_true_eq] at reached ⊢
    rcases Nat.lt_or_eq_of_le le with less | rfl
    · have order : fiveAt (first + m) < fiveAt (first + n) :=
        Civil.fiveAt_lt (by omega)
      exact Int.le_trans (Int.le_of_lt order) reached
    · exact reached
  have ascending : (List.range ((exitAt - five first) / day + 2).toNat).Pairwise (· ≤ ·) :=
    List.pairwise_le_range
  have readings : laterFive (five first) = fun n : ℕ => five (first + n) :=
    funext (laterFive_eq first)
  unfold fivesThrough
  rw [List.takeWhile_map, ← Bisect.takeWhile_eq_filter later ascending, readings]
  rfl

/-- The dates of the rollovers after an entry, through an exit. -/
def rolloverDates (entryAt exitAt : Instant) : List ℤ :=
  (datesThrough (newYorkWall entryAt / day) (newYorkWall exitAt / day)).filter fun date =>
    entryAt < fiveAt date ∧ fiveAt date ≤ exitAt ∧ weekday date < 5

theorem pairwise_datesThrough (cursor final : ℤ) :
    (datesThrough cursor final).Pairwise (· < ·) := by
  refine List.pairwise_map.mpr (List.pairwise_lt_range.imp fun less => ?_)
  omega

/-- A 17:00 between two instants is that of a date between theirs. -/
theorem date_between (after : entryAt ≤ fiveAt date) (before : fiveAt date ≤ exitAt) :
    date ∈ datesThrough (newYorkWall entryAt / day) (newYorkWall exitAt / day) := by
  have first := Civil.newYorkDay_le after
  have last := Civil.newYorkDay_le before
  rw [Civil.wall_fiveAt, Civil.five_div] at first last
  exact mem_datesThrough.mpr ⟨first, last⟩

theorem mem_rolloverDates : date ∈ rolloverDates entryAt exitAt ↔
    entryAt < fiveAt date ∧ fiveAt date ≤ exitAt ∧ weekday date < 5 := by
  unfold rolloverDates
  rw [List.mem_filter, decide_eq_true_eq]
  constructor
  · exact And.right
  · exact fun h => ⟨date_between (Int.le_of_lt h.1) h.2.1, h⟩

/-- **The rollovers of a position** are the weekday 17:00 of the dates between. -/
theorem rolloverTimes_eq (entryAt exitAt : Instant) : rolloverTimes entryAt exitAt =
    (rolloverDates entryAt exitAt).map fun date => (fiveAt date, multiplier date) := by
  have start : (if newYorkUtc (Civil.atFive (newYorkWall entryAt)) ≤ entryAt then
      Civil.atFive (newYorkWall entryAt) + day else Civil.atFive (newYorkWall entryAt)) =
      five (firstDate entryAt) := by
    rw [Civil.atFive_eq]
    show (if fiveAt (newYorkWall entryAt / day) ≤ entryAt then five (newYorkWall entryAt / day) + day
      else five (newYorkWall entryAt / day)) =
      five (if fiveAt (newYorkWall entryAt / day) ≤ entryAt then newYorkWall entryAt / day + 1
        else newYorkWall entryAt / day)
    by_cases passed : fiveAt (newYorkWall entryAt / day) ≤ entryAt
    · rw [if_pos passed, if_pos passed]
      simp only [five]
      ring
    · rw [if_neg passed, if_neg passed]
  have dates : ((List.range ((exitAt - five (firstDate entryAt)) / day + 2).toNat).filter
      (fun n : ℕ => fiveAt (firstDate entryAt + n) ≤ exitAt ∧
        weekday (firstDate entryAt + n) < 5)).map (fun n : ℕ => firstDate entryAt + (n : ℤ)) =
      rolloverDates entryAt exitAt := by
    have increasing : (((List.range ((exitAt - five (firstDate entryAt)) / day + 2).toNat).filter
        (fun n : ℕ => fiveAt (firstDate entryAt + n) ≤ exitAt ∧
          weekday (firstDate entryAt + n) < 5)).map
          (fun n : ℕ => firstDate entryAt + (n : ℤ))).Pairwise (· < ·) := by
      refine List.pairwise_map.mpr ((List.pairwise_lt_range.filter _).imp fun less => ?_)
      omega
    have increasing' : (rolloverDates entryAt exitAt).Pairwise (· < ·) :=
      (pairwise_datesThrough _ _).filter _
    refine ((List.perm_ext_iff_of_nodup (increasing.imp ne_of_lt)
      (increasing'.imp ne_of_lt)).mpr fun date => ?_).eq_of_pairwise
      (fun a b _ _ less more => absurd (lt_trans less more) (lt_irrefl a)) increasing increasing'
    rw [mem_rolloverDates, entry_lt_fiveAt, List.mem_map]
    constructor
    · rintro ⟨n, mem, rfl⟩
      obtain ⟨-, passes⟩ := List.mem_filter.mp mem
      exact ⟨by omega, decide_eq_true_iff.mp passes⟩
    · rintro ⟨from_, before, week⟩
      refine ⟨(date - firstDate entryAt).toNat, List.mem_filter.mpr ⟨?_, ?_⟩, by omega⟩
      · -- the reading of the exit bounds the days
        have reached := Civil.fiveAt_le_iff.mp before
        have bound : newYorkWall exitAt ≤ exitAt := by
          rcases Civil.newYorkOffset_eq exitAt with h | h <;>
          · rw [newYorkWall, h]
            simp only [hour]
            unfold Instant
            omega
        have within : five date ≤ exitAt := Int.le_trans reached bound
        rw [List.mem_range]
        simp only [five, hour, day] at within ⊢
        unfold Instant at *
        omega
      · rw [decide_eq_true_eq, show firstDate entryAt + ((date - firstDate entryAt).toNat : ℤ) = date
          by omega]
        exact ⟨before, week⟩
  unfold rolloverTimes
  dsimp only
  rw [start, fivesThrough_eq, List.filter_map, List.map_map, List.filter_filter, ← dates,
    List.map_map]
  have weekdays : ∀ n : ℕ, ((fun wall => decide (weekday (wall / day) ≤ 4)) ∘
      fun n : ℕ => five (firstDate entryAt + n)) n = decide (weekday (firstDate entryAt + n) < 5) := by
    intro n
    show decide (weekday (five (firstDate entryAt + n) / day) ≤ 4) = _
    rw [Civil.five_div]
    exact decide_eq_decide.mpr Int.lt_add_one_iff.symm
  have counted : ((fun wall => (newYorkUtc wall, if weekday (wall / day) = 2 then (3 : ℤ) else 1)) ∘
      fun n : ℕ => five (firstDate entryAt + n)) =
      (fun date => (fiveAt date, multiplier date)) ∘ fun n : ℕ => firstDate entryAt + (n : ℤ) := by
    funext n
    show (_, if weekday (five (firstDate entryAt + n) / day) = 2 then (3 : ℤ) else 1) = _
    rw [Civil.five_div]
    rfl
  rw [counted]
  refine congrArg _ (List.filter_congr fun n _ => ?_)
  rw [weekdays, Bool.and_comm, ← Bool.decide_and]

/-! ## Days of financing -/

/-- The multiplier of an instant at 17:00 of a weekday. -/
def endMultiplier (t : Instant) : ℤ :=
  if newYorkWall t % day = 17 * hour ∧ weekday (newYorkWall t / day) < 5 then
    multiplier (newYorkWall t / day)
  else 0

theorem sum_filter {p : ℤ → Bool} {f : ℤ → ℤ} (dates : List ℤ) :
    ((dates.filter p).map f).sum = (dates.map fun date => if p date then f date else 0).sum := by
  induction dates with
  | nil => rfl
  | cons date dates ih =>
    rw [List.map_cons, List.sum_cons, ← ih]
    by_cases h : p date = true
    · rw [List.filter_cons_of_pos h, List.map_cons, List.sum_cons, if_pos h]
    · rw [List.filter_cons_of_neg h, if_neg h, zero_add]

theorem fiveAt_eq_iff : fiveAt date = exitAt ↔
    date = newYorkWall exitAt / day ∧ newYorkWall exitAt % day = 17 * hour := by
  rw [Civil.eq_fiveAt_iff]
  simp only [five, hour, day]
  omega

/-- **The rollovers of a position and the days of financing** differ by a rollover at its end. -/
theorem sum_rolloverTimes (later : entryAt < exitAt) :
    ((rolloverTimes entryAt exitAt).map Prod.snd).sum =
      financingDaysBetween entryAt exitAt + endMultiplier exitAt := by
  have last : newYorkWall exitAt / day ∈
      datesThrough (newYorkWall entryAt / day) (newYorkWall exitAt / day) :=
    mem_datesThrough.mpr ⟨Civil.newYorkDay_le (Int.le_of_lt later), Int.le_refl _⟩
  have single : ((datesThrough (newYorkWall entryAt / day) (newYorkWall exitAt / day)).map
      fun date => if date = newYorkWall exitAt / day then endMultiplier exitAt else 0).sum =
      endMultiplier exitAt := by
    rw [List.sum_map_eq_nsmul_single (newYorkWall exitAt / day) _ fun date ne _ => if_neg ne,
      List.count_eq_one_of_mem (nodup_datesThrough _ _) last, one_nsmul, if_pos rfl]
  have each : ∀ date, (if entryAt < fiveAt date ∧ fiveAt date ≤ exitAt ∧ weekday date < 5 then
      multiplier date else 0) =
      (if entryAt < fiveAt date ∧ fiveAt date < exitAt ∧ weekday date < 5 then multiplier date
        else 0) +
      if date = newYorkWall exitAt / day then endMultiplier exitAt else 0 := by
    intro date
    by_cases equal : fiveAt date = exitAt
    · -- the rollover at the end
      obtain ⟨same, five⟩ := fiveAt_eq_iff.mp equal
      have apart : (if entryAt < fiveAt date ∧ fiveAt date < exitAt ∧ weekday date < 5 then
          multiplier date else 0) = 0 := if_neg fun h => Int.ne_of_lt h.2.1 equal
      rw [apart, zero_add, if_pos same, equal, same]
      unfold endMultiplier
      by_cases week : weekday (newYorkWall exitAt / day) < 5
      · rw [if_pos ⟨later, Int.le_refl _, week⟩, if_pos ⟨five, week⟩]
      · rw [if_neg fun h => week h.2.2, if_neg fun h => week h.2]
    · have rest : (if date = newYorkWall exitAt / day then endMultiplier exitAt else 0) = 0 := by
        by_cases same : date = newYorkWall exitAt / day
        · rw [if_pos same]
          exact if_neg fun h => equal (fiveAt_eq_iff.mpr ⟨same, h.1⟩)
        · exact if_neg same
      have strict : fiveAt date ≤ exitAt ↔ fiveAt date < exitAt :=
        ⟨fun le => Int.lt_iff_le_and_ne.mpr ⟨le, equal⟩, Int.le_of_lt⟩
      rw [rest, add_zero]
      exact if_congr (and_congr_right fun _ => and_congr_left fun _ => strict) rfl rfl
  rw [rolloverTimes_eq, List.map_map]
  show ((rolloverDates entryAt exitAt).map multiplier).sum = _
  unfold rolloverDates financingDaysBetween
  rw [sum_filter, if_neg (Int.not_le.mpr later)]
  conv_rhs => rw [← single, ← List.sum_map_add]
  simp only [decide_eq_true_eq, each]

/-! ## Crossing a rollover -/

theorem mem_requiredRollovers {at_ : Instant} : at_ ∈ requiredRollovers entryAt exitAt ↔
    ∃ date, at_ = fiveAt date ∧ entryAt ≤ fiveAt date ∧ fiveAt date ≤ exitAt := by
  have readings : ∀ n : ℕ, newYorkUtc (Civil.atFive (newYorkWall entryAt) + n * day) =
      fiveAt (newYorkWall entryAt / day + n) := by
    intro n
    unfold fiveAt
    refine congrArg newYorkUtc ?_
    simp only [Civil.atFive, five]
    ring
  unfold requiredRollovers
  simp only [List.mem_filter, List.mem_map, decide_eq_true_eq, List.bind_eq_flatMap, List.pure_def,
    List.mem_flatMap, List.mem_singleton, List.mem_range]
  constructor
  · rintro ⟨⟨_, ⟨n, -, rfl⟩, rfl⟩, inside⟩
    rw [readings] at inside ⊢
    exact ⟨_, rfl, inside⟩
  · rintro ⟨date, rfl, after, before⟩
    obtain ⟨first, -⟩ := mem_datesThrough.mp (date_between after before)
    refine ⟨⟨_, ⟨(date - newYorkWall entryAt / day).toNat, ?_, rfl⟩, ?_⟩, after, before⟩
    · have reached := Civil.fiveAt_le_iff.mp before
      simp only [Civil.atFive, five, hour, day] at reached first ⊢
      omega
    · rw [readings]
      refine congrArg fiveAt ?_
      omega

theorem crossesRollover_iff : crossesRollover entryAt exitAt = true ↔
    ∃ date, entryAt ≤ fiveAt date ∧ fiveAt date ≤ exitAt := by
  unfold crossesRollover
  rw [List.any_eq_true]
  simp only [decide_eq_true_eq]
  constructor
  · rintro ⟨date, -, inside⟩
    exact ⟨date, inside⟩
  · rintro ⟨date, after, before⟩
    exact ⟨date, date_between after before, after, before⟩

/-- **Rollover calendars agree**: each weekday's 17:00 after the entry, through the exit, is counted
once; what they count is what financing is charged for, but for a rollover at the exit; and a
position crosses a rollover where the simulator requires one. -/
theorem rollover_calendars (later : entryAt < exitAt) :
    ((rolloverTimes entryAt exitAt).map Prod.snd).sum =
        financingDaysBetween entryAt exitAt + endMultiplier exitAt ∧
      ((rolloverTimes entryAt exitAt).Pairwise fun r r' => r.1 < r'.1) ∧
      (∀ r, r ∈ rolloverTimes entryAt exitAt ↔ ∃ date, weekday date < 5 ∧
        newYorkWall r.1 = five date ∧ r.2 = multiplier date ∧ entryAt < r.1 ∧ r.1 ≤ exitAt) ∧
      (crossesRollover entryAt exitAt = true ↔ requiredRollovers entryAt exitAt ≠ []) := by
  refine ⟨sum_rolloverTimes later, ?_, fun r => ?_, ?_⟩
  · rw [rolloverTimes_eq]
    refine List.pairwise_map.mpr (((pairwise_datesThrough _ _).filter _).imp fun less => ?_)
    exact Civil.fiveAt_lt less
  · rw [rolloverTimes_eq, List.mem_map]
    constructor
    · rintro ⟨date, mem, rfl⟩
      obtain ⟨after, before, week⟩ := mem_rolloverDates.mp mem
      exact ⟨date, week, Civil.wall_fiveAt date, rfl, after, before⟩
    · rintro ⟨date, week, read, counts, after, before⟩
      have same := Civil.eq_fiveAt_iff.mpr read
      rw [← same] at after before
      exact ⟨date, mem_rolloverDates.mpr ⟨after, before, week⟩, Prod.ext same counts.symm⟩
  · rw [crossesRollover_iff]
    constructor
    · rintro ⟨date, inside⟩
      exact List.ne_nil_of_mem (mem_requiredRollovers.mpr ⟨date, rfl, inside⟩)
    · intro some_
      obtain ⟨at_, mem⟩ := List.exists_mem_of_ne_nil _ some_
      obtain ⟨date, -, inside⟩ := mem_requiredRollovers.mp mem
      exact ⟨date, inside⟩

end

/-- A position from a Wednesday to its 17:00. -/
theorem rollover_calendars_wednesday :
    ((rolloverTimes (19725 * day) (fiveAt 19725)).map Prod.snd).sum =
      financingDaysBetween (19725 * day) (fiveAt 19725) + endMultiplier (fiveAt 19725) :=
  (rollover_calendars (show (19725 * day : ℤ) < fiveAt 19725 by decide)).1

end TradeRecommender.Strategy.Returns
