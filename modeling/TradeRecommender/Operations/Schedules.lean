import Mathlib.Data.Int.ConditionallyCompleteOrder
import Mathlib.Tactic.Ring
import TradeRecommender.Lib.Orbit
import TradeRecommender.Lib.Sorted
import TradeRecommender.Lib.Zone

/-!
# Schedules

`_advance` and `enqueue_due_jobs` of `operations/services.py`: the points of a schedule, and the
occurrences that a run of the scheduler creates for those that are due.

1. schedules and jobs;
2. what is due, and what its policy selects;
3. the scheduler;
4. the points of a schedule: when they move forward, and the dates they fall on;
5. what is due are the points up to now.
-/

namespace TradeRecommender.Operations

open Civil

/-! ## Jobs -/

/-- `ScheduledJob.MissedRunPolicy` -/
inductive MissedRunPolicy
  | latest | all | skip
  deriving DecidableEq

/-- `schedule_type` with the fields it reads, as `clean` admits them: an interval in seconds, or a
time of day in a zone. -/
inductive Schedule
  | interval (seconds : ℕ) (positive : 0 < seconds)
  | daily (zone : Zone) (localTime : ℤ) (inDay : 0 ≤ localTime ∧ localTime < day)

/-- `ScheduledJob` -/
structure ScheduledJob where
  id : ℕ
  taskName : String
  parameters : String
  schedule : Schedule
  missedRunPolicy : MissedRunPolicy
  nextRunAt : Instant
  enabled : Bool

/-- `MAX_CATCHUP_OCCURRENCES` -/
def maxCatchupOccurrences : ℕ := 1000

/-- `timedelta(seconds=seconds)` -/
def seconds (n : ℕ) : ℤ := n * 1000000

/-- `_advance` -/
def Schedule.advance : Schedule → Instant → Instant
  | .daily zone localTime _, value => zone.utc ((zone.date value + 1) * day + localTime)
  | .interval n _, value => value + seconds n

/-! ## What is due -/

/-- The next point of a daily schedule falls on a later date. -/
theorem date_lt_advance {zone : Zone} {localTime : ℤ} (inDay : 0 ≤ localTime ∧ localTime < day)
    (value : ℤ) : zone.date value + 1 ≤ zone.date ((Schedule.daily zone localTime inDay).advance value) := by
  have le := zone.le_wall_utc ((zone.date value + 1) * day + localTime)
  show zone.date value + 1 ≤ zone.wall (zone.utc ((zone.date value + 1) * day + localTime)) / day
  generalize zone.wall (zone.utc ((zone.date value + 1) * day + localTime)) = reading at *
  generalize zone.date value = date at *
  simp only [day] at *
  omega

/-- Up to a bound the dates of a zone are bounded. -/
theorem date_le {zone : Zone} {now cursor : ℤ} (due : cursor ≤ now) :
    zone.date cursor < now / day + 2 := by
  have bounds := zone.offset_bounds cursor
  unfold Zone.date Zone.wall
  generalize zone.offset cursor = offset at *
  simp only [day] at *
  omega

/-- The loop of a daily schedule: the points that are due, and the first that is not. -/
def dueFrom (zone : Zone) (localTime : ℤ) (inDay : 0 ≤ localTime ∧ localTime < day) (now : ℤ)
    (cursor : ℤ) : List Instant × Instant :=
  if _ : cursor ≤ now then
    let rest := dueFrom zone localTime inDay now ((Schedule.daily zone localTime inDay).advance cursor)
    (cursor :: rest.1, rest.2)
  else ([], cursor)
termination_by (now / day + 2 - zone.date cursor).toNat
decreasing_by
  have later : zone.date cursor + 1 ≤ _ := date_lt_advance inDay cursor
  have bounded : zone.date cursor < now / day + 2 := date_le ‹cursor ≤ now›
  omega

/-- What a job does when it is due: the count of its points, those selected, and the next. -/
structure Plan where
  dueCount : ℤ
  selected : List Instant
  nextRunAt : Instant

/-- The part of `enqueue_due_jobs` that reads a job's schedule. -/
def ScheduledJob.plan (job : ScheduledJob) (now : Instant) : Plan :=
  match job.schedule with
  | .interval n _ =>
    let cursor := job.nextRunAt
    let interval := seconds n
    let dueCount := (now - cursor) / interval + 1
    let selected := match job.missedRunPolicy with
      | .all =>
        let firstSelected := max 0 (dueCount - maxCatchupOccurrences)
        (List.range (dueCount - firstSelected).toNat).map fun index : ℕ =>
          cursor + (firstSelected + index) * interval
      | .latest => [cursor + (dueCount - 1) * interval]
      | .skip => []
    ⟨dueCount, selected, cursor + dueCount * interval⟩
  | .daily zone localTime inDay =>
    let due := dueFrom zone localTime inDay now job.nextRunAt
    let selected := match job.missedRunPolicy with
      | .all => due.1.drop (due.1.length - maxCatchupOccurrences)
      | .latest => due.1.drop (due.1.length - 1)
      | .skip => []
    ⟨due.1.length, selected, due.2⟩

/-! ## The scheduler -/

/-- `JobOccurrence`, as `enqueue_due_jobs` creates it. -/
structure Enqueued where
  idempotencyKey : String
  scheduledJob : ℕ
  taskName : String
  parameters : String
  scheduledFor : Instant
  availableAt : Instant
  latenessSeconds : ℤ
  skippedCount : ℤ
  deriving DecidableEq

/-- `f"{job.pk}:{scheduled_for.isoformat()}"` -/
def ScheduledJob.idempotencyKey (job : ScheduledJob) (scheduledFor : Instant) : String :=
  toString job.id ++ ":" ++ isoformat scheduledFor

/-- The occurrence of a point. -/
def ScheduledJob.occurrence (job : ScheduledJob) (now : Instant) (skipped : ℤ)
    (scheduledFor : Instant) : Enqueued where
  idempotencyKey := job.idempotencyKey scheduledFor
  scheduledJob := job.id
  taskName := job.taskName
  parameters := job.parameters
  scheduledFor := scheduledFor
  availableAt := now
  latenessSeconds := max 0 ((now - scheduledFor) / 1000000)
  skippedCount := skipped

/-- The tables of the scheduler. -/
structure Scheduler where
  jobs : List ScheduledJob
  occurrences : List Enqueued

namespace Scheduler

/-- `get_or_create` by the idempotency key, and whether it created. -/
def getOrCreate (s : Scheduler) (occurrence : Enqueued) : Bool × Scheduler :=
  if s.occurrences.any fun o => o.idempotencyKey = occurrence.idempotencyKey then (false, s)
  else (true, { s with occurrences := s.occurrences ++ [occurrence] })

/-- The rows that a run reads: enabled, due, and not locked by another transaction. -/
def dueJobs (s : Scheduler) (now : Instant) (visible : ℕ → Bool) : List ScheduledJob :=
  Py.sortedBy ScheduledJob.nextRunAt <| s.jobs.filter fun job =>
    visible job.id && job.enabled && job.nextRunAt ≤ now

/-- The loop over the points selected. -/
def create (created : List Enqueued) (s : Scheduler) : List Enqueued → List Enqueued × Scheduler
  | [] => (created, s)
  | occurrence :: rest =>
    let (wasCreated, s) := s.getOrCreate occurrence
    create (if wasCreated then created ++ [occurrence] else created) s rest

/-- The body of the loop over the jobs. -/
def serve (created : List Enqueued) (s : Scheduler) (job : ScheduledJob) (now : Instant) :
    List Enqueued × Scheduler :=
  let plan := job.plan now
  let s := { s with jobs := s.jobs.map fun row =>
    if row.id = job.id then { row with nextRunAt := plan.nextRunAt } else row }
  let skipped := plan.dueCount - plan.selected.length
  create created s (plan.selected.map fun scheduledFor => job.occurrence now skipped scheduledFor)

/-- The loop over the jobs. -/
def serveAll (now : Instant) (created : List Enqueued) (s : Scheduler) :
    List ScheduledJob → List Enqueued × Scheduler
  | [] => (created, s)
  | job :: jobs =>
    let (created, s) := serve created s job now
    serveAll now created s jobs

/-- `enqueue_due_jobs`; `visible` leaves out the rows another transaction has locked, which
`skip_locked` passes over. -/
def enqueueDueJobs (s : Scheduler) (now : Instant) (visible : ℕ → Bool) :
    List Enqueued × Scheduler :=
  serveAll now [] s (s.dueJobs now visible)

end Scheduler

/-! ## Points -/

namespace Schedule

/-- A point of a schedule from a start on. -/
abbrev IsPoint (s : Schedule) (start t : Instant) : Prop := Orbit.IsPoint s.advance start t

/-- The clock has not yet shown the time of the date behind a start: true of every start but one in
an hour repeated over midnight. -/
def Ahead : Schedule → Instant → Prop
  | .interval _ _, _ => True
  | .daily zone localTime _, start =>
    ∀ t ≤ start, zone.wall t < (zone.date start + 1) * day + localTime

/-- A clock change skips the time of a date and moves it past midnight. -/
def Overruns (zone : Zone) (localTime date : ℤ) : Prop :=
  ∃ c, zone.Skips c (date * day + localTime) ∧
    (date + 1) * day ≤ date * day + localTime + (zone.offset c - zone.offset (c - 1))

theorem seconds_pos {n : ℕ} (positive : 0 < n) : 0 < seconds n := by
  unfold seconds
  omega

theorem iterate_interval {n : ℕ} (positive : 0 < n) (m : ℕ) (start : ℤ) :
    (interval n positive).advance^[m] start = start + m * seconds n := by
  induction m with
  | zero => simp
  | succ m ih =>
    rw [Function.iterate_succ_apply', ih]
    show start + m * seconds n + seconds n = _
    push_cast
    ring

section
variable {zone : Zone} {localTime : ℤ} {inDay : 0 ≤ localTime ∧ localTime < day} {start t : ℤ}

/-- The reading of an instant lies before the time of the date behind it. -/
theorem wall_lt_next (inDay : 0 ≤ localTime ∧ localTime < day) (t : ℤ) :
    zone.wall t < (zone.date t + 1) * day + localTime := by
  unfold Zone.date
  generalize zone.wall t = reading at *
  simp only [day] at *
  omega

/-- From an instant whose reading no earlier one reached, the schedule moves forward. -/
theorem lt_advance (inDay : 0 ≤ localTime ∧ localTime < day)
    (ahead : ∀ s ≤ t, zone.wall s < (zone.date t + 1) * day + localTime) :
    t < (daily zone localTime inDay).advance t := by
  by_contra behind
  exact absurd (zone.le_wall_utc _) (Int.not_le.mpr (ahead _ (Int.not_lt.mp behind)))

/-- A point behind the start is one of these instants. -/
theorem ahead_advance (inDay : 0 ≤ localTime ∧ localTime < day) (t : ℤ) :
    (daily zone localTime inDay).Ahead ((daily zone localTime inDay).advance t) := by
  intro s before
  have own : zone.wall ((daily zone localTime inDay).advance t) < _ :=
    wall_lt_next inDay ((daily zone localTime inDay).advance t)
  rcases Int.lt_or_eq_of_le before with less | same
  · exact (Zone.wall_lt_wall_utc less).trans own
  · exact same ▸ own

/-- **Schedules move forward.** -/
theorem forward {s : Schedule} (ahead : s.Ahead start) : Orbit.Forward s.advance start := by
  cases s with
  | interval n positive =>
    intro m
    rw [iterate_interval, iterate_interval]
    have step := seconds_pos positive
    push_cast
    linarith
  | daily zone localTime inDay =>
    intro m
    rw [Function.iterate_succ_apply']
    cases m with
    | zero => exact lt_advance inDay ahead
    | succ m =>
      rw [Function.iterate_succ_apply']
      exact lt_advance inDay (ahead_advance inDay _)

/-- The date of the schedule's time on a date. -/
theorem date_utc_iff (inDay : 0 ≤ localTime ∧ localTime < day) (date : ℤ) :
    zone.date (zone.utc (date * day + localTime)) = date ↔ ¬ Overruns zone localTime date := by
  have le := zone.le_wall_utc (date * day + localTime)
  constructor
  · rintro same ⟨c, skips, past⟩
    rw [← Zone.wall_utc_of_skips skips] at past
    unfold Zone.date at same
    generalize zone.wall (zone.utc (date * day + localTime)) = reading at *
    simp only [day] at *
    omega
  · intro within
    have before : zone.wall (zone.utc (date * day + localTime)) < (date + 1) * day := by
      by_cases skipped : ∃ c, zone.Skips c (date * day + localTime)
      · obtain ⟨c, skips⟩ := skipped
        rw [Zone.wall_utc_of_skips skips]
        by_contra past
        exact within ⟨c, skips, Int.not_lt.mp past⟩
      · rw [Zone.wall_utc (not_exists.mp skipped)]
        simp only [day] at *
        omega
    unfold Zone.date
    generalize zone.wall (zone.utc (date * day + localTime)) = reading at *
    simp only [day] at *
    omega

theorem strictMono_date (inDay : 0 ≤ localTime ∧ localTime < day) (start : ℤ) :
    StrictMono fun n => zone.date ((daily zone localTime inDay).advance^[n] start) := by
  refine strictMono_nat_of_lt_succ fun n => ?_
  show zone.date ((daily zone localTime inDay).advance^[n] start) <
    zone.date ((daily zone localTime inDay).advance^[n + 1] start)
  rw [Function.iterate_succ_apply']
  exact Int.lt_of_add_one_le (date_lt_advance inDay _)

/-- Where no change overruns a date, the points fall on the dates one by one. -/
theorem date_iterate (inDay : 0 ≤ localTime ∧ localTime < day)
    (within : ∀ date, zone.date start < date → ¬ Overruns zone localTime date) (n : ℕ) :
    zone.date ((daily zone localTime inDay).advance^[n] start) = zone.date start + n := by
  induction n with
  | zero => exact (Int.add_zero _).symm
  | succ n ih =>
    rw [Function.iterate_succ_apply']
    show zone.date (zone.utc ((zone.date ((daily zone localTime inDay).advance^[n] start) + 1) * day +
      localTime)) = _
    rw [ih, (date_utc_iff inDay _).mpr (within _ (by omega))]
    push_cast
    ring

/-- **Each date has one point** exactly where no clock change overruns a date. -/
theorem existsUnique_point_iff (inDay : 0 ≤ localTime ∧ localTime < day) (start : ℤ) :
    (∀ date, zone.date start ≤ date →
      ∃! t, (daily zone localTime inDay).IsPoint start t ∧ zone.date t = date) ↔
      ∀ date, zone.date start < date → ¬ Overruns zone localTime date := by
  have mono : StrictMono fun n => zone.date ((daily zone localTime inDay).advance^[n] start) :=
    strictMono_date inDay start
  constructor
  · intro each
    have hit : ∀ n : ℕ, ∃ m, zone.date ((daily zone localTime inDay).advance^[m] start) =
        zone.date start + n := by
      intro n
      obtain ⟨t, ⟨⟨m, rfl⟩, same⟩, -⟩ := each (zone.date start + n) (by omega)
      exact ⟨m, same⟩
    -- a strictly increasing sequence of dates that leaves none out
    have all : ∀ n : ℕ, zone.date ((daily zone localTime inDay).advance^[n] start) =
        zone.date start + n := by
      intro n
      induction n with
      | zero => exact (Int.add_zero _).symm
      | succ n ih =>
        obtain ⟨m, same⟩ := hit (n + 1)
        have behind : n < m := by
          refine mono.lt_iff_lt.mp ?_
          rw [ih, same]
          push_cast
          omega
        have before : m ≤ n + 1 := by
          by_contra later
          have next := mono (Nat.not_le.mp later)
          have step := mono (Nat.lt_add_one n)
          dsimp only at next step
          rw [same] at next
          rw [ih] at step
          push_cast at next step
          omega
        obtain rfl : m = n + 1 := by omega
        exact same
    intro date later
    obtain ⟨n, rfl⟩ : ∃ n : ℕ, date = zone.date start + n + 1 :=
      ⟨(date - zone.date start - 1).toNat, by omega⟩
    have next := all (n + 1)
    rw [Function.iterate_succ_apply'] at next
    change zone.date (zone.utc ((zone.date ((daily zone localTime inDay).advance^[n] start) + 1) *
      day + localTime)) = _ at next
    rw [all n] at next
    refine (date_utc_iff inDay _).mp (next.trans ?_)
    push_cast
    ring
  · intro within date later
    refine ⟨(daily zone localTime inDay).advance^[(date - zone.date start).toNat] start,
      ⟨⟨_, rfl⟩, ?_⟩, ?_⟩
    · rw [date_iterate inDay within]
      omega
    · rintro _ ⟨⟨m, rfl⟩, same⟩
      rw [date_iterate inDay within] at same
      congr 1
      omega

end

end Schedule

/-! ## Plans -/

/-- What a policy selects of the points that are due. -/
def MissedRunPolicy.select : MissedRunPolicy → List Instant → List Instant
  | .all, due => due.drop (due.length - maxCatchupOccurrences)
  | .latest, due => due.drop (due.length - 1)
  | .skip, _ => []

/-- The loop of a daily schedule takes its points up to now. -/
theorem until_dueFrom (zone : Zone) (localTime : ℤ) (inDay : 0 ≤ localTime ∧ localTime < day)
    (now cursor : ℤ) :
    Orbit.Until (Schedule.daily zone localTime inDay).advance now cursor
      (dueFrom zone localTime inDay now cursor).1 (dueFrom zone localTime inDay now cursor).2 := by
  fun_induction dueFrom zone localTime inDay now cursor with
  | case1 cursor due rest ih => exact .step due ih
  | case2 cursor behind => exact .stop (Int.not_le.mp behind)

theorem until_interval {n : ℕ} (positive : 0 < n) {now start : ℤ} (due : start ≤ now) :
    ∃ count : ℕ, (now - start) / seconds n + 1 = count ∧ 0 < count ∧
      Orbit.Until (Schedule.interval n positive).advance now start
        ((List.range count).map fun m : ℕ => start + m * seconds n)
        (start + count * seconds n) := by
  have step := Schedule.seconds_pos positive
  have quotient := Int.ediv_nonneg (Int.sub_nonneg.mpr due) step.le
  obtain ⟨count, same⟩ := Int.eq_ofNat_of_zero_le (Int.le_add_one quotient)
  have low := Int.ediv_mul_le (now - start) step.ne'
  have high := Int.lt_ediv_add_one_mul_self (now - start) step
  have last := Schedule.iterate_interval positive count start
  refine ⟨count, same, by omega, ?_⟩
  rw [← last]
  have points : ((List.range count).map fun m : ℕ => start + m * seconds n) =
      (List.range count).map fun m => (Schedule.interval n positive).advance^[m] start :=
    List.map_congr_left fun m _ => (Schedule.iterate_interval positive m start).symm
  rw [points]
  refine Orbit.until_of_iterate count (fun m less => ?_) ?_
  · rw [Schedule.iterate_interval]
    have le : (m : ℤ) ≤ (now - start) / seconds n := by omega
    have scaled := Int.mul_le_mul_of_nonneg_right le step.le
    linarith
  · rw [last, ← same]
    linarith

/-- The points of an interval behind the first ones. -/
theorem drop_points (start step : ℤ) (count k : ℕ) :
    ((List.range count).map fun m : ℕ => start + m * step).drop
        (((List.range count).map fun m : ℕ => start + m * step).length - k) =
      (List.range (count - (count - k))).map fun m : ℕ =>
        start + (((count - k : ℕ) : ℤ) + m) * step := by
  rw [List.length_map, List.length_range, ← List.map_drop, List.range_eq_range', List.drop_range',
    List.range'_eq_map_range, List.map_map]
  refine List.map_congr_left fun m _ => ?_
  show start + ((0 + (count - k) * 1 + m : ℕ) : ℤ) * step = _
  rw [Nat.zero_add, Nat.mul_one, Nat.cast_add]

/-- **A plan** takes the points of the schedule up to now, counts them, selects by the policy, and
goes on from the first that is not due. -/
theorem ScheduledJob.plan_spec (job : ScheduledJob) {now : ℤ} (due : job.nextRunAt ≤ now) :
    ∃ points, Orbit.Until job.schedule.advance now job.nextRunAt points (job.plan now).nextRunAt ∧
      (job.plan now).dueCount = points.length ∧
      (job.plan now).selected = job.missedRunPolicy.select points := by
  cases kind : job.schedule with
  | daily zone localTime inDay =>
    unfold ScheduledJob.plan
    rw [kind]
    dsimp only
    refine ⟨_, until_dueFrom zone localTime inDay now job.nextRunAt, rfl, ?_⟩
    cases job.missedRunPolicy <;> rfl
  | interval n positive =>
    obtain ⟨count, counted, some_, taken⟩ := until_interval positive due
    unfold ScheduledJob.plan
    rw [kind]
    dsimp only
    rw [counted]
    refine ⟨_, taken, by rw [List.length_map, List.length_range], ?_⟩
    cases job.missedRunPolicy with
    | all =>
      show _ = List.drop _ _
      rw [drop_points, show (max 0 ((count : ℤ) - maxCatchupOccurrences)) =
        ((count - maxCatchupOccurrences : ℕ) : ℤ) by omega]
      have rest : ((count : ℤ) - ((count - maxCatchupOccurrences : ℕ) : ℤ)).toNat =
          count - (count - maxCatchupOccurrences) := by omega
      dsimp only
      rw [rest]
    | latest =>
      show _ = List.drop _ _
      rw [drop_points, show count - (count - 1) = 1 by omega]
      dsimp only
      rw [List.range_one, List.map_singleton, show ((count : ℤ) - 1) = ((count - 1 : ℕ) : ℤ) by omega]
      simp
    | skip => rfl

end TradeRecommender.Operations
