import Mathlib.Data.Prod.Lex
import TradeRecommender.Lib.Civil
import TradeRecommender.Lib.Progressions
import TradeRecommender.Lib.Sorted

/-!
# Schedule collisions

The checks of `market/live_schedules.py` and `forecasts/schedules.py` that no two recurring jobs
are ever due at the same instant.

1. rows, and the recurrence of one;
2. the check of the live schedules, over all pairs;
3. the check of the reconciliation jobs;
4. what they flag: recurrences with a common point.
-/

namespace TradeRecommender.LiveSchedules

open Civil Py

/-! ## Rows -/

/-- `interval_seconds`, as a row may hold it. -/
inductive IntervalSeconds
  | int (seconds : ℤ)
  | bool (value : Bool)
  | other
  deriving DecidableEq

/-- `next_run_at`: an aware `datetime`, a naive one, or no `datetime`. -/
inductive NextRunAt
  | aware (instant : Instant)
  | naive
  | other
  deriving DecidableEq

/-- `ScheduledJob`, as the checks read it. -/
structure Job where
  pk : ℕ
  scheduleType : String
  intervalSeconds : IntervalSeconds
  nextRunAt : NextRunAt
  deriving DecidableEq

/-- `timedelta` -/
structure Timedelta where
  days : ℤ
  seconds : ℤ
  microseconds : ℤ

/-- The fields of a difference of instants. -/
def Timedelta.of (delta : ℤ) : Timedelta :=
  ⟨delta / day, delta % day / 1000000, delta % 1000000⟩

/-- `MICROSECONDS_PER_SECOND` -/
def microsecondsPerSecond : ℕ := 1000000

/-- `deadline_microseconds`; an instant that `astimezone(UTC)` cannot hold is refused too. -/
def deadlineMicroseconds : NextRunAt → Except Exc ℤ
  | .aware instant =>
    if minInstant ≤ instant ∧ instant < endInstant then
      let delta := Timedelta.of instant
      .ok ((delta.days * 86400 + delta.seconds) * microsecondsPerSecond + delta.microseconds)
    else raise .valueError "invalid_deadline"
  | .naive | .other => raise .valueError "invalid_deadline"

/-- The fields of a difference are put together again without loss. -/
theorem microseconds_timedelta (delta : ℤ) :
    ((Timedelta.of delta).days * 86400 + (Timedelta.of delta).seconds) * microsecondsPerSecond +
      (Timedelta.of delta).microseconds = delta := by
  show (delta / day * 86400 + delta % day / 1000000) * (1000000 : ℕ) + delta % 1000000 = delta
  simp only [day]
  omega

/-- **The conversion loses nothing.** -/
theorem deadlineMicroseconds_eq_ok {value : NextRunAt} {deadline : ℤ}
    (h : deadlineMicroseconds value = .ok deadline) : value = .aware deadline := by
  cases value with
  | naive => cases h
  | other => cases h
  | aware instant =>
    by_cases inside : minInstant ≤ instant ∧ instant < endInstant
    · have read : deadlineMicroseconds (.aware instant) = .ok instant :=
        (if_pos inside).trans (congrArg Except.ok (microseconds_timedelta instant))
      exact congrArg NextRunAt.aware (Except.ok.inj (read.symm.trans h))
    · have refused : deadlineMicroseconds (.aware instant) =
        raise .valueError "invalid_deadline" := if_neg inside
      rw [refused] at h
      cases h

/-! ## The live schedules -/

/-- A recurrence: the key of its job, its deadline and its interval in microseconds. -/
structure Recurrence where
  key : String × String
  pk : ℕ
  deadline : ℤ
  interval : ℕ
  deriving DecidableEq

/-- The recurrence of a job, or the issue it has. -/
def recurrenceOf (key : String × String) (job : Job) : Except String Recurrence :=
  match job.intervalSeconds with
  | .int seconds =>
    if 0 < seconds ∧ job.scheduleType = "interval" then
      match deadlineMicroseconds job.nextRunAt with
      | .ok deadline => .ok ⟨key, job.pk, deadline, seconds.toNat * microsecondsPerSecond⟩
      | .error _ => .error ("invalid_deadline: job id " ++ toString job.pk)
    else .error ("invalid_recurrence: job id " ++ toString job.pk)
  | .bool _ | .other => .error ("invalid_recurrence: job id " ++ toString job.pk)

/-- The recurrences of jobs. -/
def recurrences (jobs : List ((String × String) × Job)) : List Recurrence :=
  jobs.filterMap fun entry => (recurrenceOf entry.1 entry.2).toOption

/-- `(deadline_a - deadline_b) % gcd(interval_a, interval_b) == 0` -/
def Recurrence.collides (first second : Recurrence) : Bool :=
  (first.deadline - second.deadline) % (Nat.gcd first.interval second.interval : ℕ) = 0

/-- `combinations(values, 2)` -/
def combinations {α : Type} : List α → List (α × α)
  | [] => []
  | x :: xs => xs.map (Prod.mk x) ++ combinations xs

/-- The order of the tuples. -/
def Recurrence.order (r : Recurrence) : String ×ₗ String ×ₗ ℕ ×ₗ ℤ ×ₗ ℕ :=
  toLex (r.key.1, toLex (r.key.2, toLex (r.pk, toLex (r.deadline, r.interval))))

/-- The pairs that `validate_live_schedules` flags. -/
def flagged (recurrences : List Recurrence) : List (Recurrence × Recurrence) :=
  (combinations (sortedBy Recurrence.order recurrences)).filter fun pair => pair.1.collides pair.2

/-- `canonical_name` -/
def canonicalName (key : String × String) : String := "OANDA " ++ key.1 ++ " " ++ key.2

/-- The label of a pair. -/
def label (pair : Recurrence × Recurrence) : String :=
  "recurring_collision: job ids " ++ toString pair.1.pk ++ "," ++ toString pair.2.pk ++ " (" ++
    canonicalName pair.1.key ++ " / " ++ canonicalName pair.2.key ++ ")"

/-- The errors of the pairs. -/
def collisionErrors (jobs : List ((String × String) × Job)) : List String :=
  (flagged (recurrences jobs)).map label

/-! ## The reconciliation jobs -/

/-- `valid_recurrence` -/
def validRecurrence (job : Job) : Bool :=
  match job.intervalSeconds, job.nextRunAt with
  | .int seconds, .aware _ => job.scheduleType = "interval" && 0 < seconds
  | _, _ => false

/-- `recurring_schedules_collide` -/
def recurringSchedulesCollide (first second : Job) : Except Exc Bool :=
  match first.intervalSeconds, second.intervalSeconds with
  | .int a, .int b =>
    if !validRecurrence first || !validRecurrence second then
      raise .validationError "malformed_recurrence"
    else do
      let start ← deadlineMicroseconds first.nextRunAt
      let other ← deadlineMicroseconds second.nextRunAt
      return (start - other) % ((Int.gcd a b * microsecondsPerSecond : ℕ) : ℤ) = 0
  | _, _ => raise .validationError "malformed_recurrence"

/-! ## What is flagged -/

/-- A point of a recurrence. -/
def Recurrence.IsPoint (r : Recurrence) (t : ℤ) : Prop := IsGridPoint r.deadline r.interval t

/-- A point of a job: a whole number of intervals behind its next run. -/
def Job.IsPoint (job : Job) (t : ℤ) : Prop :=
  ∃ start seconds : ℤ, job.nextRunAt = .aware start ∧ job.intervalSeconds = .int seconds ∧
    IsGridPoint start (seconds.toNat * microsecondsPerSecond) t

/-- An instant at or behind both starts that is a point of both. -/
def Meet (first second : Recurrence) : Prop :=
  ∃ t, first.deadline ≤ t ∧ second.deadline ≤ t ∧ first.IsPoint t ∧ second.IsPoint t

theorem meet_iff {first second : Recurrence} :
    Meet first second ↔ ∃ t, first.IsPoint t ∧ second.IsPoint t :=
  ⟨fun ⟨t, _, _, both⟩ => ⟨t, both⟩,
    fun ⟨t, left, right⟩ => ⟨t, left.start_le, right.start_le, left, right⟩⟩

/-- **The test of a pair.** -/
theorem collides_iff {first second : Recurrence} (h : 0 < first.interval) (h' : 0 < second.interval) :
    first.collides second = true ↔ Meet first second := by
  unfold Recurrence.collides
  rw [meet_iff, decide_eq_true_iff, ← Int.dvd_iff_emod_eq_zero]
  exact (IsGridPoint.exists_common_iff h h').symm

theorem mem_combinations {α : Type} {l : List α} {x y : α} :
    (x, y) ∈ combinations l ↔ [x, y].Sublist l := by
  induction l with
  | nil =>
    refine ⟨fun mem => absurd mem List.not_mem_nil, fun sub => ?_⟩
    exact absurd (List.eq_nil_of_sublist_nil sub) (List.cons_ne_nil _ _)
  | cons z l ih =>
    rw [combinations, List.mem_append, ih, List.mem_map]
    constructor
    · rintro (⟨w, mem, same⟩ | sub)
      · obtain ⟨rfl, rfl⟩ := Prod.mk.inj same
        exact (List.singleton_sublist.mpr mem).cons_cons z
      · exact sub.cons z
    · intro sub
      rcases List.sublist_cons_iff.mp sub with later | ⟨rest, same, later⟩
      · exact .inr later
      · obtain ⟨rfl, rfl⟩ := List.cons.inj same
        exact .inl ⟨y, List.singleton_sublist.mp later, rfl⟩

/-- Of two members one lies before the other. -/
theorem sublist_of_mem {α : Type} {l : List α} {x y : α} (hx : x ∈ l) (hy : y ∈ l) (apart : x ≠ y) :
    [x, y].Sublist l ∨ [y, x].Sublist l := by
  induction l with
  | nil => exact absurd hx List.not_mem_nil
  | cons z l ih =>
    rcases List.mem_cons.mp hx with rfl | behind
    · have later := (List.mem_cons.mp hy).resolve_left apart.symm
      exact .inl ((List.singleton_sublist.mpr later).cons_cons x)
    · rcases List.mem_cons.mp hy with rfl | later
      · exact .inr ((List.singleton_sublist.mpr behind).cons_cons y)
      · exact (ih behind later).imp (·.cons z) (·.cons z)

/-- The recurrences of jobs have positive intervals and the deadlines of their jobs. -/
theorem recurrence_spec {key : String × String} {job : Job} {r : Recurrence}
    (h : recurrenceOf key job = .ok r) : 0 < r.interval ∧ r.key = key ∧ r.pk = job.pk ∧
      ∀ t, r.IsPoint t ↔ job.IsPoint t := by
  unfold recurrenceOf at h
  cases held : job.intervalSeconds with
  | bool value => rw [held] at h; cases h
  | other => rw [held] at h; cases h
  | int seconds =>
    rw [held] at h
    dsimp only at h
    split at h
    · rename_i valid
      cases read : deadlineMicroseconds job.nextRunAt with
      | error e => rw [read] at h; cases h
      | ok deadline =>
        rw [read] at h
        obtain rfl := Except.ok.inj h
        refine ⟨Nat.mul_pos (Int.pos_iff_toNat_pos.mp valid.1) (by decide), rfl, rfl, fun t => ?_⟩
        constructor
        · exact fun point => ⟨deadline, seconds, deadlineMicroseconds_eq_ok read, held, point⟩
        · rintro ⟨start, seconds', next, same, point⟩
          rw [deadlineMicroseconds_eq_ok read] at next
          cases next
          rw [held] at same
          cases same
          exact point
    · cases h

theorem mem_recurrences {jobs : List ((String × String) × Job)} {r : Recurrence} :
    r ∈ recurrences jobs ↔ ∃ entry ∈ jobs, recurrenceOf entry.1 entry.2 = .ok r := by
  unfold recurrences
  rw [List.mem_filterMap]
  refine exists_congr fun entry => and_congr_right fun _ => ?_
  cases recurrenceOf entry.1 entry.2 with
  | error e => simp [Except.toOption]
  | ok r' => simp [Except.toOption]

/-- **The pairs flagged** are those that meet. -/
theorem flagged_iff {jobs : List ((String × String) × Job)} {first second : Recurrence}
    (h : first ∈ recurrences jobs) (h' : second ∈ recurrences jobs) (apart : first ≠ second) :
    (first, second) ∈ flagged (recurrences jobs) ∨ (second, first) ∈ flagged (recurrences jobs) ↔
      Meet first second := by
  have positive {r : Recurrence} (mem : r ∈ recurrences jobs) : 0 < r.interval := by
    obtain ⟨entry, -, made⟩ := mem_recurrences.mp mem
    exact (recurrence_spec made).1
  have turned : Meet second first ↔ Meet first second := by
    rw [meet_iff, meet_iff]
    exact exists_congr fun t => And.comm
  unfold flagged
  rw [List.mem_filter, List.mem_filter, mem_combinations, mem_combinations,
    collides_iff (positive h) (positive h'), collides_iff (positive h') (positive h), turned,
    ← or_and_right]
  exact and_iff_right (sublist_of_mem (mem_sortedBy.mpr h) (mem_sortedBy.mpr h') apart)

theorem validRecurrence_iff {job : Job} : validRecurrence job = true ↔
    ∃ seconds start, job.intervalSeconds = .int seconds ∧ job.nextRunAt = .aware start ∧
      job.scheduleType = "interval" ∧ 0 < seconds := by
  unfold validRecurrence
  cases job.intervalSeconds <;> cases job.nextRunAt <;> simp

/-- The points of a job whose deadline and interval are read. -/
theorem isPoint_iff {job : Job} {start seconds t : ℤ} (next : job.nextRunAt = .aware start)
    (held : job.intervalSeconds = .int seconds) :
    job.IsPoint t ↔ IsGridPoint start (seconds.toNat * microsecondsPerSecond) t := by
  constructor
  · rintro ⟨start', seconds', next', held', point⟩
    rw [next] at next'
    rw [held] at held'
    cases next'
    cases held'
    exact point
  · exact fun point => ⟨start, seconds, next, held, point⟩

/-- **The test of two reconciliation jobs.** -/
theorem recurringSchedulesCollide_iff {first second : Job} {flag : Bool}
    (h : recurringSchedulesCollide first second = .ok flag) :
    flag = true ↔ ∃ t, first.IsPoint t ∧ second.IsPoint t := by
  unfold recurringSchedulesCollide at h
  cases held : first.intervalSeconds with
  | bool value => rw [held] at h; cases h
  | other => rw [held] at h; cases h
  | int a =>
    cases held' : second.intervalSeconds with
    | bool value => rw [held, held'] at h; cases h
    | other => rw [held, held'] at h; cases h
    | int b =>
      rw [held, held'] at h
      dsimp only at h
      split at h
      · cases h
      · rename_i valid
        rw [Bool.or_eq_true, not_or, Bool.not_eq_true', Bool.not_eq_true', Bool.not_eq_false,
          Bool.not_eq_false, validRecurrence_iff, validRecurrence_iff] at valid
        obtain ⟨⟨a', _, same, -, -, positive⟩, ⟨b', _, same', -, -, positive'⟩⟩ := valid
        rw [held] at same
        rw [held'] at same'
        cases same
        cases same'
        obtain ⟨start, next, rest⟩ := bind_eq_ok.mp h
        obtain ⟨other, next', made⟩ := bind_eq_ok.mp rest
        obtain rfl := Except.ok.inj made
        have steps : Int.gcd a b * microsecondsPerSecond =
            Nat.gcd (a.toNat * microsecondsPerSecond) (b.toNat * microsecondsPerSecond) := by
          rw [Nat.gcd_mul_right, Int.gcd, ← Int.toNat_of_nonneg positive.le,
            ← Int.toNat_of_nonneg positive'.le, Int.natAbs_natCast, Int.natAbs_natCast,
            Int.toNat_natCast, Int.toNat_natCast]
        have wide {n : ℤ} (some_ : 0 < n) : 0 < n.toNat * microsecondsPerSecond :=
          Nat.mul_pos (Int.pos_iff_toNat_pos.mp some_) (by decide)
        rw [steps, decide_eq_true_iff, ← Int.dvd_iff_emod_eq_zero,
          ← IsGridPoint.exists_common_iff (wide positive) (wide positive')]
        refine exists_congr fun t => ?_
        rw [isPoint_iff (deadlineMicroseconds_eq_ok next) held,
          isPoint_iff (deadlineMicroseconds_eq_ok next') held']

/-- The test answers for two valid recurrences. -/
theorem recurringSchedulesCollide_isOk {first second : Job} {start start' : ℤ}
    (h : validRecurrence first) (h' : validRecurrence second)
    (next : deadlineMicroseconds first.nextRunAt = .ok start)
    (next' : deadlineMicroseconds second.nextRunAt = .ok start') :
    ∃ flag, recurringSchedulesCollide first second = .ok flag := by
  obtain ⟨a, -, held, -⟩ := validRecurrence_iff.mp h
  obtain ⟨b, -, held', -⟩ := validRecurrence_iff.mp h'
  unfold recurringSchedulesCollide
  rw [held, held']
  dsimp only
  rw [h, h', next, next', Bool.not_true, Bool.or_false, if_neg Bool.false_ne_true]
  exact ⟨_, rfl⟩

/-- **The collision checks** flag two recurrences exactly when some instant at or behind both
starts is a point of both. -/
theorem collision_checks :
    (∀ first second : Recurrence, 0 < first.interval → 0 < second.interval →
      (first.collides second = true ↔
        ∃ t, first.deadline ≤ t ∧ second.deadline ≤ t ∧ first.IsPoint t ∧ second.IsPoint t)) ∧
    (∀ jobs, ∀ first ∈ recurrences jobs, ∀ second ∈ recurrences jobs, first ≠ second →
      ((first, second) ∈ flagged (recurrences jobs) ∨ (second, first) ∈ flagged (recurrences jobs) ↔
        ∃ t, first.deadline ≤ t ∧ second.deadline ≤ t ∧ first.IsPoint t ∧ second.IsPoint t)) ∧
    ∀ (first second : Job) (start start' : ℤ), validRecurrence first → validRecurrence second →
      deadlineMicroseconds first.nextRunAt = .ok start →
      deadlineMicroseconds second.nextRunAt = .ok start' →
      ∃ flag, recurringSchedulesCollide first second = .ok flag ∧
        (flag = true ↔ ∃ t, start ≤ t ∧ start' ≤ t ∧ first.IsPoint t ∧ second.IsPoint t) := by
  refine ⟨fun first second h h' => collides_iff h h',
    fun jobs first h second h' apart => flagged_iff h h' apart, ?_⟩
  intro first second start start' h h' next next'
  obtain ⟨flag, answer⟩ := recurringSchedulesCollide_isOk h h' next next'
  obtain ⟨a, -, held, -⟩ := validRecurrence_iff.mp h
  obtain ⟨b, -, held', -⟩ := validRecurrence_iff.mp h'
  refine ⟨flag, answer, (recurringSchedulesCollide_iff answer).trans (exists_congr fun t => ?_)⟩
  constructor
  · rintro ⟨left, right⟩
    have point := (isPoint_iff (deadlineMicroseconds_eq_ok next) held).mp left
    have point' := (isPoint_iff (deadlineMicroseconds_eq_ok next') held').mp right
    exact ⟨point.start_le, point'.start_le, left, right⟩
  · exact fun ⟨_, _, both⟩ => both

/-- A job that recurs. -/
def recurring (start : ℤ) (seconds : ℤ) : Job := ⟨1, "interval", .int seconds, .aware start⟩

/-- Every hour from 10:00 and every four hours from 07:30. -/
theorem collision_checks_hourly :
    recurringSchedulesCollide (recurring 1789120800000000 3600) (recurring 1789111800000000 14400) =
      .ok false ∧
    ¬ ∃ t, 1789120800000000 ≤ t ∧ 1789111800000000 ≤ t ∧
      (recurring 1789120800000000 3600).IsPoint t ∧ (recurring 1789111800000000 14400).IsPoint t := by
  obtain ⟨flag, answer, meets⟩ := collision_checks.2.2 (recurring 1789120800000000 3600)
    (recurring 1789111800000000 14400) 1789120800000000 1789111800000000 (by decide) (by decide)
    (by decide) (by decide)
  have apart : recurringSchedulesCollide (recurring 1789120800000000 3600)
      (recurring 1789111800000000 14400) = .ok false := by decide
  obtain rfl := Except.ok.inj (answer.symm.trans apart)
  exact ⟨apart, fun meet => absurd (meets.mpr meet) Bool.false_ne_true⟩

end TradeRecommender.LiveSchedules
