import TradeRecommender.Lib.IsoRoundTrip
import TradeRecommender.Lib.Tables
import TradeRecommender.Operations.Schedules

/-!
# Runs of the scheduler

What calls of `enqueue_due_jobs` one after the other leave of jobs and occurrences.

1. idempotency keys tell the points of jobs apart;
2. one call serves every job that is due, and every occurrence it makes is new;
3. calls one after the other;
4. what a job is served over them;
5. a change of the clock at midnight, and runs of the scheduler.
-/

namespace TradeRecommender.Operations

open Civil

/-! ## Idempotency keys -/

/-- An instant that a `datetime` holds. -/
def IsDatetime (t : ℤ) : Prop := minInstant ≤ t ∧ t < endInstant

theorem isoformat_injective {t t' : ℤ} (h : IsDatetime t) (h' : IsDatetime t')
    (same : isoformat t = isoformat t') : t = t' := by
  have read := fromisoformat_isoformat h.1 h.2
  rw [same, fromisoformat_isoformat h'.1 h'.2] at read
  cases read
  rfl

theorem colon_notMem_toString (n : ℕ) : ':' ∉ (toString n).toList := by
  intro mem
  rw [show (toString n).toList = Nat.toDigits 10 n from Nat.toList_repr] at mem
  exact absurd (Nat.isDigit_of_mem_toDigits (by decide) (by decide) mem) (by decide)

theorem toString_injective {n m : ℕ} (same : (toString n).toList = (toString m).toList) : n = m := by
  have digits (k : ℕ) : (toString k).toList = Nat.toDigits 10 k := Nat.toList_repr
  rw [digits, digits] at same
  have read := Nat.ofDigitChars_toDigits (b := 10) (n := n) (by decide) (by decide)
  rw [same, Nat.ofDigitChars_toDigits (by decide) (by decide)] at read
  exact read.symm

/-- A key names its job and its point. -/
theorem idempotencyKey_inj {job job' : ScheduledJob} {t t' : ℤ} (h : IsDatetime t)
    (h' : IsDatetime t') (same : job.idempotencyKey t = job'.idempotencyKey t') :
    job.id = job'.id ∧ t = t' := by
  have lists := congrArg String.toList same
  simp only [ScheduledJob.idempotencyKey, String.toList_append] at lists
  have colon : ":".toList = [':'] := rfl
  rw [colon, List.append_assoc, List.append_assoc, List.singleton_append,
    List.singleton_append] at lists
  obtain ⟨ids, stamps⟩ := Py.split_unique lists (colon_notMem_toString _) (colon_notMem_toString _)
  exact ⟨toString_injective ids, isoformat_injective h h' (String.toList_inj.mp stamps)⟩

/-! ## One call -/

namespace ScheduledJob

/-- The occurrences a job makes when it is served. -/
def enqueued (job : ScheduledJob) (now : Instant) : List Enqueued :=
  (job.plan now).selected.map
    (job.occurrence now ((job.plan now).dueCount - (job.plan now).selected.length))

/-- A job that has been served. -/
def advanced (job : ScheduledJob) (now : Instant) : ScheduledJob :=
  { job with nextRunAt := (job.plan now).nextRunAt }

theorem scheduledJob_of_mem {job : ScheduledJob} {now : Instant} {o : Enqueued}
    (mem : o ∈ job.enqueued now) : o.scheduledJob = job.id := by
  obtain ⟨t, -, rfl⟩ := List.mem_map.mp mem
  rfl

end ScheduledJob

namespace Scheduler

variable {now : Instant} {created : List Enqueued} {s : Scheduler}

/-- Occurrences of new keys, no two the same, are all created. -/
theorem create_eq {new : List Enqueued} (apart : (new.map (·.idempotencyKey)).Nodup)
    (fresh : ∀ o ∈ s.occurrences, ∀ o' ∈ new, o.idempotencyKey ≠ o'.idempotencyKey) :
    create created s new = (created ++ new, { s with occurrences := s.occurrences ++ new }) := by
  induction new generalizing created s with
  | nil =>
    unfold create
    rw [List.append_nil, List.append_nil]
  | cons o new ih =>
    rw [List.map_cons, List.nodup_cons] at apart
    have unknown : s.occurrences.any (fun o' => o'.idempotencyKey = o.idempotencyKey) = false :=
      List.any_eq_false.mpr fun o' mem same =>
        fresh o' mem o List.mem_cons_self (of_decide_eq_true same)
    have made : s.getOrCreate o = (true, { s with occurrences := s.occurrences ++ [o] }) := by
      unfold getOrCreate
      rw [unknown]
      rfl
    unfold create
    rw [made]
    dsimp only
    rw [if_pos rfl, ih apart.2, List.append_assoc, List.append_assoc, List.singleton_append]
    intro o' mem o'' mem'' same
    rcases List.mem_append.mp mem with old | own
    · exact fresh o' old o'' (List.mem_cons_of_mem _ mem'') same
    · rw [List.mem_singleton.mp own] at same
      exact apart.1 (List.mem_map.mpr ⟨o'', mem'', same.symm⟩)

/-- A row behind the service of a job. -/
def settleRow (now : Instant) (job row : ScheduledJob) : ScheduledJob :=
  if row.id = job.id then { row with nextRunAt := (job.plan now).nextRunAt } else row

def settle (now : Instant) (rows : List ScheduledJob) (job : ScheduledJob) : List ScheduledJob :=
  rows.map (settleRow now job)

/-- The loop over the jobs, where every occurrence is new. -/
theorem serveAll_eq {jobs : List ScheduledJob}
    (apart : ((jobs.flatMap fun job => job.enqueued now).map (·.idempotencyKey)).Nodup)
    (fresh : ∀ o ∈ s.occurrences, ∀ o' ∈ jobs.flatMap fun job => job.enqueued now,
      o.idempotencyKey ≠ o'.idempotencyKey) :
    serveAll now created s jobs = (created ++ jobs.flatMap fun job => job.enqueued now,
      ⟨jobs.foldl (settle now) s.jobs,
        s.occurrences ++ jobs.flatMap fun job => job.enqueued now⟩) := by
  induction jobs generalizing created s with
  | nil =>
    unfold serveAll
    rw [List.flatMap_nil, List.append_nil, List.append_nil]
    rfl
  | cons job jobs ih =>
    rw [List.flatMap_cons, List.map_append, List.nodup_append] at apart
    obtain ⟨own, rest, disjoint⟩ := apart
    have served : serve created s job now = (created ++ job.enqueued now,
        ⟨settle now s.jobs job, s.occurrences ++ job.enqueued now⟩) :=
      create_eq own fun o mem o' mem' =>
        fresh o mem o' (List.mem_flatMap.mpr ⟨job, List.mem_cons_self, mem'⟩)
    unfold serveAll
    rw [served]
    dsimp only
    rw [ih rest, List.flatMap_cons, List.append_assoc, List.append_assoc, List.foldl_cons]
    intro o mem o' mem'
    rcases List.mem_append.mp mem with old | new
    · refine fresh o old o' ?_
      rw [List.flatMap_cons]
      exact List.mem_append_right _ mem'
    · exact disjoint _ (List.mem_map_of_mem new) _ (List.mem_map_of_mem mem')

/-- Over jobs of the table, every one of them is advanced. -/
theorem foldl_settle {rows jobs : List ScheduledJob} (ids : (rows.map (·.id)).Nodup)
    (apart : (jobs.map (·.id)).Nodup) (known : ∀ job ∈ jobs, job ∈ rows) :
    jobs.foldl (settle now) rows =
      rows.map fun row => if row.id ∈ jobs.map (·.id) then row.advanced now else row := by
  induction jobs generalizing rows with
  | nil =>
    refine (List.map_id'' (fun row => ?_) rows).symm
    exact if_neg List.not_mem_nil
  | cons job jobs ih =>
    rw [List.map_cons, List.nodup_cons] at apart
    have same : (settle now rows job).map (·.id) = rows.map (·.id) := by
      unfold settle
      rw [List.map_map]
      refine List.map_congr_left fun row _ => ?_
      show (settleRow now job row).id = row.id
      unfold settleRow
      split <;> rfl
    have later : ∀ other ∈ jobs, other ∈ settle now rows job := fun other mem =>
      List.mem_map.mpr ⟨other, known other (List.mem_cons_of_mem _ mem),
        if_neg fun equal => apart.1 (List.mem_map.mpr ⟨other, mem, equal⟩)⟩
    rw [List.foldl_cons, ih (same ▸ ids) apart.2 later]
    unfold settle
    rw [List.map_map]
    refine List.map_congr_left fun row mem => ?_
    show (if (settleRow now job row).id ∈ jobs.map (·.id) then (settleRow now job row).advanced now
      else settleRow now job row) = _
    by_cases own : row.id = job.id
    · obtain rfl := Tables.eq_of_key ids mem (known job List.mem_cons_self) own
      have settled : settleRow now row row = row.advanced now := if_pos rfl
      rw [settled, if_neg (show (row.advanced now).id ∉ _ from apart.1),
        if_pos (List.mem_map_of_mem List.mem_cons_self)]
    · have settled : settleRow now job row = row := if_neg own
      rw [settled, List.map_cons]
      refine if_congr ?_ rfl rfl
      rw [List.mem_cons, or_iff_right own]

end Scheduler

/-- What a policy selects is some of what is due, in its order. -/
theorem MissedRunPolicy.select_sublist (policy : MissedRunPolicy) (due : List Instant) :
    (policy.select due).Sublist due := by
  cases policy with
  | latest => exact List.drop_sublist _ _
  | all => exact List.drop_sublist _ _
  | skip => exact List.nil_sublist _

/-- A call of `enqueue_due_jobs`: its time, and the rows that no other transaction has locked. -/
structure Call where
  now : Instant
  visible : ℕ → Bool

namespace ScheduledJob

/-- Whether a call may serve a job. -/
def isRead (job : ScheduledJob) (call : Call) : Bool := call.visible job.id && job.enabled

def isDue (job : ScheduledJob) (call : Call) : Bool :=
  job.isRead call && job.nextRunAt ≤ call.now

/-- A job behind a call. -/
def behind (job : ScheduledJob) (call : Call) : ScheduledJob :=
  if job.isDue call then job.advanced call.now else job

/-- The occurrences of a job that a call creates. -/
def made (job : ScheduledJob) (call : Call) : List Enqueued :=
  if job.isDue call then job.enqueued call.now else []

variable {job : ScheduledJob} {now : ℤ} {o : Enqueued}

/-- **What a job that is due is served** is the window of its points up to now. -/
theorem plan_window (job : ScheduledJob) {now : ℤ} (ahead : job.schedule.Ahead job.nextRunAt) (due : job.nextRunAt ≤ now) :
    ∃ points, Orbit.Window job.schedule.advance job.nextRunAt now points (job.plan now).nextRunAt ∧
      job.enqueued now = (job.missedRunPolicy.select points).map
        (job.occurrence now (points.length - (job.missedRunPolicy.select points).length)) := by
  obtain ⟨points, taken, counted, selected⟩ := job.plan_spec due
  refine ⟨points, taken.window (Schedule.forward ahead), ?_⟩
  rw [enqueued, counted, selected]

theorem mem_enqueued (ahead : job.schedule.Ahead job.nextRunAt) (due : job.nextRunAt ≤ now)
    (mem : o ∈ job.enqueued now) : ∃ t, o.idempotencyKey = job.idempotencyKey t ∧
      job.nextRunAt ≤ t ∧ t ≤ now := by
  obtain ⟨points, window, made⟩ := job.plan_window ahead due
  rw [made] at mem
  obtain ⟨t, selected, rfl⟩ := List.mem_map.mp mem
  obtain ⟨point, inside⟩ :=
    (window.mem_iff t).mp ((job.missedRunPolicy.select_sublist points).subset selected)
  exact ⟨t, rfl, (Schedule.forward ahead).start_le point, inside⟩

theorem nodup_enqueued (ahead : job.schedule.Ahead job.nextRunAt) (due : job.nextRunAt ≤ now)
    (low : minInstant ≤ job.nextRunAt) (high : now < endInstant) :
    ((job.enqueued now).map (·.idempotencyKey)).Nodup := by
  obtain ⟨points, window, made⟩ := job.plan_window ahead due
  have ascending := window.ascending.sublist (job.missedRunPolicy.select_sublist points)
  rw [made, List.map_map]
  refine List.Nodup.map_on (fun t mem t' mem' same => ?_) (ascending.imp fun less => less.ne)
  have datetime : ∀ u ∈ job.missedRunPolicy.select points, IsDatetime u := by
    intro u selected
    obtain ⟨point, inside⟩ :=
      (window.mem_iff u).mp ((job.missedRunPolicy.select_sublist points).subset selected)
    exact ⟨low.trans ((Schedule.forward ahead).start_le point), lt_of_le_of_lt inside high⟩
  exact (idempotencyKey_inj (datetime t mem) (datetime t' mem') same).2

end ScheduledJob

namespace Scheduler

/-- What holds between the calls: the occurrences of a job lie before its next run. -/
structure Sound (s : Scheduler) : Prop where
  ids : (s.jobs.map (·.id)).Nodup
  keys : (s.occurrences.map (·.idempotencyKey)).Nodup
  before : ∀ o ∈ s.occurrences, ∀ job ∈ s.jobs, ∀ t, IsDatetime t →
    o.idempotencyKey = job.idempotencyKey t → t < job.nextRunAt
  ahead : ∀ job ∈ s.jobs, job.schedule.Ahead job.nextRunAt
  datetime : ∀ job ∈ s.jobs, minInstant ≤ job.nextRunAt

variable {s : Scheduler} {call : Call} {now : ℤ}

theorem mem_dueJobs {job : ScheduledJob} :
    job ∈ s.dueJobs call.now call.visible ↔ job ∈ s.jobs ∧ job.isDue call := by
  rw [dueJobs, Py.mem_sortedBy, List.mem_filter]
  rfl

theorem Sound.nodup_dueJobs (sound : s.Sound) (visible : ℕ → Bool) :
    ((s.dueJobs now visible).map (·.id)).Nodup := by
  refine ((Py.perm_sortedBy _ _).map _).nodup_iff.mpr ?_
  exact sound.ids.sublist (List.filter_sublist.map _)

theorem due_of_mem {job : ScheduledJob} (mem : job ∈ s.dueJobs call.now call.visible) :
    job ∈ s.jobs ∧ job.nextRunAt ≤ call.now := by
  obtain ⟨inside, due⟩ := mem_dueJobs.mp mem
  exact ⟨inside, of_decide_eq_true (Bool.and_eq_true_iff.mp due).2⟩

/-- The occurrences of a call have keys of their own. -/
theorem Sound.apart (sound : s.Sound) (high : call.now < endInstant) :
    (((s.dueJobs call.now call.visible).flatMap fun job => job.enqueued call.now).map
      (·.idempotencyKey)).Nodup := by
  rw [List.map_flatMap, List.nodup_flatMap]
  constructor
  · intro job mem
    obtain ⟨inside, due⟩ := due_of_mem mem
    exact ScheduledJob.nodup_enqueued (sound.ahead job inside) due (sound.datetime job inside) high
  · refine (List.pairwise_map.mp (sound.nodup_dueJobs call.visible)).imp_of_mem ?_
    intro job job' mem mem' apart key own own'
    obtain ⟨o, made, rfl⟩ := List.mem_map.mp own
    obtain ⟨o', made', same⟩ := List.mem_map.mp own'
    obtain ⟨inside, due⟩ := due_of_mem mem
    obtain ⟨inside', due'⟩ := due_of_mem mem'
    obtain ⟨t, keyed, low, le⟩ := ScheduledJob.mem_enqueued (sound.ahead job inside) due made
    obtain ⟨t', keyed', low', le'⟩ :=
      ScheduledJob.mem_enqueued (sound.ahead job' inside') due' made'
    rw [keyed, keyed'] at same
    have first := sound.datetime job inside
    have second := sound.datetime job' inside'
    exact apart (idempotencyKey_inj ⟨second.trans low', lt_of_le_of_lt le' high⟩
      ⟨first.trans low, lt_of_le_of_lt le high⟩ same).1.symm

theorem Sound.fresh (sound : s.Sound) (high : call.now < endInstant) :
    ∀ o ∈ s.occurrences, ∀ o' ∈ (s.dueJobs call.now call.visible).flatMap fun job =>
      job.enqueued call.now, o.idempotencyKey ≠ o'.idempotencyKey := by
  intro o mem o' mem' same
  obtain ⟨job, due, made⟩ := List.mem_flatMap.mp mem'
  obtain ⟨inside, due⟩ := due_of_mem due
  obtain ⟨t, keyed, low, le⟩ := ScheduledJob.mem_enqueued (sound.ahead job inside) due made
  have first := sound.datetime job inside
  have earlier := sound.before o mem job inside t ⟨first.trans low, lt_of_le_of_lt le high⟩
    (same.trans keyed)
  exact absurd low (not_le.mpr earlier)

/-- **A call** serves the jobs that are due and creates all that these make. -/
theorem enqueueDueJobs_eq (sound : s.Sound) (high : call.now < endInstant) :
    s.enqueueDueJobs call.now call.visible =
      ((s.dueJobs call.now call.visible).flatMap fun job => job.enqueued call.now,
        ⟨s.jobs.map (·.behind call), s.occurrences ++
          (s.dueJobs call.now call.visible).flatMap fun job => job.enqueued call.now⟩) := by
  have rows : (s.dueJobs call.now call.visible).foldl (settle call.now) s.jobs =
      s.jobs.map (·.behind call) := by
    rw [foldl_settle sound.ids (sound.nodup_dueJobs call.visible) fun job mem =>
      (mem_dueJobs.mp mem).1]
    refine List.map_congr_left fun row mem => if_congr ?_ rfl rfl
    constructor
    · intro listed
      obtain ⟨job, due, same⟩ := List.mem_map.mp listed
      obtain ⟨inside, due⟩ := mem_dueJobs.mp due
      exact Tables.eq_of_key sound.ids inside mem same ▸ due
    · exact fun due => List.mem_map_of_mem (mem_dueJobs.mpr ⟨mem, due⟩)
  unfold enqueueDueJobs
  rw [serveAll_eq (sound.apart high) (sound.fresh high), rows, List.nil_append]

/-- Of what jobs make, those of one job are its own. -/
theorem filter_enqueued {jobs : List ScheduledJob} {i : ℕ} (unknown : i ∉ jobs.map (·.id)) :
    (jobs.flatMap fun job => job.enqueued now).filter (fun o => o.scheduledJob = i) = [] := by
  refine List.filter_eq_nil_iff.mpr fun o mem own => unknown ?_
  obtain ⟨job, inside, made⟩ := List.mem_flatMap.mp mem
  rw [← of_decide_eq_true own, ScheduledJob.scheduledJob_of_mem made]
  exact List.mem_map_of_mem inside

theorem filter_enqueued_of_mem {jobs : List ScheduledJob} {job : ScheduledJob}
    (apart : (jobs.map (·.id)).Nodup) (mem : job ∈ jobs) :
    (jobs.flatMap fun job => job.enqueued now).filter (fun o => o.scheduledJob = job.id) =
      job.enqueued now := by
  induction jobs with
  | nil => exact absurd mem List.not_mem_nil
  | cons first jobs ih =>
    rw [List.map_cons, List.nodup_cons] at apart
    rw [List.flatMap_cons, List.filter_append]
    rcases List.mem_cons.mp mem with rfl | later
    · rw [filter_enqueued apart.1, List.append_nil]
      exact List.filter_eq_self.mpr fun o made =>
        decide_eq_true (ScheduledJob.scheduledJob_of_mem made)
    · have other : (first.enqueued now).filter (fun o => o.scheduledJob = job.id) = [] := by
        refine List.filter_eq_nil_iff.mpr fun o made own => apart.1 ?_
        rw [← ScheduledJob.scheduledJob_of_mem made, of_decide_eq_true own]
        exact List.mem_map_of_mem later
      rw [other, List.nil_append, ih apart.2 later]

end Scheduler

/-! ## Calls one after the other -/

namespace ScheduledJob

variable {job : ScheduledJob} {call : Call}

theorem behind_of_due (due : job.isDue call) : job.behind call = job.advanced call.now :=
  if_pos due

theorem behind_of_not_due (idle : ¬ job.isDue call) : job.behind call = job := if_neg idle

theorem le_of_due (due : job.isDue call) : job.nextRunAt ≤ call.now :=
  of_decide_eq_true (Bool.and_eq_true_iff.mp due).2

/-- A job that is due goes on behind now, from a point behind the one it was at. -/
theorem advanced_spec (ahead : job.schedule.Ahead job.nextRunAt) (due : job.isDue call) :
    call.now < (job.advanced call.now).nextRunAt ∧
      job.schedule.Ahead (job.advanced call.now).nextRunAt := by
  obtain ⟨points, window, -⟩ := job.plan_window ahead (le_of_due due)
  refine ⟨window.behind, ?_⟩
  obtain ⟨n, last⟩ := window.isPoint
  show job.schedule.Ahead (job.plan call.now).nextRunAt
  cases kind : job.schedule with
  | interval => trivial
  | daily zone localTime inDay =>
    cases n with
    | zero => exact absurd window.behind (not_lt.mpr (last.le.trans (le_of_due due)))
    | succ n =>
      rw [last, kind, Function.iterate_succ_apply']
      exact Schedule.ahead_advance inDay _

theorem behind_spec (ahead : job.schedule.Ahead job.nextRunAt) (call : Call) :
    (job.behind call).id = job.id ∧ (job.behind call).schedule = job.schedule ∧
      job.nextRunAt ≤ (job.behind call).nextRunAt ∧
      job.schedule.Ahead (job.behind call).nextRunAt := by
  by_cases due : job.isDue call
  · rw [behind_of_due due]
    obtain ⟨later, next⟩ := advanced_spec ahead due
    exact ⟨rfl, rfl, (le_of_due due).trans (le_of_lt later), next⟩
  · rw [behind_of_not_due due]
    exact ⟨rfl, rfl, le_refl _, ahead⟩

end ScheduledJob

namespace Scheduler

variable {s : Scheduler} {call : Call} {calls : List Call}

/-- **What holds between the calls** holds behind a call. -/
theorem Sound.enqueue (sound : s.Sound) (high : call.now < endInstant) :
    (s.enqueueDueJobs call.now call.visible).2.Sound := by
  rw [enqueueDueJobs_eq sound high]
  have kept {row : ScheduledJob} (inside : row ∈ s.jobs) :=
    ScheduledJob.behind_spec (sound.ahead row inside) call
  refine ⟨?_, ?_, ?_, ?_, ?_⟩
  · show ((s.jobs.map (·.behind call)).map (·.id)).Nodup
    rw [List.map_map]
    have same : s.jobs.map ((·.id) ∘ (·.behind call)) = s.jobs.map (·.id) :=
      List.map_congr_left fun row inside => (kept inside).1
    exact same ▸ sound.ids
  · show ((s.occurrences ++ _).map (·.idempotencyKey)).Nodup
    rw [List.map_append, List.nodup_append]
    refine ⟨sound.keys, sound.apart high, fun key old key' new => ?_⟩
    obtain ⟨o, mem, rfl⟩ := List.mem_map.mp old
    obtain ⟨o', mem', rfl⟩ := List.mem_map.mp new
    exact sound.fresh high o mem o' mem'
  · intro o mem _ moved t datetime keyed
    obtain ⟨row, inside, rfl⟩ := List.mem_map.mp moved
    have keyed : o.idempotencyKey = row.idempotencyKey t := by
      rw [keyed, ScheduledJob.idempotencyKey, ScheduledJob.idempotencyKey, (kept inside).1]
    rcases List.mem_append.mp mem with old | new
    · exact lt_of_lt_of_le (sound.before o old row inside t datetime keyed) (kept inside).2.2.1
    · obtain ⟨job, listed, made⟩ := List.mem_flatMap.mp new
      obtain ⟨known, due⟩ := mem_dueJobs.mp listed
      obtain ⟨t', own, low, le⟩ :=
        ScheduledJob.mem_enqueued (sound.ahead job known) (ScheduledJob.le_of_due due) made
      have first := sound.datetime job known
      obtain ⟨ids, rfl⟩ := idempotencyKey_inj datetime
        ⟨first.trans low, lt_of_le_of_lt le high⟩ (keyed.symm.trans own)
      obtain rfl := Tables.eq_of_key sound.ids inside known ids
      show t < (row.behind call).nextRunAt
      rw [ScheduledJob.behind_of_due due]
      exact lt_of_le_of_lt le (ScheduledJob.advanced_spec (sound.ahead row inside) due).1
  · intro _ moved
    obtain ⟨row, inside, rfl⟩ := List.mem_map.mp moved
    show (row.behind call).schedule.Ahead _
    rw [(kept inside).2.1]
    exact (kept inside).2.2.2
  · intro _ moved
    obtain ⟨row, inside, rfl⟩ := List.mem_map.mp moved
    exact (sound.datetime row inside).trans (kept inside).2.2.1

/-- Calls one after the other. -/
def run (s : Scheduler) (calls : List Call) : Scheduler :=
  calls.foldl (fun s call => (s.enqueueDueJobs call.now call.visible).2) s

/-- The occurrences of a job, in the order they were created. -/
def occurrencesOf (s : Scheduler) (i : ℕ) : List Enqueued :=
  s.occurrences.filter fun o => o.scheduledJob = i

end Scheduler

namespace ScheduledJob

/-- A job behind calls. -/
def after (job : ScheduledJob) (calls : List Call) : ScheduledJob := calls.foldl behind job

/-- The occurrences of a job that calls create. -/
def madeAll (job : ScheduledJob) : List Call → List Enqueued
  | [] => []
  | call :: calls => job.made call ++ (job.behind call).madeAll calls

end ScheduledJob

namespace Scheduler

variable {s : Scheduler} {call : Call} {calls : List Call}

/-- The occurrences of a job behind a call are those before it and the ones it makes. -/
theorem occurrencesOf_enqueue (sound : s.Sound) (high : call.now < endInstant) {job : ScheduledJob}
    (inside : job ∈ s.jobs) :
    (s.enqueueDueJobs call.now call.visible).2.occurrencesOf job.id =
      s.occurrencesOf job.id ++ job.made call := by
  rw [enqueueDueJobs_eq sound high, occurrencesOf, occurrencesOf, List.filter_append]
  congr 1
  have apart : ((s.dueJobs call.now call.visible).map (·.id)).Nodup :=
    sound.nodup_dueJobs call.visible
  by_cases due : job.isDue call
  · rw [filter_enqueued_of_mem apart (mem_dueJobs.mpr ⟨inside, due⟩), ScheduledJob.made, if_pos due]
  · rw [ScheduledJob.made, if_neg due]
    refine filter_enqueued fun listed => due ?_
    obtain ⟨other, mem, same⟩ := List.mem_map.mp listed
    obtain ⟨known, ready⟩ := mem_dueJobs.mp mem
    exact Tables.eq_of_key sound.ids known inside same ▸ ready

/-- **Over calls** every job goes its own way. -/
theorem run_spec (sound : s.Sound) (high : ∀ call ∈ calls, call.now < endInstant) :
    (s.run calls).Sound ∧ (s.run calls).jobs = s.jobs.map (·.after calls) ∧
      ∀ job ∈ s.jobs, (s.run calls).occurrencesOf job.id =
        s.occurrencesOf job.id ++ job.madeAll calls := by
  induction calls generalizing s with
  | nil =>
    refine ⟨sound, (List.map_id _).symm, fun job _ => ?_⟩
    exact (List.append_nil _).symm
  | cons call calls ih =>
    have now := high call List.mem_cons_self
    obtain ⟨later, jobs, made⟩ :=
      ih (sound.enqueue now) fun call mem => high call (List.mem_cons_of_mem _ mem)
    have moved : (s.enqueueDueJobs call.now call.visible).2.jobs = s.jobs.map (·.behind call) := by
      rw [enqueueDueJobs_eq sound now]
    refine ⟨later, ?_, fun job inside => ?_⟩
    · show (Scheduler.run _ calls).jobs = _
      rw [jobs, moved, List.map_map]
      rfl
    · have step := made (job.behind call) (moved ▸ List.mem_map_of_mem inside)
      rw [(ScheduledJob.behind_spec (sound.ahead job inside) call).1,
        occurrencesOf_enqueue sound now inside, List.append_assoc] at step
      exact step

end Scheduler

/-! ## What a job is served -/

/-- The turns of a job over calls: the calls that serve it, each with the points due at it. -/
inductive Turns (job : ScheduledJob) :
    Instant → List Call → List (Call × List Instant) → Instant → Prop
  | none {cursor : Instant} : Turns job cursor [] [] cursor
  | passed {cursor last : Instant} {call : Call} {calls : List Call}
      {turns : List (Call × List Instant)} : (job.isRead call → call.now < cursor) →
      Turns job cursor calls turns last → Turns job cursor (call :: calls) turns last
  | served {cursor next last : Instant} {call : Call} {calls : List Call} {due : List Instant}
      {turns : List (Call × List Instant)} : job.isRead call → cursor ≤ call.now →
      Orbit.Window job.schedule.advance cursor call.now due next →
      Turns job next calls turns last → Turns job cursor (call :: calls) ((call, due) :: turns) last

/-- The occurrences of a turn. -/
def ScheduledJob.served (job : ScheduledJob) (turn : Call × List Instant) : List Enqueued :=
  (job.missedRunPolicy.select turn.2).map
    (job.occurrence turn.1.now (turn.2.length - (job.missedRunPolicy.select turn.2).length))

section
variable {job : ScheduledJob} {cursor last : Instant} {calls : List Call}
  {turns : List (Call × List Instant)}

/-- What is selected and what is skipped are what is due. -/
theorem skippedCount_of_mem {turn : Call × List Instant} {o : Enqueued}
    (mem : o ∈ job.served turn) :
    (job.missedRunPolicy.select turn.2).length + o.skippedCount = turn.2.length := by
  obtain ⟨t, -, rfl⟩ := List.mem_map.mp mem
  exact add_sub_cancel _ _

theorem exists_turns (job : ScheduledJob) (calls : List Call) {cursor : Instant}
    (ahead : job.schedule.Ahead cursor) : ∃ turns last, Turns job cursor calls turns last ∧
      { job with nextRunAt := cursor }.after calls = { job with nextRunAt := last } ∧
      { job with nextRunAt := cursor }.madeAll calls = turns.flatMap job.served := by
  induction calls generalizing cursor with
  | nil => exact ⟨[], cursor, .none, rfl, rfl⟩
  | cons call calls ih =>
    let row : ScheduledJob := { job with nextRunAt := cursor }
    by_cases due : row.isDue call
    · obtain ⟨points, window, made⟩ := row.plan_window ahead (ScheduledJob.le_of_due due)
      obtain ⟨turns, last, taken, behind, later⟩ := ih (ScheduledJob.advanced_spec ahead due).2
      refine ⟨(call, points) :: turns, last, .served (Bool.and_eq_true_iff.mp due).1
        (ScheduledJob.le_of_due due) window taken, ?_, ?_⟩
      · show (row.behind call).after calls = _
        rw [ScheduledJob.behind_of_due due]
        exact behind
      · show row.made call ++ (row.behind call).madeAll calls = _
        rw [ScheduledJob.behind_of_due due, ScheduledJob.made, if_pos due, made,
          List.flatMap_cons]
        exact congrArg _ later
    · obtain ⟨turns, last, taken, behind, later⟩ := ih ahead
      refine ⟨turns, last, .passed (fun read => ?_) taken, ?_, ?_⟩
      · by_contra before
        exact due (Bool.and_eq_true_iff.mpr ⟨read, decide_eq_true (not_lt.mp before)⟩)
      · show (row.behind call).after calls = _
        rw [ScheduledJob.behind_of_not_due due]
        exact behind
      · show row.made call ++ (row.behind call).madeAll calls = _
        rw [ScheduledJob.behind_of_not_due due, ScheduledJob.made, if_neg due]
        exact later

/-- **The turns of a job** take its points one after the other, and leave none out. -/
theorem Turns.points (h : Turns job cursor calls turns last)
    (forward : Orbit.Forward job.schedule.advance cursor) :
    job.schedule.IsPoint cursor last ∧ (turns.flatMap Prod.snd).Pairwise (· < ·) ∧
      ∀ t, t ∈ turns.flatMap Prod.snd ↔ job.schedule.IsPoint cursor t ∧ t < last := by
  induction h with
  | none =>
    refine ⟨Orbit.isPoint_start, .nil, fun t => ⟨fun mem => absurd mem List.not_mem_nil, ?_⟩⟩
    exact fun ⟨point, before⟩ => absurd (forward.start_le point) (not_le.mpr before)
  | passed _ _ ih => exact ih forward
  | @served cursor next last call calls due turns _ _ window _ ih =>
    obtain ⟨isPoint, ascending, mem_iff⟩ := ih (window.forward forward)
    have from_ {t : Instant} : job.schedule.IsPoint next t ↔
        job.schedule.IsPoint cursor t ∧ next ≤ t := Orbit.isPoint_of_isPoint forward window.isPoint
    obtain ⟨isPoint, le⟩ := from_.mp isPoint
    refine ⟨isPoint, ?_, fun t => ?_⟩
    · rw [List.flatMap_cons]
      refine List.pairwise_append.mpr ⟨window.ascending, ascending, fun t mem t' mem' => ?_⟩
      exact lt_of_lt_of_le (window.mem_iff_lt.mp mem).2 (from_.mp ((mem_iff t').mp mem').1).2
    · rw [List.flatMap_cons, List.mem_append, mem_iff, window.mem_iff_lt, from_]
      constructor
      · rintro (⟨point, before⟩ | ⟨⟨point, -⟩, before⟩)
        · exact ⟨point, lt_of_lt_of_le before le⟩
        · exact ⟨point, before⟩
      · rintro ⟨point, before⟩
        rcases lt_or_ge t next with early | late
        · exact .inl ⟨point, early⟩
        · exact .inr ⟨⟨point, late⟩, before⟩

/-- Behind calls in order a job goes on from the least of its points after the last of them. -/
theorem Turns.least (h : Turns job cursor calls turns last)
    (forward : Orbit.Forward job.schedule.advance cursor)
    (ordered : calls.Pairwise fun call call' => call.now ≤ call'.now) {call : Call}
    (final : calls.getLast? = some call) (read : job.isRead call) :
    call.now < last ∧ ∀ t, job.schedule.IsPoint cursor t → call.now < t → last ≤ t := by
  induction h with
  | none => cases final
  | @passed cursor last call' calls turns idle rest ih =>
    cases calls with
    | nil =>
      obtain rfl := Option.some.inj final
      cases rest
      exact ⟨idle read, fun t point _ => forward.start_le point⟩
    | cons next calls => exact ih forward ordered.of_cons final
  | @served cursor next last call' calls due turns _ _ window rest ih =>
    cases calls with
    | nil =>
      obtain rfl := Option.some.inj final
      cases rest
      exact ⟨window.behind, window.least⟩
    | cons second calls =>
      obtain ⟨behind, least⟩ := ih (window.forward forward) ordered.of_cons final
      refine ⟨behind, fun t point later => ?_⟩
      have before : call'.now ≤ call.now :=
        List.rel_of_pairwise_cons ordered (List.mem_of_getLast? final)
      have next_le := window.least t point (lt_of_le_of_lt before later)
      exact least t ((Orbit.isPoint_of_isPoint forward window.isPoint).mpr ⟨point, next_le⟩) later

end

/-! ## A change at midnight -/

/-- America/Nuuk: at 01:00 UTC of 31 March 2024 its clock goes from 23:00 to midnight. -/
def nuuk : Zone where
  first := -7200000000
  changes := [(1711846800000000, -3600000000)]
  spaced :=
    { bounded := by decide
      apart := List.pairwise_singleton _ _ }

/-- Every day at 23:30, next on 29 March. -/
def nuukJob : ScheduledJob where
  id := 1
  taskName := "market.ingest"
  parameters := "{}"
  schedule := .daily nuuk 84600000000 (by decide)
  missedRunPolicy := .all
  nextRunAt := 1711762200000000
  enabled := true

/-- Every minute. -/
def minuteJob : ScheduledJob where
  id := 2
  taskName := "operations.health"
  parameters := "{}"
  schedule := .interval 60 (by decide)
  missedRunPolicy := .latest
  nextRunAt := 1711762200000000
  enabled := true

def nuukScheduler : Scheduler := ⟨[nuukJob, minuteJob], []⟩

theorem offset_nuuk {t : ℤ} (early : t < 1711846800000000) : nuuk.offset t = -7200000000 :=
  offsetFrom_cons_lt early

theorem ahead_nuukJob : nuukJob.schedule.Ahead nuukJob.nextRunAt := by
  have before (t : ℤ) (early : t ≤ 1711762200000000) :
      t + nuuk.offset t < (19811 + 1) * day + 84600000000 := by
    rw [offset_nuuk (by omega)]
    simp only [day]
    omega
  exact before

theorem sound_nuukScheduler : nuukScheduler.Sound where
  ids := by decide
  keys := .nil
  before o mem := absurd mem List.not_mem_nil
  ahead job mem := by
    rcases List.mem_cons.mp mem with rfl | mem
    · exact ahead_nuukJob
    · rw [List.mem_singleton.mp mem]
      trivial
  datetime job mem := by
    rcases List.mem_cons.mp mem with rfl | mem
    · decide
    · rw [List.mem_singleton.mp mem]
      decide

/-- The change moves the time of 30 March past midnight. -/
theorem overruns_nuuk : Schedule.Overruns nuuk 84600000000 19812 := by
  refine ⟨1711846800000000, ⟨?_, ?_⟩, ?_⟩ <;> decide

/-! ## Runs -/

/-- **Runs of the scheduler.** -/
theorem enqueue_due_jobs {s : Scheduler} (sound : s.Sound) {calls : List Call}
    (ordered : calls.Pairwise fun call call' => call.now ≤ call'.now)
    (high : ∀ call ∈ calls, call.now < endInstant) :
    ((s.run calls).occurrences.map (·.idempotencyKey)).Nodup ∧
    ∀ job ∈ s.jobs, ∃ turns last, Turns job job.nextRunAt calls turns last ∧
      { job with nextRunAt := last } ∈ (s.run calls).jobs ∧
      (s.run calls).occurrencesOf job.id =
        s.occurrencesOf job.id ++ turns.flatMap job.served ∧
      (∀ turn ∈ turns, ∀ o ∈ job.served turn,
        (job.missedRunPolicy.select turn.2).length + o.skippedCount = turn.2.length) ∧
      (turns.flatMap Prod.snd).Pairwise (· < ·) ∧
      (∀ t, t ∈ turns.flatMap Prod.snd ↔ job.schedule.IsPoint job.nextRunAt t ∧ t < last) ∧
      (∀ call, calls.getLast? = some call → job.isRead call →
        call.now < last ∧
          ∀ t, job.schedule.IsPoint job.nextRunAt t → call.now < t → last ≤ t) ∧
      ∀ zone localTime inDay, job.schedule = .daily zone localTime inDay →
        ((∀ date, zone.date job.nextRunAt ≤ date →
          ∃! t, job.schedule.IsPoint job.nextRunAt t ∧ zone.date t = date) ↔
          ∀ date, zone.date job.nextRunAt < date → ¬ Schedule.Overruns zone localTime date) := by
  obtain ⟨later, jobs, made⟩ := Scheduler.run_spec sound high
  refine ⟨later.keys, fun job inside => ?_⟩
  have forward := Schedule.forward (sound.ahead job inside)
  obtain ⟨turns, last, taken, behind, created⟩ := exists_turns job calls (sound.ahead job inside)
  obtain ⟨-, ascending, points⟩ := taken.points forward
  refine ⟨turns, last, taken, ?_, ?_, fun turn _ o => skippedCount_of_mem, ascending, points,
    fun call final read => taken.least forward ordered final read, ?_⟩
  · rw [jobs]
    exact List.mem_map.mpr ⟨job, inside, behind⟩
  · rw [made job inside]
    exact congrArg _ created
  · intro zone localTime inDay kind
    rw [kind]
    exact Schedule.existsUnique_point_iff inDay job.nextRunAt

theorem enqueue_due_jobs_nuuk :
    have calls : List Call := [⟨1711764000000000, fun _ => true⟩, ⟨1712000000000000, fun _ => true⟩]
    ((nuukScheduler.run calls).occurrences.map (·.idempotencyKey)).Nodup ∧
    ∃ turns last, Turns nuukJob nuukJob.nextRunAt calls turns last ∧
      { nuukJob with nextRunAt := last } ∈ (nuukScheduler.run calls).jobs ∧
      (nuukScheduler.run calls).occurrencesOf 1 = turns.flatMap nuukJob.served ∧
      1712000000000000 < last := by
  intro calls
  obtain ⟨keys, each⟩ := @enqueue_due_jobs nuukScheduler sound_nuukScheduler calls (by decide)
    (by decide)
  obtain ⟨turns, last, taken, row, made, -, -, -, final, -⟩ := each nuukJob List.mem_cons_self
  exact ⟨keys, turns, last, taken, row, made, (final _ rfl rfl).1⟩

/-- 30 March has no run of its own: there the job runs at half past midnight of the next date. -/
theorem nuuk_loses_a_date : ¬ ∀ s : Scheduler, s.Sound → ∀ job ∈ s.jobs, ∀ zone localTime inDay,
    job.schedule = .daily zone localTime inDay → ∀ date, zone.date job.nextRunAt ≤ date →
      ∃! t, job.schedule.IsPoint job.nextRunAt t ∧ zone.date t = date := by
  intro each
  have daily := each nuukScheduler sound_nuukScheduler nuukJob List.mem_cons_self nuuk 84600000000
    (by decide) rfl
  exact (Schedule.existsUnique_point_iff (by decide) _).mp daily 19812 (by decide) overruns_nuuk

end TradeRecommender.Operations
