import Mathlib.Algebra.Group.Int.Defs
import TradeRecommender.Lib.Civil
import TradeRecommender.Lib.Runs
import TradeRecommender.Lib.Tables

/-!
# The durable job queue

Occurrences of scheduled jobs, claimed under a lease, renewed, and finished by their worker.

1. rows;
2. `claim_next_job`, `heartbeat_job` and `finish_job`;
3. what one write to a row keeps;
4. every run of the queue.
-/

namespace TradeRecommender.Operations

open Py Civil Runs

/-! ## Rows -/

/-- `JobOccurrence.Status` -/
inductive JobStatus
  | queued | running | succeeded | failed
  deriving DecidableEq

/-- The statuses an occurrence ends in. -/
def JobStatus.isFinal : JobStatus → Bool
  | .queued | .running => false
  | .succeeded | .failed => true

/-- A status's text. -/
def JobStatus.text : JobStatus → String
  | .queued => "queued"
  | .running => "running"
  | .succeeded => "succeeded"
  | .failed => "failed"

/-- `JobOccurrence` -/
structure JobOccurrence where
  id : ℕ
  taskName : String
  status : JobStatus
  attempts : ℕ
  maxAttempts : ℕ
  availableAt : Instant
  startedAt : Option Instant
  finishedAt : Option Instant
  leaseOwner : String
  leaseExpiresAt : Option Instant
  heartbeatAt : Option Instant
  executionDeadline : Option Instant
  timeoutSeconds : ℕ
  errorCode : String
  errorSummary : String
  deriving DecidableEq

/-- `TaskFailure` -/
structure TaskFailure where
  occurrence : ℕ
  attemptNumber : ℕ
  taskName : String
  errorCode : String
  category : String
  stage : String
  exceptionType : String
  summary : String
  terminal : Bool
  occurredAt : Instant

/-- `AuditEvent`, as `finish_job` creates it. -/
structure JobAudit where
  eventType : String
  subjectId : ℕ
  task : String
  attempts : ℕ
  errorCode : String
  stage : String

/-- The tables of the queue. -/
structure JobQueue where
  occurrences : List JobOccurrence
  failures : List TaskFailure
  audit : List JobAudit

namespace JobQueue

variable (q : JobQueue)

/-- `occurrence.failures`, in the order they were recorded. -/
def failuresOf (id : ℕ) : List TaskFailure := q.failures.filter fun f => f.occurrence = id

/-- `row.save()` -/
def save (row : JobOccurrence) : JobQueue :=
  { q with occurrences := Tables.put JobOccurrence.id q.occurrences row }

/-- `TaskFailure.objects.get_or_create(occurrence=…, attempt_number=…, defaults=…)` -/
def recordFailure (failure : TaskFailure) : JobQueue :=
  if q.failures.any fun f =>
      f.occurrence = failure.occurrence ∧ f.attemptNumber = failure.attemptNumber then q
  else { q with failures := q.failures ++ [failure] }

/-- `JobOccurrence.objects.select_for_update().get(pk=pk)` -/
def get (id : ℕ) : Except Exc JobOccurrence :=
  match q.occurrences.find? fun row => row.id = id with
  | some row => .ok row
  | none => raise (.other "DoesNotExist") "JobOccurrence matching query does not exist."

/-! ## The operations -/

/-- The filter of the expired leases. -/
def leaseExpired (now : Instant) (row : JobOccurrence) : Bool :=
  row.status = .running &&
    (row.leaseOwner = "" || row.leaseExpiresAt.all (· ≤ now) ||
      row.executionDeadline.any (· ≤ now))

/-- The failure of an attempt whose lease expired. -/
def leaseFailure (stale : JobOccurrence) (terminal : Bool) (now : Instant) : TaskFailure :=
  { occurrence := stale.id
    attemptNumber := stale.attempts
    taskName := stale.taskName
    errorCode := "lease_expired"
    category := "worker"
    stage := "lease"
    exceptionType := ""
    summary := "Worker lease expired before the attempt reported an outcome"
    terminal := terminal
    occurredAt := now }

/-- A row whose lease expired, failed at its last attempt and otherwise queued again. -/
def expire (now : Instant) (stale : JobOccurrence) : JobOccurrence :=
  let stale :=
    { stale with
      leaseOwner := ""
      leaseExpiresAt := none
      heartbeatAt := none
      errorCode := "lease_expired"
      errorSummary := "Worker lease expired" }
  if stale.maxAttempts ≤ stale.attempts then
    { stale with status := .failed, finishedAt := some now }
  else { stale with status := .queued, availableAt := now }

/-- The body of the loop over expired leases. -/
def recover (now : Instant) (stale : JobOccurrence) : JobQueue :=
  let q := q.save (expire now stale)
  if stale.attempts ≠ 0 then
    q.recordFailure (leaseFailure stale (decide (stale.maxAttempts ≤ stale.attempts)) now)
  else q

/-- The queued row that is next. -/
def nextQueued (now : Instant) (visible : ℕ → Bool) : Option JobOccurrence :=
  Tables.firstDue (·.availableAt) (·.id) <| q.occurrences.filter fun row =>
    visible row.id && row.status = .queued && row.availableAt ≤ now

/-- A row claimed by a worker. -/
def claimed (row : JobOccurrence) (worker : String) (now expires deadline : Instant) :
    JobOccurrence :=
  { row with
    status := .running
    attempts := row.attempts + 1
    startedAt := some now
    leaseOwner := worker
    heartbeatAt := some now
    leaseExpiresAt := some expires
    executionDeadline := some deadline
    errorCode := ""
    errorSummary := "" }

/-- `claim_next_job`; `visible` leaves out the rows another transaction has locked, which
`skip_locked` passes over. -/
def claimNextJob (worker : String) (now : Instant) (lease : ℤ) (visible : ℕ → Bool) :
    Except Exc (Option JobOccurrence × JobQueue) :=
  let q := (q.occurrences.filter fun row => visible row.id && leaseExpired now row).foldl
    (fun q stale => q.recover now stale) q
  match q.nextQueued now visible with
  | none => .ok (none, q)
  | some row => do
    let expires ← shift now lease
    let deadline ← shift now (row.timeoutSeconds * 1000000)
    let row := claimed row worker now expires deadline
    return (some row, q.save row)

/-- `heartbeat_job` -/
def heartbeatJob (id : ℕ) (worker : String) (now : Instant) (lease : ℤ) :
    Except Exc (Bool × JobQueue) := do
  let row ← q.get id
  if row.status ≠ .running ∨ row.leaseOwner ≠ worker then return (false, q)
  else if row.executionDeadline.any (· ≤ now) then
    return (false, q.save { row with leaseExpiresAt := some now })
  else
    let expires ← shift now lease
    match row.executionDeadline with
    | none => raise .typeError "'<' not supported between instances of 'NoneType' and 'datetime'"
    | some deadline =>
      return (true, q.save
        { row with heartbeatAt := some now, leaseExpiresAt := some (min expires deadline) })

/-- An exception as `classify_failure` reads it. -/
structure Diagnostic where
  code : String
  category : String
  stage : String
  exceptionType : String
  summary : String

/-- `error`: nothing that is true, an exception, or anything else. -/
inductive JobError
  | none
  | exception (diagnostic : Diagnostic)
  | value

/-- `bool(error)` -/
def JobError.isSome : JobError → Bool
  | .none => false
  | .exception _ => true
  | .value => true

/-- `worker_id`: absent, a text, or, in the original calls, the error. -/
inductive WorkerArg
  | none
  | name (text : String)
  | error (error : JobError)

/-- The copy of an occurrence a worker holds. -/
structure JobCopy where
  id : ℕ
  leaseOwner : String

/-- The worker and the error of a call of `finish_job`. -/
def finishArgs (copy : JobCopy) (worker : WorkerArg) (error : JobError) : String × JobError :=
  let (worker, error) := match worker with
    | .none => ("", error)
    | .name text => (text, error)
    | .error error => (copy.leaseOwner, error)
  (if worker ≠ "" then worker else if copy.leaseOwner ≠ "" then copy.leaseOwner
    else "legacy-worker", error)

/-- `timedelta(seconds=30 * (2 ** (attempts - 1)))` -/
def backoff (attempts : ℕ) : ℤ := if attempts = 0 then 15000000 else 30000000 * 2 ^ (attempts - 1)

/-- The failure a worker reports. -/
def reportedFailure (row : JobOccurrence) (error : JobError) (errorCode : String) (terminal : Bool)
    (now : Instant) : TaskFailure :=
  match error with
  | .exception diagnostic =>
    { occurrence := row.id
      attemptNumber := row.attempts
      taskName := row.taskName
      errorCode := diagnostic.code
      category := diagnostic.category
      stage := diagnostic.stage
      exceptionType := diagnostic.exceptionType
      summary := diagnostic.summary
      terminal := terminal
      occurredAt := now }
  | _ =>
    { occurrence := row.id
      attemptNumber := row.attempts
      taskName := row.taskName
      errorCode := errorCode
      category := "unclassified"
      stage := ""
      exceptionType := ""
      summary := "Task execution failed"
      terminal := terminal
      occurredAt := now }

/-- `row.error_code` and `row.error_summary` -/
def errorText (error : JobError) (errorCode : String) : String × String :=
  match error with
  | .exception diagnostic => (diagnostic.code, diagnostic.summary)
  | .none => ("", "")
  | .value => (errorCode, "Task execution failed")

/-- `diagnostic.stage if diagnostic else ""` -/
def errorStage : JobError → String
  | .exception diagnostic => diagnostic.stage
  | _ => ""

/-- The row of a finished attempt. -/
def finished (row : JobOccurrence) (error : JobError) (errorCode : String) (now : Instant) :
    Except Exc JobOccurrence := do
  let row :=
    { row with
      leaseOwner := ""
      leaseExpiresAt := none
      heartbeatAt := none
      errorCode := (errorText error errorCode).1
      errorSummary := (errorText error errorCode).2 }
  if error.isSome ∧ row.attempts < row.maxAttempts then
    let availableAt ← shift now (backoff row.attempts)
    return { row with status := .queued, availableAt := availableAt }
  else
    return { row with
      status := if error.isSome then .failed else .succeeded
      finishedAt := some now }

/-- The audit event of a row that has ended. -/
def auditOf (row : JobOccurrence) (error : JobError) : List JobAudit :=
  if row.status.isFinal then
    [{ eventType := "operations.job_" ++ row.status.text
       subjectId := row.id
       task := row.taskName
       attempts := row.attempts
       errorCode := row.errorCode
       stage := errorStage error }]
  else []

/-- `finish_job`, by the worker and with the error its arguments stand for. -/
def finishJob (id : ℕ) (worker : String) (error : JobError) (errorCode : String) (now : Instant) :
    Except Exc (Bool × JobQueue) := do
  let row ← q.get id
  if row.status ≠ .running ∨ row.leaseOwner ≠ worker then return (false, q)
  else
    let ended ← finished row error errorCode now
    let terminal := error.isSome && row.maxAttempts ≤ row.attempts
    let q := if error.isSome then
        q.recordFailure (reportedFailure row error errorCode terminal now)
      else q
    let q := q.save ended
    return (true, { q with audit := q.audit ++ auditOf ended error })

/-! ## Events -/

/-- A call of an operation. -/
inductive Event
  | claim (worker : String) (now : Instant) (lease : ℤ) (visible : ℕ → Bool)
  | heartbeat (id : ℕ) (worker : String) (now : Instant) (lease : ℤ)
  | finish (copy : JobCopy) (worker : WorkerArg) (error : JobError) (errorCode : String)
      (now : Instant)

/-- What a call leaves; a call that raises leaves everything as it was. -/
def committed {α : Type} (result : Except Exc (α × JobQueue)) : JobQueue :=
  match result with
  | .ok (_, q') => q'
  | .error _ => q

/-- One call. -/
def step : Event → JobQueue
  | .claim worker now lease visible => q.committed (q.claimNextJob worker now lease visible)
  | .heartbeat id worker now lease => q.committed (q.heartbeatJob id worker now lease)
  | .finish copy worker error errorCode now =>
    let (worker, error) := finishArgs copy worker error
    q.committed (q.finishJob copy.id worker error errorCode now)

/-- Occurrences as `enqueue_due_jobs` creates them, and nothing recorded of them. -/
structure Fresh : Prop where
  unique : (q.occurrences.map JobOccurrence.id).Nodup
  queued : ∀ row ∈ q.occurrences, row.status = .queued
  unclaimed : ∀ row ∈ q.occurrences, row.attempts = 0
  failures : q.failures = []

/-! ## What one write keeps -/

/-- The attempts of a row whose failures are recorded. -/
def recorded (row : JobOccurrence) : ℕ :=
  match row.status with
  | .queued => row.attempts
  | .running => row.attempts - 1
  | .succeeded => row.attempts - 1
  | .failed => row.attempts

/-- A row and its failures: one failure for each attempt that failed, in order, and the last one
terminal where the row failed. -/
structure Kept (failures : List TaskFailure) (row : JobOccurrence) : Prop where
  within : 1 ≤ row.maxAttempts → row.attempts ≤ row.maxAttempts
  queued : 1 ≤ row.maxAttempts → row.status = .queued → row.attempts < row.maxAttempts
  claimed : row.status ≠ .queued → 1 ≤ row.attempts
  numbers : failures.map TaskFailure.attemptNumber = List.range' 1 (recorded row)
  terminal : (failures.countP fun f => f.terminal) = if row.status = .failed then 1 else 0

/-- The invariant of the queue. -/
structure Invariant : Prop where
  unique : (q.occurrences.map JobOccurrence.id).Nodup
  kept : ∀ row ∈ q.occurrences, Kept (q.failuresOf row.id) row

/-- The failures a write adds, each of the written row. -/
def AddsOf (row : JobOccurrence) (added : List TaskFailure) : Prop :=
  ∀ f ∈ added, f.occurrence = row.id

/-- One write: a row that has not ended is replaced, and failures of it are recorded. -/
def Writes (q q' : JobQueue) : Prop :=
  ∃ row ∈ q.occurrences, ∃ row', row'.id = row.id ∧ row.status.isFinal = false ∧
    q'.occurrences = Tables.put JobOccurrence.id q.occurrences row' ∧
    ∃ added, AddsOf row added ∧ q'.failures = q.failures ++ added ∧
      Kept (q.failuresOf row.id ++ added) row'

variable {q} {q' : JobQueue} {row row' : JobOccurrence} {now : Instant}

theorem failuresOf_append {added : List TaskFailure} (adds : AddsOf row added)
    (failures : q'.failures = q.failures ++ added) (id : ℕ) :
    q'.failuresOf id = q.failuresOf id ++ if id = row.id then added else [] := by
  rw [failuresOf, failures, List.filter_append]
  congr 1
  by_cases same : id = row.id
  · rw [if_pos same, List.filter_eq_self]
    intro f hf
    rw [decide_eq_true_eq, adds f hf, same]
  · rw [if_neg same, List.filter_eq_nil_iff]
    intro f hf
    rw [decide_eq_true_eq, adds f hf]
    exact fun h => same h.symm

/-- A write keeps the invariant. -/
theorem Invariant.write (invariant : q.Invariant) (writes : Writes q q') : q'.Invariant := by
  obtain ⟨row, mem, row', id, -, rows, added, adds, failures, kept⟩ := writes
  constructor
  · rw [rows, Tables.map_key_put]
    exact invariant.unique
  · intro x hx
    rw [rows] at hx
    rw [failuresOf_append adds failures]
    rcases Tables.of_mem_put hx with rfl | ⟨hx, other⟩
    · rw [if_pos id, id]
      exact kept
    · rw [id] at other
      rw [if_neg other, List.append_nil]
      exact invariant.kept x hx

/-- A row that has ended, with its failures. -/
def EndedIn (q : JobQueue) (row : JobOccurrence) (failures : List TaskFailure) : Prop :=
  row ∈ q.occurrences ∧ row.status.isFinal = true ∧ q.failuresOf row.id = failures

/-- A write leaves the rows that have ended, and their failures. -/
theorem EndedIn.write {failures : List TaskFailure} (invariant : q.Invariant)
    (ended : EndedIn q row failures) (writes : Writes q q') : EndedIn q' row failures := by
  obtain ⟨written, mem, row', id, going, rows, added, adds, recorded, -⟩ := writes
  obtain ⟨hrow, final, same⟩ := ended
  have other : row.id ≠ written.id := by
    intro h
    rw [Tables.eq_of_key invariant.unique hrow mem h, going] at final
    cases final
  refine ⟨?_, final, ?_⟩
  · rw [rows]
    exact Tables.mem_put_of_ne hrow (by rw [id]; exact other)
  · rw [failuresOf_append adds recorded, if_neg other, List.append_nil, same]

/-! ### The writes of the operations -/

/-- The next attempt's failure is not yet recorded. -/
theorem recordFailure_new {failure : TaskFailure} (kept : Kept (q.failuresOf row.id) row)
    (running : row.status = .running) (of : failure.occurrence = row.id)
    (number : failure.attemptNumber = row.attempts) :
    (q.recordFailure failure).failures = q.failures ++ [failure] ∧
      (q.recordFailure failure).occurrences = q.occurrences := by
  have absent : (q.failures.any fun f =>
      f.occurrence = failure.occurrence ∧ f.attemptNumber = failure.attemptNumber) = false := by
    rw [List.any_eq_false]
    intro f hf
    rw [decide_eq_true_eq]
    rintro ⟨same, again⟩
    have listed : f ∈ q.failuresOf row.id :=
      List.mem_filter.mpr ⟨hf, by rw [decide_eq_true_eq, same, of]⟩
    have earlier := List.mem_map_of_mem (f := TaskFailure.attemptNumber) listed
    rw [kept.numbers, List.mem_range', recorded, running] at earlier
    dsimp only at earlier
    have started := kept.claimed (by rw [running]; decide)
    obtain ⟨i, hi, at_i⟩ := earlier
    rw [again, number] at at_i
    omega
  rw [recordFailure, absent]
  exact ⟨rfl, rfl⟩

/-- What becomes of a running row whose attempt failed. -/
theorem Kept.fail {failures : List TaskFailure} {failure : TaskFailure}
    (kept : Kept failures row) (running : row.status = .running)
    (number : failure.attemptNumber = row.attempts)
    (terminal : failure.terminal = decide (row.maxAttempts ≤ row.attempts))
    (attempts : row'.attempts = row.attempts) (max : row'.maxAttempts = row.maxAttempts)
    (status : row'.status = if row.maxAttempts ≤ row.attempts then .failed else .queued) :
    Kept (failures ++ [failure]) row' := by
  have started := kept.claimed (by rw [running]; decide)
  have count := kept.terminal
  have numbers := kept.numbers
  rw [running, if_neg (by decide)] at count
  rw [recorded, running] at numbers
  refine ⟨?_, ?_, ?_, ?_, ?_⟩
  · rw [attempts, max]
    exact kept.within
  · intro _ queued
    rw [status] at queued
    split_ifs at queued with last
    rw [attempts, max]
    exact not_le.mp last
  · intro _
    rw [attempts]
    exact started
  · have all : recorded row' = row.attempts - 1 + 1 := by
      rw [recorded, status, attempts]
      split_ifs <;> dsimp only <;> omega
    have next : 1 + (row.attempts - 1) = row.attempts := by omega
    rw [List.map_append, numbers, all, List.range'_1_concat]
    simp only [List.map_cons, List.map_nil, number]
    rw [next]
  · rw [List.countP_append, count, List.countP_singleton, terminal, status]
    by_cases last : row.maxAttempts ≤ row.attempts
    · rw [if_pos last, decide_eq_true last]
      rfl
    · rw [if_neg last, decide_eq_false last]
      rfl

/-- A write to a row that records nothing. -/
theorem Writes.save (mem : row ∈ q.occurrences) (id : row'.id = row.id)
    (going : row.status.isFinal = false) (kept : Kept (q.failuresOf row.id) row') :
    Writes q (q.save row') := by
  refine ⟨row, mem, row', id, going, rfl, [], ?_, (List.append_nil _).symm, ?_⟩
  · exact fun _ h => by cases h
  · rw [List.append_nil]
    exact kept

/-- A write to a row that records the failure of its attempt. -/
theorem Writes.fail (failure : TaskFailure) (invariant : q.Invariant) (mem : row ∈ q.occurrences)
    (running : row.status = .running) (id : row'.id = row.id) (of : failure.occurrence = row.id)
    (number : failure.attemptNumber = row.attempts)
    (terminal : failure.terminal = decide (row.maxAttempts ≤ row.attempts))
    (attempts : row'.attempts = row.attempts) (max : row'.maxAttempts = row.maxAttempts)
    (status : row'.status = if row.maxAttempts ≤ row.attempts then .failed else .queued)
    (rows : q'.occurrences = Tables.put JobOccurrence.id q.occurrences row')
    (failures : q'.failures = (q.recordFailure failure).failures) : Writes q q' := by
  have kept := invariant.kept row mem
  rw [(recordFailure_new kept running of number).1] at failures
  refine ⟨row, mem, row', id, by rw [running]; rfl, rows, [failure], ?_, failures,
    kept.fail running number terminal attempts max status⟩
  intro f hf
  rw [List.mem_singleton.mp hf, of]

/-- A worker whose lease expired: one write. -/
theorem recover_writes (invariant : q.Invariant) (mem : row ∈ q.occurrences)
    (running : row.status = .running) : Writes q (q.recover now row) := by
  have started := (invariant.kept row mem).claimed (by rw [running]; decide)
  have expired : (expire now row).id = row.id ∧ (expire now row).attempts = row.attempts ∧
      (expire now row).maxAttempts = row.maxAttempts ∧
      (expire now row).status = if row.maxAttempts ≤ row.attempts then .failed else .queued := by
    rw [expire]
    dsimp only
    split_ifs <;> exact ⟨rfl, rfl, rfl, rfl⟩
  obtain ⟨id, attempts, max, status⟩ := expired
  have recovered : q.recover now row = (q.save (expire now row)).recordFailure
      (leaseFailure row (decide (row.maxAttempts ≤ row.attempts)) now) := by
    rw [recover, if_pos (by omega)]
  refine Writes.fail (leaseFailure row (decide (row.maxAttempts ≤ row.attempts)) now)
    invariant mem running id rfl rfl rfl attempts max status ?_ ?_
  · rw [recovered, recordFailure]
    split_ifs <;> rfl
  · rw [recovered, recordFailure, recordFailure]
    show (if (q.failures.any _) = true then _ else _ : JobQueue).failures = _
    split_ifs <;> rfl

/-- A claim of a queued row: one write. -/
theorem claimed_writes (invariant : q.Invariant) (mem : row ∈ q.occurrences)
    (queued : row.status = .queued) (worker : String) (expires deadline : Instant) :
    Writes q (q.save (claimed row worker now expires deadline)) := by
  have kept := invariant.kept row mem
  refine Writes.save mem rfl (by rw [queued]; rfl) ⟨?_, ?_, ?_, ?_, ?_⟩
  · exact fun some => kept.queued some queued
  · exact fun _ h => by cases h
  · exact fun _ => Nat.le_add_left 1 row.attempts
  · rw [kept.numbers, recorded, queued]
    rfl
  · rw [kept.terminal, queued]
    rfl

/-- A renewed lease: one write. -/
theorem renewed_writes (invariant : q.Invariant) (mem : row ∈ q.occurrences)
    (running : row.status = .running) (id : row'.id = row.id) (attempts : row'.attempts = row.attempts)
    (max : row'.maxAttempts = row.maxAttempts) (status : row'.status = row.status) :
    Writes q (q.save row') := by
  have kept := invariant.kept row mem
  refine Writes.save mem id (by rw [running]; rfl) ⟨?_, ?_, ?_, ?_, ?_⟩
  · rw [attempts, max]
    exact kept.within
  · rw [attempts, max, status]
    exact kept.queued
  · rw [attempts, status]
    exact kept.claimed
  · rw [kept.numbers, recorded, recorded, status, attempts]
  · rw [kept.terminal, status]

/-! ### The operations write -/

/-- Some writes, each keeping the invariant. -/
abbrev WritesAll : JobQueue → JobQueue → Prop := Relation.ReflTransGen Writes

theorem Invariant.writeAll (invariant : q.Invariant) (writes : WritesAll q q') :
    q'.Invariant := by
  induction writes with
  | refl => exact invariant
  | tail _ write ih => exact ih.write write

theorem EndedIn.writeAll {failures : List TaskFailure} (invariant : q.Invariant)
    (ended : EndedIn q row failures) (writes : WritesAll q q') : EndedIn q' row failures := by
  induction writes with
  | refl => exact ended
  | tail before write ih => exact ih.write (invariant.writeAll before) write

/-- The loop over expired leases: each of its rows is still as it was read when its turn comes. -/
theorem recoverAll_writes {expired : List JobOccurrence} (invariant : q.Invariant)
    (there : ∀ row ∈ expired, row ∈ q.occurrences) (running : ∀ row ∈ expired, row.status = .running)
    (unique : (expired.map JobOccurrence.id).Nodup) :
    WritesAll q (expired.foldl (fun q stale => q.recover now stale) q) := by
  induction expired generalizing q with
  | nil => exact .refl
  | cons row expired ih =>
    have writes : Writes q (q.recover now row) := recover_writes invariant (there row List.mem_cons_self)
      (running row List.mem_cons_self)
    rw [List.map_cons, List.nodup_cons] at unique
    rw [List.foldl_cons]
    refine .head writes (ih (invariant.write writes) (fun other ho => ?_)
      (fun other ho => running other (List.mem_cons_of_mem _ ho)) unique.2)
    have apart : other.id ≠ row.id := by
      intro same
      exact unique.1 (same ▸ List.mem_map_of_mem ho)
    have rows : (q.recover now row).occurrences =
        Tables.put JobOccurrence.id q.occurrences (expire now row) := by
      rw [recover, recordFailure]
      split_ifs <;> rfl
    have id : (expire now row).id = row.id := by
      rw [expire]
      dsimp only
      split_ifs <;> rfl
    rw [rows]
    exact Tables.mem_put_of_ne (there other (List.mem_cons_of_mem _ ho)) (by rw [id]; exact apart)

theorem claimNextJob_writes (invariant : q.Invariant) {worker : String} {lease : ℤ}
    {visible : ℕ → Bool} {result : Option JobOccurrence}
    (claim : q.claimNextJob worker now lease visible = .ok (result, q')) : WritesAll q q' := by
  rw [claimNextJob] at claim
  dsimp only at claim
  generalize hexpired : (q.occurrences.filter fun row =>
    visible row.id && leaseExpired now row) = expired at claim
  have read : ∀ row ∈ expired, row ∈ q.occurrences ∧ row.status = .running := by
    intro row hr
    rw [← hexpired, List.mem_filter, Bool.and_eq_true, leaseExpired, Bool.and_eq_true,
      decide_eq_true_eq] at hr
    exact ⟨hr.1, hr.2.2.1⟩
  have unique : (expired.map JobOccurrence.id).Nodup := by
    rw [← hexpired]
    exact invariant.unique.sublist (List.filter_sublist.map _)
  have recovered : WritesAll q (expired.foldl (fun q stale => q.recover now stale) q) :=
    recoverAll_writes invariant (fun row hr => (read row hr).1) (fun row hr => (read row hr).2) unique
  generalize expired.foldl (fun q stale => q.recover now stale) q = middle at claim recovered
  cases next : middle.nextQueued now visible with
  | none =>
    rw [next] at claim
    cases claim
    exact recovered
  | some row =>
    rw [next] at claim
    obtain ⟨expires, -, claim⟩ := bind_eq_ok.mp claim
    obtain ⟨deadline, -, claim⟩ := bind_eq_ok.mp claim
    cases claim
    have chosen := List.mem_filter.mp (Tables.mem_of_firstDue next)
    rw [Bool.and_eq_true, Bool.and_eq_true, decide_eq_true_eq] at chosen
    exact recovered.tail (claimed_writes (invariant.writeAll recovered) chosen.1 chosen.2.1.2
      worker expires deadline)

theorem mem_of_get {id : ℕ} (h : q.get id = .ok row) : row ∈ q.occurrences ∧ row.id = id := by
  rw [get] at h
  split at h
  · next found =>
    cases h
    have same := List.find?_some found
    rw [decide_eq_true_eq] at same
    exact ⟨List.mem_of_find?_eq_some found, same⟩
  · cases h

theorem heartbeatJob_writes (invariant : q.Invariant) {id : ℕ} {worker : String} {lease : ℤ}
    {result : Bool} (beat : q.heartbeatJob id worker now lease = .ok (result, q')) :
    WritesAll q q' := by
  obtain ⟨row, found, beat⟩ := bind_eq_ok.mp beat
  have mem := (mem_of_get found).1
  by_cases refused : row.status ≠ .running ∨ row.leaseOwner ≠ worker
  · rw [if_pos refused] at beat
    cases beat
    exact .refl
  rw [if_neg refused] at beat
  rw [not_or, not_not] at refused
  by_cases late : row.executionDeadline.any (· ≤ now) = true
  · rw [if_pos late] at beat
    cases beat
    exact .single (renewed_writes invariant mem refused.1 rfl rfl rfl rfl)
  · rw [if_neg late] at beat
    obtain ⟨expires, -, beat⟩ := bind_eq_ok.mp beat
    cases deadline : row.executionDeadline with
    | none =>
      rw [deadline] at beat
      cases beat
    | some deadline' =>
      rw [deadline] at beat
      cases beat
      exact .single (renewed_writes invariant mem refused.1 rfl rfl rfl rfl)

/-- What `finish_job` makes of a row. -/
theorem finished_cases {error : JobError} {errorCode : String}
    (ended : finished row error errorCode now = .ok row') :
    row'.id = row.id ∧ row'.attempts = row.attempts ∧ row'.maxAttempts = row.maxAttempts ∧
      row'.status = if error.isSome then
        (if row.maxAttempts ≤ row.attempts then .failed else .queued) else .succeeded := by
  rw [finished] at ended
  dsimp only at ended
  by_cases again : error.isSome = true ∧ row.attempts < row.maxAttempts
  · rw [if_pos again] at ended
    obtain ⟨availableAt, -, ended⟩ := bind_eq_ok.mp ended
    cases ended
    rw [if_pos again.1, if_neg (not_le.mpr again.2)]
    exact ⟨rfl, rfl, rfl, rfl⟩
  · rw [if_neg again] at ended
    cases ended
    refine ⟨rfl, rfl, rfl, ?_⟩
    rw [not_and, not_lt] at again
    show (if error.isSome = true then _ else _) = _
    split_ifs with failed last
    · rfl
    · exact absurd (again failed) last
    · rfl

theorem reportedFailure_of (row : JobOccurrence) (error : JobError) (errorCode : String)
    (terminal : Bool) (now : Instant) :
    (reportedFailure row error errorCode terminal now).occurrence = row.id ∧
      (reportedFailure row error errorCode terminal now).attemptNumber = row.attempts ∧
      (reportedFailure row error errorCode terminal now).terminal = terminal := by
  cases error <;> exact ⟨rfl, rfl, rfl⟩

theorem finishJob_writes (invariant : q.Invariant) {id : ℕ} {worker : String} {error : JobError}
    {errorCode : String} {result : Bool}
    (finish : q.finishJob id worker error errorCode now = .ok (result, q')) : WritesAll q q' := by
  obtain ⟨row, found, finish⟩ := bind_eq_ok.mp finish
  have mem := (mem_of_get found).1
  have kept := invariant.kept row mem
  by_cases refused : row.status ≠ .running ∨ row.leaseOwner ≠ worker
  · rw [if_pos refused] at finish
    cases finish
    exact .refl
  rw [if_neg refused] at finish
  rw [not_or, not_not] at refused
  obtain ⟨ended, made, finish⟩ := bind_eq_ok.mp finish
  obtain ⟨id', attempts, max, status⟩ := finished_cases made
  cases finish
  by_cases failed : error.isSome = true
  · obtain ⟨of, number, terminal⟩ := reportedFailure_of row error errorCode
      (error.isSome && decide (row.maxAttempts ≤ row.attempts)) now
    rw [failed, Bool.true_and] at terminal of number
    rw [if_pos failed] at status
    refine .single (Writes.fail (reportedFailure row error errorCode
      (decide (row.maxAttempts ≤ row.attempts)) now) invariant mem refused.1 id' of number terminal
      attempts max status ?_ ?_)
    · rw [failed, Bool.true_and, if_pos rfl]
      exact congrArg (fun rows => Tables.put JobOccurrence.id rows ended)
        (recordFailure_new kept refused.1 of number).2
    · rw [failed, Bool.true_and, if_pos rfl]
      rfl
  · rw [if_neg failed] at status
    rw [if_neg failed]
    have kept' : Kept (q.failuresOf row.id) ended := by
      refine ⟨?_, ?_, ?_, ?_, ?_⟩
      · rw [attempts, max]
        exact kept.within
      · intro _ queued
        rw [status] at queued
        cases queued
      · intro _
        rw [attempts]
        exact kept.claimed (by rw [refused.1]; decide)
      · rw [kept.numbers, recorded, recorded, refused.1, status, attempts]
      · rw [kept.terminal, refused.1, status]
        rfl
    refine .single ⟨row, mem, ended, id', by rw [refused.1]; rfl, rfl, [], ?_, ?_, ?_⟩
    · exact fun _ h => by cases h
    · exact (List.append_nil _).symm
    · rw [List.append_nil]
      exact kept'

/-- Every call writes rows one after the other. -/
theorem step_writes (invariant : q.Invariant) (event : Event) : WritesAll q (q.step event) := by
  have returned : ∀ {α : Type} (result : Except Exc (α × JobQueue)),
      (∀ a q', result = .ok (a, q') → WritesAll q q') → WritesAll q (q.committed result) := by
    intro α result writes
    cases result with
    | error e => exact .refl
    | ok pair => exact writes pair.1 pair.2 rfl
  cases event with
  | claim worker now lease visible =>
    exact returned _ fun _ _ claim => claimNextJob_writes invariant claim
  | heartbeat id worker now lease =>
    exact returned _ fun _ _ beat => heartbeatJob_writes invariant beat
  | finish copy worker error errorCode now =>
    exact returned _ fun _ _ finish => finishJob_writes invariant finish

theorem Fresh.invariant (fresh : q.Fresh) : q.Invariant := by
  refine ⟨fresh.unique, fun row mem => ?_⟩
  have queued := fresh.queued row mem
  have unclaimed := fresh.unclaimed row mem
  have none : q.failuresOf row.id = [] := by
    rw [failuresOf, fresh.failures, List.filter_nil]
  rw [none]
  refine ⟨?_, ?_, ?_, ?_, ?_⟩
  · rw [unclaimed]
    exact fun _ => Nat.zero_le _
  · rw [unclaimed]
    exact fun some _ => some
  · exact fun started => absurd queued started
  · rw [recorded, queued, unclaimed]
    rfl
  · rw [queued]
    rfl

/-! ## Runs -/

/-- What the queue promises of an occurrence, from here on. -/
structure Promises (q : JobQueue) (row : JobOccurrence) : Prop where
  within : row.attempts ≤ row.maxAttempts
  queued : row.status = .queued → row.attempts < row.maxAttempts
  failures : row.status = .queued ∨ row.status = .failed →
    (q.failuresOf row.id).map TaskFailure.attemptNumber = List.range' 1 row.attempts
  earlier : row.status = .running ∨ row.status = .succeeded →
    (q.failuresOf row.id).map TaskFailure.attemptNumber = List.range' 1 (row.attempts - 1)
  terminal : ((q.failuresOf row.id).countP fun f => f.terminal) =
    if row.status = .failed then 1 else 0
  ended : row.status = .succeeded ∨ row.status = .failed → ∀ events : List Event,
    row ∈ (events.foldl step q).occurrences ∧
      (events.foldl step q).failuresOf row.id = q.failuresOf row.id
  heartbeat : ∀ worker now lease, worker ≠ row.leaseOwner →
    q.heartbeatJob row.id worker now lease = .ok (false, q)
  finish : ∀ worker error errorCode now, worker ≠ row.leaseOwner →
    q.finishJob row.id worker error errorCode now = .ok (false, q)

theorem get_of_mem (invariant : q.Invariant) (mem : row ∈ q.occurrences) :
    q.get row.id = .ok row := by
  rw [get]
  cases found : q.occurrences.find? fun other => other.id = row.id with
  | none =>
    rw [List.find?_eq_none] at found
    exact absurd (decide_eq_true rfl) (found row mem)
  | some other =>
    have same := List.find?_some found
    rw [decide_eq_true_eq] at same
    rw [Tables.eq_of_key invariant.unique (List.mem_of_find?_eq_some found) mem same]

theorem EndedIn.run {failures : List TaskFailure} (invariant : q.Invariant)
    (ended : EndedIn q row failures) (events : List Event) :
    EndedIn (events.foldl step q) row failures := by
  induction events generalizing q with
  | nil => exact ended
  | cons event events ih =>
    have writes := step_writes invariant event
    exact ih (invariant.writeAll writes) (ended.writeAll invariant writes)

/-- The job queue over every run: any calls of any workers at any times, from fresh occurrences. -/
theorem job_queue (reached : Reached step (fun _ _ => True) Fresh q) :
    ∀ row ∈ q.occurrences, 1 ≤ row.maxAttempts → Promises q row := by
  have invariant : q.Invariant :=
    reached.invariant (fun _ fresh => fresh.invariant)
      fun _ event invariant _ => invariant.writeAll (step_writes invariant event)
  intro row mem some
  have kept := invariant.kept row mem
  have found := get_of_mem invariant mem
  have other : ∀ worker : String, worker ≠ row.leaseOwner →
      row.status ≠ .running ∨ row.leaseOwner ≠ worker := fun _ differ => .inr differ.symm
  have numbers := kept.numbers
  refine ⟨kept.within some, kept.queued some, ?_, ?_, kept.terminal, ?_, ?_, ?_⟩
  · rintro (status | status)
    · rw [numbers, recorded, status]
    · rw [numbers, recorded, status]
  · rintro (status | status)
    · rw [numbers, recorded, status]
    · rw [numbers, recorded, status]
  · intro final events
    have isFinal : row.status.isFinal = true := by
      rcases final with status | status <;> rw [status] <;> rfl
    have ended := EndedIn.run invariant ⟨mem, isFinal, rfl⟩ events
    exact ⟨ended.1, ended.2.2⟩
  · intro worker now lease differ
    rw [heartbeatJob, found]
    show (if _ then _ else _) = _
    rw [if_pos (other worker differ)]
    rfl
  · intro worker error errorCode now differ
    rw [finishJob, found]
    show (if _ then _ else _) = _
    rw [if_pos (other worker differ)]
    rfl

/-- One occurrence, due at the epoch, with a single attempt. -/
def sampleQueue : JobQueue where
  occurrences :=
    [{ id := 1, taskName := "market.refresh", status := .queued, attempts := 0, maxAttempts := 1
       availableAt := 0, startedAt := none, finishedAt := none, leaseOwner := ""
       leaseExpiresAt := none, heartbeatAt := none, executionDeadline := none
       timeoutSeconds := 900, errorCode := "", errorSummary := "" }]
  failures := []
  audit := []

/-- The sample's attempt is claimed, and its lease expires unnoticed by its worker. -/
theorem job_queue_expired :
    ∃ row ∈ ((sampleQueue.step (.claim "first" 0 300000000 fun _ => true)).step
        (.claim "second" 300000000 300000000 fun _ => true)).occurrences,
      row.status = .failed ∧
      Promises ((sampleQueue.step (.claim "first" 0 300000000 fun _ => true)).step
        (.claim "second" 300000000 300000000 fun _ => true)) row := by
  have fresh : sampleQueue.Fresh := by
    refine ⟨by decide, ?_, ?_, rfl⟩
    · intro row mem
      rw [List.mem_singleton.mp mem]
    · intro row mem
      rw [List.mem_singleton.mp mem]
  have reached := (Reached.start fresh : Reached step (fun _ _ => True) Fresh sampleQueue)
  have rows : ((sampleQueue.step (.claim "first" 0 300000000 fun _ => true)).step
      (.claim "second" 300000000 300000000 fun _ => true)).occurrences =
      sampleQueue.occurrences.map fun row =>
        expire 300000000 (claimed row "first" 0 300000000 900000000) := by
    decide
  refine ⟨_, by rw [rows]; exact List.mem_singleton_self _, by decide, ?_⟩
  exact job_queue ((reached.step trivial).step trivial) _
    (by rw [rows]; exact List.mem_singleton_self _) (by decide)

end JobQueue

end TradeRecommender.Operations
