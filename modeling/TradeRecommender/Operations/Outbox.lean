import Mathlib.Algebra.Group.Int.Defs
import TradeRecommender.Lib.Civil
import TradeRecommender.Lib.Runs
import TradeRecommender.Lib.Tables

/-!
# The outbox

Messages claimed for delivery under a lease, and the attempts to deliver them.

1. rows, `claim_outbox` and `finish_outbox`;
2. what one call keeps;
3. every run in which no exhausted delivery expires.
-/

namespace TradeRecommender.Operations

open Py Civil Runs

/-! ## Rows and operations -/

/-- `OutboxMessage.Status` -/
inductive MessageStatus
  | pending | sending | sent | failed | uncertain
  deriving DecidableEq

/-- The statuses a message ends in. -/
def MessageStatus.isFinal : MessageStatus → Bool
  | .pending | .sending => false
  | .sent | .failed | .uncertain => true

/-- `DeliveryAttempt.Outcome` -/
inductive Outcome
  | started | succeeded | failed | uncertain
  deriving DecidableEq

/-- `OutboxMessage` -/
structure OutboxMessage where
  id : ℕ
  notBefore : Instant
  status : MessageStatus
  attempts : ℕ
  maxAttempts : ℕ
  leaseOwner : String
  leaseExpiresAt : Option Instant
  heartbeatAt : Option Instant
  completedAt : Option Instant
  deriving DecidableEq

/-- `DeliveryAttempt` -/
structure DeliveryAttempt where
  message : ℕ
  attemptNumber : ℕ
  workerId : String
  outcome : Outcome
  errorCode : String
  summary : String
  startedAt : Instant
  finishedAt : Option Instant
  deriving DecidableEq

/-- The key of an attempt, unique by constraint. -/
def DeliveryAttempt.key (a : DeliveryAttempt) : ℕ × ℕ := (a.message, a.attemptNumber)

/-- The tables of the outbox. -/
structure Outbox where
  messages : List OutboxMessage
  attempts : List DeliveryAttempt
  deriving DecidableEq

namespace Outbox

variable (q : Outbox)

/-- `message.delivery_attempts` -/
def attemptsOf (id : ℕ) : List DeliveryAttempt := q.attempts.filter fun a => a.message = id

/-- `message.save()` -/
def save (row : OutboxMessage) : Outbox :=
  { q with messages := Tables.put OutboxMessage.id q.messages row }

/-- `attempt.save()` -/
def saveAttempt (a : DeliveryAttempt) : Outbox :=
  { q with attempts := Tables.put DeliveryAttempt.key q.attempts a }

/-- `DeliveryAttempt.objects.create(…)` -/
def createAttempt (a : DeliveryAttempt) : Except Exc Outbox :=
  if a.key ∈ q.attempts.map DeliveryAttempt.key then
    raise .databaseError "duplicate key value violates unique constraint"
  else .ok { q with attempts := q.attempts ++ [a] }

/-- `OutboxMessage.objects.select_for_update().get(pk=pk)` -/
def get (id : ℕ) : Except Exc OutboxMessage :=
  match q.messages.find? fun row => row.id = id with
  | some row => .ok row
  | none => raise (.other "DoesNotExist") "OutboxMessage matching query does not exist."

/-- `row.delivery_attempts.get(attempt_number=row.attempts)` -/
def currentAttempt (row : OutboxMessage) : Except Exc DeliveryAttempt :=
  match q.attempts.find? fun a => a.key = (row.id, row.attempts) with
  | some a => .ok a
  | none => raise (.other "DoesNotExist") "DeliveryAttempt matching query does not exist."

/-- The message that is next: pending, or with an expired lease. -/
def nextMessage (now : Instant) (visible : ℕ → Bool) : Option OutboxMessage :=
  Tables.firstDue (·.notBefore) (·.id) <| q.messages.filter fun row =>
    visible row.id && (row.status = .pending ||
      row.status = .sending && row.leaseExpiresAt.any (· ≤ now)) && row.notBefore ≤ now

/-- An attempt whose lease expired. -/
def expired (previous : DeliveryAttempt) (now : Instant) : DeliveryAttempt :=
  { previous with
    outcome := .uncertain
    errorCode := "lease_expired"
    summary := "Delivery lease expired before its outcome was recorded"
    finishedAt := some now }

/-- The previous attempt of a message claimed again. -/
def closePrevious (message : OutboxMessage) (now : Instant) : Except Exc Outbox :=
  if message.status = .sending then do
    let previous ← q.currentAttempt message
    return q.saveAttempt (expired previous now)
  else .ok q

/-- A message with no attempt left. -/
def exhausted (message : OutboxMessage) (now : Instant) : OutboxMessage :=
  { message with status := .failed, completedAt := some now }

/-- A message claimed by a worker. -/
def claimed (message : OutboxMessage) (worker : String) (now expires : Instant) : OutboxMessage :=
  { message with
    status := .sending
    attempts := message.attempts + 1
    leaseOwner := worker
    heartbeatAt := some now
    leaseExpiresAt := some expires }

/-- The attempt of a claimed message. -/
def opened (message : OutboxMessage) (worker : String) (now : Instant) : DeliveryAttempt :=
  { message := message.id
    attemptNumber := message.attempts
    workerId := worker
    outcome := .started
    errorCode := ""
    summary := ""
    startedAt := now
    finishedAt := none }

/-- `claim_outbox`; `visible` leaves out the rows another transaction has locked. -/
def claimOutbox (worker : String) (now : Instant) (lease : ℤ) (visible : ℕ → Bool) :
    Except Exc (Option OutboxMessage × Outbox) :=
  match q.nextMessage now visible with
  | none => .ok (none, q)
  | some message =>
    if message.maxAttempts ≤ message.attempts then
      .ok (none, q.save (exhausted message now))
    else do
      let q ← q.closePrevious message now
      let expires ← shift now lease
      let message := claimed message worker now expires
      let q ← (q.save message).createAttempt (opened message worker now)
      return (some message, q)

/-- `timedelta(seconds=30 * (2 ** (attempts - 1)))` -/
def retryDelay (attempts : ℕ) : ℤ :=
  if attempts = 0 then 15000000 else 30000000 * 2 ^ (attempts - 1)

/-- A message after an outcome of its attempt. -/
def settled (row : OutboxMessage) (outcome : Outcome) (now : Instant) : Except Exc OutboxMessage :=
  let row := { row with leaseOwner := "", leaseExpiresAt := none, heartbeatAt := none }
  if outcome = .succeeded then .ok { row with status := .sent, completedAt := some now }
  else if outcome = .uncertain then .ok { row with status := .uncertain, completedAt := some now }
  else if row.maxAttempts ≤ row.attempts then
    .ok { row with status := .failed, completedAt := some now }
  else do
    let notBefore ← shift now (retryDelay row.attempts)
    return { row with status := .pending, notBefore := notBefore }

/-- `finish_outbox` -/
def finishOutbox (id : ℕ) (worker : String) (outcome : Outcome) (errorCode summary : String)
    (now : Instant) : Except Exc (Bool × Outbox) := do
  let row ← q.get id
  if row.status ≠ .sending ∨ row.leaseOwner ≠ worker then return (false, q)
  else
    let attempt ← q.currentAttempt row
    let q := q.saveAttempt
      { attempt with
        outcome := outcome
        errorCode := errorCode
        summary := String.ofList (summary.toList.take 240)
        finishedAt := some now }
    let row ← settled row outcome now
    return (true, q.save row)

/-- A call of an operation. -/
inductive Event
  | claim (worker : String) (now : Instant) (lease : ℤ) (visible : ℕ → Bool)
  | finish (id : ℕ) (worker : String) (outcome : Outcome) (errorCode summary : String)
      (now : Instant)

/-- What a call leaves; a call that raises leaves everything as it was. -/
def committed {α : Type} (result : Except Exc (α × Outbox)) : Outbox :=
  match result with
  | .ok (_, q') => q'
  | .error _ => q

/-- One call. -/
def step : Event → Outbox
  | .claim worker now lease visible => q.committed (q.claimOutbox worker now lease visible)
  | .finish id worker outcome errorCode summary now =>
    q.committed (q.finishOutbox id worker outcome errorCode summary now)

/-- Messages as `enqueue_outbox` creates them, and no attempt to deliver them. -/
structure Fresh : Prop where
  unique : (q.messages.map OutboxMessage.id).Nodup
  unclaimed : ∀ row ∈ q.messages, row.status = .pending ∧ row.attempts = 0 ∧
    row.leaseOwner = "" ∧ row.leaseExpiresAt = none ∧ row.heartbeatAt = none
  attempts : q.attempts = []

/-- What the calls of a run have to be: no delivery that was the last allowed one is found expired,
and no outcome reported is that the attempt started. -/
def Orderly (q : Outbox) : Event → Prop
  | .claim _ now _ visible => ∀ message, q.nextMessage now visible = some message →
    message.status = .sending → message.attempts < message.maxAttempts
  | .finish _ _ outcome _ _ _ => outcome ≠ .started

/-! ## What one call keeps -/

/-- A message and its attempts: numbered in order, and only the one under way without an outcome;
without one under way there is no lease. -/
structure Kept (attempts : List DeliveryAttempt) (row : OutboxMessage) : Prop where
  numbers : attempts.map DeliveryAttempt.attemptNumber = List.range' 1 row.attempts
  recorded : ∀ a ∈ attempts, a.outcome = .started →
    row.status = .sending ∧ a.attemptNumber = row.attempts
  claimed : row.status = .sending → 1 ≤ row.attempts
  cleared : row.status ≠ .sending →
    row.leaseOwner = "" ∧ row.leaseExpiresAt = none ∧ row.heartbeatAt = none

/-- The invariant of the outbox. -/
structure Invariant : Prop where
  unique : (q.messages.map OutboxMessage.id).Nodup
  kept : ∀ row ∈ q.messages, Kept (q.attemptsOf row.id) row

variable {q} {q' : Outbox} {row row' : OutboxMessage} {now : Instant} {a : DeliveryAttempt}

theorem attemptsOf_saveAttempt (id : ℕ) :
    (q.saveAttempt a).attemptsOf id = Tables.put DeliveryAttempt.key (q.attemptsOf id) a := by
  show (Tables.put DeliveryAttempt.key q.attempts a).filter _ = _
  rw [Tables.put, Tables.put, List.filter_map, attemptsOf]
  congr 1
  refine List.filter_congr fun other _ => ?_
  show decide ((if other.key = a.key then a else other).message = id) = _
  split_ifs with same
  · rw [show a.message = other.message from (congrArg Prod.fst same).symm]
  · rfl

/-- Attempts of other messages stay. -/
theorem attemptsOf_saveAttempt_of_ne {id : ℕ} (other : a.message ≠ id) :
    (q.saveAttempt a).attemptsOf id = q.attemptsOf id := by
  rw [attemptsOf_saveAttempt, Tables.put]
  refine (List.map_congr_left fun b hb => ?_).trans (List.map_id _)
  have of : b.message = id := of_decide_eq_true (List.mem_filter.mp hb).2
  exact if_neg fun same => other ((congrArg Prod.fst same).symm.trans of)

theorem attemptsOf_append {attempts : List DeliveryAttempt}
    (created : q'.attempts = q.attempts ++ attempts) (id : ℕ) :
    q'.attemptsOf id = q.attemptsOf id ++ attempts.filter fun a => a.message = id := by
  rw [attemptsOf, created, List.filter_append]
  rfl

/-- A row replaced, with what it and the other rows have of attempts. -/
theorem Invariant.replace (invariant : q.Invariant) (id : row'.id = row.id) (rows : q'.messages = Tables.put OutboxMessage.id q.messages row')
    (others : ∀ other, other ≠ row.id → q'.attemptsOf other = q.attemptsOf other)
    (kept : Kept (q'.attemptsOf row.id) row') : q'.Invariant := by
  constructor
  · rw [rows, Tables.map_key_put]
    exact invariant.unique
  · intro x hx
    rw [rows] at hx
    rcases Tables.of_mem_put hx with rfl | ⟨hx, other⟩
    · rw [id]
      exact kept
    · rw [others x.id (by rw [← id]; exact other)]
      exact invariant.kept x hx

/-- The attempt under way. -/
theorem currentAttempt_spec (found : q.currentAttempt row = .ok a) :
    a ∈ q.attemptsOf row.id ∧ a.message = row.id ∧ a.attemptNumber = row.attempts := by
  rw [currentAttempt] at found
  split at found
  · next here =>
    cases found
    have key := List.find?_some here
    rw [decide_eq_true_eq] at key
    have message : a.message = row.id := congrArg Prod.fst key
    have number : a.attemptNumber = row.attempts := congrArg Prod.snd key
    exact ⟨List.mem_filter.mpr ⟨List.mem_of_find?_eq_some here, decide_eq_true message⟩, message,
      number⟩
  · cases found

/-- Recording an outcome of the attempt under way leaves no attempt of the message without one. -/
theorem Kept.record (kept : Kept (q.attemptsOf row.id) row) (recorded : DeliveryAttempt)
    (message : recorded.message = row.id) (number : recorded.attemptNumber = row.attempts)
    (outcome : recorded.outcome ≠ .started) :
    ((q.saveAttempt recorded).attemptsOf row.id).map DeliveryAttempt.attemptNumber =
        List.range' 1 row.attempts ∧
      ∀ b ∈ (q.saveAttempt recorded).attemptsOf row.id, b.outcome ≠ .started := by
  rw [attemptsOf_saveAttempt]
  constructor
  · rw [← kept.numbers, Tables.put, List.map_map]
    refine List.map_congr_left fun b _ => ?_
    show (if b.key = recorded.key then recorded else b).attemptNumber = b.attemptNumber
    split_ifs with same
    · exact (congrArg Prod.snd same).symm
    · rfl
  · intro b hb started
    rcases Tables.of_mem_put hb with rfl | ⟨hb, other⟩
    · exact outcome started
    · have of : b.message = row.id := of_decide_eq_true (List.mem_filter.mp hb).2
      have current := (kept.recorded b hb started).2
      refine other (Prod.ext ?_ ?_)
      · exact of.trans message.symm
      · exact current.trans number.symm

theorem mem_of_get {id : ℕ} (h : q.get id = .ok row) : row ∈ q.messages ∧ row.id = id := by
  rw [get] at h
  split at h
  · next found =>
    cases h
    have same := List.find?_some found
    rw [decide_eq_true_eq] at same
    exact ⟨List.mem_of_find?_eq_some found, same⟩
  · cases h

/-- The message claimed is in the outbox, and pending or sent under an expired lease. -/
theorem mem_of_nextMessage {visible : ℕ → Bool} (next : q.nextMessage now visible = some row) :
    row ∈ q.messages ∧ (row.status = .pending ∨ row.status = .sending) := by
  have chosen := List.mem_filter.mp (Tables.mem_of_firstDue next)
  simp only [Bool.and_eq_true, Bool.or_eq_true, decide_eq_true_eq] at chosen
  refine ⟨chosen.1, ?_⟩
  rcases chosen.2.1.2 with pending | ⟨sending, -⟩
  · exact .inl pending
  · exact .inr sending

/-- Closing the previous attempt of a message leaves none without an outcome. -/
theorem closePrevious_spec (kept : Kept (q.attemptsOf row.id) row)
    (closed : q.closePrevious row now = .ok q') :
    q'.messages = q.messages ∧
    (∀ other, other ≠ row.id → q'.attemptsOf other = q.attemptsOf other) ∧
    (q'.attemptsOf row.id).map DeliveryAttempt.attemptNumber = List.range' 1 row.attempts ∧
    (∀ b ∈ q'.attemptsOf row.id, b.outcome ≠ .started) ∧
    (row.status = .sending → ∃ b ∈ q'.attemptsOf row.id, b.attemptNumber = row.attempts ∧
      b.outcome = .uncertain) := by
  rw [closePrevious] at closed
  by_cases sending : row.status = .sending
  · rw [if_pos sending] at closed
    obtain ⟨previous, found, closed⟩ := bind_eq_ok.mp closed
    cases closed
    obtain ⟨listed, message, number⟩ := currentAttempt_spec found
    have after : (expired previous now).outcome ≠ .started := by
      show Outcome.uncertain ≠ .started
      decide
    have record := kept.record (expired previous now) message number after
    refine ⟨rfl, fun other differ => ?_, record.1, record.2, fun _ => ?_⟩
    · exact attemptsOf_saveAttempt_of_ne (by
        show previous.message ≠ other
        rw [message]
        exact differ.symm)
    · refine ⟨expired previous now, ?_, number, rfl⟩
      rw [attemptsOf_saveAttempt]
      exact Tables.mem_put listed rfl
  · rw [if_neg sending] at closed
    cases closed
    exact ⟨rfl, fun _ _ => rfl, kept.numbers,
      fun b hb started => sending (kept.recorded b hb started).1, fun h => absurd h sending⟩

theorem createAttempt_spec (created : q.createAttempt a = .ok q') :
    q'.messages = q.messages ∧ q'.attempts = q.attempts ++ [a] := by
  rw [createAttempt] at created
  split_ifs at created
  · cases created
  · cases created
    exact ⟨rfl, rfl⟩

/-- What a claim of a message that has attempts left does. -/
theorem claimOutbox_spec (invariant : q.Invariant) {worker : String} {lease : ℤ}
    {visible : ℕ → Bool} {result : Option OutboxMessage}
    (next : q.nextMessage now visible = some row) (left : row.attempts < row.maxAttempts)
    (claim : q.claimOutbox worker now lease visible = .ok (result, q')) :
    q'.Invariant ∧ (row.status = .sending → ∃ b ∈ q'.attemptsOf row.id,
      b.attemptNumber = row.attempts ∧ b.outcome = .uncertain) := by
  obtain ⟨mem, -⟩ := mem_of_nextMessage next
  rw [claimOutbox, next] at claim
  dsimp only at claim
  rw [if_neg (not_le.mpr left)] at claim
  obtain ⟨middle, closed, claim⟩ := bind_eq_ok.mp claim
  obtain ⟨expires, -, claim⟩ := bind_eq_ok.mp claim
  obtain ⟨created, made, claim⟩ := bind_eq_ok.mp claim
  cases claim
  obtain ⟨messages, others, numbers, closedAll, uncertain⟩ :=
    closePrevious_spec (invariant.kept row mem) closed
  generalize hm : claimed row worker now expires = message at made
  have message_id : message.id = row.id := by
    rw [← hm]
    rfl
  have message_attempts : message.attempts = row.attempts + 1 := by
    rw [← hm]
    rfl
  have message_status : message.status = .sending := by
    rw [← hm]
    rfl
  obtain ⟨rows, created⟩ := createAttempt_spec made
  have appended := attemptsOf_append (q := middle) created
  have mine : ([opened message worker now].filter fun a => a.message = row.id) =
      [opened message worker now] := by
    rw [List.filter_singleton, decide_eq_true (show (opened message worker now).message = row.id from
      message_id)]
    rfl
  constructor
  · refine invariant.replace message_id (rows.trans (by rw [← messages]; rfl))
      (fun other differ => (appended other).trans ?_) ?_
    · rw [others other differ, List.filter_singleton, decide_eq_false
        (show (opened message worker now).message ≠ other from message_id.trans_ne differ.symm)]
      exact List.append_nil _
    · have whole := appended row.id
      rw [mine] at whole
      rw [whole]
      refine ⟨?_, ?_, ?_, ?_⟩
      · rw [List.map_append, numbers, message_attempts, List.range'_1_concat, Nat.add_comm 1]
        rw [← message_attempts]
        rfl
      · intro b hb started
        rcases List.mem_append.mp hb with hb | hb
        · exact absurd started (closedAll b hb)
        · rw [List.mem_singleton.mp hb]
          exact ⟨message_status, rfl⟩
      · rw [message_attempts]
        exact fun _ => Nat.le_add_left 1 row.attempts
      · exact fun h => absurd message_status h
  · intro sending
    obtain ⟨b, hb, number, outcome⟩ := uncertain sending
    refine ⟨b, ?_, number, outcome⟩
    rw [appended row.id]
    exact List.mem_append_left _ hb

theorem claimOutbox_invariant (invariant : q.Invariant) {worker : String} {lease : ℤ}
    {visible : ℕ → Bool} {result : Option OutboxMessage}
    (orderly : ∀ message, q.nextMessage now visible = some message →
      message.status = .sending → message.attempts < message.maxAttempts)
    (claim : q.claimOutbox worker now lease visible = .ok (result, q')) : q'.Invariant := by
  cases next : q.nextMessage now visible with
  | none =>
    rw [claimOutbox, next] at claim
    cases claim
    exact invariant
  | some row =>
    by_cases left : row.attempts < row.maxAttempts
    · exact (claimOutbox_spec invariant next left claim).1
    · -- the exhausted message is a pending one: no delivery of it is under way
      obtain ⟨mem, status⟩ := mem_of_nextMessage next
      have pending : row.status = .pending :=
        status.resolve_right fun sending => left (orderly row next sending)
      have kept := invariant.kept row mem
      rw [claimOutbox, next] at claim
      dsimp only at claim
      rw [if_pos (not_lt.mp left)] at claim
      cases claim
      refine invariant.replace (show (exhausted row now).id = row.id from rfl) rfl (fun _ _ => rfl)
        ⟨kept.numbers, ?_, ?_, ?_⟩
      · intro b hb started
        have := (kept.recorded b hb started).1
        rw [pending] at this
        cases this
      · exact fun h => by cases h
      · exact fun _ => kept.cleared (by rw [pending]; decide)

/-- What an outcome makes of a message. -/
theorem settled_spec {outcome : Outcome} (settles : settled row outcome now = .ok row') :
    row'.id = row.id ∧ row'.attempts = row.attempts ∧ row'.status ≠ .sending ∧
      row'.leaseOwner = "" ∧ row'.leaseExpiresAt = none ∧ row'.heartbeatAt = none := by
  rw [settled] at settles
  dsimp only at settles
  by_cases sent : outcome = .succeeded
  · rw [if_pos sent] at settles
    cases settles
    exact ⟨rfl, rfl, (fun h => by cases h), rfl, rfl, rfl⟩
  by_cases uncertain : outcome = .uncertain
  · rw [if_neg sent, if_pos uncertain] at settles
    cases settles
    exact ⟨rfl, rfl, (fun h => by cases h), rfl, rfl, rfl⟩
  by_cases last : row.maxAttempts ≤ row.attempts
  · rw [if_neg sent, if_neg uncertain, if_pos last] at settles
    cases settles
    exact ⟨rfl, rfl, (fun h => by cases h), rfl, rfl, rfl⟩
  · rw [if_neg sent, if_neg uncertain, if_neg last] at settles
    obtain ⟨notBefore, -, settles⟩ := bind_eq_ok.mp settles
    cases settles
    exact ⟨rfl, rfl, (fun h => by cases h), rfl, rfl, rfl⟩

theorem finishOutbox_invariant (invariant : q.Invariant) {id : ℕ} {worker : String}
    {outcome : Outcome} {errorCode summary : String} {result : Bool} (ended : outcome ≠ .started)
    (finish : q.finishOutbox id worker outcome errorCode summary now = .ok (result, q')) :
    q'.Invariant := by
  obtain ⟨row, found, finish⟩ := bind_eq_ok.mp finish
  have mem := (mem_of_get found).1
  by_cases refused : row.status ≠ .sending ∨ row.leaseOwner ≠ worker
  · rw [if_pos refused] at finish
    cases finish
    exact invariant
  rw [if_neg refused] at finish
  obtain ⟨attempt, current, finish⟩ := bind_eq_ok.mp finish
  obtain ⟨row', settles, finish⟩ := bind_eq_ok.mp finish
  cases finish
  obtain ⟨listed, message, number⟩ := currentAttempt_spec current
  obtain ⟨id', attempts, status, cleared⟩ := settled_spec settles
  have record := (invariant.kept row mem).record
    { attempt with
      outcome := outcome
      errorCode := errorCode
      summary := String.ofList (summary.toList.take 240)
      finishedAt := some now } message number ended
  refine invariant.replace id' rfl (fun other differ => ?_) ⟨?_, ?_, ?_, fun _ => cleared⟩
  · exact attemptsOf_saveAttempt_of_ne (by
      show attempt.message ≠ other
      rw [message]
      exact differ.symm)
  · rw [attempts]
    exact record.1
  · exact fun b hb started => absurd started (record.2 b hb)
  · exact fun sending => absurd sending status

theorem Fresh.invariant (fresh : q.Fresh) : q.Invariant := by
  refine ⟨fresh.unique, fun row mem => ?_⟩
  obtain ⟨pending, unclaimed, cleared⟩ := fresh.unclaimed row mem
  have none : q.attemptsOf row.id = [] := by
    rw [attemptsOf, fresh.attempts, List.filter_nil]
  rw [none]
  refine ⟨?_, ?_, ?_, fun _ => cleared⟩
  · rw [unclaimed]
    rfl
  · exact fun b hb => by cases hb
  · intro sending
    rw [pending] at sending
    cases sending

/-- An orderly call keeps the invariant. -/
theorem Invariant.step (invariant : q.Invariant) {event : Event} (orderly : Orderly q event) :
    (q.step event).Invariant := by
  have returned : ∀ {α : Type} (result : Except Exc (α × Outbox)),
      (∀ a q', result = .ok (a, q') → q'.Invariant) → (q.committed result).Invariant := by
    intro α result keeps
    cases result with
    | error e => exact invariant
    | ok pair => exact keeps pair.1 pair.2 rfl
  cases event with
  | claim worker now lease visible =>
    exact returned _ fun _ _ claim => claimOutbox_invariant invariant orderly claim
  | finish id worker outcome errorCode summary now =>
    exact returned _ fun _ _ finish => finishOutbox_invariant invariant orderly finish

/-! ## Runs -/

/-- What is promised of a message: once it has ended, all its attempts have an outcome and its lease
is cleared; and a delivery found expired gets an uncertain outcome. -/
structure Promises (q : Outbox) (row : OutboxMessage) : Prop where
  recorded : row.status.isFinal = true → ∀ a ∈ q.attemptsOf row.id, a.outcome ≠ .started
  cleared : row.status.isFinal = true →
    row.leaseOwner = "" ∧ row.leaseExpiresAt = none ∧ row.heartbeatAt = none
  uncertain : ∀ worker now lease visible, Orderly q (.claim worker now lease visible) →
    q.nextMessage now visible = some row → row.status = .sending → ∀ result q',
      q.claimOutbox worker now lease visible = .ok (result, q') →
        ∃ a ∈ q'.attemptsOf row.id, a.attemptNumber = row.attempts ∧ a.outcome = .uncertain

/-- The outbox over every run of orderly calls, from fresh messages. -/
theorem outbox_orderly (reached : Reached step Orderly Fresh q) :
    ∀ row ∈ q.messages, Promises q row := by
  have invariant : q.Invariant :=
    reached.invariant (fun _ fresh => fresh.invariant)
      fun _ _ invariant orderly => invariant.step orderly
  intro row mem
  have kept := invariant.kept row mem
  have settled : row.status.isFinal = true → row.status ≠ .sending := by
    intro final sending
    rw [sending] at final
    cases final
  refine ⟨?_, fun final => kept.cleared (settled final), ?_⟩
  · exact fun final b hb started => settled final (kept.recorded b hb started).1
  · intro worker now lease visible orderly next sending result q' claim
    exact (claimOutbox_spec invariant next (orderly row next sending) claim).2 sending

/-- One message, due at the epoch, with a single attempt. -/
def sampleOutbox : Outbox where
  messages :=
    [{ id := 1, notBefore := 0, status := .pending, attempts := 0, maxAttempts := 1
       leaseOwner := "", leaseExpiresAt := none, heartbeatAt := none, completedAt := none }]
  attempts := []

theorem sampleOutbox_fresh : sampleOutbox.Fresh := by
  refine ⟨by decide, ?_, rfl⟩
  intro row mem
  rw [List.mem_singleton.mp mem]
  exact ⟨rfl, rfl, rfl, rfl, rfl⟩

/-- The sample is claimed and sent. -/
def sentOutbox : Outbox :=
  (sampleOutbox.step (.claim "mailer" 0 300000000 fun _ => true)).step
    (.finish 1 "mailer" .succeeded "" "" 60000000)

theorem outbox_orderly_sent :
    ∃ row ∈ sentOutbox.messages, row.status = .sent ∧ Promises sentOutbox row := by
  have claimable : Orderly sampleOutbox (.claim "mailer" 0 300000000 fun _ => true) := by
    intro message next sending
    obtain ⟨mem, -⟩ := mem_of_nextMessage next
    rw [List.mem_singleton.mp mem] at sending
    cases sending
  have reported : Orderly (sampleOutbox.step (.claim "mailer" 0 300000000 fun _ => true))
      (.finish 1 "mailer" .succeeded "" "" 60000000) := by
    show Outcome.succeeded ≠ .started
    decide
  have claimed := (Reached.start sampleOutbox_fresh :
    Reached step Orderly Fresh sampleOutbox).step claimable
  have rows : sentOutbox.messages =
      [{ id := 1, notBefore := 0, status := .sent, attempts := 1, maxAttempts := 1
         leaseOwner := "", leaseExpiresAt := none, heartbeatAt := none
         completedAt := some 60000000 }] := by
    decide
  have reached : Reached step Orderly Fresh sentOutbox := claimed.step reported
  refine ⟨_, by rw [rows]; exact List.mem_singleton_self _, rfl, ?_⟩
  exact outbox_orderly reached _ (by rw [rows]; exact List.mem_singleton_self _)

/-- The sample is claimed, and its only allowed delivery is found expired. -/
def expiredOutbox : Outbox :=
  (sampleOutbox.step (.claim "first" 0 300000000 fun _ => true)).step
    (.claim "second" 300000000 300000000 fun _ => true)

/-- A delivery that was the last allowed one stays without an outcome when its lease expires. -/
theorem expiredOutbox_started :
    ¬ ∀ q, Reached step (fun _ event => ∀ id worker outcome errorCode summary now,
        event = .finish id worker outcome errorCode summary now → outcome ≠ .started) Fresh q →
      ∀ row ∈ q.messages, row.status.isFinal = true →
        (∀ a ∈ q.attemptsOf row.id, a.outcome ≠ .started) ∧
          row.leaseOwner = "" ∧ row.leaseExpiresAt = none := by
  intro claimed
  have rows : expiredOutbox.messages =
      [{ id := 1, notBefore := 0, status := .failed, attempts := 1, maxAttempts := 1
         leaseOwner := "first", leaseExpiresAt := some 300000000, heartbeatAt := some 0
         completedAt := some 300000000 }] := by
    decide
  have reached : Reached step (fun _ event => ∀ id worker outcome errorCode summary now,
      event = .finish id worker outcome errorCode summary now → outcome ≠ .started) Fresh
      expiredOutbox :=
    ((Reached.start sampleOutbox_fresh).step fun _ _ _ _ _ _ h => by cases h).step
      fun _ _ _ _ _ _ h => by cases h
  have final := claimed expiredOutbox reached _ (by rw [rows]; exact List.mem_singleton_self _) rfl
  exact absurd final.2.1 (by decide)

end Outbox

end TradeRecommender.Operations
