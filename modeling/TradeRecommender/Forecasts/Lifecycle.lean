import TradeRecommender.Lib.Civil
import TradeRecommender.Lib.Python
import TradeRecommender.Lib.Window

/-!
# Recommendation lifecycles

`forecasts/lifecycle.py`: the table of lifecycle events, `transition`, through which alone it is
written, and its callers there, in `forecasts/portfolio.py` and in `forecasts/paper.py`.

1. states, and the events of a recommendation;
2. `transition`;
3. the callers, each a transaction.
-/

namespace TradeRecommender.Forecasts

open Civil (Instant)
open Py

/-! ## Events -/

/-- The keys of `TRANSITIONS`. -/
inductive LifecycleState
  | abstained | awaitingPortfolioAssessment | portfolioIneligible | awaitingOwnerDecision
  | admittedAwaitingEntry | entered | closedUnselected | admissionRevoked | cancelled | targetHit
  | invalidated | expiredAfterEntry | expiredNotActivated | expiredUnobserved | missingData
  deriving DecidableEq

/-- `TRANSITIONS` -/
def transitions : LifecycleState → List LifecycleState
  | .awaitingPortfolioAssessment => [.portfolioIneligible, .awaitingOwnerDecision, .cancelled]
  | .awaitingOwnerDecision => [.admittedAwaitingEntry, .closedUnselected, .cancelled]
  | .admittedAwaitingEntry =>
    [.entered, .admissionRevoked, .expiredNotActivated, .expiredUnobserved, .missingData,
      .cancelled]
  | .entered => [.targetHit, .invalidated, .expiredAfterEntry, .missingData]
  | _ => []

/-- What the lifecycle reads of a recommendation. -/
structure Recommendation where
  contractVersion : ℕ
  abstains : Bool
  generatedAt : Instant

/-- The state a recommendation starts in. -/
def Recommendation.initial (subject : Recommendation) : LifecycleState :=
  if subject.abstains then .abstained else .awaitingPortfolioAssessment

/-- The models an event has its source in. -/
inductive SourceType
  | recommendation | paperLifecycleEvent | paperTradeResult | paperTradeEntry
  | portfolioCohortMember | portfolioAdmissionEvent | cohortClosure
  deriving DecidableEq

/-- A source, with its `recommendation_id` where it has one. -/
structure Source where
  type : SourceType
  id : ℕ
  recommendation : Option ℕ := none

/-- `RecommendationLifecycleEvent`, without its constant `details` -/
structure LifecycleEvent (K : Type) where
  id : ℕ
  recommendation : ℕ
  predecessor : Option ℕ
  state : LifecycleState
  reasonCode : String
  sourceType : SourceType
  sourceId : ℕ
  occurredAt : Instant
  idempotencyKey : K

/-- The table, and the least number its sequence has not given out. -/
structure EventTable (K : Type) where
  rows : List (LifecycleEvent K) := []
  nextId : ℕ := 1

section
variable {K : Type}

/-- `rec.lifecycle_events` -/
def EventTable.of (t : EventTable K) (pk : ℕ) : List (LifecycleEvent K) :=
  t.rows.filter fun event => event.recommendation = pk

/-- Earlier by `occurred_at` and then by `id`. -/
def LifecycleEvent.earlier (a b : LifecycleEvent K) : Bool :=
  decide (a.occurredAt < b.occurredAt) ||
    decide (a.occurredAt = b.occurredAt) && decide (a.id < b.id)

/-- `.first()`, where events are ordered by `-occurred_at, -id` -/
def newest (events : List (LifecycleEvent K)) : Option (LifecycleEvent K) :=
  Window.firstMax LifecycleEvent.earlier events

/-! ## `transition` -/

/-- A call of `transition`, with what the clock says, what `validate_coverage_fact` and
`validate_expiry_result` do, and how many numbers of the sequence have gone to rows that were rolled
back. -/
structure Request where
  recommendation : ℕ
  state : LifecycleState
  reasonCode : String
  source : Option Source := none
  occurredAt : Option Instant := none
  now : Instant := 0
  coverage : Except Exc Unit := .ok ()
  expiry : Except Exc Unit := .ok ()
  skipped : ℕ := 0

namespace Request

variable (r : Request)

/-- `source or rec` -/
def origin : Source := r.source.getD { type := .recommendation, id := r.recommendation }

/-- `occurred_at or timezone.now()` -/
def time : Instant := r.occurredAt.getD r.now

/-- The source is a row of the model, of the same recommendation. -/
def sourceIs (type : SourceType) : Prop :=
  r.origin.type = type ∧ r.origin.recommendation = some r.recommendation

instance (type : SourceType) : Decidable (r.sourceIs type) := inferInstanceAs (Decidable (_ ∧ _))

/-- The check of a coverage fact. -/
def checkCoverage : Except Exc Unit :=
  if r.state ∈ [.expiredUnobserved, .missingData, .cancelled] then
    if r.sourceIs .paperLifecycleEvent then r.coverage
    else raise .validationError "coverage_source_required"
  else .ok ()

/-- The check of a result that expired before its entry. -/
def checkExpiry : Except Exc Unit :=
  if r.state = .expiredNotActivated then
    if r.sourceIs .paperTradeResult then r.expiry
    else raise .validationError "result_source_required"
  else .ok ()

/-- The transition may follow the latest event, or be the first. -/
def legal (subject : Recommendation) (latest : Option (LifecycleEvent K)) : Prop :=
  subject.generatedAt ≤ r.time ∧
    match latest with
    | none => r.state = subject.initial
    | some event => r.state ∈ transitions event.state ∧ event.occurredAt ≤ r.time

instance (subject : Recommendation) (latest : Option (LifecycleEvent K)) :
    Decidable (r.legal subject latest) := by
  unfold legal
  cases latest <;> infer_instance

end Request

section
variable [DecidableEq K] (recs : ℕ → Recommendation)
  (digest : ℕ × LifecycleState × SourceType × ℕ → K)

/-- The key of a request: `identity_digest` of its recommendation, state and source. -/
def Request.key (r : Request) : K :=
  digest (r.recommendation, r.state, r.origin.type, r.origin.id)

/-- The row a request creates. -/
def Request.row (r : Request) (t : EventTable K) (latest : Option (LifecycleEvent K)) :
    LifecycleEvent K where
  id := t.nextId + r.skipped
  recommendation := r.recommendation
  predecessor := latest.map LifecycleEvent.id
  state := r.state
  reasonCode := r.reasonCode
  sourceType := r.origin.type
  sourceId := r.origin.id
  occurredAt := r.time
  idempotencyKey := r.key digest

/-- `objects.create`, under the constraints of the table -/
def EventTable.create (t : EventTable K) (row : LifecycleEvent K) : Except Exc (EventTable K) :=
  if t.rows.any fun other => other.idempotencyKey = row.idempotencyKey then
    raise .databaseError "idempotency_key"
  else if t.rows.any fun other => row.predecessor.isSome && other.predecessor = row.predecessor then
    raise .databaseError "predecessor"
  else if row.predecessor.isNone &&
      t.rows.any fun other =>
        other.recommendation = row.recommendation && other.predecessor.isNone then
    raise .databaseError "unique_lifecycle_root"
  else .ok { rows := t.rows ++ [row], nextId := row.id + 1 }

/-- `transition` -/
def transition (t : EventTable K) (r : Request) : Except Exc (LifecycleEvent K × EventTable K) :=
  if (recs r.recommendation).contractVersion ≠ 4 then
    raise .validationError "legacy_transition_forbidden"
  else do
    r.checkCoverage
    let latest := newest (t.of r.recommendation)
    match (t.of r.recommendation).find? fun event => event.idempotencyKey = r.key digest with
    | some existing => return (existing, t)
    | none =>
      match latest.filter fun event => event.state = r.state with
      | some event => return (event, t)
      | none => do
        r.checkExpiry
        if r.legal (recs r.recommendation) latest then do
          let row := r.row digest t latest
          let t ← t.create row
          return (row, t)
        else raise .validationError "illegal_lifecycle_transition"

/-! ## Callers -/

/-- A transaction: calls of `transition`, each made or not as the table then is. -/
abbrev Caller (K : Type) := List (EventTable K → Option Request)

/-- The calls of a transaction in turn. -/
def Caller.run : Caller K → EventTable K → Except Exc (EventTable K)
  | [], t => .ok t
  | call :: rest, t =>
    match call t with
    | none => Caller.run rest t
    | some r => do
      let (_, t) ← transition recs digest t r
      Caller.run rest t

/-- What a transaction leaves behind: nothing where it raises. -/
def commit (t : EventTable K) (caller : Caller K) : EventTable K :=
  match caller.run recs digest t with
  | .ok t => t
  | .error _ => t

/-- What transactions leave behind, one by one. -/
def commitAll (t : EventTable K) (callers : List (Caller K)) : EventTable K :=
  callers.foldl (commit recs digest) t

end

/-- `project_lifecycle(rec, as_of=as_of)["state"]`, with what is made of other records where there
is no event. -/
def projectedState (otherwise : Option LifecycleState) (t : EventTable K) (pk : ℕ)
    (asOf : Instant) : Option LifecycleState :=
  match newest ((t.of pk).filter fun event => event.occurredAt ≤ asOf) with
  | some event => some event.state
  | none => otherwise

/-- What a transaction on one recommendation works with. -/
structure Scope where
  pk : ℕ
  subject : Recommendation
  otherwise : Option LifecycleState := none
  now : Instant
  coverage : Except Exc Unit := .ok ()
  expiry : Except Exc Unit := .ok ()
  skipped : ℕ := 0

namespace Scope

variable (s : Scope)

/-- A call of `transition` in the scope. -/
def request (state : LifecycleState) (reasonCode : String) (source : Option Source)
    (occurredAt : Option Instant) : Request where
  recommendation := s.pk
  state := state
  reasonCode := reasonCode
  source := source
  occurredAt := occurredAt
  now := s.now
  coverage := s.coverage
  expiry := s.expiry
  skipped := s.skipped

/-- `initialize` -/
def issue : Caller K :=
  if s.subject.contractVersion ≠ 4 then []
  else [fun _ => some (s.request s.subject.initial "issued" none (some s.subject.generatedAt))]

/-- The turn of `close_cohort` on a member. -/
def closeMember (reasonCode : String) (closure : ℕ) (asOf : Instant) : Caller K :=
  [fun t =>
    if s.subject.contractVersion = 4 ∧
        projectedState s.otherwise t s.pk asOf = some .awaitingOwnerDecision then
      some (s.request .closedUnselected reasonCode (some { type := .cohortClosure, id := closure })
        (some asOf))
    else none]

/-- The end of `_record_selection` on a member, and the closure of its cohort. -/
def recordSelection (selected : Bool) (admission : ℕ) (closure : Option ℕ) : Caller K :=
  (fun t =>
    let state := projectedState s.otherwise t s.pk s.now
    let source : Source :=
      { type := .portfolioAdmissionEvent, id := admission, recommendation := some s.pk }
    if s.subject.contractVersion ≠ 4 then none
    else if selected = true ∧ state = some .awaitingOwnerDecision then
      some (s.request .admittedAwaitingEntry "selected" (some source) none)
    else if selected = false ∧ state = some .admittedAwaitingEntry then
      some (s.request .admissionRevoked "revoked" (some source) none)
    else none) ::
  match closure with
  | none => []
  | some closure => s.closeMember "selection_recorded" closure s.now

/-- What `assess_recommendation_batch` finds of a recommendation. -/
inductive Verdict
  | ineligible (reasonCode : String)
  | member (id : ℕ)

/-- The turn of `assess_recommendation_batch` on a recommendation. -/
def assess (verdict : Verdict) : Caller K :=
  [fun t =>
    if s.subject.abstains = true ∨
        projectedState s.otherwise t s.pk s.now ≠ some .awaitingPortfolioAssessment then none
    else match verdict with
      | .ineligible reasonCode => some (s.request .portfolioIneligible reasonCode none none)
      | .member id =>
        some (s.request .awaitingOwnerDecision "cohort_member"
          (some { type := .portfolioCohortMember, id := id, recommendation := some s.pk }) none)]

/-- `PaperTradeResult.outcome` -/
inductive Outcome
  | target | invalidated | expired | notActivated
  deriving DecidableEq

/-- The state of a result. -/
def Outcome.state : Outcome → LifecycleState
  | .target => .targetHit
  | .invalidated => .invalidated
  | .expired => .expiredAfterEntry
  | .notActivated => .expiredNotActivated

/-- What the paper account records of a recommendation. -/
inductive PaperFact
  | entered (entry : ℕ)
  | closed (result : ℕ) (outcome : Outcome)
  | coverage (state : LifecycleState) (fact : ℕ)

/-- `_record_lifecycle` of `forecasts/paper.py` -/
def recordFact (fact : PaperFact) (reasonCode : String) : Caller K :=
  let reason := if reasonCode = "" then "paper_fact" else reasonCode
  [fun _ => some <|
    match fact with
    | .entered entry => s.request .entered reason
        (some { type := .paperTradeEntry, id := entry, recommendation := some s.pk }) none
    | .closed result outcome => s.request outcome.state reason
        (some { type := .paperTradeResult, id := result, recommendation := some s.pk }) none
    | .coverage state fact => s.request state reason
        (some { type := .paperLifecycleEvent, id := fact, recommendation := some s.pk }) none]

/-- The turn of `reconcile_lifecycle` on a recommendation: its entry and its result, where they have
come by `as_of`, the fact an overdue assessment is cancelled by, and the transaction of an
assessment that is not overdue. -/
def reconcile (asOf : Instant) (fact : ℕ) (assessment : Caller K) (entry : Option ℕ)
    (result : Option (ℕ × Outcome)) : Caller K :=
  let awaiting (t : EventTable K) : Bool :=
    decide (projectedState s.otherwise t s.pk asOf = some .awaitingPortfolioAssessment)
  let overdue : Bool := decide (s.subject.generatedAt + 24 * Civil.hour ≤ asOf)
  let cancellation : Request := s.request .cancelled "assessment_window_expired"
    (some { type := .paperLifecycleEvent, id := fact, recommendation := some s.pk }) (some asOf)
  let assessed : Caller K :=
    if overdue then [fun t => if awaiting t then some cancellation else none]
    else assessment.map fun call => fun t => if awaiting t then call t else none
  let entered : Caller K :=
    match entry with
    | none => []
    | some entry => [fun t =>
      if projectedState s.otherwise t s.pk asOf = some .admittedAwaitingEntry then
        some (s.request .entered "paper_entry"
          (some { type := .paperTradeEntry, id := entry, recommendation := some s.pk }) (some asOf))
      else none]
  let resolved : Caller K :=
    match result with
    | none => []
    | some (result, outcome) => [fun _ =>
      some (s.request outcome.state "paper_result"
        (some { type := .paperTradeResult, id := result, recommendation := some s.pk })
        (some asOf))]
  s.issue ++ assessed ++ entered ++ resolved

end Scope

end

end TradeRecommender.Forecasts
