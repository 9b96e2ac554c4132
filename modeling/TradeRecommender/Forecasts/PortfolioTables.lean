import Mathlib.Data.Finset.Sort
import TradeRecommender.Forecasts.LifecycleChain
import TradeRecommender.Forecasts.PaperTrades
import TradeRecommender.Lib.Tally
import TradeRecommender.Lib.Transactions

/-!
# The tables of the paper portfolio

What `forecasts/portfolio.py` and `forecasts/lifecycle.py` read and write, and what they read of it:
decision cohorts, their members, selections and closures, admissions, paper accounts, and the risk
that is active at an instant. Risks are whole cents.

1. recommendations;
2. tables;
3. what the tables say at an instant;
4. capacity.
-/

namespace TradeRecommender.Forecasts.Portfolio

open Civil (Instant hour)
open Coverage (RunStatus)
open Paper (Action TargetOccurrence)
open Py Py.Transaction
open Scope (Outcome)

/-! ## Recommendations -/

structure Instrument where
  id : ℕ
  baseCurrency : String
  quoteCurrency : String

/-- What the portfolio reads of a recommendation, with the number of its target. -/
structure Recommendation where
  contractVersion : ℕ
  action : Action
  instrument : Instrument
  generatedAt : Instant
  entryLevel : ℤ
  target : Option (ℕ × TargetOccurrence)

/-- A currency and a direction: long where positive. -/
structure Leg where
  currency : String
  direction : ℤ
  deriving DecidableEq

/-- `decompose_pair` -/
def decomposePair (baseCurrency quoteCurrency : String) : Action → List Leg
  | .buy => [⟨baseCurrency, 1⟩, ⟨quoteCurrency, -1⟩]
  | .sell => [⟨baseCurrency, -1⟩, ⟨quoteCurrency, 1⟩]
  | .abstain => []

namespace Recommendation

variable (rec : Recommendation)

/-- `_legs` -/
def legs : List Leg :=
  decomposePair rec.instrument.baseCurrency rec.instrument.quoteCurrency rec.action

/-- What its lifecycle reads of it. -/
def subject : Forecasts.Recommendation where
  contractVersion := rec.contractVersion
  abstains := rec.action = .abstain
  generatedAt := rec.generatedAt

/-- `owner_decision_deadline` -/
def ownerDecisionDeadline : Except Exc Instant :=
  match rec.target with
  | none => raise .attributeError "reference_candle"
  | some (_, target) => .ok (min (rec.generatedAt + 24 * hour) target.maturity)

end Recommendation

/-! ## Tables -/

/-- `PaperLifecycleEvent.State` -/
inductive PaperState
  | legacyUnadjudicated | pending | entered | closed | expiredUnobserved | cancelled | missingData
  deriving DecidableEq

/-- The lifecycle state of a fact after which nothing is recorded. -/
def PaperState.terminal : PaperState → Option LifecycleState
  | .expiredUnobserved => some .expiredUnobserved
  | .cancelled => some .cancelled
  | .missingData => some .missingData
  | _ => none

structure PaperLifecycleEvent where
  id : ℕ
  recommendation : ℕ
  state : PaperState
  reasonCode : String
  occurredAt : Instant

structure PaperTradeEntry where
  id : ℕ
  recommendation : ℕ
  enteredAt : Instant

structure PaperTradeResult where
  id : ℕ
  recommendation : ℕ
  outcome : Outcome
  resolvedAt : Instant

/-- `capacity_snapshot` -/
structure Snapshot where
  baseRecommendationIds : List ℕ
  baseTotalRisk : ℕ
  baseCurrencyDirectionRisk : List (Leg × ℕ)
  aggregateRiskCap : ℕ
  currencyDirectionRiskCap : ℕ

/-- `PortfolioCohort`; the recommendations of its idempotency key, in order. -/
structure Cohort where
  id : ℕ
  key : List ℕ
  generatedAt : Instant
  decisionDeadline : Option Instant
  snapshot : Snapshot

structure CohortMember where
  id : ℕ
  cohort : ℕ
  recommendation : ℕ
  projectedRisk : ℕ
  currencyLegs : List Leg

inductive SelectionMode
  | automatic | owner
  deriving DecidableEq

/-- The idempotency key of a selection; an owner's holds what its digest is of. -/
inductive SelectionKey
  | automatic (cohort : ℕ)
  | owner (cohort latest : ℕ) (selected : Finset ℕ)
  deriving DecidableEq

/-- `PortfolioSelection`, with the recommendations of its members. -/
structure Selection where
  id : ℕ
  cohort : ℕ
  supersedes : Option ℕ
  mode : SelectionMode
  key : SelectionKey
  selectedAt : Instant
  selected : Finset ℕ

inductive AdmissionState
  | admitted | revoked
  deriving DecidableEq

structure AdmissionEvent where
  id : ℕ
  recommendation : ℕ
  cohort : ℕ
  selection : ℕ
  state : AdmissionState
  reasonCode : String
  occurredAt : Instant

structure CohortClosure where
  id : ℕ
  cohort : ℕ
  reasonCode : String
  supersedingCohort : Option ℕ
  closedAt : Instant

/-- What is read of an hourly candle. -/
structure HourlyCandle where
  instrument : ℕ
  timestamp : Instant
  complete : Bool
  runStatus : RunStatus
  finishedAt : Option Instant
  bidHigh : ℤ
  askLow : ℤ

/-- The tables; a position size is a recommendation and its projected risk. -/
structure Tables where
  issued : List ℕ := []
  events : EventTable PlainKey := {}
  positionSizes : List (ℕ × ℕ) := []
  activation : Option Instant := none
  cohorts : List Cohort := []
  members : List CohortMember := []
  selections : List Selection := []
  admissions : List AdmissionEvent := []
  closures : List CohortClosure := []
  entries : List PaperTradeEntry := []
  results : List PaperTradeResult := []
  facts : List PaperLifecycleEvent := []
  candles : List HourlyCandle := []

/-- What does not change: the recommendations by their numbers, the clock, and what
`validate_expiry_result` does on a result. -/
structure Environment where
  recommendations : ℕ → Recommendation
  clock : Clock
  validateExpiry : ℕ → Except Exc Unit

/-- What the lifecycles read of the recommendations. -/
def Environment.subjects (env : Environment) : ℕ → Forecasts.Recommendation :=
  fun pk => (env.recommendations pk).subject

namespace Tables

variable (db : Tables)

/-- `recommendation.position_size`, its projected risk. -/
def positionSize (pk : ℕ) : Option ℕ := (db.positionSizes.find? fun size => size.1 = pk).map Prod.snd

/-- `cohort.members` -/
def membersOf (cohort : ℕ) : List CohortMember :=
  db.members.filter fun member => member.cohort = cohort

/-- `cohort.closure` -/
def closureOf (cohort : ℕ) : Option CohortClosure :=
  db.closures.find? fun closure => closure.cohort = cohort

/-- `cohort.selections.first()` -/
def latestSelection (cohort : ℕ) : Option Selection :=
  Window.latest Selection.selectedAt Selection.id
    (db.selections.filter fun selection => selection.cohort = cohort)

/-! ## What the tables say at an instant -/

/-- `rec.portfolio_admission_events`, the latest. -/
def lastAdmission (pk : ℕ) : Option AdmissionEvent :=
  Window.latest AdmissionEvent.occurredAt AdmissionEvent.id
    (db.admissions.filter fun event => event.recommendation = pk)

/-- `rec.portfolio_admission_events.filter(occurred_at__lte=as_of)`, the latest. -/
def latestAdmission (pk : ℕ) (asOf : Instant) : Option AdmissionEvent :=
  Window.latest AdmissionEvent.occurredAt AdmissionEvent.id
    (db.admissions.filter fun event => event.recommendation = pk && event.occurredAt ≤ asOf)

/-- `rec.paper_lifecycle_events`, the latest. -/
def latestFact (pk : ℕ) : Option PaperLifecycleEvent :=
  Window.latest PaperLifecycleEvent.occurredAt PaperLifecycleEvent.id
    (db.facts.filter fun fact => fact.recommendation = pk)

/-- `rec.paper_lifecycle_events.filter(occurred_at__lte=as_of)`, the latest. -/
def latestFactBy (pk : ℕ) (asOf : Instant) : Option PaperLifecycleEvent :=
  Window.latest PaperLifecycleEvent.occurredAt PaperLifecycleEvent.id
    (db.facts.filter fun fact => fact.recommendation = pk && fact.occurredAt ≤ asOf)

/-- `rec.paper_entry`, where it has come by an instant. -/
def entryBy (pk : ℕ) (asOf : Instant) : Option PaperTradeEntry :=
  (db.entries.find? fun entry => entry.recommendation = pk).filter fun entry =>
    entry.enteredAt ≤ asOf

/-- `rec.paper_result`, where it has come by an instant. -/
def resultBy (pk : ℕ) (asOf : Instant) : Option PaperTradeResult :=
  (db.results.find? fun result => result.recommendation = pk).filter fun result =>
    result.resolvedAt ≤ asOf

/-- `active_admitted_recommendation_ids` -/
def activeAdmittedRecommendationIds (asOf : Instant) : List ℕ :=
  ((db.admissions.map AdmissionEvent.recommendation).toFinset.sort (· ≤ ·)).filter fun pk =>
    (db.latestAdmission pk asOf).any fun event => event.state = .admitted

end Tables

section
variable (env : Environment) (db : Tables)

/-- The state `project_lifecycle` makes of other records where there is no lifecycle event; none
for `legacy_unadjudicated`. -/
def projectRecords (pk : ℕ) (asOf : Instant) : Option LifecycleState :=
  if (env.recommendations pk).action = .abstain then some .abstained
  else
    match db.resultBy pk asOf with
    | some result => some result.outcome.state
    | none =>
      match (db.latestFactBy pk asOf).bind fun fact => fact.state.terminal with
      | some state => some state
      | none =>
        if (db.entryBy pk asOf).isSome then some .entered
        else (db.latestAdmission pk asOf).map fun event =>
          if event.state = .admitted then .admittedAwaitingEntry else .admissionRevoked

/-- `project_lifecycle(rec, as_of=as_of)["state"]` -/
def projectLifecycle (pk : ℕ) (asOf : Instant) : Option LifecycleState :=
  if (env.recommendations pk).contractVersion = 4 then
    projectedState (projectRecords env db pk asOf) db.events pk asOf
  else projectRecords env db pk asOf

instance : LawfulBEq (Option LifecycleState) := inferInstance

/-- `current_risk_projection(rec, as_of=as_of)` is not none. -/
def currentRiskProjection (pk : ℕ) (asOf : Instant) : Bool :=
  (env.recommendations pk).contractVersion ∈ [2, 3, 4] &&
    (env.recommendations pk).action ≠ .abstain &&
    (db.latestAdmission pk asOf).any (fun event => event.state = .admitted) &&
    projectLifecycle env db pk asOf ∈
      [some LifecycleState.admittedAwaitingEntry, some LifecycleState.entered]

/-- `_active_admitted` -/
def activeAdmitted (excluding : List ℕ) (asOf : Instant) : List ℕ :=
  (db.activeAdmittedRecommendationIds asOf).filter fun pk =>
    pk ∉ excluding && currentRiskProjection env db pk asOf

/-! ## Capacity -/

/-- `AGGREGATE_RISK_CAP_CAD` -/
def aggregateRiskCap : ℕ := 50000

/-- `CURRENCY_DIRECTION_RISK_CAP_CAD` -/
def currencyDirectionRiskCap : ℕ := 25000

/-- `directional[leg] += risk` for each leg. -/
def addLegs (legs : List Leg) (risk : ℕ) (directional : List (Leg × ℕ)) : List (Leg × ℕ) :=
  Tally.extend (· + ·) 0 directional (legs.map fun leg => (leg, risk))

/-- `_capacity_usage` -/
def capacityUsage (pks : List ℕ) : Except Exc (ℕ × List (Leg × ℕ)) :=
  pks.foldlM (fun (total, directional) pk =>
    match db.positionSize pk with
    | none => raise .validationError "Portfolio capacity requires complete position sizing"
    | some risk =>
      .ok (total + risk, addLegs (env.recommendations pk).legs risk directional)) (0, [])

/-- `_fits` -/
def fits (pks : List ℕ) : Except Exc Bool := do
  let (total, directional) ← capacityUsage env db pks
  .ok (decide (total ≤ aggregateRiskCap) &&
    directional.all fun (_, risk) => risk ≤ currencyDirectionRiskCap)

end

/-- `_selection_fits_snapshot` -/
def selectionFitsSnapshot (cohort : Cohort) (selected : List CohortMember) : Bool :=
  let total := selected.foldl (fun total member => total + member.projectedRisk)
    cohort.snapshot.baseTotalRisk
  let directional := selected.foldl
    (fun directional member => addLegs member.currencyLegs member.projectedRisk directional)
    cohort.snapshot.baseCurrencyDirectionRisk
  decide (total ≤ cohort.snapshot.aggregateRiskCap) &&
    directional.all fun (_, risk) => risk ≤ cohort.snapshot.currencyDirectionRiskCap

/-- A candle that has touched the entry level of a recommendation by an instant. -/
def touchesEntry (rec : Recommendation) (asOf : Instant) (candle : HourlyCandle) : Bool :=
  candle.instrument = rec.instrument.id && rec.generatedAt ≤ candle.timestamp &&
    candle.timestamp ≤ asOf - hour && candle.finishedAt.any (fun finishedAt => finishedAt ≤ asOf) &&
    candle.runStatus = .succeeded && candle.complete &&
    if rec.action = .buy then decide (candle.askLow ≤ rec.entryLevel)
    else decide (rec.entryLevel ≤ candle.bidHigh)

/-- `cohort_has_triggered` -/
def cohortHasTriggered (env : Environment) (db : Tables) (cohort : ℕ) (asOf : Instant) : Bool :=
  (db.membersOf cohort).any fun member =>
    db.candles.any (touchesEntry (env.recommendations member.recommendation) asOf)

end TradeRecommender.Forecasts.Portfolio
