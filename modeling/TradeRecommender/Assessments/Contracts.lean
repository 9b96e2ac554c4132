import TradeRecommender.Lib.Rounding
import TradeRecommender.Market.Quality

/-!
# Assessment contracts

`assessments/contracts.py`: strategies, their roles, the reasons a gate can close for, and the
envelopes `build_assessment` reads.  The snapshot payload is the value `json.loads` builds; times of
the envelopes are instants, and a decimal text is its digits and its number of places.
-/

namespace TradeRecommender.Assessments

open Py Civil Market

/-! ## Strategies, roles and reasons -/

inductive Variant
  | wick | confirmed | fvg
  deriving DecidableEq, Repr

inductive Session
  | london | newYork
  deriving DecidableEq, Repr

inductive Strategy
  | ewmac | breakout | fastMr | pullbackM15 | pullbackH1 | rangeM15 | sweepReversal
  | acceptanceContinuation | carryReadiness | macroRisk | fixedRisk | ewmaRisk | garchRisk
  | orb (variant : Variant) (session : Session)
  deriving DecidableEq, Repr

def Variant.name : Variant → String
  | .wick => "orb-m15-wick-v1"
  | .confirmed => "orb-m15-confirmed-v1"
  | .fvg => "orb-m15-fvg-v1"

def Session.name : Session → String
  | .london => "london"
  | .newYork => "new_york"

def Strategy.name : Strategy → String
  | .ewmac => "ewmac-d-v1"
  | .breakout => "breakout-d-v1"
  | .fastMr => "fast-mr-h1-v1"
  | .pullbackM15 => "pullback-m15-v1"
  | .pullbackH1 => "pullback-h1-v1"
  | .rangeM15 => "range-m15-v1"
  | .sweepReversal => "phase5-sweep-reversal-v1"
  | .acceptanceContinuation => "phase5-acceptance-continuation-v1"
  | .carryReadiness => "carry-readiness-v1"
  | .macroRisk => "macro-risk-v1"
  | .fixedRisk => "fixed-risk-v1"
  | .ewmaRisk => "ewma-risk-v1"
  | .garchRisk => "garch-t-risk-v1"
  | .orb variant session => variant.name ++ ":" ++ session.name

/-- `STRATEGIES` -/
def strategies : List Strategy :=
  [.ewmac, .breakout, .fastMr, .pullbackM15, .pullbackH1, .rangeM15, .sweepReversal,
    .acceptanceContinuation, .carryReadiness, .macroRisk, .fixedRisk, .ewmaRisk, .garchRisk,
    .orb .wick .london, .orb .wick .newYork, .orb .confirmed .london, .orb .confirmed .newYork,
    .orb .fvg .london, .orb .fvg .newYork]

theorem mem_strategies (strategy : Strategy) : strategy ∈ strategies := by
  rcases strategy with _ | _ | _ | _ | _ | _ | _ | _ | _ | _ | _ | _ | _ | ⟨variant, session⟩
  case orb => cases variant <;> cases session <;> decide
  all_goals decide

theorem Strategy.name_inj {s t : Strategy} (h : s.name = t.name) : s = t := by
  have all : ∀ s ∈ strategies, ∀ t ∈ strategies, s.name = t.name → s = t := by decide
  exact all s (mem_strategies s) t (mem_strategies t) h

inductive Role
  | continuousForecast | readiness | overlay | setup
  deriving DecidableEq, Repr

/-- `ROLES` -/
def Strategy.role : Strategy → Role
  | .ewmac | .breakout => .continuousForecast
  | .carryReadiness => .readiness
  | .macroRisk | .fixedRisk | .ewmaRisk | .garchRisk => .overlay
  | _ => .setup

inductive Reason
  | inputIntegrityFailure | noEconomicallyAdmittedStrategy | strategyNotAdmittedForInstrument
  | strategyRoleCannotOriginateIntent | requiredTimeframeUnavailable | m15ConfirmationUnavailable
  | requiredEvidenceNotReady | eventStateUnknown | eventWindowBlocked | technicalSetupAbsent
  | triggerPending | triggerRejected | triggerInvalidated | triggerExpired | spreadUnknown
  | spreadExceedsStrategyLimit | costEvidenceMissing | costEvidenceStale | netRewardNonpositive
  | capacityAssessmentMissing | aggregateCapacityExceeded | currencyDirectionCapacityExceeded
  | conflictingEligibleSetups | unsupportedIntentShape | unchangedDuplicateIntent
  deriving DecidableEq, Repr

/-- `REASONS`, in their order of precedence. -/
def reasons : List Reason :=
  [.inputIntegrityFailure, .noEconomicallyAdmittedStrategy, .strategyNotAdmittedForInstrument,
    .strategyRoleCannotOriginateIntent, .requiredTimeframeUnavailable, .m15ConfirmationUnavailable,
    .requiredEvidenceNotReady, .eventStateUnknown, .eventWindowBlocked, .technicalSetupAbsent,
    .triggerPending, .triggerRejected, .triggerInvalidated, .triggerExpired, .spreadUnknown,
    .spreadExceedsStrategyLimit, .costEvidenceMissing, .costEvidenceStale, .netRewardNonpositive,
    .capacityAssessmentMissing, .aggregateCapacityExceeded, .currencyDirectionCapacityExceeded,
    .conflictingEligibleSetups, .unsupportedIntentShape, .unchangedDuplicateIntent]

theorem mem_reasons (reason : Reason) : reason ∈ reasons := by
  cases reason <;> decide

/-! ## The envelopes -/

/-- A decimal text: `units` with the point `places` digits from the right. -/
structure Amount where
  units : ℤ
  places : ℕ
  deriving DecidableEq, Repr

/-- `Decimal(text)` -/
def Amount.value (a : Amount) : ℚ := a.units / 10 ^ a.places

inductive Direction
  | long | short
  deriving DecidableEq, Repr

/-- A `phase5/setup-v1` part. -/
structure Setup where
  direction : Direction
  availableAt : Instant
  signalStart : Instant
  granularity : Granularity
  reference : Amount
  stop : Amount
  target : Amount
  entryAt : Instant
  expiresAt : Instant
  evidence : List String
  deriving DecidableEq, Repr

/-- A part of an evaluation; `other` is a risk or a continuous part, of which nothing is read. -/
inductive Part
  | setup (part : Setup)
  | unavailable (reason : String)
  | other
  deriving DecidableEq, Repr

structure Evaluation where
  identity : String
  strategy : Strategy
  definitionSha256 : String
  evidenceSha256 : String
  outputSha256 : String
  outputs : List Part
  deriving DecidableEq, Repr

structure Entry where
  strategy : Strategy
  definitionSha256 : String
  role : Role
  requiredEvidenceIds : List String
  deriving DecidableEq, Repr

structure Eligibility where
  identity : String
  entries : List Entry
  deriving DecidableEq, Repr

/-- A snapshot: its cutoff and the rest of its payload. -/
structure Snapshot where
  informationCutoff : Instant
  payload : Val

structure Components where
  commission : Option Amount
  financing : Option Amount
  slippageLatency : Option Amount
  spread : Option Amount
  deriving DecidableEq, Repr

structure Cost where
  identity : String
  staleAfter : Instant
  components : Components
  deriving DecidableEq, Repr

inductive Disposition
  | available | exceeded
  deriving DecidableEq, Repr

def Disposition.text : Disposition → String
  | .available => "available"
  | .exceeded => "exceeded"

structure CurrencyLeg where
  currency : String
  direction : Direction
  disposition : Disposition
  deriving DecidableEq, Repr

structure Capacity where
  identity : String
  policyIdentity : String
  sourceIdentity : String
  aggregate : Disposition
  currencyLegs : List CurrencyLeg
  deriving DecidableEq, Repr

structure Evidence where
  identity : String
  deriving DecidableEq, Repr

end TradeRecommender.Assessments
