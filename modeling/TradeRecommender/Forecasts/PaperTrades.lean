import TradeRecommender.Forecasts.HourlyCoverage
import TradeRecommender.Forecasts.Lifecycle
import TradeRecommender.Forecasts.TradingCosts

/-!
# Paper trades

`resolve_paper_trade` of `forecasts/paper.py`, for recommendations of version 4: the entry and the
exit of a setup on the hourly candles that are stored when it is called, and the lifecycle events it
records. Prices are whole millionths, the quantum of their columns, so that a fill is not rounded.

1. recommendations, candles, and what the function finds stored;
2. entries, exits and results;
3. the events it records, and the facts and results that are checked again before they are stored;
4. the function, in a transaction.
-/

namespace TradeRecommender.Forecasts.Paper

open Civil (Instant day hour newYork)
open Coverage (IngestionRun RunStatus hasCoverage)
open Decimals (quantized divided)
open Market (candleCompletion isAligned startAfter)
open Scope (Outcome)
open Py

/-! ## Recommendations and candles -/

inductive Action
  | abstain | buy | sell
  deriving DecidableEq

inductive EntryCondition
  | none | atOrBelow | atOrAbove
  deriving DecidableEq

/-- The order of the levels that `Recommendation.clean` asks for. -/
def LevelsOrdered (entryLevel targetLevel invalidationLevel : ℤ) : Action → Prop
  | .abstain => True
  | .buy => invalidationLevel < entryLevel ∧ entryLevel < targetLevel
  | .sell => targetLevel < entryLevel ∧ entryLevel < invalidationLevel

/-- The timestamp of the reference candle of a target, which `validate_target` checks. -/
structure TargetOccurrence where
  reference : Instant
  aligned : isAligned .d (newYork.wall reference) = true

namespace TargetOccurrence

variable (target : TargetOccurrence)

/-- `target_endpoint` of the five sessions that `reconcile_targets` registers. -/
def endpoint : Instant := startAfter newYork .d 5 target.reference

/-- The completion of the endpoint. -/
def maturity : Instant := candleCompletion newYork .d target.endpoint

end TargetOccurrence

/-- A recommendation of version 4, as its checks leave it. -/
structure Recommendation where
  instrument : String
  generatedAt : Instant
  action : Action
  entryCondition : EntryCondition
  entryLevel : ℤ
  targetLevel : ℤ
  invalidationLevel : ℤ
  target : TargetOccurrence
  ordered : LevelsOrdered entryLevel targetLevel invalidationLevel action
  known : candleCompletion newYork .d target.reference ≤ generatedAt

namespace Recommendation

variable (rec : Recommendation)

/-- `expires_at` -/
def expiresAt : Instant := rec.target.maturity

/-- What the coverage of its candles depends on. -/
def covered : Coverage.Recommendation where
  instrument := rec.instrument
  generatedAt := rec.generatedAt
  contractVersion := 4

end Recommendation

structure Candle where
  id : ℕ
  timestamp : Instant
  complete : Bool
  runStatus : RunStatus
  finishedAt : Option Instant
  bidOpen : ℤ
  bidHigh : ℤ
  bidLow : ℤ
  bidClose : ℤ
  askOpen : ℤ
  askHigh : ℤ
  askLow : ℤ
  askClose : ℤ
  deriving DecidableEq

/-- What a call finds: the clock, whether the recommendation is admitted, the runs, the hourly
candles of its instrument by their timestamps, and the daily candle at the endpoint. -/
structure Sight where
  now : Instant
  admitted : Bool
  runs : List IngestionRun
  hourly : List Candle
  daily : Option Candle
  distinct : (hourly.map Candle.id).Nodup

namespace Sight

variable (s : Sight) (rec : Recommendation)

/-- The query for hourly candles that end by an instant. -/
def candlesBy (through : Instant) : List Candle :=
  s.hourly.filter fun candle =>
    candle.complete && candle.runStatus = .succeeded &&
      candle.finishedAt.any (fun finishedAt => finishedAt ≤ s.now) &&
      rec.generatedAt ≤ candle.timestamp && candle.timestamp ≤ through - hour

/-- `candles` -/
def candles : List Candle := s.candlesBy rec (min s.now rec.expiresAt)

/-- `_has_coverage` -/
def hasCoverage (through : Instant) (candles : List Candle) : Bool :=
  Coverage.hasCoverage newYork s.runs s.now rec.covered through (candles.map Candle.timestamp) none

/-- `_horizon_candle` -/
def horizon : Option Candle :=
  s.daily.filter fun candle =>
    candle.complete && candle.finishedAt.any fun finishedAt => finishedAt ≤ s.now

/-- `eligible_endpoint` of a target that has matured. -/
def eligibleEndpoint : Option Candle :=
  s.horizon.filter fun candle => candle.runStatus = .succeeded

end Sight

/-! ## Entries and exits -/

section
variable (rec : Recommendation)

/-- `_entry_fill`: whether the entry is at the open, and its price. -/
def entryFill (candle : Candle) : Option (Bool × ℤ) :=
  let buy := rec.action = .buy
  let sideOpen := if buy then candle.askOpen else candle.bidOpen
  let sideLow := if buy then candle.askLow else candle.bidLow
  let sideHigh := if buy then candle.askHigh else candle.bidHigh
  let level := rec.entryLevel
  if rec.entryCondition = .atOrBelow then
    if level < sideLow then none
    else
      let atOpen := sideOpen ≤ level
      some (atOpen, if buy then level else if atOpen then min level sideOpen else level)
  else
    if sideHigh < level then none
    else
      let atOpen := level ≤ sideOpen
      some (atOpen, if buy then if atOpen then max level sideOpen else level else level)

/-- `_exit_touches`: of the target, and of the stop. -/
def exitTouches (candle : Candle) : Bool × Bool :=
  if rec.action = .buy then
    (rec.targetLevel ≤ candle.bidHigh, candle.bidLow ≤ rec.invalidationLevel)
  else (candle.askLow ≤ rec.targetLevel, rec.invalidationLevel ≤ candle.askHigh)

/-- `_stop_fill` -/
def stopFill (candle : Candle) : ℤ :=
  if rec.action = .buy then min rec.invalidationLevel candle.bidOpen
  else max rec.invalidationLevel candle.askOpen

/-- The arguments of `_create_result`. -/
structure Exit where
  outcome : Outcome
  candle : Candle
  price : ℤ
  sameCandleAmbiguity : Bool := false
  entryCandle : Bool := false

/-- The exit on a candle after that of the entry. -/
def exitOn (candle : Candle) : Option Exit :=
  let (targetHit, stopHit) := exitTouches rec candle
  if stopHit then
    some {
      outcome := .invalidated
      candle
      price := stopFill rec candle
      sameCandleAmbiguity := targetHit }
  else if targetHit then some { outcome := .target, candle, price := rec.targetLevel }
  else none

/-- The exit on the candle of the entry. -/
def exitOnEntry (candle : Candle) (entryAtOpen : Bool) : Option Exit :=
  let (targetHit, stopHit) := exitTouches rec candle
  if stopHit then
    some {
      outcome := .invalidated
      candle
      price := stopFill rec candle
      sameCandleAmbiguity := targetHit
      entryCandle := true }
  else if targetHit && entryAtOpen then
    some { outcome := .target, candle, price := rec.targetLevel, entryCandle := true }
  else none

/-- The first candle with a fill, its fill, and the candles after it. -/
def findEntry : List Candle → Option (Candle × (Bool × ℤ) × List Candle)
  | [] => none
  | candle :: candles =>
    match entryFill rec candle with
    | some fill => some (candle, fill, candles)
    | none => findEntry candles

end

/-- `PaperTradeEntry`, with the two items of its details that depend on the candle. -/
structure Entry where
  candle : Candle
  askSide : Bool
  fillPrice : ℤ
  observedOpenSpread : ℤ
  entryAtCandleOpen : Bool
  targetTouchIgnored : Bool
  enteredAt : Instant
  deriving DecidableEq

/-- `PaperTradeResult` -/
structure Result where
  outcome : Outcome
  horizonCandle : Option Candle
  exitCandle : Option Candle
  exitPrice : Option ℤ
  grossPips : Option ℚ
  rMultiple : Option ℚ
  sameCandleTargetAndStop : Bool := false
  exitOnEntryCandle : Bool := false
  resolvedAt : Instant
  deriving DecidableEq

/-- A column of twelve digits holds a whole number of millionths. -/
def Holds (micros : ℤ) : Prop := |micros| < 10 ^ 12

instance (micros : ℤ) : Decidable (Holds micros) := inferInstanceAs (Decidable (_ < _))

/-- `PaperTradeEntry.objects.create`, on a candle of the instrument; the database asks for a positive
fill. -/
def newEntry (rec : Recommendation) (now : Instant) (candle : Candle) (fill : Bool × ℤ) :
    Except Exc Entry :=
  let spread := candle.askOpen - candle.bidOpen
  let (targetHit, stopHit) := exitTouches rec candle
  if ¬ Holds fill.2 ∨ ¬ Holds spread then raise .validationError
  else if candle.timestamp < rec.generatedAt then
    raise .validationError "Paper entry evidence cannot predate recommendation generation"
  else if spread < 0 then raise .validationError "Paper entry spread cannot be negative"
  else if fill.2 ≤ 0 then raise .databaseError "entry_evidence_mismatch"
  else .ok {
    candle
    askSide := rec.action = .buy
    fillPrice := fill.2
    observedOpenSpread := spread
    entryAtCandleOpen := fill.1
    targetTouchIgnored := targetHit && !stopHit && !fill.1
    enteredAt := now }

/-- The value of millionths. -/
def price (micros : ℤ) : ℚ := micros / 10 ^ 6

/-- `risk`, in millionths -/
def risk (rec : Recommendation) (entry : Entry) : ℤ := |entry.fillPrice - rec.invalidationLevel|

/-- What `create_cost_assessment` reads of an entry. -/
def Entry.costed (entry : Entry) : Costs.PaperTradeEntry where
  candle := entry.candle.timestamp
  fillPrice := price entry.fillPrice
  details := .dict [("entry_at_candle_open", .bool entry.entryAtCandleOpen)]

/-- The outcome, as `create_cost_assessment` compares it. -/
def costedOutcome : Outcome → Costs.Outcome
  | .target => .target
  | .invalidated => .invalidated
  | .expired => .expired
  | .notActivated => .notActivated

/-- What `create_cost_assessment` reads of a result. -/
def Result.costed (rec : Recommendation) (entry : Entry) (result : Result) :
    Costs.PaperTradeResult where
  entry := some entry.costed
  outcome := costedOutcome result.outcome
  horizonCandle := result.horizonCandle.map Candle.timestamp
  exitCandle := result.exitCandle.map Candle.timestamp
  grossPips := result.grossPips
  invalidationLevel := some (price rec.invalidationLevel)

/-! ## Events -/

/-- `TargetResolution`; of its outcome only whether it is missing is read. -/
structure TargetResolution where
  missing : Bool
  resolvedAt : Instant
  deriving DecidableEq

/-- What is stored about a recommendation: its entry, its result, the resolution of its target, and
the state and time of its latest lifecycle event. -/
structure Account where
  entry : Option Entry := none
  result : Option Result := none
  resolution : Option TargetResolution := none
  state : LifecycleState
  since : Instant
  deriving DecidableEq

section
variable (s : Sight) (rec : Recommendation)

/-- `resolve_target` -/
def resolveTarget (a : Account) : Option TargetResolution × Account :=
  match a.resolution with
  | some existing => (if existing.resolvedAt ≤ s.now then some existing else none, a)
  | none =>
    if s.now < rec.expiresAt then (none, a)
    else
      let resolution : TargetResolution :=
        { missing := s.eligibleEndpoint.isNone, resolvedAt := s.now }
      (some resolution, { a with resolution := some resolution })

/-- `transition`, of which the source has been checked. -/
def advance (a : Account) (state : LifecycleState) : Except Exc Account :=
  if a.state = state then .ok a
  else if state ∈ transitions a.state ∧ rec.generatedAt ≤ s.now ∧ a.since ≤ s.now then
    .ok { a with state := state, since := s.now }
  else raise .validationError "illegal_lifecycle_transition"

/-- `validate_coverage_fact`, of a fact that occurs now. -/
def validateCoverageFact (a : Account) (state : LifecycleState) (reasonCode : String)
    (namesResolution : Bool) : Except Exc Unit :=
  let shared := a.resolution.any fun shared => shared.missing && shared.resolvedAt ≤ s.now
  if s.now < rec.expiresAt then raise .validationError "coverage_before_target_maturity"
  else if reasonCode = "daily_horizon_unavailable" then
    if state ≠ .missingData ∨ shared = false ∨ namesResolution = false then
      raise .validationError "missing_daily_source_required"
    else .ok ()
  else if reasonCode ≠ "hourly_coverage_unavailable" then
    raise .validationError "invalid_coverage_reason"
  else
    let expected : LifecycleState :=
      if a.entry.any fun entry => entry.enteredAt ≤ s.now then .missingData else .expiredUnobserved
    if state ≠ expected ∨
        s.hasCoverage rec rec.expiresAt (s.candlesBy rec rec.expiresAt) = true then
      raise .validationError "coverage_classification_mismatch"
    else .ok ()

/-- `_record_lifecycle` of a state of coverage. -/
def recordCoverage (a : Account) (state : LifecycleState) (reasonCode : String)
    (namesResolution : Bool := false) : Except Exc Account := do
  validateCoverageFact s rec a state reasonCode namesResolution
  advance s rec a state

/-- `validate_expiry_result`, of a result that is resolved now. -/
def validateExpiryResult (outcome : Outcome) : Except Exc Unit :=
  let candles := s.candlesBy rec rec.expiresAt
  if s.now < rec.expiresAt then raise .validationError "expiry_before_target_maturity"
  else if s.hasCoverage rec rec.expiresAt candles = false then
    raise .validationError "expiry_coverage_required"
  else if outcome = .notActivated ∧ candles.any (fun candle => (entryFill rec candle).isSome) then
    raise .validationError "nonactivation_contradicts_entry_evidence"
  else .ok ()

/-- The columns of a result have room for it. -/
def Result.Fits (result : Result) : Prop :=
  (∀ exitPrice ∈ result.exitPrice, Holds exitPrice) ∧ (∀ pips ∈ result.grossPips, |pips| < 10 ^ 9) ∧
    ∀ r ∈ result.rMultiple, |r| < 10 ^ 8

instance (result : Result) : Decidable result.Fits := by
  unfold Result.Fits
  infer_instance

/-- `PaperTradeResult.objects.create`, and the event that closes the lifecycle. -/
def storeResult (a : Account) (result : Result) : Except Exc Account :=
  if ¬ result.Fits then raise .validationError
  else do
    if result.outcome = .expired ∨ result.outcome = .notActivated then
      validateExpiryResult s rec result.outcome
    advance s rec { a with result := some result } result.outcome.state

/-- The result `_create_result` makes of an exit. -/
def resultOf (horizon : Option Candle) (now : Instant) (entry : Entry) (exit : Exit) :
    Except Exc Result := do
  let signedChange :=
    if rec.action = .buy then exit.price - entry.fillPrice else entry.fillPrice - exit.price
  let pips ← divided (price signedChange) Costs.pipSize
  let grossPips ← quantized (-3) pips
  let r ← divided (price signedChange) (price (risk rec entry))
  let rMultiple ← quantized (-4) r
  return {
    outcome := exit.outcome
    horizonCandle := horizon
    exitCandle := some exit.candle
    exitPrice := some exit.price
    grossPips := some grossPips
    rMultiple := some rMultiple
    sameCandleTargetAndStop := exit.sameCandleAmbiguity
    exitOnEntryCandle := exit.entryCandle
    resolvedAt := now }

/-- `_create_result` -/
def createResult (a : Account) (entry : Entry) (exit : Exit) : Except Exc Account := do
  let result ← resultOf rec s.horizon s.now entry exit
  let a ← storeResult s rec a result
  let _ ← Costs.createCostAssessment (result.costed rec entry)
  return a

/-! ## The function -/

/-- The candles after that of the entry, or all where it is not among them. -/
def remaining (entry : Entry) (candles : List Candle) : List Candle :=
  match candles.findIdx? fun candle => candle.id = entry.candle.id with
  | some entryIndex => candles.drop (entryIndex + 1)
  | none => candles

/-- The branch of `settle` for a daily candle that has not come in two weeks. -/
def lapse (a : Account) : Except Exc Account :=
  if s.horizon = none ∧ rec.generatedAt + 14 * day < s.now then
    recordCoverage s rec a .missingData "daily_horizon_unavailable"
  else .ok a

/-- The end of `resolve_paper_trade`, where no candle has brought an exit. -/
def settle (a : Account) (shared : Option TargetResolution) (candles : List Candle) :
    Except Exc Account :=
  if shared.any TargetResolution.missing then
    recordCoverage s rec a .missingData "daily_horizon_unavailable" true
  else
    match s.horizon.filter fun _ => s.hasCoverage rec rec.expiresAt candles with
    | none => do
      let a ← lapse s rec a
      if rec.expiresAt ≤ s.now then
        recordCoverage s rec a (if a.entry.isSome then .missingData else .expiredUnobserved)
          "hourly_coverage_unavailable"
      else .ok a
    | some horizon =>
      match a.entry with
      | none =>
        storeResult s rec a {
          outcome := .notActivated
          horizonCandle := some horizon
          exitCandle := none
          exitPrice := none
          grossPips := none
          rMultiple := none
          resolvedAt := s.now }
      | some entry =>
        createResult s rec a entry {
          outcome := .expired
          candle := horizon
          price := if rec.action = .buy then horizon.bidClose else horizon.askClose }

/-- The scan for an exit of an entry. -/
def leave (a : Account) (shared : Option TargetResolution) (entry : Entry)
    (exit : Option Exit) (candles : List Candle) : Except Exc Account :=
  match exit with
  | some exit => createResult s rec a entry exit
  | none => settle s rec a shared candles

/-- The scan for an entry, and from it for an exit. -/
def scan (a : Account) (shared : Option TargetResolution) (candles : List Candle) :
    Except Exc Account :=
  match a.entry with
  | some entry =>
    leave s rec a shared entry ((remaining entry candles).findSome? (exitOn rec)) candles
  | none =>
    match findEntry rec candles with
    | none => settle s rec a shared candles
    | some (candle, fill, after) => do
      let entry ← newEntry rec s.now candle fill
      let a ← advance s rec { a with entry := some entry } .entered
      leave s rec a shared entry
        ((exitOnEntry rec candle fill.1).or (after.findSome? (exitOn rec))) candles

/-- `resolve_paper_trade` -/
def resolve (a : Account) : Except Exc Account :=
  if a.result.isSome ∨ rec.action = .abstain ∨ s.admitted = false ∨
      a.state ∉ [.admittedAwaitingEntry, .entered] then .ok a
  else
    let (shared, a) := resolveTarget s rec a
    let candles := s.candles rec
    if candles.getLast?.any fun last => s.hasCoverage rec (last.timestamp + hour) candles = false then
      if rec.expiresAt ≤ s.now then
        recordCoverage s rec a (if a.entry.isSome then .missingData else .expiredUnobserved)
          "hourly_coverage_unavailable"
      else .ok a
    else scan s rec a shared candles

/-- What a call leaves stored: nothing new where it raises. -/
def call (a : Account) : Account :=
  match resolve s rec a with
  | .ok a => a
  | .error _ => a

end

/-- What calls leave stored, one after another. -/
def calls (rec : Recommendation) (a : Account) (sights : List Sight) : Account :=
  sights.foldl (fun a s => call s rec a) a

end TradeRecommender.Forecasts.Paper
