import TradeRecommender.Market.HistoricalChunks
import TradeRecommender.MarketState.Features
import TradeRecommender.MarketStrategy.Contracts

/-!
# The adverse simulator

`market/strategy/simulation.py`: a setup resolved over bars, each branch against the position.

1. outcome terms;
2. the exit of a bar and the settlement of an exit;
3. the loop over the bars;
4. what a result says of its exit;
5. later bars leave a result as it is.
-/

namespace TradeRecommender.MarketStrategy

open Py Civil Market MarketState

/-! ## Outcome terms -/

/-- `OutcomeTerms` -/
structure OutcomeTerms where
  sourceSha256 : String
  quoteCurrency : String
  accountCurrency : String
  fromAt : Instant
  throughAt : Instant
  knownAt : Instant
  conversionAt : Instant
  conversionRate : ℚ
  rollovers : List (Instant × ℚ)
  baseCurrency : String := ""
  provenance : String := ""
  costUnit : String := ""
  conversionUnit : String := ""
  deriving DecidableEq

/-- The currencies of `OutcomeTerms.valid`. -/
def currencies : List String :=
  ["USD", "CAD", "EUR", "GBP", "JPY", "CHF", "AUD", "NZD", "NOK", "SEK"]

/-- `re.fullmatch("[0-9a-f]{64}", text)` -/
def isSha256 (text : String) : Bool :=
  text.toList.length = 64 && text.toList.all fun c => c.isDigit || ('a' ≤ c && c ≤ 'f')

/-- `OutcomeTerms.valid` -/
def OutcomeTerms.valid (t : OutcomeTerms) : Bool :=
  t.baseCurrency ∈ currencies && t.quoteCurrency ∈ currencies && t.accountCurrency ∈ currencies &&
    t.baseCurrency ≠ t.quoteCurrency && isSha256 t.sourceSha256 && strip t.provenance ≠ [] &&
    t.costUnit = "quote_per_base" && t.conversionUnit = "account_per_quote" &&
    t.fromAt ≤ t.conversionAt && t.conversionAt ≤ t.throughAt && t.knownAt ≤ t.conversionAt &&
    0 < t.conversionRate && t.rollovers.all fun r => t.fromAt ≤ r.1 && r.1 ≤ t.throughAt

/-! ## Results -/

/-- `ExecutionResult` -/
structure ExecutionResult where
  intentSha256 : String
  enteredAt : Instant
  exitedAt : Instant
  entry : ℚ
  exit : ℚ
  grossQuote : ℚ
  costsQuote : ℚ
  netQuote : ℚ
  netAccount : ℚ
  outcomeEvidence : List String
  reason : String
  deriving DecidableEq

/-- `Unavailable` or `ExecutionResult`. -/
inductive Simulated
  | unavailable (strategy reason : String)
  | executed (result : ExecutionResult)
  deriving DecidableEq

/-- What a simulation reads besides its bars. -/
structure Scenario where
  setup : SetupCandidate
  cost : CostEvidence
  figures : CostFigures
  calendar : Option CalendarAttestation
  profile : String
  terms : Option OutcomeTerms
  limit : Bool
  /-- `identity_digest` of the intent over the digests of setup, simulator, cost and calendar -/
  intentSha256 : SetupCandidate → CostEvidence → Option CalendarAttestation → Except Exc String

namespace Scenario

variable (x : Scenario)

/-- `entry_cost` -/
def entryCost : ℚ :=
  Rounding.add prec (Rounding.div prec x.figures.spread 2) x.figures.slippagePerSide

/-- `value + direction * amount` -/
def against (value amount : ℚ) : ℚ :=
  Rounding.add prec value (Rounding.mul prec x.setup.direction amount)

/-- `value - direction * amount` -/
def backward (value amount : ℚ) : ℚ :=
  Rounding.sub prec value (Rounding.mul prec x.setup.direction amount)

/-- The edge of a bar that is worst for the position. -/
def adverse (bar : Bar) : ℚ := if x.setup.direction = 1 then bar.low else bar.high

/-- The edge of a bar that is best for the position. -/
def favorable (bar : Bar) : ℚ := if x.setup.direction = 1 then bar.high else bar.low

/-- The price and the reason of an exit at a bar, if it ends the position. -/
def exitOf (bar : Bar) (finish : Instant) : Option (ℚ × String) :=
  if ahead x.setup.direction bar.open_ x.setup.stop ≤ 0 then some (bar.open_, "stop_gap")
  else if ahead x.setup.direction (x.adverse bar) x.setup.stop ≤ 0 then
    some (x.setup.stop, "stop_adverse_path")
  else if 0 ≤ ahead x.setup.direction (x.favorable bar) x.setup.target then
    some (x.setup.target, "target_no_improvement")
  else if x.setup.exitAt ≤ finish then some (bar.close, "time_stop")
  else none

/-! ## Settlement -/

/-- The 17:00 readings of New York from the entry's day to the exit, within the position. -/
def requiredRollovers (enteredAt exitedAt : Instant) : List Instant :=
  let first := atFive (newYorkWall enteredAt)
  let last := newYorkWall exitedAt
  (((List.range ((last - first) / day + 1).toNat).map fun n => newYorkUtc (first + n * day)).filter
    fun at_ => enteredAt ≤ at_ ∧ at_ ≤ exitedAt)

/-- The terms of an exit, if they cover it. -/
def termsFor (enteredAt exitedAt : Instant) : Option OutcomeTerms :=
  x.terms.filter fun t => t.valid && t.quoteCurrency = x.cost.quoteCurrency &&
    t.fromAt ≤ enteredAt && exitedAt ≤ t.throughAt && t.knownAt ≤ exitedAt &&
    t.conversionAt = exitedAt

/-- `financing`: a credit is not awarded at the entry or within the exit interval. -/
def financing (t : OutcomeTerms) (enteredAt barAt exitedAt : Instant) : ℚ :=
  Rounding.sum prec ((requiredRollovers enteredAt exitedAt).map fun at_ =>
    let rate := (t.rollovers.lookup at_).getD 0
    if enteredAt < at_ ∧ at_ < barAt then rate else max 0 rate)

/-- An exit with its entry: the evidence read, the times and the prices. -/
structure Exit where
  consumed : List String
  enteredAt : Instant
  barAt : Instant
  exitedAt : Instant
  modeledEntry : ℚ
  entry : ℚ
  price : ℚ
  reason : String

/-- The part of the loop behind an exit. -/
def settle (e : Exit) : Except Exc Simulated :=
  match x.termsFor e.enteredAt e.exitedAt with
  | none => .ok (.unavailable x.setup.strategy "outcome_terms_unavailable")
  | some t =>
    if t.accountCurrency = t.quoteCurrency ∧ t.conversionRate ≠ 1 then
      .ok (.unavailable x.setup.strategy "invalid_same_currency_conversion")
    else if ¬ (t.rollovers.map Prod.fst).Nodup ∨
        ¬ ∀ at_ ∈ requiredRollovers e.enteredAt e.exitedAt, at_ ∈ t.rollovers.map Prod.fst then
      .ok (.unavailable x.setup.strategy "rollover_evidence_missing")
    else do
      let gross := ahead x.setup.direction e.price e.entry
      let sides : ℚ := if x.limit then 1 else 2
      let costs := Rounding.add prec (Rounding.add prec (Rounding.add prec x.figures.spread
          (Rounding.mul prec sides x.figures.slippagePerSide))
        (Rounding.mul prec 2 x.figures.commissionPerSide))
        (financing t e.enteredAt e.barAt e.exitedAt)
      let net := Rounding.sub prec gross costs
      let intent ← x.intentSha256 x.setup x.cost x.calendar
      return .executed
        { intentSha256 := intent
          enteredAt := e.enteredAt
          exitedAt := e.exitedAt
          entry := e.modeledEntry
          exit := x.backward e.price x.entryCost
          grossQuote := gross
          costsQuote := costs
          netQuote := net
          netAccount := Rounding.mul prec net t.conversionRate
          outcomeEvidence := e.consumed ++ [t.sourceSha256]
          reason := e.reason }

/-! ## The loop -/

/-- The state of the loop over the bars. -/
structure Walk where
  expected : Instant
  consumed : List String
  enteredAt : Option Instant
  modeledEntry : ℚ
  entry : ℚ

/-- What a turn decides: the result, or how the loop goes on. -/
inductive Turn
  | done (result : Simulated)
  | next (walk : Walk)

/-- `order_expires` -/
def orderExpires : Instant := registeredSuccessor x.setup.entryAt x.setup.granularity

/-- What an order not yet filled becomes at a bar: unavailable, filled, or waiting. -/
inductive Order
  | unavailable (reason : String)
  | filled
  | waiting (expected : Instant)

/-- The turn of a limit order. -/
def order (bar : Bar) : Order :=
  if x.orderExpires ≤ bar.timestamp then .unavailable "limit_expired_unfilled"
  else
    let half := Rounding.mul prec x.setup.direction x.figures.spread
    let quoteOpen := Rounding.add prec bar.open_ (Rounding.div prec half 2)
    let quoteEdge := Rounding.add prec (x.adverse bar) (Rounding.div prec half 2)
    if ahead x.setup.direction quoteOpen x.setup.reference ≤ 0 then
      if ahead x.setup.direction bar.open_ x.setup.stop ≤ 0 then
        .unavailable "limit_gap_beyond_invalidation"
      else .filled
    else if ahead x.setup.direction quoteEdge x.setup.reference ≤ 0 then
      .unavailable "limit_intrabar_fill_unavailable"
    else if x.orderExpires ≤ registeredSuccessor bar.timestamp x.setup.granularity then
      .unavailable "limit_expired_unfilled"
    else .waiting (registeredSuccessor bar.timestamp x.setup.granularity)

/-- The walk with its order filled at a bar. -/
def fillAt (w : Walk) (bar : Bar) : Walk :=
  { w with
    enteredAt := some bar.timestamp
    modeledEntry := x.setup.reference
    entry := Rounding.sub prec x.setup.reference
      (Rounding.div prec (Rounding.mul prec x.setup.direction x.figures.spread) 2) }

/-- The part of a turn of an open position. -/
def hold (w : Walk) (enteredAt : Instant) (bar : Bar) (finish : Instant) : Except Exc Turn :=
  match x.exitOf bar finish with
  | none => .ok (.next { w with
      expected := registeredSuccessor bar.timestamp x.setup.granularity })
  | some (price, reason) => do
    let result ← x.settle
      { consumed := w.consumed
        enteredAt := enteredAt
        barAt := bar.timestamp
        exitedAt := finish
        modeledEntry := w.modeledEntry
        entry := w.entry
        price := price
        reason := reason }
    return .done result

/-- The part of a turn behind the checks of its bar. -/
def advance (w : Walk) (bar : Bar) (finish : Instant) : Except Exc Turn :=
  match w.enteredAt with
  | some enteredAt => x.hold w enteredAt bar finish
  | none =>
    match x.order bar with
    | .unavailable reason => .ok (.done (.unavailable x.setup.strategy reason))
    | .waiting expected => .ok (.next { w with expected := expected })
    | .filled => x.hold (x.fillAt w bar) bar.timestamp bar finish

/-- The turn of the loop over the selected bars. -/
def turn (w : Walk) (bar : Bar) : Except Exc Turn :=
  if bar.timestamp ≠ w.expected ∨ bar.granularity ≠ .interval x.setup.granularity then
    .ok (.done (.unavailable x.setup.strategy "outcome_interval_gap"))
  else match bar.finish.filter fun finish => finish ≤ x.cost.validThrough with
    | none => .ok (.done (.unavailable x.setup.strategy "cost_horizon_unavailable"))
    | some finish => do
      let readiness ← intervalReadiness bar.timestamp finish x.profile x.setup.availableAt x.calendar
      if readiness ≠ "attested_open" then
        .ok (.done (.unavailable x.setup.strategy "calendar_unavailable"))
      else x.advance { w with consumed := w.consumed ++ [bar.contentSha256] } bar finish

/-- The loop over the selected bars. -/
def walk (w : Walk) : List Bar → Except Exc Simulated
  | [] => .ok (.unavailable x.setup.strategy "time_stop_interval_missing")
  | bar :: bars => do
    match ← x.turn w bar with
    | .done result => return result
    | .next w => walk w bars

/-! ## The simulation -/

/-- The loop over the intervals between the signal and the entry; the fuel bounds its turns, each of
a quarter of an hour at least. -/
def prerequisitesFrom (present : List Instant) : ℕ → Instant → Except Exc Bool
  | 0, _ => raise (.other "OutOfFuel")
  | fuel + 1, expected =>
    if expected < x.setup.entryAt then
      if expected ∈ present then
        prerequisitesFrom present fuel (registeredSuccessor expected x.setup.granularity)
      else .ok false
    else .ok true

/-- Whether every interval between the signal and the entry is present. -/
def prerequisites (bars : List Bar) : Except Exc Bool :=
  let first := registeredSuccessor x.setup.signalStart x.setup.granularity
  let present := (bars.filter fun b => first ≤ b.timestamp ∧ b.timestamp < x.setup.entryAt).map
    Bar.timestamp
  x.prerequisitesFrom present
    (((x.setup.entryAt - first) / (15 * minute)).toNat + 10) first

/-- `selected` -/
def selected (bars : List Bar) : List Bar :=
  bars.filter fun b => x.setup.entryAt ≤ b.timestamp ∧ b.timestamp < x.setup.exitAt

/-- Whether the entry of a market order is outside the geometry of its setup. -/
def outside (modeledEntry : ℚ) : Bool :=
  ahead x.setup.direction modeledEntry x.setup.stop ≤ 0 ||
    ahead x.setup.direction x.setup.target modeledEntry ≤ 0

/-- The walk of an order placed at the first selected bar. -/
def placed (first : Bar) : Walk :=
  { expected := x.setup.entryAt
    consumed := []
    enteredAt := if x.limit then none else some x.setup.entryAt
    modeledEntry := x.against first.open_ x.entryCost
    entry := first.open_ }

/-- The part of `_simulate` behind the prerequisites. -/
def enter : List Bar → Except Exc Simulated
  | [] => .ok (.unavailable x.setup.strategy "next_interval_missing")
  | first :: rest =>
    if first.timestamp ≠ x.setup.entryAt then
      .ok (.unavailable x.setup.strategy "next_interval_missing")
    else if x.limit = false ∧ x.outside (x.against first.open_ x.entryCost) = true then
      .ok (.unavailable x.setup.strategy "entry_gap_outside_geometry")
    else x.walk (x.placed first) (first :: rest)

/-- The part of `_simulate` that reads bars. -/
def resolve (bars : List Bar) : Except Exc Simulated := do
  let complete ← x.prerequisites bars
  if complete = false then .ok (.unavailable x.setup.strategy "pre_entry_interval_gap")
  else x.enter (x.selected bars)

end Scenario

/-- `_simulate` -/
def simulateWith (limit : Bool)
    (intentSha256 : SetupCandidate → CostEvidence → Option CalendarAttestation → Except Exc String)
    (setup : SetupCandidate) (bars : List Bar) (cost : Option CostEvidence)
    (calendar : Option CalendarAttestation) (profile : String) (terms : Option OutcomeTerms) :
    Except Exc Simulated :=
  match cost with
  | none => .ok (.unavailable setup.strategy "cost_unavailable")
  | some cost =>
    match cost.readiness setup.availableAt setup.strategy with
    | some reason => .ok (.unavailable setup.strategy reason)
    | none =>
      match cost.figures with
      | none => raise .typeError "unsupported operand type(s)"
      | some figures => do
        let earliest ← shift setup.availableAt (figures.latencySeconds * 1000000)
        if setup.entryAt < earliest then
          .ok (.unavailable setup.strategy "latency_misses_next_open")
        else (Scenario.mk setup cost figures calendar profile terms limit intentSha256).resolve bars

/-- `simulate` -/
def simulate
    (intentSha256 : SetupCandidate → CostEvidence → Option CalendarAttestation → Except Exc String)
    (setup : SetupCandidate) (bars : List Bar) (cost : Option CostEvidence)
    (calendar : Option CalendarAttestation) (profile : String) (terms : Option OutcomeTerms) :
    Except Exc Simulated :=
  if setup.strategy = "fast-mr-h1-v1" then
    if setup.granularity ≠ .h1 then raise .valueError "limit_strategy_attribution"
    else simulateWith true intentSha256 setup bars cost calendar profile terms
  else simulateWith false intentSha256 setup bars cost calendar profile terms

end TradeRecommender.MarketStrategy
