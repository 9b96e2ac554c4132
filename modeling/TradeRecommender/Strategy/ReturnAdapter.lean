import TradeRecommender.Lib.Bisect
import TradeRecommender.Strategy.ExploratoryReturns
import TradeRecommender.Strategy.Indicators

/-!
# The sealed evidence adapter

`research/exploratory_return_adapter_v2.py`: one geometry event, its entry evaluation and its
confirmation become a normalized event, built from sealed timestamps and registered candles. The
conversions are gathered beforehand, for every time the adapter takes to be a possible exit.
-/

namespace TradeRecommender.Strategy.Returns

open Civil (Instant)
open Py (Exc)

/-! ## Evidence -/

inductive Granularity
  | h1 | d
  deriving DecidableEq

/-- `REGISTERED_STEPS` -/
def Granularity.step : Granularity → ℤ
  | .h1 => Civil.hour
  | .d => Civil.day

/-- A registered candle. -/
structure Row where
  complete : Bool
  bidOpen : ℚ
  bidHigh : ℚ
  bidLow : ℚ
  bidClose : ℚ
  askOpen : ℚ
  askHigh : ℚ
  askLow : ℚ
  askClose : ℚ
  deriving DecidableEq

/-- The observed timestamps and the registered candles. -/
structure Evidence where
  observations : Instrument → Granularity → List Instant
  candles : Instrument → Granularity → Instant → Option Row

/-- `tuple(sorted(set(values)))` -/
def sortedSet (values : List Instant) : List Instant := values.dedup.insertionSort (· ≤ ·)

def Evidence.inventory (ev : Evidence) (code : Instrument) (granularity : Granularity) :
    List Instant :=
  sortedSet (ev.observations code granularity)

/-- `registered_candle_completion` -/
def registeredCandleCompletion (start : Instant) (granularity : Granularity) : Instant :=
  Civil.newYorkUtc (Civil.newYorkWall start + granularity.step)

/-- `completion_inventory` -/
def Evidence.completions (ev : Evidence) (code : Instrument) (granularity : Granularity) :
    List Instant :=
  (ev.inventory code granularity).map (registeredCandleCompletion · granularity)

structure Geometry where
  physicalKey : String
  books : List String
  instrument : Instrument
  direction : Direction
  horizonAt : Instant
  confirmationEvidenceHash : String

/-- The first of the evaluations of an event, whose invariant fields all of them share. -/
structure Evaluation where
  instrument : Instrument
  entryTimestamp : Instant
  entryPrice : Option ℚ
  stopPrice : Option ℚ
  targetPrice : Option ℚ
  riskPerUnitCad : Option ℚ

structure Confirmation where
  effectiveAt : Instant
  supportingSwing : Option ℚ
  evidenceHash : String

/-! ## Refusals -/

/-- The class `RunnerRefusal`. -/
def runnerRefusal : Py.ExcClass := .other "RunnerRefusal"

/-- The runner's `require(condition, message)`. -/
def runnerRequire (condition : Prop) [Decidable condition] (message : String) : Except Exc Unit :=
  if condition then .ok () else Py.raise runnerRefusal message

theorem runnerRequire_eq_ok {condition : Prop} [Decidable condition] {message : String} {u : Unit} :
    runnerRequire condition message = .ok u ↔ condition := by
  unfold runnerRequire
  split_ifs with h <;> simp [h, Py.raise]

/-! ## Lookups -/

/-- `_prior_start`: the start of the last member completed strictly before a time. -/
def priorStart (starts completions : List Instant) (when_ : Instant) : Except Exc Instant := do
  let index := Bisect.left completions when_
  runnerRequire (0 < index) "no strictly prior sealed H1 conversion member"
  match starts[index - 1]? with
  | some start => pure start
  | none => Py.raise .indexError "tuple index out of range"

/-- `_candle` -/
def candle (ev : Evidence) (code : Instrument) (granularity : Granularity) (start : Instant) :
    Except Exc Row :=
  match ev.candles code granularity start with
  | some row =>
    if row.complete then .ok row else Py.raise runnerRefusal "missing sealed candle evidence"
  | none => Py.raise runnerRefusal "missing sealed candle evidence"

/-- One leg of `_conversion`. -/
def conversionLeg (ev : Evidence) (when_ : Instant) (route : Instrument × RouteDirection) :
    Except Exc Leg := do
  let start ← priorStart (ev.inventory route.1 .h1) (ev.completions route.1 .h1) when_
  let row ← candle ev route.1 .h1 start
  pure ⟨route.1, route.2, registeredCandleCompletion start .h1, mid row.bidClose row.askClose, true,
    true, false⟩

/-- `_conversion` -/
def conversion (ev : Evidence) (currency : Currency) (when_ : Instant) : Except Exc Conversion := do
  let legs ← Py.mapE (conversionLeg ev when_) (cadRoutes currency)
  pure ⟨currency, when_, legs⟩

/-! ## The times of an event -/

/-- The 17:00 New York instants from the entry through the horizon. -/
def markTimes (entry horizon : Instant) : List Instant :=
  ((fivesThrough (Civil.atFive (Civil.newYorkWall entry)) horizon).map Civil.newYorkUtc).filter
    fun when_ => entry ≤ when_

/-- `possible`: the entry, the horizon, the end of every hour, rollovers and marks. -/
def possible (entry horizon : Instant) (h1Starts : List Instant) : List Instant :=
  entry :: horizon :: h1Starts.map (· + Civil.hour) ++
    (rolloverTimes entry horizon).map Prod.fst ++ markTimes entry horizon

/-- The hours of an event: the inventory from its entry through its horizon. -/
def h1StartsOf (ev : Evidence) (code : Instrument) (entry horizon : Instant) : List Instant :=
  let h1All := ev.inventory code .h1
  slice h1All (Bisect.left h1All entry) (Bisect.right h1All horizon)

/-- A section of a daily list by the completions after the entry through the horizon. -/
def dailySection (ev : Evidence) (code : Instrument) (entry horizon : Instant)
    (values : List Instant) : List Instant :=
  let completions := ev.completions code .d
  slice values (Bisect.right completions entry) (Bisect.right completions horizon)

/-! ## Normalization -/

/-- The H1 row of `_normalize_event`. -/
def h1Row (ev : Evidence) (code : Instrument) (start : Instant) : Except Exc Bar := do
  let row ← candle ev code .h1 start
  pure ⟨start, true, true, false, row.bidOpen, row.bidHigh, row.bidLow, row.bidClose, row.askOpen,
    row.askHigh, row.askLow, row.askClose⟩

/-- The daily row of `_normalize_event`. -/
def dailyRow (ev : Evidence) (code : Instrument) (pair : Instant × Instant) :
    Except Exc DailyRow := do
  let row ← candle ev code .d pair.1
  pure ⟨pair.2, true, true, false, mid row.bidClose row.askClose⟩

/-- The last row completed by a time, an hour ending at that time included. -/
def rowBy (ev : Evidence) (code : Instrument) (when_ : Instant) : Except Exc Row := do
  let start ← priorStart (ev.inventory code .h1) (ev.completions code .h1) (when_ + 1)
  candle ev code .h1 start

def markRow (ev : Evidence) (code : Instrument) (direction : Direction) (when_ : Instant) :
    Except Exc Mark := do
  let row ← rowBy ev code when_
  let evidence ← conversion ev code.quote when_
  pure ⟨when_, match direction with | .long => row.bidClose | .short => row.askClose, evidence⟩

def rolloverRow (ev : Evidence) (code : Instrument) (time : Instant × ℤ) :
    Except Exc Rollover := do
  let row ← rowBy ev code time.1
  let evidence ← conversion ev code.quote time.1
  pure ⟨time.1, time.2, mid row.bidClose row.askClose, evidence⟩

/-- `PIP_SIZE.get(code, "0.0001")` -/
def pipSize : Instrument → ℚ
  | .usdJpy => 1 / 100
  | _ => 1 / 10000

/-- The part of `load_normalized_events` that plans one event, and `_normalize_event`. -/
def normalizeEvent (ev : Evidence) (geometry : Geometry) (evaluation : Evaluation)
    (confirmation : Confirmation) : Except Exc Event := do
  let entry := evaluation.entryTimestamp
  let horizon := geometry.horizonAt
  let h1Starts := h1StartsOf ev evaluation.instrument entry horizon
  let dCompletions := dailySection ev evaluation.instrument entry horizon
    (ev.completions evaluation.instrument .d)
  runnerRequire (10 ≤ dCompletions.length ∧ h1Starts.getLast? = some horizon)
    "horizon inventory drift"
  let dStarts := dailySection ev evaluation.instrument entry horizon
    (ev.inventory evaluation.instrument .d)
  let code := geometry.instrument
  let h1 ← Py.mapE (h1Row ev code) h1Starts
  let daily ← Py.mapE (dailyRow ev code) (dStarts.zip dCompletions)
  let marks ← Py.mapE (markRow ev code geometry.direction) (markTimes entry horizon)
  let rollovers ← Py.mapE (rolloverRow ev code) (rolloverTimes entry horizon)
  match h1, evaluation.entryPrice, evaluation.stopPrice, evaluation.targetPrice,
    evaluation.riskPerUnitCad with
  | first :: _, some entryPrice, some stopPrice, some targetPrice, some riskPerUnitCad => do
    let governedEntry := match geometry.direction with
      | .long => first.askOpen
      | .short => first.bidOpen
    runnerRequire (governedEntry = entryPrice) "stored entry geometry changed"
    runnerRequire (confirmation.effectiveAt ≤ entry ∧
      confirmation.evidenceHash = geometry.confirmationEvidenceHash) "confirmation lineage changed"
    match confirmation.supportingSwing with
    | none => Py.raise runnerRefusal "supporting swing evidence missing"
    | some supporting => do
      let conversions ← Py.mapE
        (fun when_ => (conversion ev code.quote when_).map fun row => (when_, row))
        (sortedSet (possible entry horizon h1Starts))
      pure {
        physicalEventKey := geometry.physicalKey
        books := geometry.books
        instrument := code
        direction := geometry.direction
        entryAt := entry
        horizonAt := horizon
        entryBid := first.bidOpen
        entryAsk := first.askOpen
        stop := stopPrice
        target := targetPrice
        supportingSwing := supporting
        pipSize := pipSize code
        riskPerUnitCad
        expectedH1Starts := h1Starts
        dCompletions
        h1
        daily
        conversion := conversions
        rollovers
        marks }
  | _, _, _, _, _ => Py.raise runnerRefusal "stored entry geometry changed"

/-- `_horizon` of the geometry: the first hour at or after the tenth daily completion. -/
def geometryHorizon (entryAt : Instant) (completions hourly : List Instant) : Option Instant :=
  let start := Bisect.right completions entryAt
  match completions[start + 9]? with
  | none => none
  | some tenthCompletion => hourly[Bisect.left hourly tenthCompletion]?

end TradeRecommender.Strategy.Returns
