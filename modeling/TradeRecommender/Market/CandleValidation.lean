import Mathlib.Data.Rat.Init
import TradeRecommender.Market.RegisteredCalendar

/-!
# Validating candles

`market/quality.py`: the issues of a series of candles, each found at its index.
-/

namespace TradeRecommender.Market

open Py Civil

/-- The four prices of one side. -/
structure Prices where
  opening : ℚ
  high : ℚ
  low : ℚ
  close : ℚ
  deriving DecidableEq

/-- `CandleData`; the timestamp is an instant and the offset it is written at. -/
structure CandleData where
  timestamp : Instant
  utcoffset : ℤ
  complete : Bool
  volume : ℤ
  bid : Prices
  ask : Prices
  deriving DecidableEq

/-- `ValidationIssue` -/
structure ValidationIssue where
  code : String
  index : ℕ
  deriving DecidableEq

/-- The weekday and the time of the last interval before the weekend. -/
def expectedStart : Granularity → Except Exc (ℤ × ℤ)
  | .h1 => .ok (4, 16 * hour)
  | .h4 => .ok (4, 13 * hour)
  | .d => .ok (3, 17 * hour)
  | .w => raise .keyError "W"
  | .m15 => raise .keyError "M15"

section
variable (c : SundayClock) (g : Granularity)

/-- `_is_fx_weekend_gap` -/
def isFxWeekendGap (start finish : Instant) (registered : Bool) : Except Exc Bool :=
  if g = .w then .ok false
  else if registered then do
    let (startWeekday, startTime) ← expectedStart g
    return weekday (c.wall start / day) = startWeekday && c.wall start % day = startTime &&
      weekday (c.wall finish / day) = 6 && c.wall finish % day = 17 * hour
  else
    .ok (weekday (start / day) = (if g = .d then 3 else 4) &&
      weekday (finish / day) ∈ [6, 0] && finish - start ≤ 4 * day)

/-- `_is_expected_successor` -/
def isExpectedSuccessor (start finish : Instant) (registered : Bool) : Except Exc Bool :=
  if finish - start = g.step then .ok true
  else do
    if ← isFxWeekendGap c g start finish registered then return true
    else return g ∈ [.d, .w] && c.wall finish - c.wall start = g.step

/-- `_has_registered_alignment` -/
def hasRegisteredAlignment (timestamp : Instant) : Bool :=
  c.wall timestamp % day = 17 * hour && (g = .d || weekday (c.wall timestamp / day) = 4)

/-- A side whose prices no interval can have. -/
def Prices.impossible (side : Prices) : Bool :=
  min side.opening side.close < side.low || side.high < max side.opening side.close ||
    side.high < side.low

/-- Whether the candle does not follow the one before it. -/
def gapBefore (registered succession : Bool) (previous : Option CandleData)
    (candle : CandleData) : Except Exc Bool :=
  match previous with
  | none => .ok false
  | some previous =>
    if succession then
      (isExpectedSuccessor c g previous.timestamp candle.timestamp registered).map (!·)
    else .ok false

/-- The issues of one candle, behind the timestamps seen and the candle before. -/
def candleIssues (registered succession : Bool) (seen : List Instant)
    (previous : Option CandleData) (candle : CandleData) : Except Exc (List String) := do
  let gap ← gapBefore c g registered succession previous candle
  let found (condition : Bool) (code : String) : List String := if condition then [code] else []
  return found (candle.utcoffset ≠ 0) "timestamp_not_utc" ++
    found (candle.timestamp ∈ seen) "duplicate_timestamp" ++
    found (previous.any fun p => candle.timestamp ≤ p.timestamp) "non_monotonic_timestamp" ++
    found gap "unexpected_gap" ++
    found (registered && g ∈ [.d, .w] && !hasRegisteredAlignment c g candle.timestamp)
      "alignment_mismatch" ++
    found (!candle.complete) "incomplete_candle" ++
    found (candle.volume < 0) "negative_volume" ++
    [candle.bid, candle.ask].flatMap (fun side => found side.impossible "impossible_ohlc") ++
    [Prices.opening, Prices.high, Prices.low, Prices.close].flatMap fun component =>
      found (component candle.ask < component candle.bid) "crossed_bid_ask"

/-- The loop of `validate_candles`. -/
def validateFrom (registered succession : Bool) :
    ℕ → List Instant → Option CandleData → List CandleData → Except Exc (List ValidationIssue)
  | _, _, _, [] => .ok []
  | index, seen, previous, candle :: rest => do
    let codes ← candleIssues c g registered succession seen previous candle
    let issues ← validateFrom registered succession (index + 1) (candle.timestamp :: seen)
      (some candle) rest
    return codes.map (fun code => ⟨code, index⟩) ++ issues

/-- `validate_candles` -/
def validateCandles (candles : List CandleData) (registered : Bool := false)
    (succession : Bool := true) : Except Exc (List ValidationIssue) :=
  validateFrom c g registered succession 0 [] none candles

end

end TradeRecommender.Market
