import TradeRecommender.Lib.NewYork

/-!
# The registered market calendar

`market/quality.py`: where the next candle of a granularity starts, read on the New York clock.
-/

namespace TradeRecommender.Market

open Civil

inductive Granularity
  | w | d | h4 | h1 | m15
  deriving DecidableEq, Repr

def Granularity.code : Granularity → String
  | .w => "W"
  | .d => "D"
  | .h4 => "H4"
  | .h1 => "H1"
  | .m15 => "M15"

/-- Microseconds in a minute. -/
def minute : ℤ := 60000000

/-- `REGISTERED_STEPS` -/
def Granularity.step : Granularity → ℤ
  | .w => 7 * day
  | .d => day
  | .h4 => 4 * hour
  | .h1 => hour
  | .m15 => 15 * minute

/-- `registered_successor` -/
def registeredSuccessor (timestamp : Instant) (granularity : Granularity) : Instant :=
  let wall := newYorkWall timestamp
  match granularity with
  | .w => newYorkUtc (wall + 7 * day)
  | .d => newYorkUtc (wall + (if weekday (wall / day) = 3 then 3 else 1) * day)
  | granularity =>
    let candidate := wall + granularity.step
    -- the Friday close is followed by the Sunday open
    if weekday (candidate / day) = 4 ∧ candidate % day = 17 * hour then
      newYorkUtc (candidate + 2 * day)
    else newYorkUtc candidate

/-- `registered_candle_completion` -/
def registeredCandleCompletion (timestamp : Instant) (granularity : Granularity) : Instant :=
  newYorkUtc (newYorkWall timestamp + granularity.step)

/-- `live_interval_is_aligned` of a supported granularity -/
def liveIntervalIsAligned (timestamp : Instant) (granularity : Granularity) : Bool :=
  let wall := newYorkWall timestamp
  if wall % minute ≠ 0 then false
  else match granularity with
    | .m15 => wall % hour / minute % 15 = 0
    | .h1 => wall % hour = 0
    | .h4 => wall % hour = 0 && wall % day / hour ∈ [1, 5, 9, 13, 17, 21]
    | .d => wall % day = 17 * hour && weekday (wall / day) ∈ [6, 0, 1, 2, 3]
    | .w => wall % day = 17 * hour && weekday (wall / day) = 4

end TradeRecommender.Market
