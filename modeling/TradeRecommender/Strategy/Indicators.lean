import TradeRecommender.Lib.Civil
import TradeRecommender.Lib.Rounding
import TradeRecommender.Lib.Window

/-!
# The frozen strategy

The point-in-time functions of `research/strategy.py`: each one selects the candles completed by
its context's `as_of` and computes over them. Prices are decimals under the default context of 28
digits, so every operation rounds.
-/

namespace TradeRecommender.Strategy

open Civil (Instant)
open Py (Exc)

/-! ## Data -/

structure Context where
  asOf : Instant
  strategyVersion : String := ""
  datasetVersion : String := ""

structure Candle where
  openedAt : Instant
  completedAt : Instant
  bidOpen : ℚ
  bidHigh : ℚ
  bidLow : ℚ
  bidClose : ℚ
  askOpen : ℚ
  askHigh : ℚ
  askLow : ℚ
  askClose : ℚ
  complete : Bool := true
  deriving DecidableEq

/-- The digits of the default decimal context. -/
abbrev prec : ℕ := 28

/-- `(bid + ask) / 2`. -/
def mid (bid ask : ℚ) : ℚ := Rounding.div prec (Rounding.add prec bid ask) 2

namespace Candle

def high (c : Candle) : ℚ := mid c.bidHigh c.askHigh

def low (c : Candle) : ℚ := mid c.bidLow c.askLow

def close (c : Candle) : ℚ := mid c.bidClose c.askClose

/-- What the constraints `candle_bid_ohlc_valid` and `candle_ask_ohlc_valid` say of a close. -/
structure Ordered (c : Candle) : Prop where
  bidLow : c.bidLow ≤ c.bidClose
  bidHigh : c.bidClose ≤ c.bidHigh
  askLow : c.askLow ≤ c.askClose
  askHigh : c.askClose ≤ c.askHigh

end Candle

structure Point where
  at_ : Instant
  value : ℚ
  deriving DecidableEq

/-- The two kinds of pivot. -/
inductive PivotKind
  | high | low
  deriving DecidableEq

structure Pivot where
  at_ : Instant
  availableAt : Instant
  price : ℚ
  kind : PivotKind
  deriving DecidableEq

inductive Bias
  | bullish | bearish | neutral
  deriving DecidableEq

inductive Side
  | long | short
  deriving DecidableEq

inductive Role
  | support | resistance
  deriving DecidableEq

/-- A decimal used for its exponent as well as for its value. -/
structure Quantum where
  coefficient : ℤ
  exponent : ℤ
  deriving DecidableEq

def Quantum.value (q : Quantum) : ℚ := q.coefficient * 10 ^ q.exponent

structure LevelSpec where
  key : String
  family : String
  role : Role
  centralPrice : ℚ
  zoneLower : ℚ
  zoneUpper : ℚ
  atrAtActivation : ℚ
  activatedAt : Instant
  sourceAt : Instant
  expiresAt : Option Instant := none
  expiresAfterSessions : Option ℕ := none
  deriving DecidableEq

/-! ## Completed candles -/

def completedCandles (candles : List Candle) (context : Context) : List Candle :=
  (candles.filter fun c => c.complete && c.completedAt ≤ context.asOf).mergeSort
    fun a b => a.openedAt ≤ b.openedAt

/-! ## Averages -/

/-- One turn of the loop of `ema`. -/
def emaStep (multiplier : ℚ) (s : ℚ × List Point) (candle : Candle) : ℚ × List Point :=
  let value := Rounding.add prec s.1
    (Rounding.mul prec multiplier (Rounding.sub prec candle.close s.1))
  (value, s.2 ++ [⟨candle.completedAt, value⟩])

/-- The body of `ema` over the completed candles. -/
def emaPoints (period : ℕ) (data : List Candle) : List Point :=
  if period < 1 ∨ data.length < period then []
  else
    match data[period - 1]? with
    | none => []
    | some last =>
      let value := Rounding.div prec (Rounding.sum prec ((data.take period).map Candle.close))
        period
      let multiplier := Rounding.div prec 2 (period + 1)
      ((data.drop period).foldl (emaStep multiplier) (value, [⟨last.completedAt, value⟩])).2

def ema (candles : List Candle) (period : ℕ) (context : Context) : List Point :=
  emaPoints period (completedCandles candles context)

def ema50 (candles : List Candle) (context : Context) : List Point := ema candles 50 context

def ema200 (candles : List Candle) (context : Context) : List Point := ema candles 200 context

/-- The greatest of the range and the two gaps from the previous close. -/
def trueRange (previousClose : ℚ) (candle : Candle) : ℚ :=
  max (max (Rounding.sub prec candle.high candle.low)
    (Rounding.abs prec (Rounding.sub prec candle.high previousClose)))
    (Rounding.abs prec (Rounding.sub prec candle.low previousClose))

/-- The list `ranges`: the first candle's previous close is its own. -/
def trueRanges (data : List Candle) : List ℚ :=
  data.mapIdx fun index candle =>
    trueRange (if index = 0 then candle.close else ((data[index - 1]?).map Candle.close).getD 0)
      candle

/-- One turn of the loop of `atr14`. -/
def atrStep (s : ℚ × List Point) (row : Candle × ℚ) : ℚ × List Point :=
  let value := Rounding.div prec
    (Rounding.add prec (Rounding.mul prec s.1 13) row.2) 14
  (value, s.2 ++ [⟨row.1.completedAt, value⟩])

/-- The body of `atr14` over the completed candles. -/
def atrPoints (data : List Candle) : List Point :=
  if data.length < 14 then []
  else
    match data[13]? with
    | none => []
    | some last =>
      let ranges := trueRanges data
      let value := Rounding.div prec (Rounding.sum prec (ranges.take 14)) 14
      (((data.drop 14).zip (ranges.drop 14)).foldl atrStep
        (value, [⟨last.completedAt, value⟩])).2

def atr14 (candles : List Candle) (context : Context) : List Point :=
  atrPoints (completedCandles candles context)

/-! ## Pivots -/

/-- The pivots a centre forms against its peers. -/
def pivotsAt (center : Candle) (peers : List Candle) (availableAt : Instant) : List Pivot :=
  (if peers.all fun peer => peer.high < center.high then
    [⟨center.openedAt, availableAt, center.high, .high⟩] else []) ++
  (if peers.all fun peer => center.low < peer.low then
    [⟨center.openedAt, availableAt, center.low, .low⟩] else [])

/-- `data[start:stop]`. -/
def slice {α : Type} (data : List α) (start stop : ℕ) : List α := (data.drop start).take (stop - start)

/-- The body of `daily_pivots` over the completed candles. -/
def pivotsOf (data : List Candle) : List Pivot :=
  (List.range' 2 (data.length - 4)).flatMap fun index =>
    match data[index]?, data[index + 2]? with
    | some center, some last =>
      pivotsAt center (slice data (index - 2) index ++ slice data (index + 1) (index + 3))
        last.completedAt
    | _, _ => []

def dailyPivots (candles : List Candle) (context : Context) : List Pivot :=
  pivotsOf (completedCandles candles context)

/-! ## Bias -/

def marketStructure (pivots : List Pivot) (latestDailyClose : ℚ) (context : Context) : Bias :=
  let visible := pivots.filter fun pivot => pivot.availableAt ≤ context.asOf
  let highs := (visible.filter fun pivot => pivot.kind = .high).reverse
  let lows := (visible.filter fun pivot => pivot.kind = .low).reverse
  match highs, lows with
  | high :: high' :: _, low :: low' :: _ =>
    if high'.price < high.price ∧ low'.price < low.price ∧ low.price < latestDailyClose then
      .bullish
    else if high.price < high'.price ∧ low.price < low'.price ∧ latestDailyClose < high.price then
      .bearish
    else .neutral
  | _, _ => .neutral

def dailyBias (candles : List Candle) (pivots : List Pivot) (context : Context) : Bias :=
  let data := completedCandles candles context
  let fast := ema50 data context
  let slow := ema200 data context
  match data.getLast?, fast.reverse, slow.getLast? with
  | some latest, fastLast :: fastRest, some slowLast =>
    match (fastLast :: fastRest)[20]? with
    | none => .neutral
    | some fastPrior =>
      let market := marketStructure pivots latest.close context
      if market = .bullish ∧ slowLast.value < fastLast.value ∧
          fastPrior.value < fastLast.value then .bullish
      else if market = .bearish ∧ fastLast.value < slowLast.value ∧
          fastLast.value < fastPrior.value then .bearish
      else .neutral
  | _, _, _ => .neutral

/-- The kind of pivot that supports a bias. -/
def Bias.pivotKind : Bias → Option PivotKind
  | .bullish => some .low
  | .bearish => some .high
  | .neutral => none

def supportingSwing (pivots : List Pivot) (bias : Bias) (context : Context) : Option Pivot :=
  Window.firstMax (fun a b => a.availableAt < b.availableAt)
    (pivots.filter fun pivot => some pivot.kind = bias.pivotKind ∧
      pivot.availableAt ≤ context.asOf)

/-! ## Levels -/

/-- `value.quantize(precision, rounding=r)`. -/
def quantizePrice (r : ℚ → ℤ) (precision : Quantum) (value : ℚ) : Except Exc ℚ :=
  if 10 ^ prec ≤ |r (value / 10 ^ precision.exponent)| then Py.raise .invalidOperation
  else .ok (Rounding.quantize r precision.exponent value)

def makeLevel (key family : String) (role : Role) (price atr : ℚ) (activatedAt sourceAt : Instant)
    (precision : Quantum) (context : Context) (expiresAt : Option Instant := none)
    (expiresAfterSessions : Option ℕ := none) : Except Exc LevelSpec := do
  if context.asOf < activatedAt ∨ atr ≤ 0 ∨ precision.value ≤ 0 then
    Py.raise .valueError "level is unavailable or has invalid ATR/precision"
  else
    let halfWidth := Rounding.div prec (Rounding.mul prec atr (15 / 100)) 2
    let zoneLower ← quantizePrice Int.floor precision (Rounding.sub prec price halfWidth)
    let zoneUpper ← quantizePrice Int.ceil precision (Rounding.add prec price halfWidth)
    pure ⟨key, family, role, price, zoneLower, zoneUpper, atr, activatedAt, sourceAt, expiresAt,
      expiresAfterSessions⟩

/-- The family of the breakout levels. -/
def breakoutFamily : String := "TWENTY_SESSION_BREAKOUT_FLIP"

/-- The level of a close above the prior high. -/
def breakoutHigh (candle : Candle) (priorHigh atr : ℚ) (precision : Quantum) (context : Context) :
    Except Exc LevelSpec :=
  makeLevel ("breakout-high:" ++ Civil.isoformat candle.openedAt) breakoutFamily .support priorHigh
    atr candle.completedAt candle.openedAt precision context none (some 20)

/-- The level of a close below the prior low. -/
def breakoutLow (candle : Candle) (priorLow atr : ℚ) (precision : Quantum) (context : Context) :
    Except Exc LevelSpec :=
  makeLevel ("breakout-low:" ++ Civil.isoformat candle.openedAt) breakoutFamily .resistance priorLow
    atr candle.completedAt candle.openedAt precision context none (some 20)

/-- The levels one candle breaks out of. -/
def breakoutsAt (candle : Candle) (priorHigh priorLow atr : ℚ) (precision : Quantum)
    (context : Context) : Except Exc (List LevelSpec) := do
  let up ← if priorHigh < candle.close then
      (breakoutHigh candle priorHigh atr precision context).map ([·])
    else pure []
  let down ← if candle.close < priorLow then
      (breakoutLow candle priorLow atr precision context).map ([·])
    else pure []
  pure (up ++ down)

def breakoutFlipLevels (daily : List Candle) (atrByTime : Instant → Option ℚ) (precision : Quantum)
    (context : Context) : Except Exc (List LevelSpec) :=
  let done := completedCandles daily context
  (List.range' 20 (done.length - 20)).foldlM (fun levels index =>
    match done[index]? with
    | none => pure levels
    | some candle =>
      let prior := slice done (index - 20) index
      match (prior.map Candle.high).max?, (prior.map Candle.low).min?,
        atrByTime candle.completedAt with
      | some priorHigh, some priorLow, some atr => do
        let found ← breakoutsAt candle priorHigh priorLow atr precision context
        pure (levels ++ found)
      | _, _, _ => pure levels) []

end TradeRecommender.Strategy
