import TradeRecommender.Strategy.Indicators

/-!
# Incremental indicators

The constant-work state of `failed_break_detector_v2.py` and the daily part of the projection loop
of `failed_break_v2_s1.py` that feeds it: one completed daily candle at a time, with windows in
place of the whole history.
-/

namespace TradeRecommender.Strategy

open Civil (Instant)
open Py (Exc)

/-! ## Incremental averages -/

structure IncrementalEma where
  period : ℕ
  seed : List ℚ
  value : Option ℚ
  alpha : ℚ

def IncrementalEma.init (period : ℕ) : IncrementalEma :=
  ⟨period, [], none, Rounding.div prec 2 (period + 1)⟩

def IncrementalEma.update (s : IncrementalEma) (value : ℚ) : IncrementalEma :=
  match s.value with
  | none =>
    let seed := s.seed ++ [value]
    if seed.length = s.period then
      { s with seed, value := some (Rounding.div prec (Rounding.sum prec seed) s.period) }
    else { s with seed }
  | some current =>
    { s with value := some (Rounding.add prec current
        (Rounding.mul prec s.alpha (Rounding.sub prec value current))) }

structure IncrementalAtr where
  period : ℕ
  ranges : List ℚ
  previousClose : Option ℚ
  value : Option ℚ

def IncrementalAtr.init (period : ℕ) : IncrementalAtr := ⟨period, [], none, none⟩

/-- The range of one candle; the first has no gap to measure. -/
def IncrementalAtr.trueRange (s : IncrementalAtr) (high low : ℚ) : ℚ :=
  match s.previousClose with
  | none => Rounding.sub prec high low
  | some previousClose =>
    max (max (Rounding.sub prec high low)
      (Rounding.abs prec (Rounding.sub prec high previousClose)))
      (Rounding.abs prec (Rounding.sub prec low previousClose))

def IncrementalAtr.update (s : IncrementalAtr) (high low close : ℚ) : IncrementalAtr :=
  let trueRange := s.trueRange high low
  match s.value with
  | none =>
    let ranges := s.ranges ++ [trueRange]
    if ranges.length = s.period then
      { s with
        ranges
        previousClose := some close
        value := some (Rounding.div prec (Rounding.sum prec ranges) s.period) }
    else { s with ranges, previousClose := some close }
  | some current =>
    { s with
      previousClose := some close
      value := some (Rounding.div prec (Rounding.add prec
        (Rounding.mul prec current (s.period - 1 : ℕ)) trueRange) s.period) }

/-! ## The daily state -/

structure IncrementalDailyUpdate where
  ema50 : Option ℚ
  ema200 : Option ℚ
  atr14 : Option ℚ
  newPivots : List Pivot
  prior20High : Option ℚ
  prior20Low : Option ℚ

structure IncrementalDailyState where
  ema50 : IncrementalEma
  ema200 : IncrementalEma
  atr14 : IncrementalAtr
  pivotWindow : List Candle
  breakoutWindow : List Candle

def IncrementalDailyState.init : IncrementalDailyState :=
  ⟨.init 50, .init 200, .init 14, [], []⟩

/-- The pivots a full window of five forms around its centre. -/
def windowPivots (rows : List Candle) : List Pivot :=
  match rows with
  | [first, second, center, fourth, last] =>
    let peers := [first, second, fourth, last]
    (if peers.all fun row => row.high < center.high then
      [⟨center.openedAt, last.completedAt, center.high, .high⟩] else []) ++
    (if peers.all fun row => center.low < row.low then
      [⟨center.openedAt, last.completedAt, center.low, .low⟩] else [])
  | _ => []

def IncrementalDailyState.update (s : IncrementalDailyState) (candle : Candle) :
    IncrementalDailyState × IncrementalDailyUpdate :=
  let breakoutReady := s.breakoutWindow.length = 20
  let priorHigh := (s.breakoutWindow.map Candle.high).max?
  let priorLow := (s.breakoutWindow.map Candle.low).min?
  let ema50 := s.ema50.update candle.close
  let ema200 := s.ema200.update candle.close
  let atr14 := s.atr14.update candle.high candle.low candle.close
  let pivotWindow := Window.push 5 s.pivotWindow candle
  (⟨ema50, ema200, atr14, pivotWindow, Window.push 20 s.breakoutWindow candle⟩,
    ⟨ema50.value, ema200.value, atr14.value, windowPivots pivotWindow,
      if breakoutReady then priorHigh else none, if breakoutReady then priorLow else none⟩)

/-! ## The projection loop -/

/-- `_bias`. -/
def bias (daily : List Candle) (pivots : List Pivot) (update : IncrementalDailyUpdate)
    (ema50History : List ℚ) : Bias :=
  match daily.getLast?, update.ema50, update.ema200 with
  | some latest, some fast, some slow =>
    if ema50History.length < 21 then .neutral
    else
      let market := marketStructure pivots latest.close ⟨latest.completedAt, "", ""⟩
      match ema50History.head? with
      | none => .neutral
      | some prior =>
        if market = .bullish ∧ slow < fast ∧ prior < fast then .bullish
        else if market = .bearish ∧ fast < slow ∧ fast < prior then .bearish
        else .neutral
  | _, _, _ => .neutral

/-- Tuples compare by their first components that differ. -/
def lexLt (a b : Instant × Instant) : Bool := a.1 < b.1 || a.1 = b.1 && a.2 < b.2

/-- `_supporting`. -/
def supporting (pivots : List Pivot) (bias : Bias) (at_ : Instant) : Option Pivot :=
  Window.firstMax (fun a b => lexLt (a.availableAt, a.at_) (b.availableAt, b.at_))
    (pivots.filter fun pivot => some pivot.kind = bias.pivotKind ∧ pivot.availableAt ≤ at_)

/-- The variables of `_project_instrument` that a daily candle moves. -/
structure DailyLoop where
  state : IncrementalDailyState
  daily : List Candle
  pivots : List Pivot
  ema50History : List ℚ
  bias : Bias
  supporting : Option Pivot

def DailyLoop.init : DailyLoop := ⟨.init, [], [], [], .neutral, none⟩

/-- The part of one turn that raises nothing: feed the state, keep the history, read bias and
swing. -/
def DailyLoop.step (s : DailyLoop) (candle : Candle) : DailyLoop :=
  let daily := s.daily ++ [candle]
  let (state, update) := s.state.update candle
  let ema50History := match update.ema50 with
    | some value => Window.push 21 s.ema50History value
    | none => s.ema50History
  let pivots := s.pivots ++ update.newPivots
  let current := Strategy.bias daily pivots update ema50History
  ⟨state, daily, pivots, ema50History, current,
    Strategy.supporting pivots current candle.completedAt⟩

/-- The loop over a list of completed daily candles. -/
def DailyLoop.run (candles : List Candle) : DailyLoop := candles.foldl .step .init

/-- The breakout levels of one update: both comparisons, each behind its own guard. -/
def updateBreakouts (candle : Candle) (update : IncrementalDailyUpdate) (precision : Quantum) :
    Except Exc (List LevelSpec) :=
  match update.atr14 with
  | none => pure []
  | some atr => do
    let context : Context := ⟨candle.completedAt, "", ""⟩
    let up ← match update.prior20High with
      | some priorHigh =>
        if priorHigh < candle.close then
          (breakoutHigh candle priorHigh atr precision context).map ([·])
        else pure []
      | none => pure []
    let down ← match update.prior20Low with
      | some priorLow =>
        if candle.close < priorLow then
          (breakoutLow candle priorLow atr precision context).map ([·])
        else pure []
      | none => pure []
    pure (up ++ down)

/-- One turn with its breakout levels, which may refuse. -/
def projectCandle (precision : Quantum) (s : DailyLoop × List LevelSpec) (candle : Candle) :
    Except Exc (DailyLoop × List LevelSpec) := do
  let found ← updateBreakouts candle (s.1.state.update candle).2 precision
  pure (s.1.step candle, s.2 ++ found)

/-- The daily candles of `_project_instrument` with the breakout levels they add. -/
def projectDaily (precision : Quantum) (candles : List Candle) :
    Except Exc (DailyLoop × List LevelSpec) :=
  candles.foldlM (projectCandle precision) (.init, [])

end TradeRecommender.Strategy
