import TradeRecommender.Strategy.ExploratoryReturns

/-!
# The fixed-capital diagnostic

`daily_equity_series` and `fixed_capital_diagnostic` of `research/exploratory_returns_v2.py`. The
first marks every position at each 17:00 New York of the development years; the second books a
position's whole result in the New York month of its exit. Months are pairs of a year and a number.
-/

namespace TradeRecommender.Strategy.Returns

open Civil (Instant)
open Py (Exc)

abbrev Month := ℤ × ℤ

/-- The New York day of an instant. -/
def newYorkDay (instant : Instant) : ℤ := Civil.newYorkWall instant / Civil.day

/-- `f"{local.year:04d}-{local.month:02d}"` of a day -/
def monthOf (days : ℤ) : Month := ((Civil.Date.ofDays days).year, (Civil.Date.ofDays days).month)

/-- `_month_keys` -/
def monthKeys : List Month :=
  (List.range 9).flatMap fun (year : ℕ) =>
    (List.range 12).map fun (month : ℕ) => (2010 + (year : ℤ), 1 + (month : ℤ))

/-- The first day of the development years. -/
def firstDay : ℤ := (Civil.Date.mk 2010 1 1).toDays

/-- The number of days through the last one, 2018-12-31. -/
def dayCount : ℕ := ((Civil.Date.mk 2018 12 31).toDays - firstDay + 1).toNat

/-- The 17:00 New York instant of a day. -/
def markAt (days : ℤ) : Instant := Civil.newYorkUtc (days * Civil.day + 17 * Civil.hour)

/-- `_calendar_marks` -/
def calendarMarks : List Instant := (List.range dayCount).map fun (k : ℕ) => markAt (firstDay + k)

/-! ## Positions -/

/-- An event with its resolution and its scenario return. -/
structure Position where
  event : Event
  result : Resolved
  r : ℚ

def Resolution.key : Resolution → String
  | .resolved result => result.physicalEventKey
  | .unresolvedData _ key _ => key

/-- The lookups by `physical_event_key`; an unresolved terminal is refused. -/
def position (resolutions : List Resolution) (scenario : String → Option ℚ) (event : Event) :
    Except Exc Position :=
  match resolutions.reverse.find? fun row => row.key = event.physicalEventKey with
  | none => Py.raise .keyError event.physicalEventKey
  | some (.unresolvedData _ _ _) => Py.raise returnRefusal "incomplete terminal set"
  | some (.resolved result) =>
    match scenario event.physicalEventKey with
    | none => Py.raise .keyError event.physicalEventKey
    | some r => .ok ⟨event, result, r⟩

/-- `_event_mark_r` -/
def eventMarkR (event : Event) (result : Resolved) (when_ : Instant) : Except Exc ℚ := do
  require ((event.marks.map Mark.at_).Nodup) "duplicate equity mark"
  match event.marks.find? fun row => row.at_ = when_ with
  | none => Py.raise returnRefusal "missing governed daily equity mark"
  | some row => do
    let rate ← conversionRate row.conversion event.instrument.quote when_
    let sign : ℚ := match event.direction with | .long => 1 | .short => -1
    let signed := Rounding.mul returnPrec sign
      (Rounding.sub returnPrec row.sideClose result.entryPrice)
    pure (Rounding.div returnPrec (Rounding.mul returnPrec signed rate) event.riskPerUnitCad)

/-! ## Daily equity -/

/-- The turn of the inner loop of `daily_equity_series`. -/
def addPosition (risk : ℚ) (when_ : Instant) (pnl : ℚ) (p : Position) : Except Exc ℚ :=
  if when_ < p.event.entryAt then pure pnl
  else if p.result.exitAt ≤ when_ then
    pure (Rounding.add returnPrec pnl (Rounding.mul returnPrec p.r risk))
  else do
    let mark ← eventMarkR p.event p.result when_
    pure (Rounding.add returnPrec pnl (Rounding.mul returnPrec mark risk))

/-- The equity at one mark. -/
def equityAt (positions : List Position) (risk : ℚ) (when_ : Instant) : Except Exc ℚ := do
  let pnl ← positions.foldlM (addPosition risk when_) 0
  money (Rounding.add returnPrec 10000 pnl)

/-- `daily_equity_series` -/
def dailyEquitySeries (positions : List Position) (risk : ℚ) :
    Except Exc (List (Instant × ℚ)) :=
  Py.mapE (fun when_ => (equityAt positions risk when_).map fun equity => (when_, equity))
    calendarMarks

/-- The refusals of `daily_performance`: a day must start from positive equity. -/
def dailyPerformance (equities : List ℚ) : Except Exc Unit := do
  require (equities ≠ []) "daily equity series empty"
  require (∀ previous ∈ (10000 : ℚ) :: equities.dropLast, 0 < previous)
    "daily return undefined after non-positive equity"

/-! ## Monthly booking -/

/-- `monthly[key] += pnl` -/
def bookMonth (key : Month) (pnl : ℚ) (monthly : List (Month × ℚ)) : List (Month × ℚ) :=
  monthly.map fun entry =>
    if entry.1 = key then (entry.1, Rounding.add returnPrec entry.2 pnl) else entry

/-- The New York month of a position's exit. -/
def Position.exitMonth (p : Position) : Month := monthOf (newYorkDay p.result.exitAt)

/-- The turn of the first loop of `fixed_capital_diagnostic`. -/
def bookPosition (risk : ℚ) (monthly : List (Month × ℚ)) (p : Position) :
    Except Exc (List (Month × ℚ)) := do
  require (p.exitMonth ∈ monthly.map Prod.fst) "exit outside development period"
  pure (bookMonth p.exitMonth (Rounding.mul returnPrec p.r risk) monthly)

structure MonthRow where
  month : Month
  pnlCad : ℚ
  equityCad : ℚ

/-- The loop that renders the month rows, from the equity before them. -/
def monthRows : ℚ → List (Month × ℚ) → Except Exc (List MonthRow)
  | _, [] => pure []
  | equity, (month, pnl) :: rest => do
    let equity := Rounding.add returnPrec equity pnl
    let pnlCad ← money pnl
    let equityCad ← money equity
    let rows ← monthRows equity rest
    pure (⟨month, pnlCad, equityCad⟩ :: rows)

/-- The order of `sorted(events, key=...)`. -/
def Position.before (a b : Position) : Prop :=
  a.event.entryAt < b.event.entryAt ∨
    a.event.entryAt = b.event.entryAt ∧ a.event.physicalEventKey ≤ b.event.physicalEventKey

instance : DecidableRel Position.before := fun a b => by
  unfold Position.before
  infer_instance

/-- The monthly and daily parts of the diagnostic. -/
structure Diagnostic where
  dailyEquity : List (Instant × ℚ)
  monthRows : List MonthRow

/-- `fixed_capital_diagnostic` -/
def fixedCapitalDiagnostic (events : List Event) (resolutions : List Resolution)
    (scenario : String → Option ℚ) (risk : ℚ) : Except Exc Diagnostic := do
  let positions ← Py.mapE (position resolutions scenario) events
  let monthly ← (positions.insertionSort Position.before).foldlM (bookPosition risk)
    (monthKeys.map fun key => (key, 0))
  let daily ← dailyEquitySeries positions risk
  dailyPerformance (daily.map Prod.snd)
  let rows ← monthRows 10000 monthly
  pure ⟨daily, rows⟩

end TradeRecommender.Strategy.Returns
