import TradeRecommender.Lib.NewYork
import TradeRecommender.Lib.Rounding

/-!
# The return calculator

`research/exploratory_returns_v2.py`: one normalized event is resolved to its terminal under the
H1 stop-first rule, and anything the evidence does not support is refused. Timestamps are instants
and decimals are rationals; a calculation rounds to the 38 digits of its frozen context.
-/

namespace TradeRecommender.Strategy.Returns

open Civil (Instant)
open Py (Exc)

/-! ## Evidence -/

inductive Currency
  | cad | usd | gbp | jpy
  deriving DecidableEq

/-- The registered instruments. -/
inductive Instrument
  | audUsd | eurGbp | eurUsd | gbpUsd | usdCad | usdJpy
  deriving DecidableEq

/-- `code.split("_")[1]` -/
def Instrument.quote : Instrument → Currency
  | .audUsd | .eurUsd | .gbpUsd => .usd
  | .eurGbp => .gbp
  | .usdCad => .cad
  | .usdJpy => .jpy

inductive Direction
  | long | short
  deriving DecidableEq

inductive RouteDirection
  | multiply | divide
  deriving DecidableEq

/-- `CAD_ROUTES` -/
def cadRoutes : Currency → List (Instrument × RouteDirection)
  | .cad => []
  | .usd => [(.usdCad, .multiply)]
  | .gbp => [(.gbpUsd, .multiply), (.usdCad, .multiply)]
  | .jpy => [(.usdJpy, .divide), (.usdCad, .multiply)]

structure Leg where
  pair : Instrument
  direction : RouteDirection
  completedAt : Instant
  midpointClose : ℚ
  isSealed : Bool
  complete : Bool
  conflict : Bool
  deriving DecidableEq

structure Conversion where
  currency : Currency
  asOf : Instant
  legs : List Leg
  deriving DecidableEq

structure Bar where
  start : Instant
  isSealed : Bool
  complete : Bool
  conflict : Bool
  bidOpen : ℚ
  bidHigh : ℚ
  bidLow : ℚ
  bidClose : ℚ
  askOpen : ℚ
  askHigh : ℚ
  askLow : ℚ
  askClose : ℚ
  deriving DecidableEq

structure DailyRow where
  completedAt : Instant
  isSealed : Bool
  complete : Bool
  conflict : Bool
  midClose : ℚ
  deriving DecidableEq

structure Rollover where
  at_ : Instant
  multiplier : ℤ
  midpoint : ℚ
  conversion : Conversion
  deriving DecidableEq

structure Mark where
  at_ : Instant
  sideClose : ℚ
  conversion : Conversion
  deriving DecidableEq

/-- A normalized event. -/
structure Event where
  physicalEventKey : String
  books : List String
  instrument : Instrument
  direction : Direction
  entryAt : Instant
  horizonAt : Instant
  entryBid : ℚ
  entryAsk : ℚ
  stop : ℚ
  target : ℚ
  supportingSwing : ℚ
  pipSize : ℚ
  riskPerUnitCad : ℚ
  expectedH1Starts : List Instant
  dCompletions : List Instant
  h1 : List Bar
  daily : List DailyRow
  conversion : List (Instant × Conversion)
  rollovers : List Rollover
  marks : List Mark

/-! ## Refusals -/

/-- The class `ReturnRefusal`. -/
def returnRefusal : Py.ExcClass := .other "ReturnRefusal"

/-- `require(condition, message)` -/
def require (condition : Prop) [Decidable condition] (message : String) : Except Exc Unit :=
  if condition then .ok () else Py.raise returnRefusal message

theorem require_eq_ok {condition : Prop} [Decidable condition] {message : String} {u : Unit} :
    require condition message = .ok u ↔ condition := by
  unfold require
  split_ifs with h <;> simp [h, Py.raise]

/-- A requirement that holds is passed. -/
theorem require_bind {α : Type} {condition : Prop} [Decidable condition] (h : condition)
    (message : String) (next : Unit → Except Exc α) :
    (require condition message >>= next) = next () := by
  unfold require
  rw [if_pos h]
  rfl

theorem require_bind_not {α : Type} {condition : Prop} [Decidable condition] (h : ¬ condition)
    (message : String) (next : Unit → Except Exc α) :
    (require condition message >>= next) = Py.raise returnRefusal message := by
  unfold require
  rw [if_neg h]
  rfl

/-! ## Decimals -/

/-- The digits of `DECIMAL_CONTEXT`. -/
abbrev returnPrec : ℕ := 38

/-- `quantize` to ten places, which refuses a coefficient the context cannot hold. -/
def money (value : ℚ) : Except Exc ℚ :=
  if 10 ^ returnPrec ≤ |Rounding.halfEven (value / 10 ^ (-10 : ℤ))| then Py.raise .invalidOperation
  else .ok (Rounding.quantize Rounding.halfEven (-10) value)

/-- `ratio`, with the same quantum. -/
def ratio (value : ℚ) : Except Exc ℚ := money value

/-! ## Conversion -/

/-- The checks of one leg and its effect on the rate. -/
def legRate (asOf : Instant) (rate : ℚ) (row : Leg × Instrument × RouteDirection) :
    Except Exc ℚ := do
  let (leg, pair, direction) := row
  require (leg.pair = pair ∧ leg.direction = direction) "conversion route substitution"
  require (leg.isSealed = true ∧ leg.complete = true ∧ leg.conflict = false)
    "missing or conflicting sealed conversion evidence"
  require (leg.completedAt < asOf) "conversion evidence is not strictly prior"
  require (0 < leg.midpointClose) "non-positive conversion midpoint"
  pure (match direction with
    | .multiply => Rounding.mul returnPrec rate leg.midpointClose
    | .divide => Rounding.div returnPrec rate leg.midpointClose)

def conversionRate (evidence : Conversion) (currency : Currency) (asOf : Instant) :
    Except Exc ℚ := do
  require (evidence.currency = currency) "conversion currency mismatch"
  require (evidence.asOf = asOf) "conversion decision-time mismatch"
  let expected := cadRoutes currency
  require (evidence.legs.length = expected.length) "conversion route length mismatch"
  (evidence.legs.zip expected).foldlM (legRate asOf) 1

/-! ## Input -/

/-- `_validate_bar` -/
def validateBar (row : Bar) : Except Exc Bar := do
  require (row.isSealed = true ∧ row.complete = true ∧ row.conflict = false)
    "missing or conflicting expected H1 member"
  require (row.bidLow ≤ row.bidOpen ∧ row.bidOpen ≤ row.bidHigh ∧ row.askLow ≤ row.askOpen ∧
    row.askOpen ≤ row.askHigh) "invalid H1 OHLC"
  require (row.bidOpen ≤ row.askOpen ∧ row.bidClose ≤ row.askClose) "crossed side-aware H1 price"
  pure row

/-- `xs == tuple(sorted(set(xs)))` -/
def StrictlyAscending {α : Type} [LT α] (xs : List α) : Prop := xs.Pairwise (· < ·)

instance {α : Type} [LT α] [DecidableRel (α := α) (· < ·)] (xs : List α) :
    Decidable (StrictlyAscending xs) :=
  inferInstanceAs (Decidable (xs.Pairwise (· < ·)))

/-- The first start at or after the tenth daily completion. -/
def derivedHorizon (starts dCompletions : List Instant) : Option Instant :=
  match dCompletions[9]? with
  | some tenth => starts.find? fun start => tenth ≤ start
  | none => none

/-- `_event_input`: the validated bars of a well-formed event. -/
def eventInput (event : Event) : Except Exc (List Bar) := do
  require (event.physicalEventKey ≠ "") "bad key"
  require (StrictlyAscending event.books ∧ event.books ≠ [])
    "books must be nonempty unique classifications"
  require (event.entryAt < event.horizonAt) "invalid horizon"
  let starts := event.expectedH1Starts
  require (StrictlyAscending starts ∧ starts.head? = some event.entryAt) "bad H1 inventory"
  require (event.horizonAt ∈ starts) "horizon is not a sealed H1 successor"
  require (10 ≤ event.dCompletions.length ∧ StrictlyAscending event.dCompletions ∧
    ∀ value ∈ event.dCompletions, event.entryAt < value)
    "invalid sealed provider-D completion inventory"
  require (derivedHorizon starts event.dCompletions = some event.horizonAt) "ten-provider-D-session horizon drift"
  let bars ← Py.mapE validateBar event.h1
  require (bars.map Bar.start = starts) "expected H1 member missing, duplicated, or extra"
  pure bars

/-! ## Terminals -/

inductive Terminal
  | stop | target | dailyStructure | horizon
  deriving DecidableEq

/-- A daily close beyond the supporting swing. -/
def breaks (direction : Direction) (swing close : ℚ) : Bool :=
  match direction with
  | .long => close < swing
  | .short => swing < close

/-- The daily rows the loop of `_structure_due` walks, stopping at the first breaking close. -/
def structureWalk (direction : Direction) (swing : ℚ) (daily : List DailyRow) :
    List Instant → Except Exc Bool
  | [] => pure false
  | completed :: rest =>
    match daily.find? fun row => row.completedAt = completed with
    | none => Py.raise returnRefusal "missing expected daily member"
    | some row => do
      require (row.isSealed = true ∧ row.complete = true ∧ row.conflict = false)
        "missing or conflicting expected daily member"
      if breaks direction swing row.midClose then pure true else structureWalk direction swing daily rest

/-- `_structure_due` -/
def structureDue (event : Event) (boundary : Instant) : Except Exc Bool := do
  require ((event.daily.map DailyRow.completedAt).Nodup) "duplicate daily member"
  structureWalk event.direction event.supportingSwing event.daily
    (event.dCompletions.filter fun value => event.entryAt < value ∧ value ≤ boundary)

/-- `_exit_conversion` -/
def exitConversion (event : Event) (when_ : Instant) : Except Exc ℚ :=
  match event.conversion.lookup when_ with
  | none => Py.raise returnRefusal "missing point-in-time CAD conversion evidence"
  | some evidence => conversionRate evidence event.instrument.quote when_

/-- What a bar touches and the price a stop fills at. -/
structure Touch where
  stopTouch : Bool
  targetTouch : Bool
  stopFill : ℚ

def touch (event : Event) (bar : Bar) : Touch :=
  match event.direction with
  | .long => ⟨bar.bidLow ≤ event.stop, event.target ≤ bar.bidHigh, min event.stop bar.bidOpen⟩
  | .short => ⟨event.stop ≤ bar.askHigh, bar.askLow ≤ event.target, max event.stop bar.askOpen⟩

/-- The open a position leaves at: the bid of a long, the ask of a short. -/
def exitOpen (event : Event) (bar : Bar) : ℚ :=
  match event.direction with
  | .long => bar.bidOpen
  | .short => bar.askOpen

/-- A terminal, its time and price, and whether a bar so far touched both sides. -/
structure Exit where
  terminal : Terminal
  exitAt : Instant
  exitPrice : ℚ
  ambiguity : Bool

/-- The loop of `resolve_event`; `first` says that the bar is the entry bar, where neither structure
nor horizon is looked at. -/
def exitLoop (event : Event) (first ambiguity : Bool) : List Bar → Except Exc (Option Exit)
  | [] => pure none
  | bar :: rest => do
    let due ← if first then pure false else structureDue event bar.start
    if !first && (due || bar.start = event.horizonAt) then
      pure (some ⟨if due then .dailyStructure else .horizon, bar.start, exitOpen event bar,
        ambiguity⟩)
    else
      let t := touch event bar
      let both := ambiguity || t.stopTouch && t.targetTouch
      if t.stopTouch then
        pure (some ⟨.stop, bar.start + Civil.hour, t.stopFill, both⟩)
      else if t.targetTouch then
        pure (some ⟨.target, bar.start + Civil.hour, event.target, both⟩)
      else exitLoop event false both rest

/-- A resolved event. -/
structure Resolved where
  ambiguity : Bool
  books : List String
  direction : Direction
  entryAt : Instant
  entryPrice : ℚ
  exitAt : Instant
  exitConversionCadPerQuote : ℚ
  exitPrice : ℚ
  grossCadPerUnit : ℚ
  grossR : ℚ
  instrument : Instrument
  physicalEventKey : String
  riskPerUnitCad : ℚ
  terminal : Terminal

/-- What `resolve_event` returns; the second is the terminal `UNRESOLVED_DATA`. -/
inductive Resolution
  | resolved (result : Resolved)
  | unresolvedData (books : List String) (physicalEventKey reason : String)

/-- The entry side of the event. -/
def Event.entry (event : Event) : ℚ :=
  match event.direction with
  | .long => event.entryAsk
  | .short => event.entryBid

/-- The frozen order of stop, entry and target. -/
def Event.geometry (event : Event) : Prop :=
  match event.direction with
  | .long => event.stop < event.entry ∧ event.entry < event.target
  | .short => event.target < event.entry ∧ event.entry < event.stop

/-- The entry open lies on the near side of the stop. -/
def Event.fillable (event : Event) : Prop :=
  match event.direction with
  | .long => event.stop < event.entryBid
  | .short => event.entryAsk < event.stop

instance (event : Event) : Decidable event.geometry := by
  unfold Event.geometry
  cases event.direction <;> infer_instance

instance (event : Event) : Decidable event.fillable := by
  unfold Event.fillable
  cases event.direction <;> infer_instance

/-- The body of `resolve_event` before its `except`. -/
def resolveBody (event : Event) : Except Exc Resolution := do
  let bars ← eventInput event
  require (bars.head?.map Bar.bidOpen = some event.entryBid ∧
    bars.head?.map Bar.askOpen = some event.entryAsk) "entry fill drift"
  require event.geometry "invalid frozen stop/target geometry"
  require event.fillable "entry open is an adverse-stop MISSED_FILL, not an eligible event"
  match ← exitLoop event true false bars with
  | none => Py.raise returnRefusal "complete horizon did not resolve"
  | some exit =>
    let exitConversion ← exitConversion event exit.exitAt
    require (0 < event.riskPerUnitCad) "invalid initial CAD risk"
    let signedQuote := Rounding.mul returnPrec (Rounding.sub returnPrec exit.exitPrice event.entry)
      (match event.direction with | .long => 1 | .short => -1)
    let grossCadPerUnit := Rounding.mul returnPrec signedQuote exitConversion
    let grossR := Rounding.div returnPrec grossCadPerUnit event.riskPerUnitCad
    let grossCadPerUnit ← money grossCadPerUnit
    let grossR ← ratio grossR
    pure (.resolved ⟨exit.ambiguity, event.books, event.direction, event.entryAt, event.entry,
      exit.exitAt, exitConversion, exit.exitPrice, grossCadPerUnit, grossR, event.instrument,
      event.physicalEventKey, event.riskPerUnitCad, exit.terminal⟩)

/-- `resolve_event` -/
def resolveEvent (event : Event) : Except Exc Resolution :=
  Py.tryExcept (resolveBody event) [returnRefusal] fun error =>
    .ok (.unresolvedData event.books event.physicalEventKey error.text)

/-! ## Rollovers -/

/-- A day's 17:00 after a first one, as a wall reading. -/
def laterFive (first : ℤ) (days : ℕ) : ℤ := first + days * Civil.day

/-- The 17:00 readings from a first one whose instant is not after `until_`. -/
def fivesThrough (first : ℤ) (until_ : Instant) : List ℤ :=
  ((List.range ((until_ - first) / Civil.day + 2).toNat).map (laterFive first)).takeWhile
    fun wall => Civil.newYorkUtc wall ≤ until_

/-- `_rollover_times`: weekday 17:00 instants after the entry, Wednesdays counting three. -/
def rolloverTimes (entryAt exitAt : Instant) : List (Instant × ℤ) :=
  let five := Civil.atFive (Civil.newYorkWall entryAt)
  let first := if Civil.newYorkUtc five ≤ entryAt then five + Civil.day else five
  ((fivesThrough first exitAt).filter fun wall => Civil.weekday (wall / Civil.day) ≤ 4).map
    fun wall => (Civil.newYorkUtc wall, if Civil.weekday (wall / Civil.day) = 2 then 3 else 1)

end TradeRecommender.Strategy.Returns
