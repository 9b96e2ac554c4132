import TradeRecommender.Lib.Decimals
import TradeRecommender.Lib.IsoFormat
import TradeRecommender.Lib.Refusals
import TradeRecommender.Strategy.ExploratoryReturns

/-!
# Events before validation

`resolve_event` of `research/exploratory_returns_v2.py` on a mapping with exactly the event fields,
whatever JSON values they hold.

1. reading decimals, timestamps and rows;
2. conversions;
3. the input of an event;
4. the walk over its bars;
5. the result.
-/

namespace TradeRecommender.Strategy.Intake

open Civil (Instant)
open Decimals Py
open Returns (Direction RouteDirection StrictlyAscending Terminal derivedHorizon require
  returnRefusal)

/-! ## Values -/

/-- `DECIMAL_CONTEXT` -/
def context : Context where
  prec := 38
  emax := 999999
  emin := -999999

/-- `decimal` -/
def decimal (value : Val) : Except Exc Decimal :=
  match value with
  | .float _ => raise returnRefusal "binary float is prohibited"
  | .str text =>
    match parse text with
    | some number => .ok number
    | none => raise returnRefusal "invalid decimal"
  | .int n =>
    -- the text of a longer integer is refused before it is read
    if 10 ^ 4300 ≤ |n| then raise returnRefusal "invalid decimal" else .ok (.finite n)
  | _ => raise returnRefusal "invalid decimal"

/-- `text.replace("Z", "+00:00")` -/
def replaceZ (text : String) : String :=
  String.ofList (text.toList.flatMap fun c => if c = 'Z' then "+00:00".toList else [c])

/-- `timestamp` -/
def timestamp (value : Val) : Except Exc Instant :=
  match value with
  | .str text => do
    let stamp ← tryExcept (Civil.fromisoformat (replaceZ text)) [.valueError] fun _ =>
      raise returnRefusal "invalid timestamp"
    match stamp.offset with
    | none => raise returnRefusal "timestamp must be timezone-aware"
    | some offset => Civil.toUtc stamp.wall offset
  | _ => raise returnRefusal "timestamp must be canonical text"

/-- `isinstance(row, dict) and set(row) == fields` -/
def hasFields (row : Val) (fields : List String) : Bool :=
  match row with
  | .dict entries =>
    let keys := entries.map Prod.fst
    keys.all (· ∈ fields) && fields.all (· ∈ keys)
  | _ => false

/-- `_exact_fields` -/
def exactFields (row : Val) (fields : List String) (label : String) : Except Exc Unit :=
  require (hasFields row fields = true) ("unexpected " ++ label ++ " field")

/-- `row[key]` after `_exact_fields`. -/
def field (row : Val) (key : String) : Val :=
  match row with
  | .dict entries => (entries.lookup key).getD .none
  | _ => .none

/-- `value is True` -/
def isTrue : Val → Bool
  | .bool b => b
  | _ => false

/-- `value is False` -/
def isFalse : Val → Bool
  | .bool b => !b
  | _ => false

/-- The row is sealed, complete and without conflict. -/
def sealedRow (row : Val) : Bool :=
  isTrue (field row "sealed") && isTrue (field row "complete") && isFalse (field row "conflict")

/-- `len(value)` -/
def len : Val → Except Exc ℕ
  | .list items => .ok items.length
  | .dict entries => .ok entries.length
  | .str text => .ok text.length
  | _ => raise .typeError "object has no len()"

/-- Comparisons joined by `and`, in turn. -/
def inTurn (test : Decimal → Decimal → Except Exc Bool) :
    List (Decimal × Decimal) → Except Exc Bool
  | [] => .ok true
  | (a, b) :: rest => do if ← test a b then inTurn test rest else .ok false

/-! ## Conversion -/

/-- `CAD_ROUTES` -/
def cadRoutes : List (String × List (String × RouteDirection)) :=
  [("CAD", []), ("USD", [("USD_CAD", .multiply)]),
    ("GBP", [("GBP_USD", .multiply), ("USD_CAD", .multiply)]),
    ("JPY", [("USD_JPY", .divide), ("USD_CAD", .multiply)])]

def routeText : RouteDirection → String
  | .multiply => "multiply"
  | .divide => "divide"

/-- `LEG_FIELDS` -/
def legFields : List String :=
  ["pair", "direction", "completed_at", "midpoint_close", "sealed", "complete", "conflict"]

/-- `rate * midpoint if direction == "multiply" else rate / midpoint` -/
def legStep (rate midpoint : Decimal) : RouteDirection → Except Exc Decimal
  | .multiply => context.mul rate midpoint
  | .divide => context.div rate midpoint

/-- One leg of a route and what it makes of the rate. -/
def legRate (asOf : Instant) (rate : Decimal) (row : Val × String × RouteDirection) :
    Except Exc Decimal := do
  let (leg, pair, direction) := row
  exactFields leg legFields "conversion leg"
  require ((field leg "pair").isStr pair = true ∧
    (field leg "direction").isStr (routeText direction) = true) "conversion route substitution"
  require (sealedRow leg = true) "missing or conflicting sealed conversion evidence"
  let completedAt ← timestamp (field leg "completed_at")
  require (completedAt < asOf) "conversion evidence is not strictly prior"
  let midpoint ← decimal (field leg "midpoint_close")
  let positive ← (Decimal.finite 0).lt midpoint
  require (positive = true) "non-positive conversion midpoint"
  legStep rate midpoint direction

/-- `conversion_rate` -/
def conversionRate (evidence : Val) (currency : String) (asOf : Instant) : Except Exc Decimal := do
  exactFields evidence ["currency", "as_of", "legs"] "conversion"
  require ((field evidence "currency").isStr currency = true) "conversion currency mismatch"
  let decided ← timestamp (field evidence "as_of")
  require (decided = asOf) "conversion decision-time mismatch"
  match cadRoutes.lookup currency with
  | none => raise returnRefusal "unsupported CAD conversion currency"
  | some expected => do
    let count ← len (field evidence "legs")
    require (count = expected.length) "conversion route length mismatch"
    let legs ← (field evidence "legs").iter
    (legs.zip expected).foldlM (legRate asOf) (.finite 1)

/-! ## Bars -/

/-- `H1_FIELDS` -/
def h1Fields : List String :=
  ["start", "sealed", "complete", "conflict", "bid_open", "bid_high", "bid_low", "bid_close",
    "ask_open", "ask_high", "ask_low", "ask_close"]

structure Bar where
  start : Instant
  bidOpen : Decimal
  bidHigh : Decimal
  bidLow : Decimal
  bidClose : Decimal
  askOpen : Decimal
  askHigh : Decimal
  askLow : Decimal
  askClose : Decimal

/-- The comparisons of "invalid H1 OHLC". -/
def Bar.ranges (bar : Bar) : List (Decimal × Decimal) :=
  [(bar.bidLow, bar.bidOpen), (bar.bidOpen, bar.bidHigh), (bar.askLow, bar.askOpen),
    (bar.askOpen, bar.askHigh)]

/-- The comparisons of "crossed side-aware H1 price". -/
def Bar.sides (bar : Bar) : List (Decimal × Decimal) :=
  [(bar.bidOpen, bar.askOpen), (bar.bidClose, bar.askClose)]

/-- The members of a row as numbers. -/
def barOf (row : Val) : Except Exc Bar := do
  let start ← timestamp (field row "start")
  let bidOpen ← decimal (field row "bid_open")
  let bidHigh ← decimal (field row "bid_high")
  let bidLow ← decimal (field row "bid_low")
  let bidClose ← decimal (field row "bid_close")
  let askOpen ← decimal (field row "ask_open")
  let askHigh ← decimal (field row "ask_high")
  let askLow ← decimal (field row "ask_low")
  let askClose ← decimal (field row "ask_close")
  return ⟨start, bidOpen, bidHigh, bidLow, bidClose, askOpen, askHigh, askLow, askClose⟩

/-- `_validate_bar` -/
def validateBar (row : Val) : Except Exc Bar := do
  exactFields row h1Fields "H1"
  require (sealedRow row = true) "missing or conflicting expected H1 member"
  let bar ← barOf row
  let ordered ← inTurn Decimal.le bar.ranges
  require (ordered = true) "invalid H1 OHLC"
  let uncrossed ← inTurn Decimal.le bar.sides
  require (uncrossed = true) "crossed side-aware H1 price"
  return bar

/-! ## Input -/

/-- A mapping with exactly `EVENT_FIELDS`. -/
structure RawEvent where
  physicalEventKey : Val
  books : Val
  instrument : Val
  direction : Val
  entryAt : Val
  horizonAt : Val
  entryBid : Val
  entryAsk : Val
  stop : Val
  target : Val
  supportingSwing : Val
  pipSize : Val
  riskPerUnitCad : Val
  expectedH1Starts : Val
  dCompletions : Val
  h1 : Val
  daily : Val
  conversion : Val
  rollovers : Val
  marks : Val

/-- The double nearest to a value. -/
def double (value : ℚ) : ℚ :=
  let e := max (Int.log 2 |value| - 52) (-1074)
  Rounding.halfEven (value / 2 ^ e) * 2 ^ e

/-- The number a value is, for a comparison with numbers. -/
def number : Val → Option Decimal
  | .bool b => some (.finite (if b then 1 else 0))
  | .int n => some (.finite n)
  | .float repr =>
    (parse repr).map fun x => match x with
      | .finite value => .finite (double value)
      | other => other
  | _ => none

/-- `a < b` is defined, or the two are one element of a set. -/
def comparable (a b : Val) : Bool :=
  match a, b with
  | .str _, .str _ => true
  | .none, .none => true
  | .obj i, .obj j => i = j
  | a, b => (number a).isSome && (number b).isSome

/-- `a < b` of comparable values. -/
def less (a b : Val) : Bool :=
  match a, b with
  | .str s, .str t => s < t
  | a, b =>
    match number a, number b with
    | some x, some y => !x.isNan && !y.isNan && !y.below x
    | _, _ => false

/-- `items == sorted(set(items))` -/
def sortsToItself (items : List Val) : Except Exc Bool :=
  if items.all Val.hashable = false then raise .typeError "unhashable type"
  else if items.all (fun a => items.all fun b => comparable a b) = false then
    raise .typeError "'<' not supported between instances"
  else .ok (decide (items.Pairwise fun a b => less a b = true))

/-- The identity of an event. -/
def checkKey (event : RawEvent) : Except Exc Unit :=
  match event.physicalEventKey with
  | .str text => require (text ≠ "") "bad key"
  | _ => raise returnRefusal "bad key"

def checkBooks (event : RawEvent) : Except Exc Unit :=
  match event.books with
  | .list items => do
    let sorted ← sortsToItself items
    require (sorted = true ∧ items ≠ []) "books must be nonempty unique classifications"
  | _ => raise returnRefusal "books must be nonempty unique classifications"

/-- `event["direction"] in {"long", "short"}` -/
def readDirection (event : RawEvent) : Except Exc Direction :=
  if event.direction.hashable = false then raise .typeError "unhashable type"
  else if event.direction.isStr "long" then .ok .long
  else if event.direction.isStr "short" then .ok .short
  else raise returnRefusal "invalid direction"

structure Span where
  entryAt : Instant
  horizonAt : Instant

def readSpan (event : RawEvent) : Except Exc Span := do
  let entryAt ← timestamp event.entryAt
  let horizonAt ← timestamp event.horizonAt
  require (entryAt < horizonAt) "invalid horizon"
  return ⟨entryAt, horizonAt⟩

/-- `tuple(timestamp(value) for value in values)` -/
def timestamps (values : Val) : Except Exc (List Instant) := do
  let items ← values.iter
  mapE timestamp items

def readStarts (event : RawEvent) (span : Span) : Except Exc (List Instant) := do
  let starts ← timestamps event.expectedH1Starts
  require (StrictlyAscending starts ∧ starts.head? = some span.entryAt) "bad H1 inventory"
  require (span.horizonAt ∈ starts) "horizon is not a sealed H1 successor"
  return starts

def readCompletions (event : RawEvent) (span : Span) (starts : List Instant) :
    Except Exc (List Instant) := do
  let completions ← timestamps event.dCompletions
  require (10 ≤ completions.length ∧ StrictlyAscending completions ∧
    ∀ value ∈ completions, span.entryAt < value)
    "invalid sealed provider-D completion inventory"
  require (derivedHorizon starts completions = some span.horizonAt)
    "ten-provider-D-session horizon drift"
  return completions

def readBars (event : RawEvent) (starts : List Instant) : Except Exc (List Bar) := do
  let rows ← event.h1.iter
  let bars ← mapE validateBar rows
  require (bars.map Bar.start = starts) "expected H1 member missing, duplicated, or extra"
  return bars

/-- What `_event_input` reads, with the direction and the daily completions. -/
structure Input where
  direction : Direction
  span : Span
  completions : List Instant
  bars : List Bar

/-- `_event_input` -/
def eventInput (event : RawEvent) : Except Exc Input := do
  checkKey event
  checkBooks event
  let direction ← readDirection event
  let span ← readSpan event
  let starts ← readStarts event span
  let completions ← readCompletions event span starts
  let bars ← readBars event starts
  return ⟨direction, span, completions, bars⟩

structure Prices where
  entryBid : Decimal
  entryAsk : Decimal
  stop : Decimal
  target : Decimal

def readPrices (event : RawEvent) : Except Exc Prices := do
  let entryBid ← decimal event.entryBid
  let entryAsk ← decimal event.entryAsk
  let stop ← decimal event.stop
  let target ← decimal event.target
  return ⟨entryBid, entryAsk, stop, target⟩

/-- The entry side. -/
def Prices.entry (prices : Prices) : Direction → Decimal
  | .long => prices.entryAsk
  | .short => prices.entryBid

/-- The comparisons of the frozen order of stop, entry and target. -/
def Prices.geometry (prices : Prices) : Direction → List (Decimal × Decimal)
  | .long => [(prices.stop, prices.entryAsk), (prices.entryAsk, prices.target)]
  | .short => [(prices.target, prices.entryBid), (prices.entryBid, prices.stop)]

/-- The comparison of the entry open with the stop. -/
def Prices.fill (prices : Prices) : Direction → List (Decimal × Decimal)
  | .long => [(prices.stop, prices.entryBid)]
  | .short => [(prices.entryAsk, prices.stop)]

/-- The checks of the entry of an event against its first bar. -/
def checkEntry (input : Input) (prices : Prices) : Except Exc Unit :=
  match input.bars with
  | [] => raise .indexError "tuple index out of range"
  | first :: _ => do
    let filled ← inTurn Decimal.eq [(first.bidOpen, prices.entryBid), (first.askOpen, prices.entryAsk)]
    require (filled = true) "entry fill drift"
    let ordered ← inTurn Decimal.lt (prices.geometry input.direction)
    require (ordered = true) "invalid frozen stop/target geometry"
    let fillable ← inTurn Decimal.lt (prices.fill input.direction)
    require (fillable = true) "entry open is an adverse-stop MISSED_FILL, not an eligible event"

/-! ## The walk -/

/-- `DAILY_FIELDS` -/
def dailyFields : List String := ["completed_at", "sealed", "complete", "conflict", "mid_close"]

/-- The comparison of a close with the swing. -/
def breaks (swing close : Decimal) : Direction → Except Exc Bool
  | .long => close.lt swing
  | .short => swing.lt close

/-- The row of a member of `daily` under its time. -/
def dailyRow (row : Val) : Except Exc (Instant × Val) := do
  let completed ← row.getItem "completed_at"
  let at_ ← timestamp completed
  return (at_, row)

/-- The loop of `_structure_due` over completions. -/
def structureWalk (direction : Direction) (swing : Decimal) (rows : List (Instant × Val)) :
    List Instant → Except Exc Bool
  | [] => .ok false
  | completed :: rest =>
    match rows.lookup completed with
    | none => raise returnRefusal "missing expected daily member"
    | some row => do
      exactFields row dailyFields "daily"
      require (sealedRow row = true) "missing or conflicting expected daily member"
      let close ← decimal (field row "mid_close")
      if ← breaks swing close direction then .ok true
      else structureWalk direction swing rows rest

/-- `_structure_due` -/
def structureDue (event : RawEvent) (input : Input) (boundary : Instant) : Except Exc Bool := do
  let swing ← decimal event.supportingSwing
  let members ← event.daily.iter
  let rows ← mapE dailyRow members
  require ((rows.map Prod.fst).Nodup) "duplicate daily member"
  structureWalk input.direction swing rows
    (input.completions.filter fun value => input.span.entryAt < value ∧ value ≤ boundary)

/-- What a bar touches and the price a stop fills at. -/
structure Touch where
  stopTouch : Bool
  targetTouch : Bool
  stopFill : Decimal

def touch (prices : Prices) (bar : Bar) : Direction → Except Exc Touch
  | .long => do
    let stopTouch ← bar.bidLow.le prices.stop
    let targetTouch ← prices.target.le bar.bidHigh
    let lower ← bar.bidOpen.lt prices.stop
    return ⟨stopTouch, targetTouch, if lower then bar.bidOpen else prices.stop⟩
  | .short => do
    let stopTouch ← prices.stop.le bar.askHigh
    let targetTouch ← bar.askLow.le prices.target
    let higher ← prices.stop.lt bar.askOpen
    return ⟨stopTouch, targetTouch, if higher then bar.askOpen else prices.stop⟩

/-- The open a position leaves at. -/
def exitOpen (bar : Bar) : Direction → Decimal
  | .long => bar.bidOpen
  | .short => bar.askOpen

structure Exit where
  terminal : Terminal
  exitAt : Instant
  exitPrice : Decimal
  ambiguity : Bool

/-- `index and _structure_due(event, entry_at, bar["start"])` -/
def dueAt (event : RawEvent) (input : Input) (first : Bool) (bar : Bar) : Except Exc Bool :=
  if first then .ok false else structureDue event input bar.start

/-- One turn of the loop over bars: the exit it finds, or the ambiguity it goes on with. -/
def turn (event : RawEvent) (input : Input) (prices : Prices) (first ambiguity : Bool) (bar : Bar) :
    Except Exc (Exit ⊕ Bool) := do
  let due ← dueAt event input first bar
  if !first && (due || bar.start = input.span.horizonAt) then
    return .inl ⟨if due then .dailyStructure else .horizon, bar.start, exitOpen bar input.direction,
      ambiguity⟩
  else
    let t ← touch prices bar input.direction
    let both := ambiguity || t.stopTouch && t.targetTouch
    if t.stopTouch then
      let exitAt ← Civil.shift bar.start Civil.hour
      return .inl ⟨.stop, exitAt, t.stopFill, both⟩
    else if t.targetTouch then
      let exitAt ← Civil.shift bar.start Civil.hour
      return .inl ⟨.target, exitAt, prices.target, both⟩
    else return .inr both

/-- The loop of `resolve_event`; `first` says that the bar is the entry bar. -/
def exitLoop (event : RawEvent) (input : Input) (prices : Prices) (first ambiguity : Bool) :
    List Bar → Except Exc Exit
  | [] => raise returnRefusal "complete horizon did not resolve"
  | bar :: rest => do
    match ← turn event input prices first ambiguity bar with
    | .inl exit => return exit
    | .inr both => exitLoop event input prices false both rest

/-! ## The result -/

/-- `_pair_quote` -/
def pairQuote (instrument : Val) : Except Exc String :=
  match instrument with
  | .str text =>
    match text.splitOn "_" with
    | [base, quote] => do
      require (base ≠ "" ∧ quote ≠ "") "invalid instrument"
      return quote
    | _ => raise returnRefusal "invalid instrument"
  | _ => raise .attributeError "object has no attribute 'split'"

/-- `_exit_conversion` -/
def exitConversion (event : RawEvent) (when_ : Instant) : Except Exc Decimal := do
  let quote ← pairQuote event.instrument
  let evidence ← event.conversion.get (Civil.isoformat when_)
  match evidence with
  | .none => raise returnRefusal "missing point-in-time CAD conversion evidence"
  | _ => conversionRate evidence quote when_

/-- A resolved event, without its digest. -/
structure Resolved where
  ambiguity : Bool
  books : Val
  direction : Direction
  entryAt : Instant
  entryPrice : Decimal
  exitAt : Instant
  exitConversionCadPerQuote : Decimal
  exitPrice : Decimal
  grossCadPerUnit : Decimal
  grossR : Decimal
  instrument : Val
  physicalEventKey : Val
  riskPerUnitCad : Decimal
  terminal : Terminal

/-- A number that a text of JSON can hold: a finite one, whose own text is not too long. -/
def jsonNumber : Val → Bool
  | .float repr =>
    match parse repr with
    | some (.finite _) => true
    | _ => false
  | .int n => |n| < 10 ^ 4300
  | _ => true

/-- The checks of `canonical_bytes` on what the result copies from the event. -/
def checkCanonical (event : RawEvent) : Except Exc Unit :=
  match event.books with
  | .list items =>
    if items.all jsonNumber then .ok ()
    else raise .valueError "Out of range float values are not JSON compliant"
  | _ => .ok ()

/-- `rendered(money(value))`, and `rendered(ratio(value))` of the same quantum. -/
def renderedMoney (value : Decimal) : Except Exc Decimal := do
  let value ← context.quantize (-10) value
  context.normalize value

def sign : Direction → ℚ
  | .long => 1
  | .short => -1

/-- The result of an exit. -/
def resultOf (event : RawEvent) (input : Input) (prices : Prices) (exit : Exit) :
    Except Exc Resolved := do
  let conversion ← exitConversion event exit.exitAt
  let risk ← decimal event.riskPerUnitCad
  let positive ← (Decimal.finite 0).lt risk
  require (positive = true) "invalid initial CAD risk"
  let entry := prices.entry input.direction
  let quote ← context.sub exit.exitPrice entry
  let signedQuote ← context.mul quote (.finite (sign input.direction))
  let gross ← context.mul signedQuote conversion
  let r ← context.div gross risk
  let entryPrice ← context.normalize entry
  let conversionPrice ← context.normalize conversion
  let exitPrice ← context.normalize exit.exitPrice
  let grossCadPerUnit ← renderedMoney gross
  let grossR ← renderedMoney r
  let riskPerUnitCad ← context.normalize risk
  checkCanonical event
  return { ambiguity := exit.ambiguity, books := event.books, direction := input.direction,
           entryAt := input.span.entryAt, entryPrice := entryPrice, exitAt := exit.exitAt,
           exitConversionCadPerQuote := conversionPrice, exitPrice := exitPrice,
           grossCadPerUnit := grossCadPerUnit, grossR := grossR, instrument := event.instrument,
           physicalEventKey := event.physicalEventKey, riskPerUnitCad := riskPerUnitCad,
           terminal := exit.terminal }

/-- The body of `resolve_event` before its `except`. -/
def resolveBody (event : RawEvent) : Except Exc Resolved := do
  let input ← eventInput event
  let prices ← readPrices event
  checkEntry input prices
  let exit ← exitLoop event input prices true false input.bars
  resultOf event input prices exit

/-- What `resolve_event` returns; the second is the terminal `UNRESOLVED_DATA`. -/
inductive Resolution
  | resolved (result : Resolved)
  | unresolvedData (books physicalEventKey : Val) (reason : String)

/-- `resolve_event` -/
def resolveEvent (event : RawEvent) : Except Exc Resolution :=
  tryExcept ((resolveBody event).map .resolved) [returnRefusal] fun error =>
    .ok (.unresolvedData event.books event.physicalEventKey error.text)

end TradeRecommender.Strategy.Intake
