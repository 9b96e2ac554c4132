import TradeRecommender.Lib.NewYork
import TradeRecommender.Lib.Rounding
import TradeRecommender.Lib.Tally

/-!
# Validation reports

`summarize` and `paired_increment` of `research/validation_reports.py`, for what the reconciliation
reads of them. Timestamps are instants and decimals are rationals; sums round to the 34 digits of
the frozen arithmetic at every addition.
-/

namespace TradeRecommender.Research.Reports

open Civil (Instant)
open Py (Exc)

/-- The digits of `arithmetic`. -/
abbrev reportPrec : ℕ := 34

/-! ## Opportunity rows -/

/-- `MONEY` -/
inductive MoneyField
  | gross | spread | commission | slippage | financing | conversion | net | turnover
  deriving DecidableEq

def moneyFields : List MoneyField :=
  [.gross, .spread, .commission, .slippage, .financing, .conversion, .net, .turnover]

/-- `SCENARIOS` -/
inductive Scenario
  | baseline | adverseCost | extraIntervalLatency
  deriving DecidableEq

def scenarios : List Scenario := [.baseline, .adverseCost, .extraIntervalLatency]

/-- A modeled result. -/
structure Trade where
  direction : ℤ
  enteredAt : Instant
  exitedAt : Instant
  holdingSeconds : ℤ
  identity : String
  money : MoneyField → ℚ

inductive ScenarioResult
  | modeled (trade : Trade)
  | unavailable (reason : String)
  | noSetup (reason : String)
  | occupied (reason : String)

inductive State
  | modeled | unavailable | noSetup | occupied
  deriving DecidableEq

def ScenarioResult.state : ScenarioResult → State
  | .modeled _ => .modeled
  | .unavailable _ => .unavailable
  | .noSetup _ => .noSetup
  | .occupied _ => .occupied

/-- A verified opportunity row. -/
structure Row where
  instrument : String
  session : String
  opportunity : Instant
  scenarios : Scenario → ScenarioResult

/-! ## Weeks -/

/-- `iso_week`: the ISO year and week of the day, those of its Thursday. -/
def isoWeek (at_ : Instant) : String :=
  let thursday := at_ / Civil.day - Civil.weekday (at_ / Civil.day) + 3
  let year := (Civil.Date.ofDays thursday).year
  toString year ++ "-W" ++
    Civil.pad 2 ((thursday - (Civil.Date.mk year 1 1).toDays) / 7 + 1)

/-- The weeks of one trade: its start's, its end's and those of the days between. -/
def tradeWeeks (trade : Trade) : List String :=
  isoWeek trade.enteredAt :: isoWeek trade.exitedAt ::
    (((List.range ((trade.exitedAt - trade.enteredAt) / Civil.day + 1).toNat).map
      fun (k : ℕ) => trade.enteredAt + k * Civil.day).filter (· < trade.exitedAt)).map isoWeek

/-- `sorted(set(values))` -/
def sortedSet (values : List String) : List String := values.dedup.insertionSort (· ≤ ·)

/-! ## Summaries -/

/-- A trade with the fields of its row. -/
structure Booked extends Trade where
  instrument : String
  session : String
  opportunity : Instant

def Booked.net (t : Booked) : ℚ := t.money .net

def Booked.side (t : Booked) : String := if t.direction = 1 then "long" else "short"

/-- The order of `trades.sort(key=...)`. -/
def Booked.before (a b : Booked) : Prop :=
  a.exitedAt < b.exitedAt ∨ a.exitedAt = b.exitedAt ∧
    (a.instrument < b.instrument ∨ a.instrument = b.instrument ∧ a.identity ≤ b.identity)

instance : DecidableRel Booked.before := fun a b => by
  unfold Booked.before
  infer_instance

/-- What the loop of `summarize` accumulates. -/
structure Accumulated where
  count : ℕ := 0
  states : List (State × ℤ) := []
  reasons : List (String × ℤ) := []
  trades : List Booked := []
  totals : MoneyField → ℚ := fun _ => 0
  weekly : List (String × ℚ) := []
  byPair : List (String × ℚ) := []
  sides : List (String × ℚ) := []

/-- `groups[key] += amount` on a `defaultdict` of decimals. -/
abbrev addMoney (key : String) (amount : ℚ) (groups : List (String × ℚ)) : List (String × ℚ) :=
  Tally.addTo (Rounding.add reportPrec) 0 key amount groups

/-- `counter[key] += 1` -/
abbrev addOne {κ : Type} [DecidableEq κ] (key : κ) (counter : List (κ × ℤ)) : List (κ × ℤ) :=
  Tally.addTo (· + ·) 0 key 1 counter

def Accumulated.book (acc : Accumulated) (t : Booked) : Accumulated :=
  { acc with
    trades := acc.trades ++ [t]
    totals := fun field => Rounding.add reportPrec (acc.totals field) (t.money field)
    weekly := addMoney (isoWeek t.exitedAt) t.net acc.weekly
    byPair := addMoney t.instrument t.net acc.byPair
    sides := addMoney t.side t.net acc.sides }

/-- The turn of the loop of `summarize`. -/
def countRow (scenario : Scenario) (acc : Accumulated) (row : Row) : Accumulated :=
  let result := row.scenarios scenario
  let acc := { acc with count := acc.count + 1, states := addOne result.state acc.states }
  match result with
  | .unavailable reason => { acc with reasons := addOne reason acc.reasons }
  | .modeled trade => acc.book ⟨trade, row.instrument, row.session, row.opportunity⟩
  | .noSetup _ | .occupied _ => acc

/-- `DEVELOPMENT_SPLIT`, 2022-01-03. -/
def developmentSplit : Instant := (Civil.Date.mk 2022 1 3).toDays * Civil.day

structure Half where
  trades : ℕ
  net : Option ℚ

/-- The trades of one half in the sorted order. -/
def halfOf (trades : List Booked) (first : Bool) : List Booked :=
  (trades.insertionSort Booked.before).filter fun t =>
    decide (t.opportunity < developmentSplit) = first

structure Summary where
  plannedOpportunities : ℤ
  eligibleOpportunities : ℤ
  trades : ℕ
  states : List (State × ℤ)
  unavailableReasons : List (String × ℤ)
  activeWeeks : List String
  usableInstruments : ℕ
  money : MoneyField → Option ℚ
  halves : List Half
  weeklyNet : List (String × ℚ)
  longShortNet : List (String × ℚ)
  holdingSecondsTotal : ℤ

/-- `summarize` -/
def summarize (rows : List Row) (scenario : Scenario) : Summary :=
  let acc := rows.foldl (countRow scenario) {}
  { plannedOpportunities := acc.count
    eligibleOpportunities := acc.count - (acc.states.lookup .unavailable).getD 0
    trades := acc.trades.length
    states := acc.states
    unavailableReasons := acc.reasons
    activeWeeks := sortedSet (acc.trades.flatMap fun t => tradeWeeks t.toTrade)
    usableInstruments := acc.byPair.length
    money := fun field => if acc.trades.isEmpty then none else some (acc.totals field)
    halves := [true, false].map fun first =>
      let subset := halfOf acc.trades first
      ⟨subset.length,
        if subset.isEmpty then none else some (Rounding.sum reportPrec (subset.map Booked.net))⟩
    weeklyNet := acc.weekly
    longShortNet := acc.sides
    holdingSecondsTotal := (acc.trades.map fun t => t.holdingSeconds).sum }

/-! ## Paired increments -/

/-- The key of a paired opportunity. -/
structure PairKey where
  instrument : String
  session : String
  opportunity : Instant
  deriving DecidableEq

def Row.key (row : Row) : PairKey := ⟨row.instrument, row.session, row.opportunity⟩

/-- The order of the keys' tuples. -/
def PairKey.before (a b : PairKey) : Prop :=
  a.instrument < b.instrument ∨ a.instrument = b.instrument ∧
    (a.session < b.session ∨ a.session = b.session ∧ a.opportunity ≤ b.opportunity)

instance : DecidableRel PairKey.before := fun a b => by
  unfold PairKey.before
  infer_instance

/-- The `index` of `paired_increment`, which refuses a repeated opportunity. -/
def pairIndex (scenario : Scenario) (rows : List Row) :
    Except Exc (List (PairKey × ScenarioResult)) :=
  rows.foldlM (fun index row =>
    if row.key ∈ Tally.keys index then Py.raise .valueError "duplicate_paired_opportunity"
    else .ok (index ++ [(row.key, row.scenarios scenario)])) []

/-- What one side of a pair counts for; `none` where the side is no comparable result. -/
def pairSide : Option ScenarioResult → Option ℚ
  | some (.modeled trade) => some (trade.money .net)
  | some (.noSetup _) => some 0
  | _ => none

/-- The increment of a matched opportunity. -/
def pairValue (left right : List (PairKey × ScenarioResult)) (key : PairKey) : Option ℚ :=
  match pairSide (left.lookup key), pairSide (right.lookup key) with
  | some a, some b => some (Rounding.sub reportPrec a b)
  | _, _ => none

structure Paired where
  matchedOpportunities : ℕ
  unavailableOrUnmatched : ℕ
  weeklyIncrement : List (String × ℚ)
  totalIncrement : Option ℚ

/-- The turn of the loop of `paired_increment`. -/
def pairKeyStep (left right : List (PairKey × ScenarioResult))
    (acc : ℕ × ℕ × List (String × ℚ)) (key : PairKey) : ℕ × ℕ × List (String × ℚ) :=
  match pairValue left right key with
  | none => (acc.1, acc.2.1 + 1, acc.2.2)
  | some value => (acc.1 + 1, acc.2.1, addMoney (isoWeek key.opportunity) value acc.2.2)

/-- `sorted(left.keys() | right.keys())` -/
def pairKeys (left right : List (PairKey × ScenarioResult)) : List PairKey :=
  (Tally.keys left ++ Tally.keys right).dedup.insertionSort PairKey.before

/-- `paired_increment` -/
def pairedIncrement (candidate comparator : List Row) (scenario : Scenario) :
    Except Exc Paired := do
  let left ← pairIndex scenario candidate
  let right ← pairIndex scenario comparator
  let (matched, unavailable, weekly) := (pairKeys left right).foldl (pairKeyStep left right) (0, 0, [])
  pure ⟨matched, unavailable, weekly,
    if matched = 0 then none else some (Rounding.sum reportPrec (weekly.map Prod.snd))⟩

end TradeRecommender.Research.Reports
