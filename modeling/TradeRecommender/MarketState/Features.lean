import Mathlib.Data.Prod.Lex
import TradeRecommender.Lib.Rounding
import TradeRecommender.Lib.Slices
import TradeRecommender.Lib.Sorted
import TradeRecommender.Market.Quality

/-!
# Bars, swings and true ranges

The part of `market/state/features.py` that reads single bars and their neighbours.

1. bars, and when one follows another;
2. confirmed swings;
3. true ranges and their average.

Decimals are rationals, rounded to the 28 digits of the default context at every operation.
-/

namespace TradeRecommender.MarketState

open Py Civil Market

/-- The digits of the default context. -/
abbrev statePrec : ℕ := 28

/-- `format_decimal`, as the number the text stands for; `e` is the exponent of the quantum. -/
def formatDecimal (value : ℚ) (e : ℤ := -6) : ℚ := Rounding.quantize Rounding.halfEven e value

/-! ## Bars -/

/-- `Bar.granularity`: empty, a month or a registered interval. -/
inductive BarGranularity
  | unset | month | interval (g : Granularity)
  deriving DecidableEq

/-- `Bar` -/
structure Bar where
  timestamp : Instant
  open_ : ℚ
  high : ℚ
  low : ℚ
  close : ℚ
  finish : Option Instant := none
  spread : Option ℚ := none
  granularity : BarGranularity := .unset
  observedAt : Option Instant := none
  revision : ℕ := 1
  contentSha256 : String := ""
  deriving DecidableEq

namespace Bar

variable (bar : Bar)

/-- `bar.end or bar.timestamp` -/
def formedAt : Instant := bar.finish.getD bar.timestamp

/-- `available_at` -/
def availableAt : Instant := max bar.formedAt (bar.observedAt.getD bar.timestamp)

/-- The number of the New York month a bar starts in. -/
def monthNumber : ℤ :=
  let date := Date.ofDays (newYorkWall bar.timestamp / day)
  date.year * 12 + date.month

end Bar

/-- A bar whose open and close lie between its low and its high. -/
structure Bar.Valid (b : Bar) : Prop where
  low_open : b.low ≤ b.open_
  low_close : b.low ≤ b.close
  open_high : b.open_ ≤ b.high
  close_high : b.close ≤ b.high

/-- `bars_are_consecutive` -/
def barsAreConsecutive (earlier later : Bar) : Bool :=
  if earlier.granularity = later.granularity then
    match earlier.granularity with
    | .month => later.monthNumber = earlier.monthNumber + 1
    | .interval g => registeredSuccessor earlier.timestamp g = later.timestamp
    | .unset => earlier.finish.all (· = later.timestamp)
  else earlier.finish.all (· = later.timestamp)

/-- `contiguous` -/
def contiguous (bars : List Bar) : Bool :=
  (bars.zip bars.tail).all fun pair => barsAreConsecutive pair.1 pair.2

/-- `max(b.available_at for b in bars)`, of some bars. -/
def lastAvailable (bars : List Bar) : Option Instant := (bars.map Bar.availableAt).max?

/-! ## Swings -/

/-- `Swing.kind` -/
inductive SwingKind
  | high | low
  deriving DecidableEq

def SwingKind.text : SwingKind → String
  | .high => "high"
  | .low => "low"

/-- `Swing` -/
structure Swing where
  index : ℕ
  timestamp : Instant
  kind : SwingKind
  price : ℚ
  deriving DecidableEq

/-- `SWING_LEFT` -/
def swingLeft : ℕ := 2

/-- `SWING_RIGHT` -/
def swingRight : ℕ := 2

/-- The swings `confirmed_swings` appends at an index. -/
def swingsAt (left right : ℕ) (bars : List Bar) (i : ℕ) : List Swing :=
  match bars[i]? with
  | none => []
  | some pivot =>
    -- a gap in the confirmation window disqualifies the pivot
    if contiguous (span bars (i - left) (i + right + 1)) = false then []
    else
      let window := span bars (i - left) i ++ span bars (i + 1) (i + 1 + right)
      (if ∀ b ∈ window, b.high < pivot.high then [⟨i, pivot.timestamp, .high, pivot.high⟩] else []) ++
        (if ∀ b ∈ window, pivot.low < b.low then [⟨i, pivot.timestamp, .low, pivot.low⟩] else [])

/-- `confirmed_swings` -/
def confirmedSwings (bars : List Bar) (left : ℕ := swingLeft) (right : ℕ := swingRight) :
    List Swing :=
  sortedBy (fun s => toLex (s.index, s.kind.text)) (scan left right (swingsAt left right) bars)

/-- A swing of `swing_feature`. -/
structure SwingFact where
  timestamp : Instant
  kind : SwingKind
  price : ℚ
  formedAt : Option Instant
  availableAt : Option Instant
  deriving DecidableEq

/-- The swings of `swing_feature`. -/
def swingFacts (bars : List Bar) : List SwingFact :=
  (confirmedSwings bars).map fun s =>
    { timestamp := s.timestamp
      kind := s.kind
      price := formatDecimal s.price
      formedAt := (bars[s.index]?).map Bar.formedAt
      availableAt := lastAvailable
        (span bars (s.index - swingLeft) (s.index + swingRight + 1)) }

/-! ## True ranges -/

/-- `ATR_PERIOD` -/
def atrPeriod : ℕ := 14

/-- `_true_ranges` -/
def trueRanges (bars : List Bar) : List (Option ℚ) :=
  (bars.zip bars.tail).map fun (previous, bar) =>
    if barsAreConsecutive previous bar = false then none
    else some (max (max (Rounding.sub statePrec bar.high bar.low)
        (Rounding.abs statePrec (Rounding.sub statePrec bar.high previous.close)))
      (Rounding.abs statePrec (Rounding.sub statePrec bar.low previous.close)))

/-- `_atr_at` the last true range. -/
def lastAtr (ranges : List (Option ℚ)) (period : ℕ) : Option ℚ :=
  if ranges.length < period then none
  else
    let window := ranges.drop (ranges.length - period)
    if window.any Option.isNone then none
    else some (Rounding.div statePrec (Rounding.sum statePrec (window.filterMap id)) period)

/-- `atr_at_index` -/
def atrAtIndex (bars : List Bar) (index : ℕ) (period : ℕ := atrPeriod) : Option ℚ :=
  let ranges := trueRanges (span bars (index - period) (index + 1))
  if ranges = [] then none else lastAtr ranges period

/-! ## What a longer list leaves -/

section
variable {bars : List Bar} {left right i : ℕ}

theorem swingsAt_append (inside : i + right < bars.length) (more : List Bar) :
    swingsAt left right (bars ++ more) i = swingsAt left right bars i := by
  unfold swingsAt
  rw [List.getElem?_append_left (by omega), span_append (by omega), span_append (by omega),
    span_append (by omega)]

theorem atrAtIndex_append {period : ℕ} (inside : i < bars.length) (more : List Bar) :
    atrAtIndex (bars ++ more) i period = atrAtIndex bars i period := by
  unfold atrAtIndex
  rw [span_append (by omega)]

/-- A swing at an index carries the index. -/
theorem index_of_mem_swingsAt {s : Swing} (mem : s ∈ swingsAt left right bars i) : s.index = i := by
  unfold swingsAt at mem
  split at mem
  case h_1 => cases mem
  case h_2 =>
    dsimp only at mem
    split_ifs at mem
    all_goals
      simp only [List.append_nil, List.nil_append, List.cons_append, List.mem_cons,
        List.not_mem_nil, or_false] at mem
    · rcases mem with rfl | rfl <;> rfl
    · rw [mem]
    · rw [mem]

/-- The swings of an index come in the order of their kinds. -/
theorem pairwise_swingsAt :
    (swingsAt left right bars i).Pairwise fun a b =>
      toLex (a.index, a.kind.text) ≤ toLex (b.index, b.kind.text) := by
  unfold swingsAt
  split
  case h_1 => exact .nil
  case h_2 =>
    dsimp only
    split_ifs
    all_goals
      simp only [List.append_nil, List.nil_append, List.cons_append, List.pairwise_cons,
        List.mem_cons, List.not_mem_nil, or_false, forall_eq, false_implies, implies_true,
        List.Pairwise.nil, and_true]
    · have kinds : SwingKind.high.text ≤ SwingKind.low.text := by decide
      exact Prod.Lex.toLex_le_toLex.mpr (.inr ⟨rfl, kinds⟩)

/-- The loop appends the swings in the order they are sorted into. -/
theorem confirmedSwings_eq :
    confirmedSwings bars left right = scan left right (swingsAt left right) bars := by
  have ordered (start n : ℕ) : ((List.range' start n).flatMap
      (swingsAt left right bars)).Pairwise fun a b =>
        toLex (a.index, a.kind.text) ≤ toLex (b.index, b.kind.text) := by
    refine List.pairwise_flatMap.mpr ⟨fun i _ => pairwise_swingsAt, ?_⟩
    have increasing : (List.range' start n).Pairwise (· < ·) := List.pairwise_lt_range'
    refine increasing.imp fun {i j} before a ha b hb => ?_
    rw [Prod.Lex.toLex_le_toLex]
    left
    show a.index < b.index
    rw [index_of_mem_swingsAt ha, index_of_mem_swingsAt hb]
    exact before
  exact (ordered _ _).insertionSort_eq

/-- **A confirmed swing is not rewritten.** -/
theorem confirmedSwings_extends (bars more : List Bar) :
    confirmedSwings bars left right <+: confirmedSwings (bars ++ more) left right := by
  rw [confirmedSwings_eq, confirmedSwings_eq]
  exact scan_extends (fun _ more _ inside => swingsAt_append inside more) bars more

/-- Swings are confirmed inside the list. -/
theorem mem_confirmedSwings {s : Swing} (mem : s ∈ confirmedSwings bars left right) :
    s.index + right < bars.length := by
  rw [confirmedSwings_eq, scan, List.mem_flatMap] at mem
  obtain ⟨i, range, mem⟩ := mem
  rw [index_of_mem_swingsAt mem]
  rw [List.mem_range'_1] at range
  omega

/-- **Nor is what is reported of it.** -/
theorem swingFacts_extends (bars more : List Bar) : swingFacts bars <+: swingFacts (bars ++ more) := by
  have same : swingFacts bars = (confirmedSwings bars).map fun s =>
      { timestamp := s.timestamp
        kind := s.kind
        price := formatDecimal s.price
        formedAt := ((bars ++ more)[s.index]?).map Bar.formedAt
        availableAt := lastAvailable
          (span (bars ++ more) (s.index - swingLeft) (s.index + swingRight + 1)) } := by
    refine List.map_congr_left fun s mem => ?_
    have inside := mem_confirmedSwings mem
    rw [List.getElem?_append_left (by omega), span_append (by omega)]
  rw [same]
  exact (confirmedSwings_extends bars more).map _

end

end TradeRecommender.MarketState
