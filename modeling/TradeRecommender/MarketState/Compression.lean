import TradeRecommender.MarketState.Features

/-!
# Compression before expansion

`compression_before_expansion` of `market/state/features.py`.

1. a transition, and the loop that finds them;
2. the result;
3. the transitions of a list are the first ones of every longer list.
-/

namespace TradeRecommender.MarketState

open Py Civil

/-! ## Transitions -/

/-- `VOL_POPULATION` -/
def volPopulation : ℕ := 100

/-- `VOL_MIN_POPULATION` -/
def volMinPopulation : ℕ := 20

/-- `COMPRESSION_PCTL` -/
def compressionPctl : ℚ := 20

/-- `EXPANSION_PCTL` -/
def expansionPctl : ℚ := 80

/-- `TRANSITION_WINDOW` -/
def transitionWindow : ℕ := 20

/-- `TRANSITION_BODY_ATR` -/
def transitionBodyAtr : ℚ := 3 / 2

/-- An entry of `source_intervals`. -/
structure SourceInterval where
  granularity : BarGranularity
  timestamp : Instant
  revision : ℕ
  contentSha256 : String
  deriving DecidableEq

def Bar.source (bar : Bar) : SourceInterval :=
  ⟨bar.granularity, bar.timestamp, bar.revision, bar.contentSha256⟩

/-- A transition. -/
structure Transition where
  compressionAt : Option Instant
  compressionAvailableAt : Option Instant
  compressionPercentile : ℚ
  expansionPercentile : ℚ
  successorCount : ℕ
  formedAt : Option Instant
  availableAt : Option Instant
  up : Bool
  bodyAtr : ℚ
  sourceIntervals : List SourceInterval
  deriving DecidableEq

/-- `pending`: the index of a compression, the start of what it depends on, and its percentile. -/
structure Pending where
  index : ℕ
  start : ℕ
  percentile : ℚ
  deriving DecidableEq

/-- The variables of the loop. -/
structure Regime where
  transitions : List Transition := []
  pending : Option Pending := none
  sufficient : Bool := false
  deriving DecidableEq

/-- Where the window of an index starts. -/
def windowStart (i : ℕ) : ℕ := i - atrPeriod - volPopulation

/-- `atrs` -/
def atrs (bars : List Bar) : List (Option ℚ) :=
  (List.range bars.length).map fun j => atrAtIndex bars j

/-- The average true ranges that an index is measured against; `none` where one is missing or they
are too few. -/
def population (bars : List Bar) (i : ℕ) : Option (List ℚ) :=
  let prior := span (atrs bars) (max atrPeriod (i - volPopulation)) i
  if prior.length < volMinPopulation ∨ prior.any Option.isNone then none
  else some (prior.filterMap id)

/-- The percentile of a value in its population. -/
def percentileOf (current : ℚ) (prior : List ℚ) : ℚ :=
  Rounding.div statePrec (Rounding.mul statePrec (prior.countP (· < current)) 100) prior.length

/-- A compression that has gone unanswered for too long is dropped. -/
def stillPending (pending : Option Pending) (i : ℕ) : Option Pending :=
  pending.filter fun p => i - p.index ≤ transitionWindow

/-- The transition from a compression to the bar at an index. -/
def transitionTo (bars : List Bar) (p : Pending) (i : ℕ) (bar : Bar) (percentile : ℚ)
    (magnitude : ℚ) : Transition :=
  let dependencies := span bars (min (windowStart i) p.start) (i + 1)
  { compressionAt := (bars[p.index]?).map Bar.formedAt
    compressionAvailableAt := lastAvailable (span bars p.start (p.index + 1))
    compressionPercentile := formatDecimal p.percentile
    expansionPercentile := formatDecimal percentile
    successorCount := i - p.index
    formedAt := some bar.formedAt
    availableAt := lastAvailable dependencies
    up := 0 < Rounding.sub statePrec bar.close bar.open_
    bodyAtr := formatDecimal magnitude
    sourceIntervals := dependencies.map Bar.source }

/-- The part of the body of the loop behind the population. -/
def advance (bars : List Bar) (s : Regime) (i : ℕ) (bar : Bar) (current : ℚ) (prior : List ℚ) :
    Regime :=
  let percentile := percentileOf current prior
  let pending := stillPending s.pending i
  if percentile < compressionPctl then
    { s with sufficient := true, pending := some ⟨i, windowStart i, percentile⟩ }
  else match pending with
    | none => { s with sufficient := true, pending := none }
    | some p =>
      if percentile ≤ expansionPctl then { s with sufficient := true, pending := some p }
      else
        let body := Rounding.sub statePrec bar.close bar.open_
        let last := prior.getLast?.getD 0
        let magnitude := if last = 0 then 0
          else Rounding.div statePrec (Rounding.abs statePrec body) last
        if magnitude < transitionBodyAtr ∨ body = 0 then
          { s with sufficient := true, pending := some p }
        else
          { transitions := s.transitions ++ [transitionTo bars p i bar percentile magnitude]
            pending := none
            sufficient := true }

/-- The body of the loop. -/
def turn (bars : List Bar) (s : Regime) (i : ℕ) : Regime :=
  match bars[i]? with
  | none => s
  | some bar =>
    if contiguous (span bars (windowStart i) (i + 1)) = false then { s with pending := none }
    else match atrAtIndex bars i, population bars i with
      | some current, some prior => if current = 0 then s else advance bars s i bar current prior
      | _, _ => s

/-- The loop. -/
def regimes (bars : List Bar) : Regime :=
  (List.range' (atrPeriod + volMinPopulation)
    (bars.length - (atrPeriod + volMinPopulation))).foldl (turn bars) {}

/-! ## The result -/

/-- `pending_compression` -/
structure PendingCompression where
  formedAt : Option Instant
  availableAt : Option Instant
  elapsedSuccessors : ℕ
  percentile : ℚ
  deriving DecidableEq

/-- The state of a result. -/
inductive CompressionState
  | available | pending | unavailable
  deriving DecidableEq

def CompressionState.reasonCode : CompressionState → String
  | .available => "transition_confirmed"
  | .pending => "awaiting_expansion"
  | .unavailable => "no_causal_transition"

/-- The result: why nothing can be said, or what was found. -/
inductive CompressionResult
  | insufficient (reasonCode : String)
  | found (state : CompressionState) (pending : Option PendingCompression)
      (transitions : List Transition)
  deriving DecidableEq

/-- `compression_before_expansion` -/
def compressionBeforeExpansion (bars : List Bar) : CompressionResult :=
  let s := regimes bars
  if s.sufficient = false then
    .insufficient (if bars ≠ [] ∧ contiguous bars = false then "missing_registered_interval"
      else "insufficient_history")
  else .found
    (if s.transitions ≠ [] then .available else if s.pending.isSome then .pending else .unavailable)
    (s.pending.map fun p =>
      { formedAt := (bars[p.index]?).map Bar.formedAt
        availableAt := lastAvailable (span bars p.start (p.index + 1))
        elapsedSuccessors := bars.length - 1 - p.index
        percentile := formatDecimal p.percentile })
    s.transitions

/-- The transitions a result reports. -/
def CompressionResult.transitions : CompressionResult → List Transition
  | .insufficient _ => []
  | .found _ _ transitions => transitions

/-! ## A longer list -/

section
variable {bars : List Bar} {s : Regime} {i : ℕ}

/-- The pending compression lies before an index. -/
def Regime.Before (s : Regime) (n : ℕ) : Prop := ∀ p, s.pending = some p → p.index < n

theorem pending_of_stillPending {p : Pending} (h : stillPending s.pending i = some p) :
    s.pending = some p :=
  (Option.filter_eq_some_iff.mp h).1

/-- What the loop keeps from one turn to the next: transitions are only appended, and a pending
compression is the one before or the bar of the turn. -/
structure Continues (s t : Regime) (i : ℕ) : Prop where
  transitions : s.transitions <+: t.transitions
  sufficient : s.sufficient = true → t.sufficient = true
  pending : ∀ p, t.pending = some p → s.pending = some p ∨ p.index = i

theorem advance_continues (bars : List Bar) (s : Regime) (i : ℕ) (bar : Bar) (current : ℚ)
    (prior : List ℚ) : Continues s (advance bars s i bar current prior) i := by
  have starts : Continues s { s with
      sufficient := true
      pending := some ⟨i, windowStart i, percentileOf current prior⟩ } i := by
    refine ⟨List.prefix_refl _, fun _ => rfl, fun p h => .inr ?_⟩
    cases h
    rfl
  unfold advance
  cases held : stillPending s.pending i with
  | none =>
    dsimp only
    split_ifs
    · exact starts
    · exact ⟨List.prefix_refl _, fun _ => rfl, fun p h => nomatch h⟩
  | some q =>
    have waits : Continues s { s with sufficient := true, pending := some q } i :=
      ⟨List.prefix_refl _, fun _ => rfl, fun p h => .inl (pending_of_stillPending (held.trans h))⟩
    dsimp only
    split_ifs
    · exact starts
    · exact waits
    · exact waits
    · exact ⟨List.prefix_append _ _, fun _ => rfl, fun p h => nomatch h⟩
    · exact waits
    · exact ⟨List.prefix_append _ _, fun _ => rfl, fun p h => nomatch h⟩

/-- **A turn** rewrites no transition. -/
theorem turn_continues (bars : List Bar) (s : Regime) (i : ℕ) : Continues s (turn bars s i) i := by
  have same : Continues s s i := ⟨List.prefix_refl _, id, fun _ => .inl⟩
  unfold turn
  split
  · exact same
  · split_ifs
    · exact ⟨List.prefix_refl _, id, fun p h => nomatch h⟩
    · split
      · split_ifs
        · exact same
        · exact advance_continues bars s i _ _ _
      · exact same

theorem Regime.Before.turn (h : s.Before i) (bars : List Bar) : (turn bars s i).Before (i + 1) := by
  intro p held
  rcases (turn_continues bars s i).pending p held with old | rfl
  · exact Nat.lt_succ_of_lt (h p old)
  · exact Nat.lt_succ_self _

theorem atrs_append (bars more : List Bar) : ∃ rest, atrs (bars ++ more) = atrs bars ++ rest := by
  refine ⟨(List.range more.length).map fun j => atrAtIndex (bars ++ more) (bars.length + j), ?_⟩
  unfold atrs
  rw [List.length_append, List.range_add, List.map_append, List.map_map]
  congr 1
  refine List.map_congr_left fun j mem => ?_
  exact atrAtIndex_append (List.mem_range.mp mem) more

theorem population_append (inside : i < bars.length) (more : List Bar) :
    population (bars ++ more) i = population bars i := by
  obtain ⟨rest, same⟩ := atrs_append bars more
  have measured : (atrs bars).length = bars.length := by
    unfold atrs
    rw [List.length_map, List.length_range]
  unfold population
  rw [same, span_append (by omega)]

theorem transitionTo_append {p : Pending} (before : p.index < bars.length)
    (inside : i < bars.length) (more : List Bar) (bar : Bar) (percentile magnitude : ℚ) :
    transitionTo (bars ++ more) p i bar percentile magnitude =
      transitionTo bars p i bar percentile magnitude := by
  unfold transitionTo
  rw [span_append (by omega), span_append (by omega), List.getElem?_append_left before]

/-- A turn reads nothing behind its index. -/
theorem turn_append (before : s.Before i) (inside : i < bars.length) (more : List Bar) :
    turn (bars ++ more) s i = turn bars s i := by
  have advanced (bar : Bar) (current : ℚ) (prior : List ℚ) :
      advance (bars ++ more) s i bar current prior = advance bars s i bar current prior := by
    unfold advance
    cases held : stillPending s.pending i with
    | none => rfl
    | some p =>
      dsimp only
      rw [transitionTo_append ((before p (pending_of_stillPending held)).trans inside) inside]
  unfold turn
  rw [List.getElem?_append_left inside, span_append (by omega), atrAtIndex_append inside,
    population_append inside]
  simp only [advanced]

/-- The loop over a number of turns. -/
def turns (bars : List Bar) (n : ℕ) : Regime :=
  (List.range' (atrPeriod + volMinPopulation) n).foldl (turn bars) {}

theorem turns_succ (bars : List Bar) (n : ℕ) :
    turns bars (n + 1) = turn bars (turns bars n) (atrPeriod + volMinPopulation + n) := by
  unfold turns
  rw [List.range'_concat, List.foldl_concat, Nat.one_mul]

theorem turns_before (bars : List Bar) (n : ℕ) :
    (turns bars n).Before (atrPeriod + volMinPopulation + n) := by
  induction n with
  | zero => exact fun p h => nomatch h
  | succ n ih =>
    rw [turns_succ]
    exact ih.turn bars

/-- Inside a list the loop goes the same way over every longer list. -/
theorem turns_append (more : List Bar) {n : ℕ}
    (inside : atrPeriod + volMinPopulation + n ≤ bars.length) :
    turns (bars ++ more) n = turns bars n := by
  induction n with
  | zero => rfl
  | succ n ih =>
    rw [turns_succ, turns_succ, ih (by omega), turn_append (turns_before bars n) (by omega)]

/-- More turns only append transitions. -/
theorem turns_extends (bars : List Bar) (n k : ℕ) :
    (turns bars n).transitions <+: (turns bars (n + k)).transitions ∧
      ((turns bars n).sufficient = true → (turns bars (n + k)).sufficient = true) := by
  induction k with
  | zero => exact ⟨List.prefix_refl _, id⟩
  | succ k ih =>
    have step := turn_continues bars (turns bars (n + k)) (atrPeriod + volMinPopulation + (n + k))
    rw [← Nat.add_assoc, turns_succ]
    exact ⟨ih.1.trans step.transitions, fun h => step.sufficient (ih.2 h)⟩

theorem regimes_extends (bars more : List Bar) :
    (regimes bars).transitions <+: (regimes (bars ++ more)).transitions ∧
      ((regimes bars).sufficient = true → (regimes (bars ++ more)).sufficient = true) := by
  by_cases long : atrPeriod + volMinPopulation ≤ bars.length
  · obtain ⟨k, longer⟩ : ∃ k, (bars ++ more).length - (atrPeriod + volMinPopulation) =
        bars.length - (atrPeriod + volMinPopulation) + k :=
      ⟨more.length, by rw [List.length_append]; omega⟩
    have same : turns (bars ++ more) (bars.length - (atrPeriod + volMinPopulation)) = regimes bars :=
      turns_append more (by omega)
    have further := turns_extends (bars ++ more) (bars.length - (atrPeriod + volMinPopulation)) k
    rw [same, ← longer] at further
    exact further
  · have short : bars.length - (atrPeriod + volMinPopulation) = 0 := by omega
    have start : regimes bars = {} := by
      unfold regimes
      rw [short]
      rfl
    rw [start]
    exact ⟨List.nil_prefix, fun h => absurd h Bool.false_ne_true⟩

/-- **The transitions reported for a list are the first ones, with their dependencies, of those
reported for every longer list.** -/
theorem compression_transitions_extend (bars more : List Bar) :
    (compressionBeforeExpansion bars).transitions <+:
      (compressionBeforeExpansion (bars ++ more)).transitions := by
  obtain ⟨transitions, sufficient⟩ := regimes_extends bars more
  unfold compressionBeforeExpansion
  dsimp only
  by_cases some_ : (regimes bars).sufficient = true
  · rw [some_, sufficient some_]
    exact transitions
  · rw [Bool.not_eq_true] at some_
    rw [some_]
    exact List.nil_prefix

end

end TradeRecommender.MarketState
