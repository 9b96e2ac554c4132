import TradeRecommender.MarketState.Features

/-!
# Displacements and gaps are not repainted

`displacement_candidates` of `market/state/structure.py` and `find_fvgs` of `market/state/fvg.py`.

1. displacements;
2. gaps: what forms one, and what becomes of it;
3. a longer list leaves every swing, displacement and formation of a gap as it was.
-/

namespace TradeRecommender.MarketState

open Py Civil Market

/-! ## Displacements -/

/-- `DISPLACEMENT_ATR` -/
def displacementAtr : ℚ := 3 / 2

/-- The kinds of `displacement_candidates`. -/
inductive DisplacementKind
  | demandCandidate | supplyCandidate
  deriving DecidableEq

/-- A candidate of `displacement_candidates`. -/
structure Displacement where
  kind : DisplacementKind
  originLow : ℚ
  originHigh : ℚ
  bodyAtr : ℚ
  timestamp : Instant
  formedAt : Instant
  availableAt : Option Instant
  deriving DecidableEq

/-- The direction of a displacing bar that the following one confirms. -/
def displacementKind (bar following : Bar) : Option DisplacementKind :=
  if bar.open_ < bar.close ∧ bar.close < following.close then some .demandCandidate
  else if bar.close < bar.open_ ∧ following.close < bar.close then some .supplyCandidate
  else none

/-- The true range a bar is measured against: the given one, or that of its own time; `none` where
it is missing, zero or not followed by the registered successor. -/
def eventAtr (atr : Option ℚ) (bars : List Bar) (i : ℕ) : Option ℚ :=
  match atr.or (atrAtIndex bars i) with
  | none => none
  | some value => if value = 0 ∨ contiguous (span bars i (i + 2)) = false then none else some value

/-- The candidate `displacement_candidates` appends at an index. -/
def displacementAt (atr : Option ℚ) (threshold : ℚ) (bars : List Bar) (i : ℕ) :
    List Displacement :=
  match bars[i]?, bars[i + 1]?, eventAtr atr bars i with
  | some bar, some following, some atr =>
    let body := Rounding.abs statePrec (Rounding.sub statePrec bar.close bar.open_)
    if body < Rounding.mul statePrec threshold atr then []
    else match displacementKind bar following with
      | none => []
      | some kind =>
        [{ kind := kind
           originLow := formatDecimal (min bar.open_ bar.close)
           originHigh := formatDecimal (max bar.open_ bar.close)
           bodyAtr := formatDecimal (Rounding.div statePrec body atr)
           timestamp := bar.timestamp
           formedAt := bar.formedAt
           availableAt := lastAvailable (span bars (i - atrPeriod) (i + 2)) }]
  | _, _, _ => []

/-- The result of `displacement_candidates`: unavailable, or its candidates. -/
def displacementCandidates (bars : List Bar) (atr : Option ℚ := none)
    (threshold : ℚ := displacementAtr) : Except String (List Displacement) :=
  if (List.range (bars.length - 1)).any fun i => (eventAtr atr bars i).isSome then
    .ok (scan 0 1 (displacementAt atr threshold) bars)
  else .error "atr_unavailable"

/-! ## Gaps -/

/-- `FVG_DISPLACEMENT_ATR` -/
def fvgDisplacementAtr : ℚ := 1

/-- `FVG_EXPIRY_BARS` -/
def fvgExpiryBars : ℕ := 50

/-- `FVG_MIN_RAW` -/
def fvgMinRaw : ℚ := 1 / 1000000

/-- `FVG_MIN_ATR` -/
def fvgMinAtr : ℚ := 1 / 10

/-- `FVG_MIN_PIPS` -/
def fvgMinPips : ℚ := 1

/-- `FVG_MIN_SPREAD` -/
def fvgMinSpread : ℚ := 1

/-- The direction of a gap. -/
inductive GapDirection
  | bullish | bearish
  deriving DecidableEq

/-- What forms a gap. -/
structure GapFormation where
  direction : GapDirection
  formationStart : Instant
  createdAt : Instant
  availableAt : Option Instant
  /-- the reason code of an unavailable qualification -/
  qualification : Option String
  gapLow : ℚ
  gapHigh : ℚ
  rawGap : ℚ
  gapAtr : ℚ
  gapPips : ℚ
  /-- `none` where the spread is unavailable -/
  spreadNormalized : Option ℚ
  deriving DecidableEq

/-- What has become of a gap. -/
inductive GapLifecycle
  | unavailable (reason : String)
  | state (partialFillPct : ℚ) (fullFill internalSwingBreak invalidated expired : Bool)
  deriving DecidableEq

/-- A gap of `find_fvgs`. -/
structure Gap where
  formation : GapFormation
  lifecycle : GapLifecycle
  deriving DecidableEq

/-- `_internal_swing_break` -/
def internalSwingBreak (direction : GapDirection) (following : List Bar) : Bool :=
  (confirmedSwings following).any fun swing =>
    match direction with
    | .bullish => swing.kind = .low &&
        (following.drop (swing.index + swingRight + 1)).any fun bar => bar.close < swing.price
    | .bearish => swing.kind = .high &&
        (following.drop (swing.index + swingRight + 1)).any fun bar => swing.price < bar.close

/-- How far the bars behind a gap have come into it. -/
def penetrated (direction : GapDirection) (gapLow gapHigh : ℚ) (following : List Bar) : ℚ :=
  match direction with
  | .bullish =>
    let deepest := ((following.map Bar.low).min?).getD gapHigh
    Rounding.sub statePrec gapHigh (max (min deepest gapHigh) gapLow)
  | .bearish =>
    let deepest := ((following.map Bar.high).max?).getD gapLow
    Rounding.sub statePrec (min (max deepest gapLow) gapHigh) gapLow

/-- Whether a bar closes through the far boundary of a gap. -/
def fills (direction : GapDirection) (gapLow gapHigh : ℚ) (bar : Bar) : Bool :=
  match direction with
  | .bullish => bar.close ≤ gapLow
  | .bearish => gapHigh ≤ bar.close

/-- `_fill_state` -/
def fillState (direction : GapDirection) (gapLow gapHigh rawGap : ℚ) (following : List Bar) :
    GapLifecycle :=
  if following = [] then .state 0 false false false false
  else if contiguous following = false then .unavailable "missing_registered_interval"
  else
    let full := following.any (fills direction gapLow gapHigh)
    let windowFull := (following.take fvgExpiryBars).any (fills direction gapLow gapHigh)
    let pct := if rawGap = 0 then 0
      else Rounding.mul statePrec
        (Rounding.div statePrec (penetrated direction gapLow gapHigh following) rawGap) 100
    let broken := internalSwingBreak direction following
    .state (formatDecimal pct (-1)) full broken (full || broken)
      (fvgExpiryBars < following.length && !windowFull)

/-- The direction and the boundaries of a gap over three bars. -/
def gapOf (c1 c3 : Bar) : Option (GapDirection × ℚ × ℚ) :=
  if c1.high < c3.low then some (.bullish, c1.high, c3.low)
  else if c3.high < c1.low then some (.bearish, c3.high, c1.low)
  else none

/-- Whether the middle bar moves in the direction of a gap. -/
def displaces (direction : GapDirection) (c2 : Bar) : Bool :=
  match direction with
  | .bullish => c2.open_ < c2.close
  | .bearish => c2.close < c2.open_

/-- The qualification by the spread: refused, unavailable or available. -/
def spreadQualifies (rawGap : ℚ) (spread : Option ℚ) : Option (Option String) :=
  match spread with
  | none => some (some "spread_unavailable")
  | some spread =>
    if spread ≤ 0 then some (some "spread_unavailable")
    else if Rounding.div statePrec rawGap spread < fvgMinSpread then none
    else some none

/-- `_spread_normalized` -/
def spreadNormalized (rawGap : ℚ) (spread : Option ℚ) : Option ℚ :=
  spread.bind fun spread =>
    if spread = 0 then none else some (formatDecimal (Rounding.div statePrec rawGap spread))

/-- What a turn of the loop of `find_fvgs` finds at an index: what is unavailable there, and the
formation of a gap. -/
def formationAt (pipSize : ℚ) (atrOverride : Option ℚ) (displacement : ℚ) (bars : List Bar) (i : ℕ) :
    Option String × Option GapFormation :=
  match bars[i]?, bars[i + 1]?, bars[i + 2]? with
  | some c1, some c2, some c3 =>
    if (barsAreConsecutive c1 c2 && barsAreConsecutive c2 c3) = false then (none, none)
    else match gapOf c1 c3 with
      | none => (none, none)
      | some (direction, gapLow, gapHigh) =>
        match atrOverride.or (atrAtIndex bars (i + 2)) with
        | none => (some "atr_unavailable", none)
        | some atr =>
          if atr = 0 then (some "atr_unavailable", none)
          else
            let body := Rounding.abs statePrec (Rounding.sub statePrec c2.close c2.open_)
            let rawGap := Rounding.sub statePrec gapHigh gapLow
            if displaces direction c2 = false ∨ body < Rounding.mul statePrec displacement atr then
              (none, none)
            else if rawGap < fvgMinRaw ∨ Rounding.div statePrec rawGap atr < fvgMinAtr ∨
                Rounding.div statePrec rawGap pipSize < fvgMinPips then (none, none)
            else match spreadQualifies rawGap c3.spread with
              | none => (none, none)
              | some qualification =>
                (qualification, some
                  { direction := direction
                    formationStart := c1.timestamp
                    createdAt := c3.formedAt
                    availableAt := lastAvailable (span bars (i + 2 - atrPeriod) (i + 3))
                    qualification := qualification
                    gapLow := formatDecimal gapLow
                    gapHigh := formatDecimal gapHigh
                    rawGap := formatDecimal rawGap
                    gapAtr := formatDecimal (Rounding.div statePrec rawGap atr)
                    gapPips := formatDecimal (Rounding.div statePrec rawGap pipSize) (-1)
                    spreadNormalized := spreadNormalized rawGap c3.spread })
  | _, _, _ => (none, none)

/-- The lifecycle of the gap formed at an index. -/
def lifecycleAt (bars : List Bar) (i : ℕ) : GapLifecycle :=
  match bars[i]?, bars[i + 2]? with
  | some c1, some c3 =>
    let following := bars.drop (i + 3)
    if following.head?.any fun next => barsAreConsecutive c3 next = false then
      .unavailable "missing_registered_interval"
    else match gapOf c1 c3 with
      | none => .unavailable "missing_registered_interval"
      | some (direction, gapLow, gapHigh) =>
        fillState direction gapLow gapHigh (Rounding.sub statePrec gapHigh gapLow) following
  | _, _ => .unavailable "missing_registered_interval"

/-- The result of `find_fvgs`: why it is unavailable, if it is, and its gaps. -/
structure FvgResult where
  unavailable : Option String
  fvgs : List Gap
  deriving DecidableEq

/-- `find_fvgs` -/
def findFvgs (bars : List Bar) (pipSize : ℚ) (atrOverride : Option ℚ := none)
    (displacement : ℚ := fvgDisplacementAtr) : FvgResult :=
  if bars.length < 3 then ⟨some "insufficient_history", []⟩
  else
    { unavailable := (scan 0 2 (fun bars i =>
        (formationAt pipSize atrOverride displacement bars i).1.toList) bars).getLast?
      fvgs := scan 0 2 (fun bars i =>
        (formationAt pipSize atrOverride displacement bars i).2.toList.map fun formation =>
          ⟨formation, lifecycleAt bars i⟩) bars }

/-! ## No repainting -/

section
variable {bars : List Bar} {i : ℕ}

theorem eventAtr_append (atr : Option ℚ) (inside : i + 1 < bars.length) (more : List Bar) :
    eventAtr atr (bars ++ more) i = eventAtr atr bars i := by
  unfold eventAtr
  rw [atrAtIndex_append (by omega), span_append (by omega)]

theorem displacementAt_append (atr : Option ℚ) (threshold : ℚ) (inside : i + 1 < bars.length)
    (more : List Bar) :
    displacementAt atr threshold (bars ++ more) i = displacementAt atr threshold bars i := by
  unfold displacementAt
  rw [List.getElem?_append_left (by omega), List.getElem?_append_left inside,
    eventAtr_append atr inside, span_append (by omega)]

theorem formationAt_append (pipSize : ℚ) (atrOverride : Option ℚ) (displacement : ℚ)
    (inside : i + 2 < bars.length) (more : List Bar) :
    formationAt pipSize atrOverride displacement (bars ++ more) i =
      formationAt pipSize atrOverride displacement bars i := by
  unfold formationAt
  rw [List.getElem?_append_left (by omega), List.getElem?_append_left (by omega),
    List.getElem?_append_left inside, atrAtIndex_append inside, span_append (by omega)]

/-- The displacements reported for a list; none where they are unavailable. -/
def displacements (bars : List Bar) (atr : Option ℚ) (threshold : ℚ) : List Displacement :=
  (displacementCandidates bars atr threshold).toOption.getD []

/-- Where no bar can be measured there is no displacement. -/
theorem displacements_eq (bars : List Bar) (atr : Option ℚ) (threshold : ℚ) :
    displacements bars atr threshold = scan 0 1 (displacementAt atr threshold) bars := by
  unfold displacements displacementCandidates
  split_ifs with measured
  · rfl
  · symm
    show scan 0 1 (displacementAt atr threshold) bars = []
    refine List.flatMap_eq_nil_iff.mpr fun i mem => ?_
    have unmeasured : eventAtr atr bars i = none := by
      rw [List.mem_range'_1] at mem
      by_contra some_
      exact measured (List.any_eq_true.mpr
        ⟨i, List.mem_range.mpr (by omega), Option.isSome_iff_ne_none.mpr some_⟩)
    unfold displacementAt
    rw [unmeasured]
    split
    case h_1 none_ => cases none_
    case h_2 => rfl

/-- The formations of the gaps found in a list. -/
def formations (bars : List Bar) (pipSize : ℚ) (atrOverride : Option ℚ) (displacement : ℚ) :
    List GapFormation :=
  (findFvgs bars pipSize atrOverride displacement).fvgs.map Gap.formation

theorem formations_eq (bars : List Bar) (pipSize : ℚ) (atrOverride : Option ℚ) (displacement : ℚ) :
    formations bars pipSize atrOverride displacement = scan 0 2 (fun bars i =>
      (formationAt pipSize atrOverride displacement bars i).2.toList) bars := by
  unfold formations findFvgs
  split_ifs with short
  · have nothing : bars.length - 2 - 0 = 0 := by omega
    rw [scan, nothing]
    rfl
  · rw [scan, scan, List.map_flatMap]
    refine List.flatMap_congr fun i _ => ?_
    rw [List.map_map]
    exact List.map_id _

/-- **A longer list of bars leaves every confirmed swing, displacement and formation of a gap of a
shorter one in its place, with its contents and dependencies.** -/
theorem no_repainting (bars more : List Bar) :
    (∀ left right, confirmedSwings bars left right <+: confirmedSwings (bars ++ more) left right) ∧
      swingFacts bars <+: swingFacts (bars ++ more) ∧
      (∀ atr threshold,
        displacements bars atr threshold <+: displacements (bars ++ more) atr threshold) ∧
      ∀ pipSize atrOverride displacement,
        formations bars pipSize atrOverride displacement <+:
          formations (bars ++ more) pipSize atrOverride displacement := by
  refine ⟨fun left right => confirmedSwings_extends bars more, swingFacts_extends bars more, ?_, ?_⟩
  · intro atr threshold
    rw [displacements_eq, displacements_eq]
    exact scan_extends (fun _ more _ inside => displacementAt_append atr threshold inside more)
      bars more
  · intro pipSize atrOverride displacement
    rw [formations_eq, formations_eq]
    refine scan_extends (fun _ more _ inside => ?_) bars more
    rw [formationAt_append pipSize atrOverride displacement inside more]

end

end TradeRecommender.MarketState
