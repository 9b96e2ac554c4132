import TradeRecommender.Strategy.ExploratoryReturns
import TradeRecommender.Strategy.LevelLifecycle

/-!
# Entry eligibility

`entry_eligibility` and `nearest_opposing_target` of `research/strategy.py`, and what an entry that
is pending owes to the return calculation.

1. the source's functions;
2. the target: an active opposing level, and none nearer;
3. the geometry of a pending entry, and the exceptions of the function.
-/

namespace TradeRecommender.Strategy

open Civil (Instant)
open Py

/-! ## The source's functions -/

/-- `FAMILY_PRIORITY` -/
def familyPriority : List (String × ℕ) :=
  [("PREVIOUS_WEEKLY_EXTREME", 0), ("CONFIRMED_DAILY_SWING", 1),
    ("TWENTY_SESSION_BREAKOUT_FLIP", 2)]

/-- `set(level_states) == {level.key for level in levels}` -/
def StatesComplete (levelStates : List (String × LevelState)) (levels : List LevelSpec) : Prop :=
  (∀ entry ∈ levelStates, entry.1 ∈ levels.map LevelSpec.key) ∧
    ∀ level ∈ levels, level.key ∈ levelStates.map Prod.fst

instance (levelStates : List (String × LevelState)) (levels : List LevelSpec) :
    Decidable (StatesComplete levelStates levels) :=
  inferInstanceAs (Decidable (_ ∧ _))

/-- `active`, where there is a state for every level. -/
def activeLevels (levels : List LevelSpec) (context : Context)
    (levelStates : List (String × LevelState)) : List LevelSpec :=
  levels.filter fun level =>
    (levelStates.lookup level.key).any (fun state => state.state = .active) &&
      decide (level.activatedAt ≤ context.asOf) && !level.expiredBy context.asOf

/-- The role of the levels a side is held against. -/
def Side.opposing : Side → Role
  | .long => .resistance
  | .short => .support

/-- The edge of a zone that a side comes to first. -/
def LevelSpec.nearEdge (level : LevelSpec) : Side → ℚ
  | .long => level.zoneLower
  | .short => level.zoneUpper

/-- The edge lies ahead of a price. -/
def LevelSpec.ahead (level : LevelSpec) (price : ℚ) : Side → Bool
  | .long => price < level.zoneLower
  | .short => level.zoneUpper < price

/-- What the nearest level is looked for by, first of all. -/
def LevelSpec.distance (level : LevelSpec) (price : ℚ) : Side → ℚ
  | .long => level.zoneLower
  | .short => Rounding.sub prec price level.zoneUpper

/-- The key of `min`. -/
structure TargetOrder where
  distance : ℚ
  priority : ℕ
  activatedAt : Instant
  key : String

/-- The order of such tuples: by the first components that differ. -/
def TargetOrder.lt (a b : TargetOrder) : Bool :=
  if a.distance ≠ b.distance then a.distance < b.distance
  else if a.priority ≠ b.priority then a.priority < b.priority
  else if a.activatedAt ≠ b.activatedAt then a.activatedAt < b.activatedAt
  else a.key < b.key

def targetOrder (price : ℚ) (side : Side) (level : LevelSpec) : Except Exc TargetOrder :=
  match familyPriority.lookup level.family with
  | none => raise .keyError level.family
  | some priority => .ok ⟨level.distance price side, priority, level.activatedAt, level.key⟩

/-- `nearest_opposing_target` -/
def nearestOpposingTarget (price : ℚ) (side : Side) (levels : List LevelSpec) (context : Context)
    (levelStates : List (String × LevelState)) : Except Exc (Option LevelSpec) :=
  if ¬ StatesComplete levelStates levels then
    raise .valueError "target inventory requires lifecycle state for every level"
  else do
    let choices := (activeLevels levels context levelStates).filter fun level =>
      level.role = side.opposing && level.ahead price side
    let keyed ← mapE (fun level => (targetOrder price side level).map fun key => (key, level)) choices
    return (Window.firstMax (fun best other => other.1.lt best.1) keyed).map Prod.snd

inductive Decision
  | entryPending | cancelledDataQuality | blockedSession | missedFill | blockedSpread | noTarget
  | insufficientReward
  deriving DecidableEq

structure EntryOpen where
  timestamp : Instant
  bidOpen : ℚ
  askOpen : ℚ

structure EntryResult where
  decision : Decision
  reason : String
  entry : Option ℚ := none
  stop : Option ℚ := none
  target : Option ℚ := none
  rewardRisk : Option ℚ := none
  targetKey : Option String := none
  riskPerUnitQuote : Option ℚ := none
  conversionRateToCad : Option ℚ := none
  conversionEffectiveAt : Option Instant := none
  conversionIdentity : String := ""
  riskPerUnitCad : Option ℚ := none

/-- What `entry_eligibility` reads, of the event its side and its sweep's extreme. -/
structure EntryInput where
  side : Side
  sweepExtreme : ℚ
  opening : Option EntryOpen
  h1Atr : Option ℚ
  levels : List LevelSpec
  context : Context
  expectedEntryTimestamp : Instant
  precision : Quantum
  absoluteSpreadCeiling : ℚ
  levelStates : List (String × LevelState)
  cadConversionRate : Option ℚ
  conversionEffectiveAt : Option Instant
  conversionIdentity : String
  relativeSpreadCeiling : ℚ := 10 / 100
  dataComplete : Bool := true
  marketOpen : Bool := true
  sessionEligible : Option Bool := none

/-- A division by zero. -/
def zeroDivision : ExcClass := .other "ZeroDivisionError"

/-- `/` -/
def divide (dividend divisor : ℚ) : Except Exc ℚ :=
  if divisor = 0 then raise zeroDivision else .ok (Rounding.div prec dividend divisor)

/-- `in_entry_session`, on the clocks of London and New York -/
def inEntrySession (clocks : List (Instant → ℤ)) (timestamp : Instant) : Bool :=
  clocks.any fun wall =>
    decide (8 * Civil.hour ≤ wall timestamp % Civil.day) &&
      decide (wall timestamp % Civil.day < 17 * Civil.hour)

def refused (decision : Decision) (reason : String) : EntryResult :=
  { decision := decision, reason := reason }

namespace EntryInput

variable (x : EntryInput)

/-- The spread exceeds a ceiling. -/
def spreadTooWide (h1Atr spread : ℚ) : Except Exc Bool :=
  if x.absoluteSpreadCeiling < spread then .ok true
  else (divide spread h1Atr).map fun relative => decide (x.relativeSpreadCeiling < relative)

/-- `entry` -/
def entryPrice (opening : EntryOpen) : ℚ :=
  match x.side with
  | .long => opening.askOpen
  | .short => opening.bidOpen

/-- `stop` -/
def stopPrice (buffer : ℚ) : Except Exc ℚ :=
  match x.side with
  | .long => quantizePrice Int.floor x.precision (Rounding.sub prec x.sweepExtreme buffer)
  | .short => quantizePrice Int.ceil x.precision (Rounding.add prec x.sweepExtreme buffer)

/-- The open lies at the stop or beyond. -/
def atStop (opening : EntryOpen) (stop : ℚ) : Bool :=
  match x.side with
  | .long => opening.bidOpen ≤ stop
  | .short => stop ≤ opening.askOpen

/-- `risk` -/
def risk (entry stop : ℚ) : ℚ :=
  match x.side with
  | .long => Rounding.sub prec entry stop
  | .short => Rounding.sub prec stop entry

/-- `reward` -/
def reward (entry target : ℚ) : ℚ :=
  match x.side with
  | .long => Rounding.sub prec target entry
  | .short => Rounding.sub prec entry target

/-- `reward_risk`, nothing for minus infinity -/
def rewardRisk (reward risk : ℚ) : Except Exc (Option ℚ) :=
  if 0 < risk then (divide reward risk).map some else .ok none

/-- The end of `entry_eligibility`, from the target on. -/
def aimed (rate : ℚ) (effectiveAt : Instant) (entry stop : ℚ) (level : LevelSpec) :
    Except Exc EntryResult := do
  let target := level.nearEdge x.side
  let risk := x.risk entry stop
  match ← rewardRisk (x.reward entry target) risk with
  | none => return refused .insufficientReward "BELOW_1_5R"
  | some ratio =>
    if ratio < 15 / 10 then return refused .insufficientReward "BELOW_1_5R"
    else return {
      decision := .entryPending
      reason := ""
      entry := some entry
      stop := some stop
      target := some target
      rewardRisk := some ratio
      targetKey := some level.key
      riskPerUnitQuote := some risk
      conversionRateToCad := some rate
      conversionEffectiveAt := some effectiveAt
      conversionIdentity := x.conversionIdentity
      riskPerUnitCad := some (Rounding.mul prec risk rate) }

/-- `entry_eligibility` from the spread on -/
def opened (h1Atr rate : ℚ) (effectiveAt : Instant) (opening : EntryOpen) :
    Except Exc EntryResult := do
  let spread := Rounding.sub prec opening.askOpen opening.bidOpen
  if ← x.spreadTooWide h1Atr spread then return refused .blockedSpread "SPREAD_CEILING"
  else do
    let entry := x.entryPrice opening
    let buffer := max spread (Rounding.mul prec h1Atr (10 / 100))
    let stop ← x.stopPrice buffer
    if x.atStop opening stop then return refused .missedFill "OPEN_AT_OR_BEYOND_STOP"
    else do
      match ← nearestOpposingTarget entry x.side x.levels x.context x.levelStates with
      | none => return refused .noTarget "NO_ACTIVE_OPPOSING_LEVEL"
      | some level => x.aimed rate effectiveAt entry stop level

/-- The refusal of an open. -/
def openingRefusal (opening : EntryOpen) : Option String :=
  if opening.timestamp ≠ x.expectedEntryTimestamp then some "NOT_NEXT_H1_OPEN"
  else if x.context.asOf < opening.timestamp then some "ENTRY_OPEN_AFTER_AS_OF"
  else if opening.askOpen < opening.bidOpen then some "NEGATIVE_SPREAD"
  else none

/-- `entry_eligibility` from the target inventory on -/
def complete (clocks : List (Instant → ℤ)) (h1Atr rate : ℚ) (effectiveAt : Instant) :
    Except Exc EntryResult :=
  if ¬ StatesComplete x.levelStates x.levels then
    .ok (refused .cancelledDataQuality "INCOMPLETE_TARGET_INVENTORY")
  else
    match x.opening.bind x.openingRefusal with
    | some reason => .ok (refused .cancelledDataQuality reason)
    | none =>
      if x.sessionEligible.getD (inEntrySession clocks x.expectedEntryTimestamp) = false then
        .ok (refused .blockedSession "OUTSIDE_SESSION")
      else
        match x.opening with
        | none => .ok (refused .missedFill "NO_DEFENSIBLE_H1_OPEN")
        | some opening =>
          if x.marketOpen = false then .ok (refused .missedFill "NO_DEFENSIBLE_H1_OPEN")
          else x.opened h1Atr rate effectiveAt opening

end EntryInput

/-- `entry_eligibility` -/
def entryEligibility (clocks : List (Instant → ℤ)) (x : EntryInput) : Except Exc EntryResult :=
  match x.h1Atr, x.cadConversionRate, x.conversionEffectiveAt with
  | some h1Atr, some rate, some effectiveAt =>
    if x.dataComplete = false ∨ h1Atr ≤ 0 ∨ x.precision.value ≤ 0 ∨ rate ≤ 0 ∨
        x.expectedEntryTimestamp < effectiveAt ∨ x.context.asOf < effectiveAt ∨
        x.conversionIdentity = "" then
      .ok (refused .cancelledDataQuality "DATA_INCOMPLETE")
    else x.complete clocks h1Atr rate effectiveAt
  | _, _, _ => .ok (refused .cancelledDataQuality "DATA_INCOMPLETE")

/-! ## The target -/

section
variable {price : ℚ} {side : Side} {levels : List LevelSpec} {context : Context}
  {levelStates : List (String × LevelState)}

/-- The active levels a side is held against. -/
def opposingLevels (side : Side) (levels : List LevelSpec) (context : Context)
    (levelStates : List (String × LevelState)) : List LevelSpec :=
  (activeLevels levels context levelStates).filter fun level => level.role = side.opposing

theorem TargetOrder.distance_le {a b : TargetOrder} :
    (a.lt b = true → a.distance ≤ b.distance) ∧ (a.lt b ≠ true → b.distance ≤ a.distance) := by
  rw [TargetOrder.lt]
  split_ifs with distance
  · rw [Ne, decide_eq_true_iff]
    exact ⟨fun h => h.le, fun h => not_lt.mp h⟩
  all_goals
    rw [not_not] at distance
    exact ⟨fun _ => distance.le, fun _ => distance.ge⟩

theorem targetOrder_eq_ok {level : LevelSpec} {key : TargetOrder}
    (h : targetOrder price side level = .ok key) : key.distance = level.distance price side := by
  rw [targetOrder] at h
  cases found : familyPriority.lookup level.family with
  | none =>
    rw [found] at h
    cases h
  | some priority =>
    rw [found] at h
    cases h
    rfl

/-- The target is an opposing level ahead, and at no other is the distance less. -/
theorem nearestOpposingTarget_spec {level : LevelSpec}
    (h : nearestOpposingTarget price side levels context levelStates = .ok (some level)) :
    level ∈ opposingLevels side levels context levelStates ∧ level.ahead price side = true ∧
      ∀ other ∈ opposingLevels side levels context levelStates, other.ahead price side = true →
        level.distance price side ≤ other.distance price side := by
  rw [nearestOpposingTarget] at h
  by_cases complete : StatesComplete levelStates levels
  · rw [if_neg (not_not.mpr complete)] at h
    obtain ⟨keyed, made, h⟩ := bind_eq_ok.mp h
    obtain ⟨best, first, rfl⟩ := Option.map_eq_some_iff.mp (Except.ok.inj h)
    obtain ⟨mem, least⟩ := Window.firstMax_least (fun entry => entry.1.distance)
      (fun a b nearer => (TargetOrder.distance_le.1 nearer))
      (fun a b other => (TargetOrder.distance_le.2 other)) first
    -- a choice and its key
    have choice : ∀ {level : LevelSpec} {entry : TargetOrder × LevelSpec},
        (targetOrder price side level).map (fun key => (key, level)) = .ok entry →
          entry.1.distance = level.distance price side ∧ entry.2 = level := by
      intro level entry h
      obtain ⟨key, made, rfl⟩ := map_eq_ok.mp h
      exact ⟨targetOrder_eq_ok made, rfl⟩
    obtain ⟨level, chosen, h⟩ := mem_mapE made mem
    obtain ⟨distance, rfl⟩ := choice h
    rw [List.mem_filter, Bool.and_eq_true] at chosen
    refine ⟨List.mem_filter.mpr ⟨chosen.1, chosen.2.1⟩, chosen.2.2, fun other mem' ahead => ?_⟩
    obtain ⟨entry, mem', h'⟩ := exists_mem_of_mapE made (x := other) (by
      rw [opposingLevels, List.mem_filter] at mem'
      rw [List.mem_filter, Bool.and_eq_true]
      exact ⟨mem'.1, mem'.2, ahead⟩)
    rw [← distance, ← (choice h').1]
    exact least entry mem'
  · rw [if_pos complete] at h
    cases h

end

/-! ## A pending entry -/

/-- Stop, open, entry and target in order. -/
def Ordered (side : Side) (opening : EntryOpen) (entry stop target : ℚ) : Prop :=
  match side with
  | .long => stop < opening.bidOpen ∧ opening.bidOpen ≤ entry ∧ entry = opening.askOpen ∧
      entry < target
  | .short => target < entry ∧ entry = opening.bidOpen ∧ entry ≤ opening.askOpen ∧
      opening.askOpen < stop

/-- A level has no nearer edge than another, or none that decimals of 28 digits tell from it. -/
def NoNearer (side : Side) (entry : ℚ) (other level : LevelSpec) : Prop :=
  match side with
  | .long => level.zoneLower ≤ other.zoneLower
  | .short => other.zoneUpper ≤ level.zoneUpper ∨
      Rounding.sub prec entry other.zoneUpper = Rounding.sub prec entry level.zoneUpper

/-- The side of a trade, in the words of the return calculation. -/
def Side.direction : Side → Returns.Direction
  | .long => .long
  | .short => .short

/-- An event of the return calculation with the prices of an entry. -/
structure Records (side : Side) (opening : EntryOpen) (stop target cad : ℚ)
    (event : Returns.Event) : Prop where
  direction : event.direction = side.direction
  entryBid : event.entryBid = opening.bidOpen
  entryAsk : event.entryAsk = opening.askOpen
  stop : event.stop = stop
  target : event.target = target
  risk : event.riskPerUnitCad = cad

/-- The geometry of a pending entry. -/
structure EntryGeometry (x : EntryInput) (r : EntryResult) (opening : EntryOpen) (level : LevelSpec)
    (entry stop ratio risk cad : ℚ) : Prop where
  opened : x.opening = some opening
  result : r.entry = some entry ∧ r.stop = some stop ∧ r.target = some (level.nearEdge x.side) ∧
    r.rewardRisk = some ratio ∧ r.targetKey = some level.key ∧ r.riskPerUnitQuote = some risk ∧
      r.riskPerUnitCad = some cad
  ordered : Ordered x.side opening entry stop (level.nearEdge x.side)
  risk_eq : risk = x.risk entry stop ∧ 0 < risk
  ratio_eq : ratio = Rounding.div prec (x.reward entry (level.nearEdge x.side)) risk ∧
    15 / 10 ≤ ratio
  target : level ∈ opposingLevels x.side x.levels x.context x.levelStates
  nearest : ∀ other ∈ opposingLevels x.side x.levels x.context x.levelStates,
    other.ahead entry x.side = true → NoNearer x.side entry other level
  resolves : ∀ event, Records x.side opening stop (level.nearEdge x.side) cad event →
    event.geometry ∧ event.fillable ∧ 0 < event.riskPerUnitCad

section
variable {x : EntryInput} {r : EntryResult} {opening : EntryOpen} {level : LevelSpec}
  {h1Atr rate : ℚ} {effectiveAt : Instant}

theorem sub_pos_of_lt {a b : ℚ} (h : a < b) : 0 < Rounding.sub prec b a :=
  Rounding.fl_pos (by decide) (sub_pos.mpr h)

/-- Levels at a distance no less have no nearer edge. -/
theorem noNearer_of_distance {side : Side} {entry : ℚ} {other : LevelSpec}
    (h : level.distance entry side ≤ other.distance entry side) :
    NoNearer side entry other level := by
  cases side with
  | long => exact h
  | short =>
    rcases le_or_gt other.zoneUpper level.zoneUpper with further | nearer
    · exact .inl further
    · have back : Rounding.sub prec entry other.zoneUpper ≤ Rounding.sub prec entry level.zoneUpper :=
        Rounding.fl_mono (by decide) (sub_le_sub_left nearer.le entry)
      exact .inr (le_antisymm back h)

/-- What the end of the function makes of a target ahead of an open within its stop. -/
theorem aimed_spec {entry stop : ℚ} (positive : 0 < rate) (fill : entry = x.entryPrice opening)
    (uncrossed : opening.bidOpen ≤ opening.askOpen) (within : x.atStop opening stop ≠ true)
    (ahead : level.ahead entry x.side = true)
    (h : x.aimed rate effectiveAt entry stop level = .ok r) (pending : r.decision = .entryPending) :
    ∃ ratio risk cad, Ordered x.side opening entry stop (level.nearEdge x.side) ∧
      (r.entry = some entry ∧ r.stop = some stop ∧ r.target = some (level.nearEdge x.side) ∧
        r.rewardRisk = some ratio ∧ r.targetKey = some level.key ∧ r.riskPerUnitQuote = some risk ∧
          r.riskPerUnitCad = some cad) ∧
      (risk = x.risk entry stop ∧ 0 < risk) ∧
      (ratio = Rounding.div prec (x.reward entry (level.nearEdge x.side)) risk ∧ 15 / 10 ≤ ratio) ∧
      0 < cad := by
  have ordered : Ordered x.side opening entry stop (level.nearEdge x.side) := by
    unfold EntryInput.entryPrice at fill
    unfold EntryInput.atStop at within
    unfold LevelSpec.ahead at ahead
    unfold Ordered LevelSpec.nearEdge
    cases side : x.side with
    | long =>
      rw [side] at fill within ahead
      simp only [ne_eq, decide_eq_true_eq, not_le] at within ahead
      exact ⟨within, by rw [fill]; exact uncrossed, fill, ahead⟩
    | short =>
      rw [side] at fill within ahead
      simp only [ne_eq, decide_eq_true_eq, not_le] at within ahead
      exact ⟨ahead, fill, by rw [fill]; exact uncrossed, within⟩
  have risky : 0 < x.risk entry stop := by
    unfold Ordered at ordered
    unfold EntryInput.risk
    cases side : x.side with
    | long =>
      rw [side] at ordered
      exact sub_pos_of_lt (lt_of_lt_of_le ordered.1 ordered.2.1)
    | short =>
      rw [side] at ordered
      exact sub_pos_of_lt (lt_of_le_of_lt ordered.2.2.1 ordered.2.2.2)
  obtain ⟨found, ratio, h⟩ := bind_eq_ok.mp h
  rw [EntryInput.rewardRisk, if_pos risky, divide, if_neg risky.ne'] at ratio
  cases ratio
  dsimp only at h
  split_ifs at h with low
  · cases h
    cases pending
  · cases h
    exact ⟨_, _, _, ordered, ⟨rfl, rfl, rfl, rfl, rfl, rfl, rfl⟩, ⟨rfl, risky⟩,
      ⟨rfl, not_lt.mp low⟩, Rounding.fl_pos (by decide) (mul_pos risky positive)⟩

/-- Such prices pass the checks of the return calculation. -/
theorem resolves_of_ordered {entry stop target cad : ℚ} (positive : 0 < cad)
    (ordered : Ordered x.side opening entry stop target) (event : Returns.Event)
    (records : Records x.side opening stop target cad event) :
    event.geometry ∧ event.fillable ∧ 0 < event.riskPerUnitCad := by
  rw [Returns.Event.geometry, Returns.Event.fillable, Returns.Event.entry, records.direction,
    records.entryBid, records.entryAsk, records.stop, records.target, records.risk]
  unfold Ordered at ordered
  cases side : x.side with
  | long =>
    rw [side] at ordered
    obtain ⟨below, spread, rfl, above⟩ := ordered
    exact ⟨⟨lt_of_lt_of_le below spread, above⟩, below, positive⟩
  | short =>
    rw [side] at ordered
    obtain ⟨below, rfl, spread, above⟩ := ordered
    exact ⟨⟨below, lt_of_le_of_lt spread above⟩, above, positive⟩

/-- From the spread on, a pending entry has its geometry. -/
theorem opened_spec (positive : 0 < rate) (here : x.opening = some opening)
    (uncrossed : opening.bidOpen ≤ opening.askOpen)
    (h : x.opened h1Atr rate effectiveAt opening = .ok r) (pending : r.decision = .entryPending) :
    ∃ level entry stop ratio risk cad, EntryGeometry x r opening level entry stop ratio risk cad := by
  rw [EntryInput.opened] at h
  obtain ⟨wide, -, h⟩ := bind_eq_ok.mp h
  split_ifs at h with tooWide
  · cases h
    cases pending
  · obtain ⟨stop, -, h⟩ := bind_eq_ok.mp h
    split_ifs at h with within
    · cases h
      cases pending
    · obtain ⟨found, target, h⟩ := bind_eq_ok.mp h
      cases found with
      | none =>
        cases h
        cases pending
      | some level =>
        obtain ⟨opposing, ahead, least⟩ := nearestOpposingTarget_spec target
        obtain ⟨ratio, risk, cad, ordered, result, risky, ratios, positive'⟩ :=
          aimed_spec positive rfl uncrossed within ahead h pending
        exact ⟨level, _, stop, ratio, risk, cad, here, result, ordered, risky, ratios, opposing,
          fun other mem ahead' => noNearer_of_distance (least other mem ahead'),
          fun event => resolves_of_ordered positive' ordered event⟩

theorem openingRefusal_eq_none (h : x.openingRefusal opening = none) :
    opening.bidOpen ≤ opening.askOpen := by
  rw [EntryInput.openingRefusal] at h
  split_ifs at h with _ _ crossed
  exact not_lt.mp crossed

/-- The function refuses, or goes on with the open. -/
theorem complete_cases (clocks : List (Instant → ℤ)) (x : EntryInput) (h1Atr rate : ℚ)
    (effectiveAt : Instant) :
    (∃ decision reason, decision ≠ .entryPending ∧
      x.complete clocks h1Atr rate effectiveAt = .ok (refused decision reason)) ∨
    ∃ opening, x.opening = some opening ∧ opening.bidOpen ≤ opening.askOpen ∧
      StatesComplete x.levelStates x.levels ∧
      x.complete clocks h1Atr rate effectiveAt = x.opened h1Atr rate effectiveAt opening := by
  rw [EntryInput.complete]
  by_cases inventory : StatesComplete x.levelStates x.levels
  · rw [if_neg (not_not.mpr inventory)]
    cases refusable : x.opening.bind x.openingRefusal with
    | some reason => exact .inl ⟨_, _, by decide, rfl⟩
    | none =>
      dsimp only
      by_cases session :
          x.sessionEligible.getD (inEntrySession clocks x.expectedEntryTimestamp) = false
      · rw [if_pos session]
        exact .inl ⟨_, _, by decide, rfl⟩
      · rw [if_neg session]
        cases here : x.opening with
        | none => exact .inl ⟨_, _, by decide, rfl⟩
        | some opening =>
          dsimp only
          rw [here, Option.bind_some] at refusable
          by_cases closed : x.marketOpen = false
          · rw [if_pos closed]
            exact .inl ⟨_, _, by decide, rfl⟩
          · rw [if_neg closed]
            exact .inr ⟨opening, rfl, openingRefusal_eq_none refusable, inventory, rfl⟩
  · rw [if_pos inventory]
    exact .inl ⟨_, _, by decide, rfl⟩

theorem entryEligibility_cases (clocks : List (Instant → ℤ)) (x : EntryInput) :
    (∃ decision reason, decision ≠ .entryPending ∧
      entryEligibility clocks x = .ok (refused decision reason)) ∨
    ∃ opening h1Atr rate effectiveAt, x.opening = some opening ∧
      opening.bidOpen ≤ opening.askOpen ∧ StatesComplete x.levelStates x.levels ∧ 0 < h1Atr ∧
      0 < rate ∧ entryEligibility clocks x = x.opened h1Atr rate effectiveAt opening := by
  rw [entryEligibility]
  split
  · rename_i h1Atr rate effectiveAt _ _ _
    split_ifs with incomplete
    · exact .inl ⟨_, _, by decide, rfl⟩
    · simp only [not_or, not_le] at incomplete
      rcases complete_cases clocks x h1Atr rate effectiveAt with
        refusal | ⟨opening, here, uncrossed, inventory, goes⟩
      · exact .inl refusal
      · exact .inr ⟨opening, h1Atr, rate, effectiveAt, here, uncrossed, inventory, incomplete.2.1,
          incomplete.2.2.2.1, goes⟩
  · exact .inl ⟨_, _, by decide, rfl⟩

/-! ## Exceptions -/

/-- A stop outside the 28 digits, or a level of no registered family. -/
def Exc.Priced (e : Exc) : Prop := e.cls = .invalidOperation ∨ e.cls = .keyError

theorem quantizePrice_error {rounding : ℚ → ℤ} {precision : Quantum} {value : ℚ} {e : Exc}
    (h : quantizePrice rounding precision value = .error e) : Exc.Priced e := by
  rw [quantizePrice] at h
  split_ifs at h
  cases h
  exact .inl rfl

theorem divide_error {dividend divisor : ℚ} (nonzero : divisor ≠ 0) {e : Exc} :
    divide dividend divisor ≠ .error e := by
  rw [divide, if_neg nonzero]
  exact fun h => by cases h

theorem nearestOpposingTarget_error {price : ℚ} {side : Side} {levels : List LevelSpec}
    {context : Context} {levelStates : List (String × LevelState)} {e : Exc}
    (complete : StatesComplete levelStates levels)
    (h : nearestOpposingTarget price side levels context levelStates = .error e) :
    Exc.Priced e := by
  rw [nearestOpposingTarget, if_neg (not_not.mpr complete)] at h
  rcases bind_eq_error.mp h with h | ⟨keyed, -, h⟩
  · obtain ⟨level, -, h⟩ := exists_mem_of_mapE_error h
    have h := map_eq_error.mp h
    rw [targetOrder] at h
    split at h
    · cases h
      exact .inr rfl
    · cases h
  · cases h

theorem opened_error (positive : 0 < h1Atr) (complete : StatesComplete x.levelStates x.levels)
    {e : Exc} (h : x.opened h1Atr rate effectiveAt opening = .error e) : Exc.Priced e := by
  rw [EntryInput.opened] at h
  rcases bind_eq_error.mp h with h | ⟨wide, -, h⟩
  · rw [EntryInput.spreadTooWide] at h
    split_ifs at h
    exact absurd (map_eq_error.mp h) (divide_error positive.ne')
  · split_ifs at h with tooWide
    · cases h
    · rcases bind_eq_error.mp h with h | ⟨stop, -, h⟩
      · rw [EntryInput.stopPrice] at h
        split at h <;> exact quantizePrice_error h
      · split_ifs at h with within
        · cases h
        · rcases bind_eq_error.mp h with h | ⟨found, -, h⟩
          · exact nearestOpposingTarget_error complete h
          · cases found with
            | none => cases h
            | some level =>
              rcases bind_eq_error.mp h with h | ⟨ratio, -, h⟩
              · rw [EntryInput.rewardRisk] at h
                split_ifs at h with risky
                exact absurd (map_eq_error.mp h) (divide_error risky.ne')
              · split at h
                · cases h
                · split_ifs at h <;> cases h

end

/-- A pending entry has the geometry the return calculation asks for, its target the nearest edge
that decimals tell; and nothing is ever divided by zero. -/
theorem entry_geometry (clocks : List (Instant → ℤ)) (x : EntryInput) :
    (∀ r, entryEligibility clocks x = .ok r → r.decision = .entryPending →
      ∃ opening level entry stop ratio risk cad,
        EntryGeometry x r opening level entry stop ratio risk cad) ∧
      ∀ e, entryEligibility clocks x = .error e → e.cls ≠ zeroDivision := by
  rcases entryEligibility_cases clocks x with
    ⟨decision, reason, other, refusal⟩ |
      ⟨opening, h1Atr, rate, effectiveAt, here, uncrossed, inventory, positive, positive', goes⟩
  · rw [refusal]
    refine ⟨fun r h pending => ?_, fun e h => by cases h⟩
    cases h
    exact absurd pending other
  · rw [goes]
    constructor
    · intro r h pending
      obtain ⟨level, entry, stop, ratio, risk, cad, geometry⟩ :=
        opened_spec positive' here uncrossed h pending
      exact ⟨opening, level, entry, stop, ratio, risk, cad, geometry⟩
    · intro e h
      rcases opened_error positive inventory h with cls | cls <;> rw [cls] <;> decide

/-- A level of a price, with an edge to each side of it. -/
def edgeLevel (key family : String) (role : Role) (zoneLower zoneUpper : ℚ) : LevelSpec where
  key := key
  family := family
  role := role
  centralPrice := zoneLower
  zoneLower := zoneLower
  zoneUpper := zoneUpper
  atrAtActivation := 1
  activatedAt := 0
  sourceAt := 0

/-- An entry at an open of the first hour, in a session, with all its levels active. -/
def firstHour (side : Side) (sweepExtreme bidOpen askOpen h1Atr : ℚ) (levels : List LevelSpec) :
    EntryInput where
  side := side
  sweepExtreme := sweepExtreme
  opening := some ⟨Civil.hour, bidOpen, askOpen⟩
  h1Atr := some h1Atr
  levels := levels
  context := { asOf := Civil.hour }
  expectedEntryTimestamp := Civil.hour
  precision := ⟨1, -5⟩
  absoluteSpreadCeiling := 1
  levelStates := levels.map fun level => (level.key, { state := .active })
  cadConversionRate := some 1
  conversionEffectiveAt := some 0
  conversionIdentity := "identity"
  sessionEligible := some true

/-- A long of 10 against a resistance that starts at 14. -/
def longInput : EntryInput :=
  firstHour .long 9 (99 / 10) 10 1 [edgeLevel "a" "CONFIRMED_DAILY_SWING" .resistance 14 15]

theorem entry_geometry_long : (∃ r opening level entry stop ratio risk cad,
    entryEligibility [] longInput = .ok r ∧ r.decision = .entryPending ∧
      EntryGeometry longInput r opening level entry stop ratio risk cad) ∧
    ∀ e, entryEligibility [] longInput = .error e → e.cls ≠ zeroDivision := by
  have decided : (entryEligibility [] longInput).map EntryResult.decision = .ok .entryPending := by
    decide +kernel
  obtain ⟨r, returned, pending⟩ := map_eq_ok.mp decided
  obtain ⟨opening, level, entry, stop, ratio, risk, cad, geometry⟩ :=
    (entry_geometry [] longInput).1 r returned pending
  exact ⟨⟨r, opening, level, entry, stop, ratio, risk, cad, returned, pending, geometry⟩,
    (entry_geometry [] longInput).2⟩

/-- Two supports whose upper edges, at 1 and below it, are at one distance from 2 to 28 digits. -/
def tiedInput : EntryInput :=
  firstHour .short (21 / 10) 2 (201 / 100) (1 / 10)
    [edgeLevel "a" "CONFIRMED_DAILY_SWING" .support (1 / 2) 1,
      edgeLevel "b" "PREVIOUS_WEEKLY_EXTREME" .support (1 / 2) (1 - 1 / 10 ^ 30)]

/-- The target of a short is the edge further away where the distances round to one. -/
theorem entry_misses_nearest : ∃ r nearer, entryEligibility [] tiedInput = .ok r ∧
    r.decision = .entryPending ∧ r.entry = some 2 ∧ r.target = some (1 - 1 / 10 ^ 30) ∧
      nearer ∈ opposingLevels .short tiedInput.levels tiedInput.context tiedInput.levelStates ∧
      nearer.ahead 2 .short = true ∧ 1 - 1 / 10 ^ 30 < nearer.zoneUpper := by
  have decided : (entryEligibility [] tiedInput).map (fun r => (r.decision, r.entry, r.target)) =
      .ok (.entryPending, some 2, some (1 - 1 / 10 ^ 30)) := by
    decide +kernel
  obtain ⟨r, returned, values⟩ := map_eq_ok.mp decided
  simp only [Prod.mk.injEq] at values
  obtain ⟨pending, entry, target⟩ := values
  exact ⟨r, edgeLevel "a" "CONFIRMED_DAILY_SWING" .support (1 / 2) 1, returned, pending, entry, target,
    by decide +kernel, by decide +kernel, by decide +kernel⟩

end TradeRecommender.Strategy
