import Mathlib.Algebra.BigOperators.Finprod
import TradeRecommender.Lib.Decimals
import TradeRecommender.Strategy.RolloverCalendars

/-!
# Trading costs

`forecasts/costs.py` charges a paper result for the rollovers it is held over, in three scenarios.
The hours of its entry and its exit are known, but not the instants.

1. the days charged for, as a sum over rollovers;
2. longer and split intervals, and the range of a result;
3. the scenarios and their order.
-/

namespace TradeRecommender.Forecasts.Costs

open Civil Decimals Py
open Strategy.Returns (datesThrough date_between financingDaysBetween mem_datesThrough multiplier
  nodup_datesThrough)

/-! ## Rollovers -/

/-- The days charged for one date, to a position from `start` to `end_`. -/
def charged (start end_ : Instant) (date : ℤ) : ℤ :=
  if start < fiveAt date ∧ fiveAt date < end_ ∧ weekday date < 5 then multiplier date else 0

/-- The days charged for all dates. -/
noncomputable def rolloverDays (start end_ : Instant) : ℤ := ∑ᶠ date, charged start end_ date

section
variable {start end_ : Instant} {date : ℤ}

theorem multiplier_nonneg (date : ℤ) : 0 ≤ multiplier date := by
  unfold multiplier
  split_ifs <;> decide

theorem charged_nonneg : 0 ≤ charged start end_ date := by
  unfold charged
  split_ifs
  · exact multiplier_nonneg date
  · exact Int.le_refl 0

theorem mem_of_charged (some_ : charged start end_ date ≠ 0) :
    date ∈ (datesThrough (newYorkWall start / day) (newYorkWall end_ / day)).toFinset := by
  have held : start < fiveAt date ∧ fiveAt date < end_ ∧ weekday date < 5 := by
    by_contra h
    exact some_ (if_neg h)
  exact List.mem_toFinset.mpr (date_between (Int.le_of_lt held.1) (Int.le_of_lt held.2.1))

theorem rolloverDays_eq_sum {dates : Finset ℤ}
    (all : ∀ date, charged start end_ date ≠ 0 → date ∈ dates) :
    rolloverDays start end_ = ∑ date ∈ dates, charged start end_ date :=
  finsum_eq_sum_of_support_subset _ all

/-- **The loop over dates** counts the days of all rollovers. -/
theorem financingDaysBetween_eq : financingDaysBetween start end_ = rolloverDays start end_ := by
  unfold financingDaysBetween
  by_cases none : end_ ≤ start
  · have each : ∀ date, charged start end_ date = 0 := fun date =>
      if_neg fun h => Int.not_lt.mpr none (Int.lt_trans h.1 h.2.1)
    rw [if_pos none, rolloverDays, finsum_congr each, finsum_zero]
  · rw [if_neg none, rolloverDays_eq_sum fun _ => mem_of_charged,
      List.sum_toFinset _ (nodup_datesThrough _ _)]
    rfl

end

/-! ## Intervals -/

section
variable {start end_ start' end' mid : Instant}

theorem charged_mono (first : start' ≤ start) (last : end_ ≤ end') (date : ℤ) :
    charged start end_ date ≤ charged start' end' date := by
  by_cases held : start < fiveAt date ∧ fiveAt date < end_ ∧ weekday date < 5
  · have still : start' < fiveAt date ∧ fiveAt date < end' ∧ weekday date < 5 :=
      ⟨Int.lt_of_le_of_lt first held.1, Int.lt_of_lt_of_le held.2.1 last, held.2.2⟩
    unfold charged
    rw [if_pos held, if_pos still]
  · unfold charged
    rw [if_neg held]
    exact charged_nonneg

/-- **A longer interval** is charged for as many days or more. -/
theorem financingDaysBetween_mono (first : start' ≤ start) (last : end_ ≤ end') :
    financingDaysBetween start end_ ≤ financingDaysBetween start' end' := by
  have inside : ∀ date, charged start end_ date ≠ 0 → charged start' end' date ≠ 0 :=
    fun date some_ => ne_of_gt (lt_of_lt_of_le
      (lt_of_le_of_ne charged_nonneg (Ne.symm some_)) (charged_mono first last date))
  rw [financingDaysBetween_eq, financingDaysBetween_eq,
    rolloverDays_eq_sum fun date some_ => mem_of_charged (inside date some_),
    rolloverDays_eq_sum fun _ => mem_of_charged]
  exact Finset.sum_le_sum fun date _ => charged_mono first last date

theorem charged_split (first : start ≤ mid) (last : mid ≤ end_) {date : ℤ}
    (apart : fiveAt date ≠ mid) :
    charged start end_ date = charged start mid date + charged mid end_ date := by
  unfold charged
  rcases lt_or_gt_of_ne apart with before | after
  · have none : ¬ (mid < fiveAt date ∧ fiveAt date < end_ ∧ weekday date < 5) :=
      fun h => Int.lt_asymm h.1 before
    have same : (start < fiveAt date ∧ fiveAt date < end_ ∧ weekday date < 5) ↔
        (start < fiveAt date ∧ fiveAt date < mid ∧ weekday date < 5) :=
      and_congr_right fun _ => and_congr_left fun _ =>
        ⟨fun _ => before, fun _ => Int.lt_of_lt_of_le before last⟩
    rw [if_neg none, add_zero, if_congr same rfl rfl]
  · have none : ¬ (start < fiveAt date ∧ fiveAt date < mid ∧ weekday date < 5) :=
      fun h => Int.lt_asymm h.2.1 after
    have same : (start < fiveAt date ∧ fiveAt date < end_ ∧ weekday date < 5) ↔
        (mid < fiveAt date ∧ fiveAt date < end_ ∧ weekday date < 5) :=
      and_congr_left fun _ => ⟨fun _ => after, fun _ => Int.lt_of_le_of_lt first after⟩
    rw [if_neg none, zero_add, if_congr same rfl rfl]

/-- **An interval split** at an instant that is no rollover is charged for the days of its parts. -/
theorem financingDaysBetween_split (first : start ≤ mid) (last : mid ≤ end_)
    (apart : ∀ date, fiveAt date ≠ mid) :
    financingDaysBetween start end_ =
      financingDaysBetween start mid + financingDaysBetween mid end_ := by
  have split : ∀ date, charged start end_ date = charged start mid date + charged mid end_ date :=
    fun date => charged_split first last (apart date)
  have left : ∀ date, charged start mid date ≠ 0 → charged start end_ date ≠ 0 :=
    fun date some_ => ne_of_gt (lt_of_lt_of_le
      (lt_of_le_of_ne charged_nonneg (Ne.symm some_)) (charged_mono le_rfl last date))
  have right : ∀ date, charged mid end_ date ≠ 0 → charged start end_ date ≠ 0 :=
    fun date some_ => ne_of_gt (lt_of_lt_of_le
      (lt_of_le_of_ne charged_nonneg (Ne.symm some_)) (charged_mono first le_rfl date))
  rw [financingDaysBetween_eq, financingDaysBetween_eq, financingDaysBetween_eq,
    rolloverDays_eq_sum fun _ => mem_of_charged,
    rolloverDays_eq_sum fun date some_ => mem_of_charged (left date some_),
    rolloverDays_eq_sum fun date some_ => mem_of_charged (right date some_),
    ← Finset.sum_add_distrib]
  exact Finset.sum_congr rfl fun date _ => split date

theorem financingDaysBetween_nonneg : 0 ≤ financingDaysBetween start end_ := by
  rw [financingDaysBetween_eq, rolloverDays_eq_sum fun _ => mem_of_charged]
  exact Finset.sum_nonneg fun _ _ => charged_nonneg

end

/-! ## Results -/

inductive Outcome
  | target | invalidated | expired | notActivated
  deriving DecidableEq

/-- The fields of an entry that are read; its candle is that of an hour. -/
structure PaperTradeEntry where
  candle : Instant
  fillPrice : ℚ
  details : Val

/-- The fields of a result that are read, with the invalidation level of its recommendation. -/
structure PaperTradeResult where
  entry : Option PaperTradeEntry
  outcome : Outcome
  horizonCandle : Option Instant
  exitCandle : Option Instant
  grossPips : Option ℚ
  invalidationLevel : Option ℚ

/-- `_session_close` -/
def sessionClose (intervalStart : Instant) : Instant := newYorkUtc (newYorkWall intervalStart + day)

/-- An attribute or an operand that may be missing. -/
def present {α : Type} (cls : ExcClass) : Option α → Except Exc α
  | some a => .ok a
  | none => raise cls

/-- `entry_start` and `entry_end` -/
def entryHour (entry : PaperTradeEntry) : Except Exc (Instant × Instant) := do
  let entryAtOpen ← entry.details.get "entry_at_candle_open" (.bool false)
  return (entry.candle, if entryAtOpen.truthy then entry.candle else entry.candle + hour)

/-- `exit_start` and `exit_end` -/
def exitHour (result : PaperTradeResult) : Except Exc (Instant × Instant) :=
  if result.outcome = .expired then do
    let candle ← present .attributeError result.horizonCandle
    return (sessionClose candle, sessionClose candle)
  else do
    let candle ← present .attributeError result.exitCandle
    return (candle, candle + hour)

/-- `financing_day_range` -/
def financingDayRange (entry : PaperTradeEntry) (result : PaperTradeResult) :
    Except Exc (ℤ × ℤ) := do
  let (entryStart, entryEnd) ← entryHour entry
  let (exitStart, exitEnd) ← exitHour result
  return (financingDaysBetween entryEnd exitStart, financingDaysBetween entryStart exitEnd)

section
variable {entry : PaperTradeEntry} {result : PaperTradeResult}

theorem entryHour_ordered {hours : Instant × Instant} (h : entryHour entry = .ok hours) :
    hours.1 ≤ hours.2 := by
  obtain ⟨entryAtOpen, -, h⟩ := bind_eq_ok.mp h
  cases h
  have positive : 0 ≤ hour := by decide
  show entry.candle ≤ if _ then _ else _
  split_ifs
  · exact Int.le_refl _
  · exact Int.le_add_of_nonneg_right positive

theorem exitHour_ordered {hours : Instant × Instant} (h : exitHour result = .ok hours) :
    hours.1 ≤ hours.2 := by
  unfold exitHour at h
  split_ifs at h
  · obtain ⟨candle, -, h⟩ := bind_eq_ok.mp h
    cases h
    exact Int.le_refl _
  · obtain ⟨candle, -, h⟩ := bind_eq_ok.mp h
    cases h
    exact Int.le_add_of_nonneg_right (by decide)

/-- **The range of days** holds those of every entry and exit in the hours of the result. -/
theorem financingDayRange_contains {days : ℤ × ℤ} (h : financingDayRange entry result = .ok days) :
    ∃ entered exited, entryHour entry = .ok entered ∧ exitHour result = .ok exited ∧
      days.1 ≤ days.2 ∧
      ∀ entryAt exitAt, entered.1 ≤ entryAt → entryAt ≤ entered.2 → exited.1 ≤ exitAt →
        exitAt ≤ exited.2 →
        days.1 ≤ rolloverDays entryAt exitAt ∧ rolloverDays entryAt exitAt ≤ days.2 := by
  obtain ⟨entered, hentered, h⟩ := bind_eq_ok.mp h
  obtain ⟨exited, hexited, h⟩ := bind_eq_ok.mp h
  cases h
  refine ⟨entered, exited, hentered, hexited, ?_, fun entryAt exitAt after before after' before' => ?_⟩
  · exact financingDaysBetween_mono (entryHour_ordered hentered) (exitHour_ordered hexited)
  · rw [← financingDaysBetween_eq]
    exact ⟨financingDaysBetween_mono before after', financingDaysBetween_mono after before'⟩

end

/-! ## Scenarios -/

/-- `PIP_SIZE` -/
def pipSize : ℚ := 1 / 10000

/-- An entry of `SCENARIOS`. -/
structure CostScenario where
  annualFinancingRate : ℚ
  commissionPips : ℚ

def optimistic : CostScenario := ⟨0, 0⟩

def base : CostScenario := ⟨3 / 100, 1 / 2⟩

def conservative : CostScenario := ⟨6 / 100, 1⟩

/-- What a scenario makes of a result: its entry of `details["scenarios"]` and its net values. -/
structure ScenarioCosts where
  annualAdverseFinancingRate : ℚ
  commissionPipsRoundTurn : ℚ
  financingDays : ℤ
  financingPips : ℚ
  totalCostPips : ℚ
  netPips : ℚ
  netR : ℚ

/-- The turn of the loop over `SCENARIOS`. -/
def scenarioCosts (fillPrice riskPips : ℚ) (grossPips : Option ℚ) (assumptions : CostScenario)
    (days : ℤ) : Except Exc ScenarioCosts := do
  let financingPips := Rounding.div 28 (Rounding.div 28 (Rounding.mul 28
    (Rounding.mul 28 fillPrice assumptions.annualFinancingRate) days) 365) pipSize
  let totalCostPips := Rounding.add 28 financingPips assumptions.commissionPips
  let gross ← present .typeError grossPips
  let netPips ← quantized (-3) (Rounding.sub 28 gross totalCostPips)
  let ratio ← divided netPips riskPips
  let netR ← quantized (-4) ratio
  let financingPips ← quantized (-3) financingPips
  let totalCostPips ← quantized (-3) totalCostPips
  return {
    annualAdverseFinancingRate := assumptions.annualFinancingRate
    commissionPipsRoundTurn := assumptions.commissionPips
    financingDays := days
    financingPips, totalCostPips, netPips, netR }

/-- The fields of an assessment that depend on its result. -/
structure CostAssessment where
  minimumFinancingDays : ℤ
  maximumFinancingDays : ℤ
  optimistic : ScenarioCosts
  base : ScenarioCosts
  conservative : ScenarioCosts
  entryExitHourAmbiguityBounded : Bool

namespace CostAssessment

variable (assessment : CostAssessment)

/-- The check of the order of the scenarios. -/
def Ordered : Prop :=
  assessment.base.netPips ≤ assessment.optimistic.netPips ∧
    assessment.conservative.netPips ≤ assessment.base.netPips ∧
    assessment.base.netR ≤ assessment.optimistic.netR ∧
    assessment.conservative.netR ≤ assessment.base.netR

/-- The columns have room for the values. -/
def Fits : Prop :=
  (∀ days ∈ [assessment.minimumFinancingDays, assessment.maximumFinancingDays],
    0 ≤ days ∧ days ≤ 32767) ∧
  ∀ costs ∈ [assessment.optimistic, assessment.base, assessment.conservative],
    |costs.netPips| < 10 ^ 9 ∧ |costs.netR| < 10 ^ 8

instance : Decidable assessment.Ordered := by unfold Ordered; infer_instance
instance : Decidable assessment.Fits := by unfold Fits; infer_instance

/-- `full_clean` -/
def fullClean : Except Exc Unit :=
  if ¬ assessment.Fits then raise .validationError
  else if assessment.maximumFinancingDays < assessment.minimumFinancingDays then
    raise .validationError "Minimum financing days cannot exceed maximum financing days"
  else if ¬ assessment.Ordered then
    raise .validationError "Paper cost scenarios must be ordered optimistic to conservative"
  else .ok ()

variable {assessment} in
theorem ordered_of_fullClean (h : assessment.fullClean = .ok ()) :
    assessment.minimumFinancingDays ≤ assessment.maximumFinancingDays ∧ assessment.Ordered := by
  unfold fullClean at h
  by_cases room : ¬ assessment.Fits
  · rw [if_pos room] at h
    cases h
  rw [if_neg room] at h
  by_cases days : assessment.maximumFinancingDays < assessment.minimumFinancingDays
  · rw [if_pos days] at h
    cases h
  rw [if_neg days] at h
  by_cases ordered : ¬ assessment.Ordered
  · rw [if_pos ordered] at h
    cases h
  · exact ⟨Int.not_lt.mp days, not_not.mp ordered⟩

end CostAssessment

/-- The values of an assessment of an entered result. -/
def assessmentValues (entry : PaperTradeEntry) (result : PaperTradeResult) :
    Except Exc CostAssessment := do
  let (minimumDays, maximumDays) ← financingDayRange entry result
  let invalidationLevel ← present .typeError result.invalidationLevel
  let riskPips := Rounding.div 28
    (Rounding.abs 28 (Rounding.sub 28 entry.fillPrice invalidationLevel)) pipSize
  let costs := scenarioCosts entry.fillPrice riskPips result.grossPips
  let optimistic ← costs optimistic minimumDays
  let base ← costs base minimumDays
  let conservative ← costs conservative maximumDays
  return {
    minimumFinancingDays := minimumDays
    maximumFinancingDays := maximumDays
    optimistic, base, conservative
    entryExitHourAmbiguityBounded := minimumDays ≠ maximumDays }

/-- `create_cost_assessment` of a result that has none yet. -/
def createCostAssessment (result : PaperTradeResult) : Except Exc (Option CostAssessment) :=
  match result.entry with
  | none => .ok none
  | some entry =>
    if result.outcome = .notActivated then .ok none
    else do
      let assessment ← assessmentValues entry result
      assessment.fullClean
      return some assessment

/-! ## The order of the scenarios -/

section
variable {fillPrice riskPips : ℚ} {grossPips : Option ℚ}

/-- Financing grows with the rate and the days. -/
theorem financing_mono {rate rate' : ℚ} {days days' : ℤ} (priced : 0 ≤ fillPrice)
    (nonneg : 0 ≤ rate) (rates : rate ≤ rate') (nonneg' : 0 ≤ days) (longer : days ≤ days') :
    Rounding.div 28 (Rounding.div 28 (Rounding.mul 28
      (Rounding.mul 28 fillPrice rate) days) 365) pipSize ≤
    Rounding.div 28 (Rounding.div 28 (Rounding.mul 28
      (Rounding.mul 28 fillPrice rate') days') 365) pipSize := by
  have mono := Rounding.fl_mono (show 0 < (28 : ℕ) by decide)
  have pips : (0 : ℚ) ≤ pipSize := by norm_num [pipSize]
  have yearly : Rounding.mul 28 fillPrice rate ≤ Rounding.mul 28 fillPrice rate' :=
    mono (mul_le_mul_of_nonneg_left rates priced)
  have positive : 0 ≤ Rounding.mul 28 fillPrice rate' :=
    Rounding.fl_nonneg 28 (mul_nonneg priced (nonneg.trans rates))
  have days_le : (days : ℚ) ≤ days' := by exact_mod_cast longer
  have days_nonneg : (0 : ℚ) ≤ days := by exact_mod_cast nonneg'
  refine mono (div_le_div_of_nonneg_right (mono ?_) pips)
  exact div_le_div_of_nonneg_right (mono (mul_le_mul yearly days_le days_nonneg positive))
    (by norm_num)

/-- **A scenario of higher rates, commissions and days** leaves no more. -/
theorem scenarioCosts_mono {a b : CostScenario} {days days' : ℤ} {costs costs' : ScenarioCosts}
    (priced : 0 ≤ fillPrice) (risk : 0 ≤ riskPips) (nonneg : 0 ≤ a.annualFinancingRate)
    (rates : a.annualFinancingRate ≤ b.annualFinancingRate)
    (commissions : a.commissionPips ≤ b.commissionPips) (nonneg' : 0 ≤ days) (longer : days ≤ days')
    (h : scenarioCosts fillPrice riskPips grossPips a days = .ok costs)
    (h' : scenarioCosts fillPrice riskPips grossPips b days' = .ok costs') :
    costs'.netPips ≤ costs.netPips ∧ costs'.netR ≤ costs.netR := by
  have mono := Rounding.fl_mono (show 0 < (28 : ℕ) by decide)
  have financing := financing_mono priced nonneg rates nonneg' longer
  obtain ⟨gross, given, h⟩ := bind_eq_ok.mp h
  obtain ⟨netPips, net, h⟩ := bind_eq_ok.mp h
  obtain ⟨ratio, divides, h⟩ := bind_eq_ok.mp h
  obtain ⟨netR, netR_, h⟩ := bind_eq_ok.mp h
  obtain ⟨_, -, h⟩ := bind_eq_ok.mp h
  obtain ⟨_, -, h⟩ := bind_eq_ok.mp h
  cases h
  obtain ⟨gross', given', h'⟩ := bind_eq_ok.mp h'
  obtain ⟨netPips', net', h'⟩ := bind_eq_ok.mp h'
  obtain ⟨ratio', divides', h'⟩ := bind_eq_ok.mp h'
  obtain ⟨netR', netR_', h'⟩ := bind_eq_ok.mp h'
  obtain ⟨_, -, h'⟩ := bind_eq_ok.mp h'
  obtain ⟨_, -, h'⟩ := bind_eq_ok.mp h'
  cases h'
  rw [given] at given'
  cases given'
  have total := mono (add_le_add financing commissions)
  have pips : netPips' ≤ netPips := quantized_mono (mono (sub_le_sub_left total gross)) net' net
  exact ⟨pips, quantized_mono (divided_mono risk pips divides' divides) netR_' netR_⟩

end

section
variable {entry : PaperTradeEntry} {result : PaperTradeResult} {assessment : CostAssessment}

theorem assessmentValues_ordered (priced : 0 ≤ entry.fillPrice)
    (h : assessmentValues entry result = .ok assessment) :
    assessment.minimumFinancingDays ≤ assessment.maximumFinancingDays ∧ assessment.Ordered := by
  obtain ⟨days, range, h⟩ := bind_eq_ok.mp h
  obtain ⟨level, -, h⟩ := bind_eq_ok.mp h
  obtain ⟨first, optimistic_, h⟩ := bind_eq_ok.mp h
  obtain ⟨second, base_, h⟩ := bind_eq_ok.mp h
  obtain ⟨third, conservative_, h⟩ := bind_eq_ok.mp h
  cases h
  obtain ⟨entered, exited, -, -, ordered, -⟩ := financingDayRange_contains range
  have nonneg : 0 ≤ days.1 := by
    obtain ⟨entered, -, range⟩ := bind_eq_ok.mp range
    obtain ⟨exited, -, range⟩ := bind_eq_ok.mp range
    cases range
    exact financingDaysBetween_nonneg
  have risk : 0 ≤ Rounding.div 28 (Rounding.abs 28 (Rounding.sub 28 entry.fillPrice level)) pipSize :=
    Rounding.fl_nonneg 28 (div_nonneg (Rounding.fl_nonneg 28 (abs_nonneg _)) (by norm_num [pipSize]))
  have low := scenarioCosts_mono priced risk (by norm_num [optimistic])
    (by norm_num [optimistic, base]) (by norm_num [optimistic, base]) nonneg le_rfl optimistic_ base_
  have high := scenarioCosts_mono priced risk (by norm_num [base])
    (by norm_num [base, conservative]) (by norm_num [base, conservative]) nonneg ordered base_
    conservative_
  exact ⟨ordered, low.1, high.1, low.2, high.2⟩

theorem createCostAssessment_ordered (h : createCostAssessment result = .ok (some assessment)) :
    assessment.minimumFinancingDays ≤ assessment.maximumFinancingDays ∧ assessment.Ordered := by
  unfold createCostAssessment at h
  split at h
  · cases h
  · split_ifs at h
    · cases h
    · obtain ⟨values, -, h⟩ := bind_eq_ok.mp h
      obtain ⟨_, cleaned, h⟩ := bind_eq_ok.mp h
      cases h
      exact CostAssessment.ordered_of_fullClean cleaned

end

/-- **Trading costs**: the days of financing are monotone under inclusion, and additive where an
interval is split at no rollover; the range of a result is one and holds the days between every entry
and exit in its hours; and the scenarios are in order, for every assessment there is and for the
values of every fill at a positive price. -/
theorem trading_costs :
    (∀ start end_ start' end' : Instant, start' ≤ start → end_ ≤ end' →
      financingDaysBetween start end_ ≤ financingDaysBetween start' end') ∧
    (∀ start mid end_ : Instant, start ≤ mid → mid ≤ end_ → (∀ date, fiveAt date ≠ mid) →
      financingDaysBetween start end_ =
        financingDaysBetween start mid + financingDaysBetween mid end_) ∧
    (∀ entry result days, financingDayRange entry result = .ok days →
      ∃ entered exited, entryHour entry = .ok entered ∧ exitHour result = .ok exited ∧
        days.1 ≤ days.2 ∧
        ∀ entryAt exitAt, entered.1 ≤ entryAt → entryAt ≤ entered.2 → exited.1 ≤ exitAt →
          exitAt ≤ exited.2 →
          days.1 ≤ rolloverDays entryAt exitAt ∧ rolloverDays entryAt exitAt ≤ days.2) ∧
    (∀ result assessment, createCostAssessment result = .ok (some assessment) →
      assessment.Ordered) ∧
    ∀ entry result assessment, 0 < entry.fillPrice →
      assessmentValues entry result = .ok assessment → assessment.Ordered :=
  ⟨fun _ _ _ _ => financingDaysBetween_mono, fun _ _ _ => financingDaysBetween_split,
    fun _ _ _ => financingDayRange_contains,
    fun _ _ h => (createCostAssessment_ordered h).2,
    fun _ _ _ priced h => (assessmentValues_ordered priced.le h).2⟩

/-- An hour that may have been entered before or after the rollover of a Wednesday. -/
def overWednesday : PaperTradeResult where
  entry := some ⟨20684 * day + 20 * hour, 1, .dict []⟩
  outcome := .target
  horizonCandle := none
  exitCandle := some (20686 * day)
  grossPips := some 50
  invalidationLevel := some 2

/-- Its range is from one day to four. -/
theorem trading_costs_overWednesday :
    (∃ assessment, createCostAssessment overWednesday = .ok (some assessment) ∧
      assessment.minimumFinancingDays = 1 ∧ assessment.maximumFinancingDays = 4 ∧
      assessment.Ordered) ∧
    financingDaysBetween (20684 * day) (20686 * day) =
      financingDaysBetween (20684 * day) (20685 * day) +
        financingDaysBetween (20685 * day) (20686 * day) := by
  have computed : ((createCostAssessment overWednesday).map fun found => found.map fun assessment =>
      (assessment.minimumFinancingDays, assessment.maximumFinancingDays)) = .ok (some (1, 4)) := by
    decide +kernel
  obtain ⟨_, created, range⟩ := map_eq_ok.mp computed
  obtain ⟨assessment, same, range⟩ := Option.map_eq_some_iff.mp range
  rw [same] at created
  obtain ⟨first, last⟩ := Prod.mk.inj range
  have evening : newYorkWall (20685 * day) % day = 20 * hour := by decide
  refine ⟨⟨assessment, created, first, last, trading_costs.2.2.2.1 _ _ created⟩,
    trading_costs.2.1 _ _ _ (by decide) (by decide) fun date same => ?_⟩
  rw [eq_fiveAt_iff.mp same] at evening
  simp only [five, hour, day] at evening
  omega

end TradeRecommender.Forecasts.Costs
