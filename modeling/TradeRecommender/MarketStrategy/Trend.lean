import TradeRecommender.Lib.Decimals
import TradeRecommender.Lib.Smoothing
import TradeRecommender.Lib.Summation
import TradeRecommender.MarketState.Features
import TradeRecommender.MarketStrategy.Contracts

/-!
# Continuous forecasts

`market/strategy/trend.py`, with `ContinuousForecast` of `market/strategy/contracts.py`.

1. averages and volatility;
2. the cap and the buffer;
3. components and forecasts;
4. the two rules;
5. averages stay within their inputs;
6. what the buffer returns;
7. the channel values of fine bars;
8. the forecasts.

Numbers are rationals, rounded to the 34 digits of `arithmetic`; exponents are not bounded.
-/

namespace TradeRecommender.MarketStrategy

open Py Civil MarketState
open Decimals (Decimal)
open Rounding (fl smooth OnGrid Representable)

/-- `SPEEDS` -/
def speeds : List (ℕ × ℕ × ℚ) :=
  [(2, 8, 106 / 10), (4, 16, 75 / 10), (8, 32, 53 / 10), (16, 64, 375 / 100), (32, 128, 265 / 100),
    (64, 256, 1875 / 1000)]

/-- `HORIZONS` -/
def horizons : List ℕ := [10, 20, 40, 80, 160, 320]

/-! ## Averages and volatility -/

/-- `ema` -/
def ema (values : List ℚ) (span : ℕ) : Except Exc ℚ :=
  match values with
  | [] => raise .valueError "ema_inputs"
  | value :: observations =>
    if span < 1 then raise .valueError "ema_inputs"
    else
      let alpha := Rounding.div prec 2 (span + 1)
      .ok (fl prec (observations.foldl (smooth prec alpha) value))

/-- `difference ** 2`: a power is computed with three more digits and then rounded. -/
def square (difference : ℚ) : ℚ := fl prec (fl (prec + 3) (difference * difference))

/-- `value.sqrt()`: the nearest number of the context's digits. -/
def sqrt (value : ℚ) : ℚ :=
  let e := Int.log 10 value / 2 - (prec - 1)
  let root := Nat.sqrt ⌊value / 10 ^ (2 * e)⌋₊
  (if (2 * root + 1 : ℚ) ^ 2 * 10 ^ (2 * e) < 4 * value then root + 1 else root) * 10 ^ e

theorem sqrt_pos {value : ℚ} (positive : 0 < value) : 0 < sqrt value := by
  have below : 2 * (Int.log 10 value / 2 - ((prec : ℕ) - 1)) ≤ Int.log 10 value := by
    simp only [prec]
    omega
  have reach : (10 : ℚ) ^ (2 * (Int.log 10 value / 2 - ((prec : ℕ) - 1))) ≤ value :=
    (zpow_le_zpow_right₀ (by norm_num) below).trans
      (by exact_mod_cast Int.zpow_log_le_self (by norm_num : 1 < 10) positive)
  have whole : 1 ≤ ⌊value / 10 ^ (2 * (Int.log 10 value / 2 - (prec - 1)))⌋₊ :=
    Nat.le_floor (by rw [Nat.cast_one, one_le_div (Rounding.ten_zpow_pos _)]; exact reach)
  have root : (0 : ℚ) < Nat.sqrt ⌊value / 10 ^ (2 * (Int.log 10 value / 2 - (prec - 1)))⌋₊ := by
    exact_mod_cast Nat.sqrt_pos.mpr whole
  unfold sqrt
  refine mul_pos ?_ (Rounding.ten_zpow_pos _)
  split_ifs
  · exact_mod_cast Nat.succ_pos _
  · exact root

/-- A volatility is positive where there is one. -/
abbrev Volatility := {value : ℚ // 0 < value}

/-- `sigma` -/
def sigma (closes : List ℚ) : Except Exc (Option Volatility) :=
  if closes.length < 97 then .ok none
  else do
    let differences := (closes.zip closes.tail).map fun pair => Rounding.sub prec pair.2 pair.1
    let variance ← ema (differences.map square) 32
    .ok (if positive : 0 < variance then some ⟨sqrt variance, sqrt_pos positive⟩ else none)

/-! ## The cap and the buffer -/

/-- `cap` -/
def cap (value : ℚ) : ℚ := max (-20) (min 20 value)

/-- `buffer` -/
def buffer (target : ℚ) : Decimal → Except Exc ℚ
  | .finite previous =>
    if 20 < Rounding.abs prec previous then raise .valueError "invalid_previous_forecast"
    else
      let difference := Rounding.sub prec target previous
      .ok (if Rounding.abs prec difference ≤ 1 then previous
        else Rounding.sub prec target (if 0 < difference then 1 else -1))
  | _ => raise .valueError "invalid_previous_forecast"

/-! ## Components and forecasts -/

/-- `Component` -/
structure Component where
  name : String
  raw : Option ℚ
  capped : Option ℚ
  exclusion : Option String
  deriving DecidableEq

/-- The fields of `ContinuousForecast`. -/
structure ForecastFields where
  strategy : String
  value : Option ℚ
  buffered : Option ℚ
  components : List Component
  reason : Option String
  deriving DecidableEq

namespace ForecastFields

variable (forecast : ForecastFields)

/-- The check `forecast_bounds`; every number here is finite. -/
def Bounded : Prop :=
  ∀ entry ∈ [forecast.value, forecast.buffered], ∀ v ∈ entry, Rounding.abs prec v ≤ 20

/-- The check `forecast_missingness`. -/
def Present : Prop :=
  forecast.value.isNone = forecast.reason.isSome ∧ forecast.value.isNone = forecast.buffered.isNone

instance : Decidable forecast.Bounded := by unfold Bounded; infer_instance
instance : Decidable forecast.Present := by unfold Present; infer_instance

end ForecastFields

/-- `ContinuousForecast` -/
structure ContinuousForecast extends ForecastFields where
  bounded : toForecastFields.Bounded
  present : toForecastFields.Present

/-- `ContinuousForecast(…)` -/
def ForecastFields.construct (forecast : ForecastFields) : Except Exc ContinuousForecast :=
  if bounded : forecast.Bounded then
    if present : forecast.Present then .ok ⟨forecast, bounded, present⟩
    else raise .valueError "forecast_missingness"
  else raise .valueError "forecast_bounds"

/-- `combine` -/
def combine (strategy : String) (components : List Component) (previous : Decimal) :
    Except Exc ContinuousForecast :=
  let included := (components.filter fun c => c.exclusion.isNone).map (·.capped)
  if included.isEmpty then
    ForecastFields.construct
      ⟨strategy, none, none, components, some "no_affordable_available_components"⟩
  else do
    -- a missing number cannot be added
    let numbers ← mapE (fun capped => capped.elim (raise .typeError) .ok) included
    let value := cap (Rounding.div prec (Rounding.sum prec numbers) numbers.length)
    let buffered ← buffer value previous
    ForecastFields.construct ⟨strategy, some value, some buffered, components, none⟩

/-- `roundtrip` -/
def CostFigures.roundtrip (figures : CostFigures) : ℚ :=
  let sides := Rounding.add prec figures.commissionPerSide figures.slippagePerSide
  Rounding.add prec (Rounding.add prec figures.spread (Rounding.mul prec 2 sides))
    figures.financingReserve

/-- Why a component with a value is left out, if it is. -/
def exclusion (name : String) (volatility : Option Volatility)
    (costs : String → Option CostEvidence) (cutoff : Instant) : Option String :=
  match volatility, costs name with
  | none, _ => some "volatility_unavailable"
  | some _, none => some "cost_unavailable"
  | some volatility, some cost =>
    match cost.readiness cutoff name with
    | some reason => some reason
    | none =>
      -- evidence that is ready has all its figures
      if cost.figures.any fun figures =>
          1 / 10 < Rounding.div prec figures.roundtrip volatility then some "unaffordable"
      else none

/-- `_component` -/
def component (name : String) (raw : Option ℚ) (volatility : Option Volatility)
    (costs : String → Option CostEvidence) (cutoff : Instant) : Component :=
  match raw with
  | none => ⟨name, none, none, some "warmup_or_zero_range"⟩
  | some raw => ⟨name, some raw, some (cap raw), exclusion name volatility costs cutoff⟩

/-! ## The rules -/

section
variable (bars : List Bar) (costs : String → Option CostEvidence) (cutoff : Instant)
  (previous : Decimal)

/-- The raw value of one speed. -/
def crossover (closes : List ℚ) (volatility : Option Volatility) (fast slow : ℕ) (scalar : ℚ) :
    Except Exc (Option ℚ) :=
  match volatility with
  | none => .ok none
  | some volatility =>
    if max (3 * slow) 97 ≤ closes.length then do
      let quick ← ema closes fast
      let steady ← ema closes slow
      let spread := Rounding.mul prec scalar (Rounding.sub prec quick steady)
      .ok (some (Rounding.div prec spread volatility))
    else .ok none

/-- `ewmac` -/
def ewmac : Except Exc ContinuousForecast := do
  let closes := if contiguous bars then bars.map (·.close) else []
  let volatility ← sigma closes
  let components ← mapE (fun (speed : ℕ × ℕ × ℚ) => do
    let raw ← crossover closes volatility speed.1 speed.2.1 speed.2.2
    .ok (component s!"ewmac-{speed.1}-{speed.2.1}" raw volatility costs cutoff)) speeds
  combine "ewmac-d-v1" components previous

/-- Where the close of a window stands in the window's range, unless the range is empty. -/
def channelValue : List Bar → Except Exc (Option ℚ)
  | [] => raise .valueError "max() iterable argument is empty"
  | first :: rest =>
    let high := rest.foldl (fun high bar => max high bar.high) first.high
    let low := rest.foldl (fun low bar => min low bar.low) first.low
    let middle := Rounding.div prec (Rounding.add prec high low) 2
    let above := Rounding.mul prec 40 (Rounding.sub prec (rest.getLastD first).close middle)
    .ok (if high = low then none else some (Rounding.div prec above (Rounding.sub prec high low)))

/-- The windows of a horizon, oldest first. -/
def windows (horizon : ℕ) : List (List Bar) :=
  (List.range (bars.length + 1 - horizon)).map fun start => (bars.drop start).take horizon

/-- The raw value of one horizon; an empty range starts the values anew. -/
def channel (horizon : ℕ) : Except Exc (Option ℚ) := do
  let span := (horizon + 3) / 4
  let found ← mapE channelValue (windows bars horizon)
  let values := found.foldl (fun values value => value.elim [] fun v => values ++ [v]) []
  if 3 * span ≤ values.length then do .ok (some (← ema values span)) else .ok none

/-- `breakout` -/
def breakout : Except Exc ContinuousForecast := do
  let bars := if contiguous bars then bars else []
  let volatility ← sigma (bars.map (·.close))
  let components ← mapE (fun horizon => do
    let raw ← channel bars horizon
    .ok (component s!"breakout-{horizon}" raw volatility costs cutoff)) horizons
  combine "breakout-d-v1" components previous

end

/-! ## Averages stay within their inputs -/

theorem fl_intCast {n : ℤ} (size : |n| ≤ 10 ^ prec) : fl prec n = n :=
  Rounding.fl_of_representable (by decide) ⟨n, 0, size, by rw [zpow_zero, mul_one]⟩

/-- The weight of a span of two or more leaves room for the roundings of a step. -/
theorem fraction_of_span {span : ℕ} (wide : 2 ≤ span) :
    Rounding.Fraction prec (Rounding.div prec 2 (span + 1)) := by
  have two : (2 : ℚ) ≤ span := by exact_mod_cast wide
  have weight : (2 : ℚ) / (span + 1) ≤ 7 / 10 := by
    rw [div_le_div_iff₀ (by linarith) (by norm_num)]
    linarith
  have tenths : fl prec (7 / 10) = 7 / 10 :=
    Rounding.fl_of_representable (by decide) ⟨7, -1, by norm_num, by norm_num⟩
  have bound : Rounding.div prec 2 (span + 1) ≤ 7 / 10 := by
    rw [← tenths]
    exact Rounding.fl_mono (by decide) weight
  constructor
  · exact Rounding.fl_nonneg prec (div_nonneg (by norm_num) (by linarith))
  · calc Rounding.div prec 2 (span + 1) * (1 + Rounding.unitRoundoff prec) ^ 2
        ≤ 7 / 10 * (1 + Rounding.unitRoundoff prec) ^ 2 :=
          mul_le_mul_of_nonneg_right bound (sq_nonneg _)
      _ ≤ 1 := by norm_num [Rounding.unitRoundoff, prec]

theorem ema_returns {values : List ℚ} {span : ℕ} (some_ : values ≠ []) (positive : 1 ≤ span) :
    ∃ average, ema values span = .ok average := by
  cases values with
  | nil => exact absurd rfl some_
  | cons value observations => exact ⟨_, if_neg (not_lt.mpr positive)⟩

/-- **An average** of a span of two or more stays within the bounds of its inputs. -/
theorem ema_within {values : List ℚ} {span : ℕ} {average low high : ℚ} (wide : 2 ≤ span)
    (found : ema values span = .ok average) (all : ∀ value ∈ values, low ≤ value ∧ value ≤ high) :
    fl prec low ≤ average ∧ average ≤ fl prec high := by
  have rounded : ∀ value ∈ values, fl prec low ≤ fl prec value ∧ fl prec value ≤ fl prec high :=
    fun value mem => ⟨Rounding.fl_mono (by decide) (all value mem).1,
      Rounding.fl_mono (by decide) (all value mem).2⟩
  cases values with
  | nil => cases found
  | cons value observations =>
    rw [ema, if_neg (by omega), Except.ok.injEq] at found
    rw [← found]
    exact (fraction_of_span wide).foldl (by decide) (rounded value List.mem_cons_self)
      fun x mem => rounded x (List.mem_cons_of_mem value mem)

theorem sigma_returns (closes : List ℚ) : ∃ volatility, sigma closes = .ok volatility := by
  unfold sigma
  by_cases short : closes.length < 97
  · exact ⟨none, if_pos short⟩
  · rw [if_neg short]
    refine bind_returns (ema_returns ?_ (by decide)) fun variance _ => ⟨_, rfl⟩
    rw [ne_eq, ← List.length_eq_zero_iff, List.length_map, List.length_map, List.length_zip,
      List.length_tail]
    omega

/-! ## The buffer -/

section
variable {target previous buffered : ℚ}

theorem cap_within (value : ℚ) : -20 ≤ cap value ∧ cap value ≤ 20 :=
  ⟨le_max_left _ _, max_le (by norm_num) (min_le_left _ _)⟩

theorem cap_of_within {value : ℚ} (low : -20 ≤ value) (high : value ≤ 20) : cap value = value := by
  rw [cap, min_eq_right high, max_eq_right low]

theorem fl_cap {value : ℚ} (given : fl prec value = value) : fl prec (cap value) = cap value := by
  have twenty : fl prec 20 = 20 := by exact_mod_cast fl_intCast (n := 20) (by norm_num)
  have mono : Monotone (fl prec) := Rounding.fl_mono (by decide)
  rw [cap, mono.map_max, mono.map_min, Rounding.fl_neg, twenty, given]

/-- A value that is accepted lies within the range once it is rounded. -/
theorem abs_le_twenty {value : ℚ} :
    Rounding.abs prec value ≤ 20 ↔ -20 ≤ fl prec value ∧ fl prec value ≤ 20 := by
  rw [Rounding.abs, ← Rounding.abs_fl, abs_le]

/-- The half unit of the last digit of what a buffer returns. -/
abbrev slack : ℚ := 5 / 10 ^ 33

/-- What is returned below a target that lies more than the buffer ahead. -/
theorem buffer_up (given : fl prec target = target) (low : -20 ≤ fl prec previous)
    (high : target ≤ 20) (far : 1 < target - previous) :
    fl prec previous ≤ fl prec (target - 1) ∧ fl prec (target - 1) ≤ target ∧
      |fl prec (target - 1) - (target - 1)| ≤ slack := by
  have ahead : previous ≤ target - 1 := by linarith
  have floor : -20 ≤ fl prec (target - 1) := low.trans (Rounding.fl_mono (by decide) ahead)
  refine ⟨Rounding.fl_mono (by decide) ahead, ?_, ?_⟩
  · conv_rhs => rw [← given]
    exact Rounding.fl_mono (by decide) (by linarith)
  · have near : |target - 1| < 100 := by
      refine abs_lt.mpr ⟨?_, by linarith⟩
      by_contra below
      have : fl prec (target - 1) ≤ fl prec (-100 : ℤ) :=
        Rounding.fl_mono (by decide) (by push_cast; linarith [not_lt.mp below])
      rw [fl_intCast (by norm_num)] at this
      push_cast at this
      linarith
    have hundred : (100 : ℚ) = 10 ^ ((1 : ℤ) + 1) := by norm_num
    refine (Rounding.abs_fl_sub_le_of_lt (hundred ▸ near)).trans ?_
    norm_num [prec, slack]

/-- What `buffer` returns: it is close to the target, on the way there, and stays where it is. -/
structure Buffered (target previous buffered : ℚ) : Prop where
  low : -20 ≤ fl prec buffered
  high : fl prec buffered ≤ 20
  exact : fl prec previous = previous → fl prec buffered = buffered
  /-- The previous value, or one between it and the target. -/
  between : buffered = previous ∨ fl prec previous ≤ buffered ∧ buffered ≤ target ∨
    target ≤ buffered ∧ buffered ≤ fl prec previous
  near : |buffered - target| ≤ 1 + slack
  again : buffer target (.finite buffered) = .ok buffered

theorem sub_pos_iff : 0 < Rounding.sub prec target previous ↔ previous < target := by
  rw [← not_le, Rounding.sub, Rounding.fl_nonpos_iff (by decide), sub_nonpos, not_le]

theorem buffer_near (accepted : Rounding.abs prec previous ≤ 20)
    (near : Rounding.abs prec (Rounding.sub prec target previous) ≤ 1) :
    buffer target (.finite previous) = .ok previous := by
  rw [buffer, if_neg (not_lt.mpr accepted)]
  simp only
  rw [if_pos near]

theorem buffer_far (accepted : Rounding.abs prec previous ≤ 20)
    (far : 1 < Rounding.abs prec (Rounding.sub prec target previous)) :
    buffer target (.finite previous) =
      .ok (fl prec (target - if previous < target then 1 else -1)) := by
  rw [buffer, if_neg (not_lt.mpr accepted)]
  simp only
  rw [if_neg (not_le.mpr far), Rounding.sub]
  simp only [sub_pos_iff]

/-- Within the buffer nothing moves. -/
theorem buffered_near (lower : -20 ≤ fl prec previous) (upper : fl prec previous ≤ 20)
    (near : Rounding.abs prec (Rounding.sub prec target previous) ≤ 1) :
    Buffered target previous previous where
  low := lower
  high := upper
  exact := id
  between := .inl rfl
  near := by
    have short : fl prec |target - previous| ≤ 1 := by
      rwa [Rounding.abs, Rounding.sub, Rounding.abs_fl, Rounding.fl_fl (by decide)] at near
    have error := (abs_le.mp (Rounding.abs_fl_sub_le_mul prec |target - previous|)).1
    rw [abs_abs, abs_sub_comm] at error
    rw [abs_sub_comm] at short
    have unit : Rounding.unitRoundoff prec = 5 / 10 ^ 34 := by
      norm_num [Rounding.unitRoundoff, prec]
    rw [unit] at error
    unfold slack
    linarith
  again := buffer_near (abs_le_twenty.mpr ⟨lower, upper⟩) near

/-- Beyond the buffer the value moves to the edge of it. -/
theorem buffered_far (given : fl prec target = target) (low : -20 ≤ target) (high : target ≤ 20)
    (lower : -20 ≤ fl prec previous) (upper : fl prec previous ≤ 20)
    (far : 1 < Rounding.abs prec (Rounding.sub prec target previous)) :
    Buffered target previous (fl prec (target - if previous < target then 1 else -1)) := by
  have long : 1 < |target - previous| := by
    by_contra short
    have : fl prec |target - previous| ≤ fl prec (1 : ℤ) :=
      Rounding.fl_mono (by decide) (by push_cast; exact not_lt.mp short)
    rw [fl_intCast (by norm_num), ← Rounding.abs_fl] at this
    rw [Rounding.abs, Rounding.sub, Rounding.abs_fl, Rounding.fl_fl (by decide),
      ← Rounding.abs_fl] at far
    push_cast at this
    linarith
  -- applied once more, the buffer finds the value at its edge or moves it there again
  have stays : ∀ buffered, -20 ≤ fl prec buffered → fl prec buffered ≤ 20 →
      (buffered < target ↔ previous < target) →
      fl prec (target - if previous < target then 1 else -1) = buffered →
      buffer target (.finite buffered) = .ok buffered := by
    intro buffered lower upper same edge
    have accepted := abs_le_twenty.mpr ⟨lower, upper⟩
    rcases le_or_gt (Rounding.abs prec (Rounding.sub prec target buffered)) 1 with near | far
    · exact buffer_near accepted near
    · rw [buffer_far accepted far]
      simp only [same, edge]
  have positive : 0 < slack := by norm_num [slack]
  have small : slack < 1 := by norm_num [slack]
  rcases lt_abs.mp long with ahead | behind
  · obtain ⟨above, below, close⟩ := buffer_up given lower high ahead
    have up : previous < target := by linarith
    obtain ⟨fall, rise⟩ := abs_le.mp close
    have least : -20 ≤ fl prec (fl prec (target - 1)) := by
      rw [Rounding.fl_fl (by decide)]
      exact lower.trans above
    have most : fl prec (fl prec (target - 1)) ≤ 20 := by
      rw [Rounding.fl_fl (by decide)]
      exact below.trans high
    refine if_pos up ▸ ⟨least, most, fun _ => Rounding.fl_fl (by decide) _,
      .inr (.inl ⟨above, below⟩), abs_le.mpr ⟨?_, ?_⟩, stays _ least most ?_ (by rw [if_pos up])⟩
    · linarith
    · linarith
    · exact iff_of_true (by linarith) up
  · have mirrored : -20 ≤ fl prec (-previous) := by
      rw [Rounding.fl_neg]
      linarith
    have down : ¬ previous < target := by linarith
    obtain ⟨above, below, close⟩ := buffer_up (by rw [Rounding.fl_neg, given]) mirrored
      (neg_le.mp low) (by linarith : 1 < -target - -previous)
    have back : -target - 1 = -(target - -1) := by ring
    rw [back, Rounding.fl_neg, Rounding.fl_neg, neg_le_neg_iff] at above
    rw [back, Rounding.fl_neg, neg_le_neg_iff] at below
    rw [back, Rounding.fl_neg, ← neg_add', abs_neg] at close
    obtain ⟨fall, rise⟩ := abs_le.mp close
    have least : -20 ≤ fl prec (fl prec (target - -1)) := by
      rw [Rounding.fl_fl (by decide)]
      exact low.trans below
    have most : fl prec (fl prec (target - -1)) ≤ 20 := by
      rw [Rounding.fl_fl (by decide)]
      exact above.trans upper
    refine if_neg down ▸ ⟨least, most, fun _ => Rounding.fl_fl (by decide) _,
      .inr (.inr ⟨below, above⟩), abs_le.mpr ⟨?_, ?_⟩, stays _ least most ?_ (by rw [if_neg down])⟩
    · linarith
    · linarith
    · exact iff_of_false (by linarith) down

/-- **The buffer** accepts a previous value within the range and returns a buffered one. -/
theorem buffer_spec (given : fl prec target = target) (low : -20 ≤ target) (high : target ≤ 20)
    (accepted : Rounding.abs prec previous ≤ 20) :
    ∃ buffered, buffer target (.finite previous) = .ok buffered ∧
      Buffered target previous buffered := by
  obtain ⟨lower, upper⟩ := abs_le_twenty.mp accepted
  rcases le_or_gt (Rounding.abs prec (Rounding.sub prec target previous)) 1 with near | far
  · exact ⟨previous, buffer_near accepted near, buffered_near lower upper near⟩
  · exact ⟨_, buffer_far accepted far, buffered_far given low high lower upper far⟩

end

/-! ## Channel values -/

/-- A bar whose prices are positive multiples of `10 ^ e` of at most 33 digits. -/
structure Fine (e : ℤ) (bar : Bar) : Prop where
  valid : bar.Valid
  positive : 0 < bar.low
  high : OnGrid e bar.high
  low : OnGrid e bar.low
  close : OnGrid e bar.close
  size : bar.high ≤ 10 ^ 33 * 10 ^ e

/-- The extreme of a window is one of its values and relates to all of them. -/
theorem foldl_extreme {g : ℚ → ℚ → ℚ} {R : ℚ → ℚ → Prop} (trans : ∀ a b c, R a b → R b c → R a c)
    (left : ∀ a b, R a (g a b)) (right : ∀ a b, R b (g a b)) (refl : ∀ a, R a a)
    (choice : ∀ a b, g a b = a ∨ g a b = b) (f : Bar → ℚ) (first : Bar) (rest : List Bar) :
    (∃ bar ∈ first :: rest, f bar = rest.foldl (fun a bar => g a (f bar)) (f first)) ∧
      ∀ bar ∈ first :: rest, R (f bar) (rest.foldl (fun a bar => g a (f bar)) (f first)) := by
  suffices general : ∀ a, (rest.foldl (fun a bar => g a (f bar)) a = a ∨
      ∃ bar ∈ rest, f bar = rest.foldl (fun a bar => g a (f bar)) a) ∧
      R a (rest.foldl (fun a bar => g a (f bar)) a) ∧
      ∀ bar ∈ rest, R (f bar) (rest.foldl (fun a bar => g a (f bar)) a) by
    obtain ⟨reached, start, all⟩ := general (f first)
    refine ⟨?_, List.forall_mem_cons.mpr ⟨start, all⟩⟩
    rcases reached with same | ⟨bar, mem, same⟩
    · exact ⟨first, List.mem_cons_self, same.symm⟩
    · exact ⟨bar, List.mem_cons_of_mem first mem, same⟩
  induction rest with
  | nil => exact fun a => ⟨.inl rfl, refl a, fun _ mem => absurd mem List.not_mem_nil⟩
  | cons next rest ih =>
    intro a
    obtain ⟨reached, start, all⟩ := ih (g a (f next))
    refine ⟨?_, trans _ _ _ (left a (f next)) start,
      List.forall_mem_cons.mpr ⟨trans _ _ _ (right a (f next)) start, all⟩⟩
    rcases reached with same | ⟨bar, mem, same⟩
    · rcases choice a (f next) with old | new
      · exact .inl (same.trans old)
      · exact .inr ⟨next, List.mem_cons_self, (same.trans new).symm⟩
    · exact .inr ⟨bar, List.mem_cons_of_mem next mem, same⟩

section
variable {e : ℤ} {high low close : ℚ}

/-- On prices of at most 33 digits everything up to the quotient is exact. -/
theorem channel_within (gh : OnGrid e high) (gl : OnGrid e low) (gc : OnGrid e close)
    (positive : 0 < low) (above : low ≤ close) (below : close ≤ high) (apart : low < high)
    (size : high ≤ 10 ^ 33 * 10 ^ e) :
    ∀ value, Rounding.div prec (Rounding.mul prec 40 (Rounding.sub prec close
      (Rounding.div prec (Rounding.add prec high low) 2))) (Rounding.sub prec high low) = value →
      -20 ≤ value ∧ value ≤ 20 := by
  rintro value rfl
  have unit := Rounding.ten_zpow_pos e
  have coarse : (10 : ℚ) ^ (e + 1) = 10 ^ e * 10 := zpow_add_one₀ (by norm_num) e
  have fine : (10 : ℚ) ^ (e - 1) = 10 ^ e * 10⁻¹ := zpow_sub_one₀ (by norm_num) e
  have total : Rounding.add prec high low = high + low := by
    refine Rounding.fl_of_onGrid (by decide) (gh.add gl) (abs_le.mpr ⟨?_, ?_⟩) <;>
      norm_num [prec] at size ⊢ <;> linarith
  have middle : Rounding.div prec (high + low) 2 = (high + low) / 2 := by
    refine Rounding.fl_of_onGrid (by decide) (gh.add gl).half (abs_le.mpr ⟨?_, ?_⟩) <;>
      rw [fine] <;> norm_num [prec] at size ⊢ <;> linarith
  have distance : Rounding.sub prec close ((high + low) / 2) = close - (high + low) / 2 := by
    have grid : OnGrid (e - 1) (close - (high + low) / 2) := by
      rw [sub_eq_add_neg close]
      exact gc.finer.add (gh.add gl).half.neg
    refine Rounding.fl_of_onGrid (by decide) grid (abs_le.mpr ⟨?_, ?_⟩) <;>
      rw [fine] <;> norm_num [prec] at size ⊢ <;> linarith
  have scaled : Rounding.mul prec 40 (close - (high + low) / 2) =
      20 * (close + close + -(high + low)) := by
    have offset := (gc.add gc).add (gh.add gl).neg
    have grid := (offset.add offset).ten
    have exact_ : 40 * (close - (high + low) / 2) = 10 * (close + close + -(high + low) +
      (close + close + -(high + low))) := by ring
    have same : 20 * (close + close + -(high + low)) = 10 * (close + close + -(high + low) +
      (close + close + -(high + low))) := by ring
    rw [Rounding.mul, exact_, same]
    refine Rounding.fl_of_onGrid (by decide) grid (abs_le.mpr ⟨?_, ?_⟩) <;>
      rw [coarse] <;> norm_num [prec] at size ⊢ <;> linarith
  have range : Rounding.sub prec high low = high - low := by
    have grid : OnGrid e (high - low) := by
      rw [sub_eq_add_neg]
      exact gh.add gl.neg
    refine Rounding.fl_of_onGrid (by decide) grid (abs_le.mpr ⟨?_, ?_⟩) <;>
      norm_num [prec] at size ⊢ <;> linarith
  have wide : 0 < high - low := sub_pos.mpr apart
  have twenty : fl prec 20 = 20 := by exact_mod_cast fl_intCast (n := 20) (by norm_num)
  rw [total, middle, distance, scaled, range]
  constructor
  · have bottom : fl prec (-20) = -20 := by rw [Rounding.fl_neg, twenty]
    conv_lhs => rw [← bottom]
    refine Rounding.fl_mono (by decide) ?_
    rw [le_div_iff₀ wide]
    linarith
  · conv_rhs => rw [← twenty]
    refine Rounding.fl_mono (by decide) ?_
    rw [div_le_iff₀ wide]
    linarith

end

theorem channelValue_returns {window : List Bar} (some_ : window ≠ []) :
    ∃ value, channelValue window = .ok value := by
  cases window with
  | nil => exact absurd rfl some_
  | cons first rest => exact ⟨_, rfl⟩

/-- **A channel value** of fine bars is within the range. -/
theorem channelValue_within {e : ℤ} {window : List Bar} {value : Option ℚ}
    (fine : ∀ bar ∈ window, Fine e bar) (found : channelValue window = .ok value) :
    ∀ v ∈ value, -20 ≤ v ∧ v ≤ 20 := by
  cases window with
  | nil => cases found
  | cons first rest =>
    obtain ⟨⟨highest, inHigh, top⟩, above⟩ := foldl_extreme (g := max) (R := (· ≤ ·))
      (fun _ _ _ => le_trans) le_max_left le_max_right le_refl max_choice (·.high) first rest
    obtain ⟨⟨lowest, inLow, bottom⟩, below⟩ := foldl_extreme (g := min) (R := (· ≥ ·))
      (fun _ _ _ => ge_trans) min_le_left min_le_right le_refl min_choice (·.low) first rest
    have inLast : rest.getLastD first ∈ first :: rest := List.getLastD_mem_cons
    have last := fine _ inLast
    rw [channelValue, Except.ok.injEq] at found
    rw [← found]
    intro v given
    simp only [← top, ← bottom] at given above below
    split_ifs at given with flat
    · cases given
    · have ordered : lowest.low ≤ highest.high :=
        (below _ inHigh).trans
          ((fine _ inHigh).valid.low_close.trans (fine _ inHigh).valid.close_high)
      exact channel_within (fine _ inHigh).high (fine _ inLow).low last.close
        (fine _ inLow).positive ((below _ inLast).trans last.valid.low_close) (last.valid.close_high.trans (above _ inLast))
        (lt_of_le_of_ne ordered (Ne.symm flat)) (fine _ inHigh).size v (Option.some.inj given)

/-! ## The forecasts -/

/-- What a forecast made after a previous value says, if it says anything. -/
def Sound (previous : ℚ) (forecast : ContinuousForecast) : Prop :=
  ∀ target, forecast.value = some target → -20 ≤ target ∧ target ≤ 20 ∧
    ∃ buffered, forecast.buffered = some buffered ∧ Buffered target previous buffered

section
variable {components : List Component} {costs : String → Option CostEvidence}
  {cutoff : Instant} {previous : ℚ} {bars : List Bar}

/-- Components that are not left out have a number. -/
def Complete (components : List Component) : Prop :=
  ∀ c ∈ components, c.exclusion = none → ∃ v, c.capped = some v

/-- **Combining** complete components makes a sound forecast; its constructor does not raise. -/
theorem combine_spec (strategy : String) (complete : Complete components)
    (accepted : Rounding.abs prec previous ≤ 20) :
    ∃ forecast, combine strategy components (.finite previous) = .ok forecast ∧
      forecast.components = components ∧ Sound previous forecast := by
  unfold combine
  by_cases empty : ((components.filter fun c => c.exclusion.isNone).map (·.capped)).isEmpty
  · rw [if_pos empty]
    have bounded : (ForecastFields.mk strategy none none components
        (some "no_affordable_available_components")).Bounded := by
      intro entry mem v given
      rcases List.mem_pair.mp mem with rfl | rfl <;> cases given
    refine ⟨⟨_, bounded, rfl, rfl⟩, ?_, rfl, fun target given => (by cases given)⟩
    rw [ForecastFields.construct, dif_pos bounded, dif_pos ⟨rfl, rfl⟩]
  · rw [if_neg empty]
    have numbered : ∀ capped ∈ (components.filter fun c => c.exclusion.isNone).map (·.capped),
        ∃ v, capped.elim (raise .typeError) Except.ok = .ok v := by
      intro capped mem
      obtain ⟨c, inside, rfl⟩ := List.mem_map.mp mem
      obtain ⟨member, kept⟩ := List.mem_filter.mp inside
      obtain ⟨v, given⟩ := complete c member (Option.isNone_iff_eq_none.mp kept)
      exact ⟨v, by rw [given]; rfl⟩
    obtain ⟨numbers, found⟩ := mapE_returns numbered
    have given : fl prec (cap (Rounding.div prec (Rounding.sum prec numbers) numbers.length)) =
        cap (Rounding.div prec (Rounding.sum prec numbers) numbers.length) :=
      fl_cap (Rounding.fl_fl (by decide) _)
    obtain ⟨low, high⟩ := cap_within (Rounding.div prec (Rounding.sum prec numbers) numbers.length)
    obtain ⟨buffered, reached, sound⟩ := buffer_spec given low high accepted
    have bounded : (ForecastFields.mk strategy
        (some (cap (Rounding.div prec (Rounding.sum prec numbers) numbers.length))) (some buffered)
        components none).Bounded := by
      intro entry mem v known
      rcases List.mem_pair.mp mem with rfl | rfl
      · obtain rfl := Option.some.inj known
        exact abs_le_twenty.mpr ⟨given.symm ▸ low, given.symm ▸ high⟩
      · obtain rfl := Option.some.inj known
        exact abs_le_twenty.mpr ⟨sound.low, sound.high⟩
    refine ⟨⟨_, bounded, rfl, rfl⟩, ?_, rfl, fun target known => ?_⟩
    · simp only [found, bind, Except.bind]
      rw [reached]
      simp only [ForecastFields.construct]
      rw [dif_pos bounded, dif_pos ⟨rfl, rfl⟩]
    · obtain rfl := Option.some.inj known
      exact ⟨low, high, buffered, rfl, sound⟩

theorem component_capped {name : String} {raw : Option ℚ} {volatility : Option Volatility} :
    (component name raw volatility costs cutoff).capped = raw.map cap := by
  cases raw <;> rfl

theorem component_raw {name : String} {raw : Option ℚ} {volatility : Option Volatility} :
    (component name raw volatility costs cutoff).raw = raw := by
  cases raw <;> rfl

theorem component_complete {name : String} {raw : Option ℚ} {volatility : Option Volatility}
    (kept : (component name raw volatility costs cutoff).exclusion = none) :
    ∃ v, (component name raw volatility costs cutoff).capped = some v := by
  cases raw with
  | none => cases kept
  | some raw => exact ⟨cap raw, rfl⟩

theorem crossover_returns (closes : List ℚ) (volatility : Option Volatility) {fast slow : ℕ}
    (scalar : ℚ) (quick : 1 ≤ fast) (steady : 1 ≤ slow) :
    ∃ raw, crossover closes volatility fast slow scalar = .ok raw := by
  cases volatility with
  | none => exact ⟨none, rfl⟩
  | some volatility =>
    unfold crossover
    by_cases long : max (3 * slow) 97 ≤ closes.length
    · have some_ : closes ≠ [] := by
        rintro rfl
        simp at long
      simp only [if_pos long]
      exact bind_returns (ema_returns some_ quick) fun _ _ =>
        bind_returns (ema_returns some_ steady) fun _ _ => ⟨_, rfl⟩
    · simp only [if_neg long]
      exact ⟨none, rfl⟩

/-- A rule that makes one component for each of its parameters makes a sound forecast. -/
theorem rule_spec {α : Type} (strategy : String) (make : α → Except Exc Component)
    (parameters : List α) (Q : Component → Prop) (accepted : Rounding.abs prec previous ≤ 20)
    (makes : ∀ p ∈ parameters, ∃ c, make p = .ok c ∧
      (c.exclusion = none → ∃ v, c.capped = some v) ∧ Q c) :
    ∃ forecast, (do combine strategy (← mapE make parameters) (.finite previous)) =
      Except.ok forecast ∧ Sound previous forecast ∧ ∀ c ∈ forecast.components, Q c := by
  obtain ⟨components, found, related⟩ := mapE_forall₂ makes
  have each : ∀ c ∈ components, (c.exclusion = none → ∃ v, c.capped = some v) ∧ Q c := by
    intro c mem
    obtain ⟨i, inside, rfl⟩ := List.mem_iff_getElem.mp mem
    exact (related.get (related.length_eq.symm ▸ inside) inside)
  obtain ⟨forecast, combined, same, sound⟩ :=
    combine_spec strategy (fun c mem => (each c mem).1) accepted
  refine ⟨forecast, ?_, sound, fun c mem => (each c (same ▸ mem)).2⟩
  rw [found]
  exact combined

/-- **The crossover rule** makes a sound forecast of any bars. -/
theorem ewmac_spec (accepted : Rounding.abs prec previous ≤ 20) :
    ∃ forecast, ewmac bars costs cutoff (.finite previous) = .ok forecast ∧
      Sound previous forecast := by
  obtain ⟨volatility, found⟩ :=
    sigma_returns (if contiguous bars then bars.map (·.close) else [])
  have spans : ∀ speed ∈ speeds, 1 ≤ speed.1 ∧ 1 ≤ speed.2.1 := by decide
  obtain ⟨forecast, combined, sound, -⟩ := rule_spec "ewmac-d-v1"
    (fun speed : ℕ × ℕ × ℚ => do
      let raw ← crossover (if contiguous bars then bars.map (·.close) else []) volatility speed.1
        speed.2.1 speed.2.2
      .ok (component s!"ewmac-{speed.1}-{speed.2.1}" raw volatility costs cutoff))
    speeds (fun _ => True) accepted (by
      intro speed mem
      obtain ⟨raw, computed⟩ := crossover_returns (if contiguous bars then bars.map (·.close)
        else []) volatility speed.2.2 (spans speed mem).1 (spans speed mem).2
      refine ⟨component s!"ewmac-{speed.1}-{speed.2.1}" raw volatility costs cutoff, ?_,
        component_complete, trivial⟩
      simp only [computed, bind, Except.bind])
  refine ⟨forecast, ?_, sound⟩
  rw [← combined, ewmac, found]
  rfl

theorem mem_windows {horizon : ℕ} {window : List Bar} (mem : window ∈ windows bars horizon) :
    (0 < horizon → window ≠ []) ∧ ∀ bar ∈ window, bar ∈ bars := by
  obtain ⟨start, inside, rfl⟩ := List.mem_map.mp mem
  rw [List.mem_range] at inside
  refine ⟨fun positive => ?_, fun bar member => List.mem_of_mem_drop (List.mem_of_mem_take member)⟩
  rw [ne_eq, List.take_eq_nil_iff, List.drop_eq_nil_iff]
  omega

/-- The values since the last empty range are among those found. -/
theorem mem_of_mem_values {found : List (Option ℚ)} {values : List ℚ} {v : ℚ}
    (mem : v ∈ found.foldl (fun values value => value.elim [] fun v => values ++ [v]) values) :
    v ∈ values ∨ some v ∈ found := by
  induction found generalizing values with
  | nil => exact .inl mem
  | cons value found ih =>
    rcases ih mem with old | new
    · cases value with
      | none => cases old
      | some w =>
        rcases List.mem_append.mp old with old | new
        · exact .inl old
        · exact .inr (List.mem_singleton.mp new ▸ List.mem_cons_self)
    · exact .inr (List.mem_cons_of_mem value new)

/-- The raw value of a horizon of five bars or more: it is computed, and of fine bars it lies within
the range. -/
theorem channel_spec (bars : List Bar) {horizon : ℕ} (wide : 5 ≤ horizon) : ∃ raw, channel bars horizon = .ok raw ∧
    ∀ e, (∀ bar ∈ bars, Fine e bar) → ∀ v ∈ raw, -20 ≤ v ∧ v ≤ 20 := by
  have each : ∀ window ∈ windows bars horizon, ∃ value, channelValue window = .ok value :=
    fun window mem => channelValue_returns ((mem_windows mem).1 (by omega))
  obtain ⟨found, computed⟩ := mapE_returns each
  unfold channel
  simp only [computed, bind, Except.bind]
  by_cases long : 3 * ((horizon + 3) / 4) ≤ (found.foldl (fun values value =>
      value.elim [] fun v => values ++ [v]) []).length
  · have some_ : found.foldl (fun (values : List ℚ) value =>
        value.elim [] fun v => values ++ [v]) [] ≠ [] := by
      intro nothing
      rw [nothing, List.length_nil] at long
      omega
    obtain ⟨raw, average⟩ := ema_returns some_ (by omega : 1 ≤ (horizon + 3) / 4)
    simp only [if_pos long, average]
    refine ⟨some raw, rfl, fun e fine v given => ?_⟩
    obtain rfl := Option.some.inj given
    have within : ∀ v ∈ found.foldl (fun (values : List ℚ) value =>
        value.elim [] fun v => values ++ [v]) [], -20 ≤ v ∧ v ≤ 20 := by
      intro v mem
      rcases mem_of_mem_values mem with none_ | member
      · cases none_
      · obtain ⟨window, inside, value⟩ := mem_mapE computed member
        have fine_ : ∀ bar ∈ window, Fine e bar := fun bar mem =>
          fine bar ((mem_windows inside).2 bar mem)
        exact channelValue_within fine_ value v rfl
    have bounds := ema_within (by omega : 2 ≤ (horizon + 3) / 4) average within
    have twenty : fl prec 20 = 20 := by exact_mod_cast fl_intCast (n := 20) (by norm_num)
    rwa [Rounding.fl_neg, twenty] at bounds
  · simp only [if_neg long]
    exact ⟨none, rfl, fun _ _ v given => (by cases given)⟩

/-- **The channel rule** makes a sound forecast of any bars, and of fine bars no component of it is
capped. -/
theorem breakout_spec (accepted : Rounding.abs prec previous ≤ 20) :
    ∃ forecast, breakout bars costs cutoff (.finite previous) = .ok forecast ∧
      Sound previous forecast ∧ ∀ c ∈ forecast.components, ∀ e, (∀ bar ∈ bars, Fine e bar) →
        c.capped = c.raw ∧ ∀ raw ∈ c.raw, -20 ≤ raw ∧ raw ≤ 20 := by
  obtain ⟨volatility, found⟩ := sigma_returns ((if contiguous bars then bars else []).map (·.close))
  have spans : ∀ horizon ∈ horizons, 5 ≤ horizon := by decide
  obtain ⟨forecast, combined, sound, all⟩ := rule_spec "breakout-d-v1"
    (fun horizon => do
      let raw ← channel (if contiguous bars then bars else []) horizon
      .ok (component s!"breakout-{horizon}" raw volatility costs cutoff))
    horizons (fun c => ∀ e, (∀ bar ∈ bars, Fine e bar) →
      c.capped = c.raw ∧ ∀ raw ∈ c.raw, -20 ≤ raw ∧ raw ≤ 20) accepted (by
      intro horizon mem
      obtain ⟨raw, computed, within⟩ := channel_spec
        (if contiguous bars then bars else []) (spans horizon mem)
      refine ⟨component s!"breakout-{horizon}" raw volatility costs cutoff, ?_,
        component_complete, fun e fine => ?_⟩
      · simp only [computed, bind, Except.bind]
      · have bounds := within e (by
          split_ifs
          · exact fine
          · exact fun _ mem => absurd mem List.not_mem_nil)
        rw [component_capped, component_raw]
        refine ⟨?_, bounds⟩
        cases raw with
        | none => rfl
        | some raw => exact congrArg some (cap_of_within (bounds raw rfl).1 (bounds raw rfl).2))
  refine ⟨forecast, ?_, sound, all⟩
  rw [← combined, breakout]
  simp only [found, bind, Except.bind]

end

/-- **Continuous forecasts.** An average of a span of two or more stays within its inputs. Of any
bars, and any previous value that is accepted, both rules make a forecast whose value is in the
range and whose buffered value is on the way to it; of fine bars no component of the channel rule
is capped. -/
theorem continuous_forecasts :
    (∀ (values : List ℚ) (span : ℕ), values ≠ [] → 2 ≤ span → ∃ average,
      ema values span = .ok average ∧
        ∀ low high, (∀ value ∈ values, low ≤ value ∧ value ≤ high) →
          fl prec low ≤ average ∧ average ≤ fl prec high) ∧
    ∀ (bars : List Bar) (costs : String → Option CostEvidence) (cutoff : Instant) (previous : ℚ),
      Rounding.abs prec previous ≤ 20 →
      (∃ forecast, ewmac bars costs cutoff (.finite previous) = .ok forecast ∧
        Sound previous forecast) ∧
      ∃ forecast, breakout bars costs cutoff (.finite previous) = .ok forecast ∧
        Sound previous forecast ∧ ∀ c ∈ forecast.components, ∀ e, (∀ bar ∈ bars, Fine e bar) →
          c.capped = c.raw ∧ ∀ raw ∈ c.raw, -20 ≤ raw ∧ raw ≤ 20 := by
  refine ⟨fun values span some_ wide => ?_, fun bars costs cutoff previous accepted =>
    ⟨ewmac_spec accepted, breakout_spec accepted⟩⟩
  obtain ⟨average, found⟩ := ema_returns some_ (by omega : 1 ≤ span)
  exact ⟨average, found, fun low high all => ema_within wide found all⟩

/-- A bar with prices of three decimals. -/
def plainBar : Bar where
  timestamp := 0
  open_ := 1080 / 1000
  high := 1090 / 1000
  low := 1070 / 1000
  close := 1085 / 1000

theorem fine_plainBar : Fine (-3) plainBar where
  valid := ⟨by norm_num [plainBar], by norm_num [plainBar], by norm_num [plainBar],
    by norm_num [plainBar]⟩
  positive := by norm_num [plainBar]
  high := ⟨1090, by norm_num [plainBar]⟩
  low := ⟨1070, by norm_num [plainBar]⟩
  close := ⟨1085, by norm_num [plainBar]⟩
  size := by norm_num [plainBar]

theorem continuous_forecasts_plainBars : (∃ average, ema [1, 2] 2 = .ok average ∧
      fl prec 1 ≤ average ∧ average ≤ fl prec 2) ∧
    ∃ forecast, breakout (List.replicate 18 plainBar) (fun _ => none) 0 (.finite 0) = .ok forecast ∧
      Sound 0 forecast ∧ ∀ c ∈ forecast.components,
        c.capped = c.raw ∧ ∀ raw ∈ c.raw, -20 ≤ raw ∧ raw ≤ 20 := by
  have accepted : Rounding.abs prec 0 ≤ 20 := by
    rw [Rounding.abs, abs_zero, Rounding.fl_zero]
    norm_num
  have fine : ∀ bar ∈ List.replicate 18 plainBar, Fine (-3) bar := fun bar mem =>
    List.eq_of_mem_replicate mem ▸ fine_plainBar
  obtain ⟨average, found, within⟩ :=
    continuous_forecasts.1 [1, 2] 2 (List.cons_ne_nil _ _) le_rfl
  obtain ⟨forecast, made, sound, all⟩ := (continuous_forecasts.2 (List.replicate 18 plainBar)
    (fun _ => none) 0 0 accepted).2
  refine ⟨⟨average, found, within 1 2 ?_⟩, forecast, made, sound, fun c mem => all c mem (-3) fine⟩
  intro value mem
  rcases List.mem_pair.mp mem with rfl | rfl <;> norm_num

/-- A bar whose range is a unit of the fortieth decimal. -/
def sliver : Bar where
  timestamp := 0
  open_ := 1
  high := 1 + 1 / 10 ^ 40
  low := 1
  close := 1 + 1 / 10 ^ 40

/-- The raw and the capped number of the first component. -/
def firstComponent (result : Except Exc ContinuousForecast) : Option (Option ℚ × Option ℚ) :=
  match result with
  | .ok forecast => forecast.components.head?.map fun c => (c.raw, c.capped)
  | .error _ => none

/-- An average of one price of 35 digits is above it; a previous value more than one below the
target is kept, one of more than 34 digits is kept above twenty; and where the digits do not hold
the middle of a range, a component is capped. -/
theorem thirtyfive_digits :
    ema [1 + 6 / 10 ^ 34] 2 = .ok (1 + 1 / 10 ^ 33) ∧
    buffer (5 / 10 + 1 / 10 ^ 34) (.finite (-5 / 10)) = .ok (-5 / 10) ∧
    1 < |(-5 / 10 : ℚ) - (5 / 10 + 1 / 10 ^ 34)| ∧
    buffer 20 (.finite (20 + 4 / 10 ^ 34)) = .ok (20 + 4 / 10 ^ 34) ∧ sliver.Valid ∧
    firstComponent (breakout (List.replicate 18 sliver) (fun _ => none) 0 (.finite 0)) =
      some (some 40, some 20) := by
  refine ⟨by decide +kernel, by decide +kernel, by norm_num, by decide +kernel, ?_,
    by decide +kernel⟩
  constructor <;> norm_num [sliver]

end TradeRecommender.MarketStrategy
