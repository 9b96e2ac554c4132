import TradeRecommender.Lib.RunningPeak
import TradeRecommender.Strategy.MonthlyGrouping

/-!
# Drawdown

The drawdown part of `daily_performance` and `fixed_capital_diagnostic` of
`research/exploratory_returns_v2.py`: a fraction of the running peak, and what the diagnostic makes
of it with the initial capital.

1. the source's functions;
2. the greatest fraction of a peak, and the greatest fall in CAD;
3. when the diagnostic reports the fall.
-/

namespace TradeRecommender.Strategy.Returns

open Civil (Instant)
open Py
open RunningPeak (marks greatest)

/-! ## The source's functions -/

/-- `Decimal(1) - equity / peak` -/
def fractionBelow (mark : ℚ × ℚ) : ℚ :=
  Rounding.sub returnPrec 1 (Rounding.div returnPrec mark.2 mark.1)

/-- The loop of `daily_performance` over the equities, for `peak`, `maximum_drawdown` and
`previous`. -/
def drawdownLoop (peak maximum previous : ℚ) : List ℚ → Except Exc ℚ
  | [] => .ok maximum
  | equity :: rest => do
    let peak := max peak equity
    let maximum := max maximum (fractionBelow (peak, equity))
    require (0 < previous) "daily return undefined after non-positive equity"
    drawdownLoop peak maximum equity rest

/-- `maximum_drawdown_fraction` of `daily_performance` -/
def maximumDrawdownFraction (equities : List ℚ) : Except Exc ℚ := do
  require (equities ≠ []) "daily equity series empty"
  let maximum ← drawdownLoop 10000 0 10000 equities
  ratio maximum

/-- The drawdown of the diagnostic, with its daily equity. -/
structure DrawdownDiagnostic where
  dailyEquity : List (Instant × ℚ)
  maximumDrawdownCad : ℚ
  maximumDrawdownFraction : ℚ

/-- `fixed_capital_diagnostic`, with `max_dd` -/
def drawdownDiagnostic (events : List Event) (resolutions : List Resolution)
    (scenario : String → Option ℚ) (risk : ℚ) : Except Exc DrawdownDiagnostic := do
  let d ← fixedCapitalDiagnostic events resolutions scenario risk
  let fraction ← maximumDrawdownFraction (d.dailyEquity.map Prod.snd)
  let maxDd := Rounding.mul returnPrec fraction 10000
  let cad ← money maxDd
  let ofCapital ← ratio (Rounding.div returnPrec maxDd 10000)
  return ⟨d.dailyEquity, cad, ofCapital⟩

/-! ## Ten places -/

/-- A number of ten places. -/
def tenPlaces (value : ℚ) : ℚ := Rounding.quantize Rounding.halfEven (-10) value

theorem tenPlaces_mono {a b : ℚ} (h : a ≤ b) : tenPlaces a ≤ tenPlaces b :=
  Rounding.quantize_mono Rounding.halfEven_monotone (-10) h

/-- The numbers of ten places from 0 to 1. -/
def UnitGrid (value : ℚ) : Prop := ∃ n : ℤ, 0 ≤ n ∧ n ≤ 10 ^ 10 ∧ value = n * 10 ^ (-10 : ℤ)

theorem tenPlaces_of_grid {n : ℤ} : tenPlaces (n * 10 ^ (-10 : ℤ)) = n * 10 ^ (-10 : ℤ) :=
  Rounding.quantize_of_grid (-10) n

theorem unitGrid_tenPlaces {value : ℚ} (low : 0 ≤ value) (high : value ≤ 1) :
    UnitGrid (tenPlaces value) := by
  refine ⟨Rounding.halfEven (value / 10 ^ (-10 : ℤ)), ?_, ?_, rfl⟩
  · have := Rounding.halfEven_mono (div_nonneg low (Rounding.ten_zpow_pos (-10)).le)
    rwa [Rounding.halfEven_zero] at this
  · have top : value / 10 ^ (-10 : ℤ) ≤ ((10 ^ 10 : ℤ) : ℚ) := by
      rw [div_le_iff₀ (Rounding.ten_zpow_pos (-10))]
      norm_num
      exact high
    have := Rounding.halfEven_mono top
    rwa [Rounding.halfEven_intCast] at this

/-- Such a number of 10000 is exact in CAD, and is written and read back whole. -/
theorem UnitGrid.amount {value : ℚ} (h : UnitGrid value) :
    money value = .ok value ∧ Rounding.mul returnPrec value 10000 = value * 10000 ∧
      money (value * 10000) = .ok (value * 10000) ∧
      Rounding.div returnPrec (value * 10000) 10000 = value := by
  obtain ⟨n, low, high, rfl⟩ := h
  have large : (n : ℚ) * 10 ^ (-10 : ℤ) * 10000 = ((n * 10000 : ℤ) : ℚ) * 10 ^ (-10 : ℤ) := by
    push_cast
    ring
  have size : |n| ≤ 10 ^ returnPrec := by
    rw [abs_of_nonneg low]
    exact high.trans (by norm_num)
  have written : ∀ m : ℤ, 0 ≤ m → m ≤ 10 ^ 14 →
      money (m * 10 ^ (-10 : ℤ)) = .ok (m * 10 ^ (-10 : ℤ)) := by
    intro m low high
    have ne : (10 : ℚ) ^ (-10 : ℤ) ≠ 0 := (Rounding.ten_zpow_pos (-10)).ne'
    rw [money, mul_div_cancel_right₀ _ ne, Rounding.halfEven_intCast, Rounding.quantize_of_grid,
      if_neg]
    rw [not_le, abs_of_nonneg low]
    exact lt_of_le_of_lt high (by norm_num)
  refine ⟨written n low (high.trans (by norm_num)), ?_, ?_, ?_⟩
  · rw [Rounding.mul, large]
    refine Rounding.fl_of_representable (by decide) ⟨n * 10000, -10, ?_, rfl⟩
    rw [abs_of_nonneg (by positivity)]
    calc n * 10000 ≤ 10 ^ 10 * 10000 := by gcongr
      _ ≤ 10 ^ returnPrec := by norm_num
  · rw [large]
    exact written _ (by positivity) (by linarith)
  · rw [Rounding.div, mul_div_assoc, div_self (by norm_num), mul_one]
    exact Rounding.fl_of_representable (by decide) ⟨n, -10, size, rfl⟩

/-! ## Fractions of a peak -/

section
variable {equities : List ℚ} {mark : ℚ × ℚ}

/-- The greatest fall from a running peak of 10000 or more. -/
def greatestFall (equities : List ℚ) : ℚ :=
  greatest 0 ((marks 10000 equities).map fun mark => mark.1 - mark.2)

/-- A mark of a positive equity. -/
structure PositiveMark (mark : ℚ × ℚ) : Prop where
  peak : 10000 ≤ mark.1
  equity : 0 < mark.2
  below : mark.2 ≤ mark.1

theorem positiveMark (positive : ∀ equity ∈ equities, 0 < equity)
    (mem : mark ∈ marks 10000 equities) : PositiveMark mark := by
  obtain ⟨peak, below, member⟩ := RunningPeak.le_of_mem_marks mem
  exact ⟨peak, positive _ member, below⟩

theorem PositiveMark.ratio_bounds (h : PositiveMark mark) :
    0 ≤ mark.2 / mark.1 ∧ mark.2 / mark.1 ≤ 1 := by
  have peak : 0 < mark.1 := by linarith [h.peak]
  exact ⟨div_nonneg h.equity.le peak.le, (div_le_one peak).mpr h.below⟩

theorem representable_one : Rounding.Representable returnPrec 1 := ⟨1, 0, by norm_num, by norm_num⟩

theorem fl_one : Rounding.fl returnPrec 1 = 1 :=
  Rounding.fl_of_representable (by decide) representable_one

/-- A fraction below a peak lies between 0 and 1. -/
theorem PositiveMark.fraction_bounds (h : PositiveMark mark) :
    0 ≤ fractionBelow mark ∧ fractionBelow mark ≤ 1 := by
  obtain ⟨low, high⟩ := h.ratio_bounds
  have mono := Rounding.fl_mono (show 0 < returnPrec by decide)
  have low' : 0 ≤ Rounding.div returnPrec mark.2 mark.1 := Rounding.fl_nonneg returnPrec low
  have high' : Rounding.div returnPrec mark.2 mark.1 ≤ 1 := by
    have := mono high
    rwa [fl_one] at this
  rw [fractionBelow, Rounding.sub]
  refine ⟨Rounding.fl_nonneg returnPrec (by linarith), ?_⟩
  have := mono (show 1 - Rounding.div returnPrec mark.2 mark.1 ≤ 1 by linarith)
  rwa [fl_one] at this

/-- To ten places, the fraction does not exceed a number of ten places that the exact one does not
exceed. -/
theorem PositiveMark.fraction_le (h : PositiveMark mark) {n : ℤ} (low : 0 ≤ n)
    (bound : (mark.1 - mark.2) / mark.1 ≤ n * 10 ^ (-10 : ℤ)) :
    tenPlaces (fractionBelow mark) ≤ n * 10 ^ (-10 : ℤ) := by
  have mono := Rounding.fl_mono (show 0 < returnPrec by decide)
  have peak : 0 < mark.1 := by linarith [h.peak]
  rw [← tenPlaces_of_grid]
  refine tenPlaces_mono ?_
  rcases le_or_gt (10 ^ 10) n with large | small
  · refine h.fraction_bounds.2.trans ?_
    have cast : ((10 ^ 10 : ℤ) : ℚ) ≤ n := by exact_mod_cast large
    calc (1 : ℚ) = ((10 ^ 10 : ℤ) : ℚ) * 10 ^ (-10 : ℤ) := by norm_num
      _ ≤ n * 10 ^ (-10 : ℤ) := by gcongr
  · have rest : (1 : ℚ) - n * 10 ^ (-10 : ℤ) = ((10 ^ 10 - n : ℤ) : ℚ) * 10 ^ (-10 : ℤ) := by
      push_cast
      ring
    have exact_ : Rounding.fl returnPrec (1 - n * 10 ^ (-10 : ℤ)) = 1 - n * 10 ^ (-10 : ℤ) := by
      rw [rest]
      refine Rounding.fl_of_representable (by decide) ⟨10 ^ 10 - n, -10, ?_, rfl⟩
      rw [abs_of_nonneg (by linarith)]
      exact le_trans (by linarith : 10 ^ 10 - n ≤ (10 ^ 10 : ℤ)) (by norm_num)
    have itself : Rounding.fl returnPrec (n * 10 ^ (-10 : ℤ)) = n * 10 ^ (-10 : ℤ) := by
      refine Rounding.fl_of_representable (by decide) ⟨n, -10, ?_, rfl⟩
      rw [abs_of_nonneg low]
      exact small.le.trans (by norm_num)
    have part : mark.2 / mark.1 = 1 - (mark.1 - mark.2) / mark.1 := by
      field_simp
      ring
    have quotient := mono (show 1 - n * 10 ^ (-10 : ℤ) ≤ mark.2 / mark.1 by linarith)
    rw [exact_] at quotient
    have difference := mono (show 1 - Rounding.div returnPrec mark.2 mark.1 ≤
      n * 10 ^ (-10 : ℤ) by rw [Rounding.div]; linarith)
    rwa [itself] at difference

/-- The loop keeps the greatest of the fractions. -/
theorem drawdownLoop_eq (positive : ∀ equity ∈ equities, 0 < equity) (peak maximum : ℚ)
    {previous : ℚ} (before : 0 < previous) : drawdownLoop peak maximum previous equities =
      .ok (greatest maximum ((marks peak equities).map fractionBelow)) := by
  induction equities generalizing peak maximum previous with
  | nil => rfl
  | cons equity rest ih =>
    rw [drawdownLoop, require_bind before]
    exact ih (fun e mem => positive e (List.mem_cons_of_mem _ mem)) _ _
      (positive equity List.mem_cons_self)

/-- `maximum_drawdown_fraction` is that of one of the marks, and of none less than another's. -/
theorem maximumDrawdownFraction_eq (positive : ∀ equity ∈ equities, 0 < equity)
    (nonempty : equities ≠ []) : ∃ fraction, maximumDrawdownFraction equities = .ok fraction ∧
      UnitGrid fraction ∧ (∃ mark ∈ marks 10000 equities, fraction = tenPlaces (fractionBelow mark)) ∧
        ∀ mark ∈ marks 10000 equities, tenPlaces (fractionBelow mark) ≤ fraction := by
  have one : greatest 0 ((marks 10000 equities).map fractionBelow) ∈
      (marks 10000 equities).map fractionBelow := by
    refine RunningPeak.greatest_mem_of_le
      (fun h => RunningPeak.marks_ne_nil nonempty (List.map_eq_nil_iff.mp h)) fun x mem => ?_
    obtain ⟨mark, member, rfl⟩ := List.mem_map.mp mem
    exact (positiveMark positive member).fraction_bounds.1
  obtain ⟨mark, mem, worst⟩ := List.mem_map.mp one
  obtain ⟨low, high⟩ := (positiveMark positive mem).fraction_bounds
  have grid := unitGrid_tenPlaces low high
  refine ⟨tenPlaces (fractionBelow mark), ?_, grid, ⟨mark, mem, rfl⟩, fun other mem' => ?_⟩
  · rw [maximumDrawdownFraction, require_bind nonempty]
    refine bind_eq_ok.mpr ⟨_, drawdownLoop_eq positive 10000 0 (by norm_num), ?_⟩
    rw [← worst, ratio, money, if_neg]
    · rfl
    · obtain ⟨n, low', high', same⟩ := grid
      have value : Rounding.halfEven (fractionBelow mark / 10 ^ (-10 : ℤ)) = n := by
        have ne : (10 : ℚ) ^ (-10 : ℤ) ≠ 0 := (Rounding.ten_zpow_pos (-10)).ne'
        have := mul_right_cancel₀ ne same
        exact_mod_cast this
      rw [value, not_le, abs_of_nonneg low']
      exact lt_of_le_of_lt high' (by norm_num)
  · refine tenPlaces_mono ?_
    rw [worst]
    exact RunningPeak.le_greatest (List.mem_cons_of_mem _ (List.mem_map.mpr ⟨other, mem', rfl⟩))

/-- In no fall is the fraction of the peak more than the greatest fall's of the initial capital. -/
theorem fraction_le_greatestFall (positive : ∀ equity ∈ equities, 0 < equity)
    (mem : mark ∈ marks 10000 equities) :
    (mark.1 - mark.2) / mark.1 ≤ greatestFall equities / 10000 := by
  have h := positiveMark positive mem
  have peak : 0 < mark.1 := by linarith [h.peak]
  have fall : mark.1 - mark.2 ≤ greatestFall equities :=
    RunningPeak.le_greatest (List.mem_cons_of_mem _ (List.mem_map.mpr ⟨mark, mem, rfl⟩))
  have nonneg : 0 ≤ mark.1 - mark.2 := by linarith [h.below]
  calc (mark.1 - mark.2) / mark.1 ≤ (mark.1 - mark.2) / 10000 :=
        div_le_div_of_nonneg_left nonneg (by norm_num) h.peak
    _ ≤ greatestFall equities / 10000 := by gcongr

theorem greatestFall_nonneg : 0 ≤ greatestFall equities := RunningPeak.le_greatest List.mem_cons_self

end

/-! ## The diagnostic -/

/-- The diagnostic reports the greatest fall, in CAD and over the initial capital. -/
def ReportsFall (d : DrawdownDiagnostic) (equities : List ℚ) : Prop :=
  d.maximumDrawdownCad = greatestFall equities ∧
    d.maximumDrawdownFraction = tenPlaces (greatestFall equities / 10000)

/-- The diagnostic reports it to less than a unit of its tenth place, over the initial capital. -/
def NearlyReportsFall (d : DrawdownDiagnostic) (equities : List ℚ) : Prop :=
  |d.maximumDrawdownCad - greatestFall equities| < 10000 * 10 ^ (-10 : ℤ) ∧
    |d.maximumDrawdownFraction - greatestFall equities / 10000| < 10 ^ (-10 : ℤ)

theorem dailyEquity_ne_nil {events : List Event} {resolutions : List Resolution}
    {scenario : String → Option ℚ} {risk : ℚ} {d : Diagnostic}
    (diagnosed : fixedCapitalDiagnostic events resolutions scenario risk = .ok d) :
    d.dailyEquity.map Prod.snd ≠ [] := by
  rw [fixedCapitalDiagnostic] at diagnosed
  obtain ⟨positions, -, diagnosed⟩ := bind_eq_ok.mp diagnosed
  obtain ⟨monthly, -, diagnosed⟩ := bind_eq_ok.mp diagnosed
  obtain ⟨daily, -, diagnosed⟩ := bind_eq_ok.mp diagnosed
  obtain ⟨u, performed, diagnosed⟩ := bind_eq_ok.mp diagnosed
  obtain ⟨rows, -, diagnosed⟩ := bind_eq_ok.mp diagnosed
  cases diagnosed
  rw [dailyPerformance] at performed
  obtain ⟨u', nonempty, -⟩ := bind_eq_ok.mp performed
  exact require_eq_ok.mp nonempty

section
variable {equities : List ℚ}

/-- The fraction reported, where it is that of the worst mark. -/
theorem fraction_le_of_grid (positive : ∀ equity ∈ equities, 0 < equity) {n : ℤ} (low : 0 ≤ n)
    (bound : greatestFall equities / 10000 ≤ n * 10 ^ (-10 : ℤ)) {mark : ℚ × ℚ}
    (mem : mark ∈ marks 10000 equities) :
    tenPlaces (fractionBelow mark) ≤ n * 10 ^ (-10 : ℤ) :=
  (positiveMark positive mem).fraction_le low ((fraction_le_greatestFall positive mem).trans bound)

end

/-- A fall that starts from the initial capital is reported, for equities of ten places. -/
theorem near_of_capital {equities : List ℚ} {equity : ℚ} {n : ℤ} (grid : equity = n * 10 ^ (-10 : ℤ))
    (positive : 0 < equity) (below : equity ≤ 10000)
    (fall : 10000 - equity = greatestFall equities) :
    |tenPlaces (fractionBelow (10000, equity)) - greatestFall equities / 10000| <
      10 ^ (-10 : ℤ) := by
  have unit : (0 : ℚ) < 10 ^ (-10 : ℤ) := Rounding.ten_zpow_pos (-10)
  have low : 0 ≤ n := by
    by_contra negative
    have : (n : ℚ) < 0 := by exact_mod_cast not_le.mp negative
    rw [grid] at positive
    exact absurd (mul_neg_of_neg_of_pos this unit) (not_lt.mpr positive.le)
  have high : n ≤ 10 ^ 14 := by
    have : (n : ℚ) * 10 ^ (-10 : ℤ) ≤ 10 ^ 14 * 10 ^ (-10 : ℤ) := by
      rw [← grid]
      norm_num
      exact below
    exact_mod_cast le_of_mul_le_mul_right this unit
  have quotient : Rounding.div returnPrec equity 10000 = n * 10 ^ (-14 : ℤ) := by
    have value : equity / 10000 = n * 10 ^ (-14 : ℤ) := by
      rw [grid]
      norm_num
      ring
    rw [Rounding.div, value]
    refine Rounding.fl_of_representable (by decide) ⟨n, -14, ?_, rfl⟩
    rw [abs_of_nonneg low]
    exact high.trans (by norm_num)
  have difference : fractionBelow (10000, equity) = greatestFall equities / 10000 := by
    have value : 1 - (n : ℚ) * 10 ^ (-14 : ℤ) = ((10 ^ 14 - n : ℤ) : ℚ) * 10 ^ (-14 : ℤ) := by
      push_cast
      ring
    rw [fractionBelow, quotient, Rounding.sub, value, Rounding.fl_of_representable (by decide)
      ⟨10 ^ 14 - n, -14, ?_, rfl⟩, ← value, ← fall, grid]
    · norm_num
      ring
    · rw [abs_of_nonneg (by linarith)]
      exact le_trans (by linarith : 10 ^ 14 - n ≤ (10 ^ 14 : ℤ)) (by norm_num)
  rw [difference]
  have half := Rounding.abs_quantize_sub_le (-10) (greatestFall equities / 10000)
  exact lt_of_le_of_lt half (by linarith)

/-! ## A fall from a later peak -/

/-- The long of the month's end, stopped out where it had reached its target. -/
def reversedEvent : Event :=
  { carriedEvent with
    h1 := [carriedBar carriedEntry 101, { carriedBar carriedTouch 101 with bidLow := 99 },
      carriedBar (14648 * Civil.day + 22 * Civil.hour) 101] }

-- evaluated once: apart, each of these waits for the others
theorem reversed_evaluated :
    resolvesTo (fun result => decide (result.physicalEventKey = "event" ∧
      result.exitAt = carriedTouch + Civil.hour ∧ result.entryPrice = 100 ∧ result.grossR = -1))
      (resolveEvent reversedEvent) = true ∧
    money (Rounding.add returnPrec 10000
      (Rounding.add returnPrec 0 (Rounding.mul returnPrec (-1) 25))) = .ok 9975 ∧
    (monthRows 10000 (carriedBooks (-1))).toBool = true ∧
    ∀ p ∈ ([10000, 10025, 9975] : List ℚ), ∀ e ∈ ([10000, 10025, 9975] : List ℚ),
      tenPlaces (fractionBelow (p, e)) ≤ 49876 / 10 ^ 7 := by
  decide +kernel

theorem reversedEvent_resolves : ∃ result, resolveEvent reversedEvent = .ok (.resolved result) ∧
    result.physicalEventKey = "event" ∧ result.exitAt = carriedTouch + Civil.hour ∧
      result.entryPrice = 100 ∧ result.grossR = -1 := by
  obtain ⟨result, resolved, right⟩ := resolvesTo_iff.mp reversed_evaluated.1
  exact ⟨result, resolved, of_decide_eq_true right⟩

/-- Its equity is 10000, 10025 at three marks, and 9975 from then on. -/
theorem reversed_diagnostic : ∃ result d,
    resolveEvent reversedEvent = .ok (.resolved result) ∧ result.grossR = -1 ∧
      fixedCapitalDiagnostic [reversedEvent] [.resolved result] (fun _ => some (-1)) 25 = .ok d ∧
        d.dailyEquity = carriedDaily 9975 := by
  obtain ⟨result, resolved, key, exit, entry, gross⟩ := reversedEvent_resolves
  obtain ⟨rows, diagnosed⟩ := carried_diagnostic_of reversedEvent.h1 reversed_evaluated.2.1
    (by norm_num) (carriedBooks_rows reversed_evaluated.2.2.1) key exit entry
  refine ⟨result, ⟨carriedDaily 9975, rows⟩, resolved, gross, diagnosed, ?_⟩
  dsimp only

/-- Behind the last mark before its exit comes what the position has settled at. -/
theorem carriedDaily_split (settled : ℚ) : ∃ before after,
    (carriedDaily settled).map Prod.snd = before ++ 10025 :: [] ++ settled :: after := by
  obtain ⟨m, count⟩ : ∃ m, dayCount = 32 + m := ⟨dayCount - 32, by decide⟩
  have low : firstDay = 14610 := by decide
  rw [carriedDaily, count, List.range_add, List.range_succ, List.range_succ, low]
  simp only [List.map_append, List.map_cons, List.map_nil]
  exact ⟨_, _, by norm_num; rfl⟩

end TradeRecommender.Strategy.Returns
