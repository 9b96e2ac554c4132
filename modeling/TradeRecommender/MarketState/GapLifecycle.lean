import TradeRecommender.MarketState.Repainting

/-!
# The lifecycle of a gap

What `_fill_state` of `market/state/fvg.py` says of a gap as bars follow it.

1. runs of bars without a gap in time;
2. how deep the bars have come into a gap, and the percentage that is reported;
3. the flags;
4. the lifecycle over a longer list.
-/

namespace TradeRecommender.MarketState

open Py

/-! ## Runs -/

theorem contiguous_cons (a b : Bar) (bars : List Bar) :
    contiguous (a :: b :: bars) = (barsAreConsecutive a b && contiguous (b :: bars)) := rfl

theorem contiguous_of_append {bars more : List Bar} (h : contiguous (bars ++ more) = true) :
    contiguous bars = true := by
  induction bars with
  | nil => rfl
  | cons a bars ih =>
    cases bars with
    | nil => rfl
    | cons b bars =>
      rw [List.cons_append, List.cons_append, contiguous_cons, Bool.and_eq_true] at h
      rw [contiguous_cons, h.1, Bool.true_and]
      exact ih h.2

/-! ## The percentage -/

section
variable {direction : GapDirection} {gapLow gapHigh : ℚ} {following more : List Bar}

/-- The part of a gap the bars have come through. -/
def entered (direction : GapDirection) (gapLow gapHigh : ℚ) (following : List Bar) : ℚ :=
  match direction with
  | .bullish =>
    gapHigh - max (min (((following.map Bar.low).min?).getD gapHigh) gapHigh) gapLow
  | .bearish =>
    min (max (((following.map Bar.high).max?).getD gapLow) gapLow) gapHigh - gapLow

theorem penetrated_eq : penetrated direction gapLow gapHigh following =
    Rounding.fl statePrec (entered direction gapLow gapHigh following) := by
  cases direction <;> rfl

theorem le_deepest_iff {z : ℚ} :
    z ≤ min (((following.map Bar.low).min?).getD gapHigh) gapHigh ↔
      z ≤ gapHigh ∧ ∀ b ∈ following, z ≤ b.low := by
  rw [le_min_iff, and_comm]
  refine and_congr_right fun below => ?_
  cases least : (following.map Bar.low).min? with
  | none =>
    obtain rfl := List.map_eq_nil_iff.mp (List.min?_eq_none_iff.mp least)
    exact ⟨fun _ b mem => absurd mem List.not_mem_nil, fun _ => below⟩
  | some m =>
    rw [Option.getD_some, List.le_min?_iff least, List.forall_mem_map]

theorem highest_le_iff {z : ℚ} :
    max (((following.map Bar.high).max?).getD gapLow) gapLow ≤ z ↔
      gapLow ≤ z ∧ ∀ b ∈ following, b.high ≤ z := by
  rw [max_le_iff, and_comm]
  refine and_congr_right fun above => ?_
  cases greatest : (following.map Bar.high).max? with
  | none =>
    obtain rfl := List.map_eq_nil_iff.mp (List.max?_eq_none_iff.mp greatest)
    exact ⟨fun _ b mem => absurd mem List.not_mem_nil, fun _ => above⟩
  | some m =>
    rw [Option.getD_some, List.max?_le_iff greatest, List.forall_mem_map]

theorem entered_nonneg (gap : gapLow < gapHigh) :
    0 ≤ entered direction gapLow gapHigh following := by
  cases direction with
  | bullish => exact sub_nonneg.mpr (max_le (min_le_right _ _) gap.le)
  | bearish => exact sub_nonneg.mpr (le_min (le_max_right _ _) gap.le)

theorem entered_le : entered direction gapLow gapHigh following ≤ gapHigh - gapLow := by
  cases direction with
  | bullish => exact sub_le_sub_left (le_max_right _ _) _
  | bearish => exact sub_le_sub_right (min_le_right _ _) _

/-- More bars come no less deep. -/
theorem entered_mono : entered direction gapLow gapHigh following ≤
    entered direction gapLow gapHigh (following ++ more) := by
  cases direction with
  | bullish =>
    refine sub_le_sub_left (max_le_max_right _ (le_deepest_iff.mpr ?_)) _
    obtain ⟨below, each⟩ := le_deepest_iff.mp (le_refl
      (min ((((following ++ more).map Bar.low).min?).getD gapHigh) gapHigh))
    exact ⟨below, fun b mem => each b (List.mem_append_left _ mem)⟩
  | bearish =>
    refine sub_le_sub_right (min_le_min_right _ (highest_le_iff.mpr ?_)) _
    obtain ⟨above, each⟩ := highest_le_iff.mp (le_refl
      (max ((((following ++ more).map Bar.high).max?).getD gapLow) gapLow))
    exact ⟨above, fun b mem => each b (List.mem_append_left _ mem)⟩

/-- A close through the far boundary has come all the way. -/
theorem entered_of_fills {b : Bar} (mem : b ∈ following) (valid : b.Valid)
    (filled : fills direction gapLow gapHigh b = true) :
    entered direction gapLow gapHigh following = gapHigh - gapLow := by
  cases direction with
  | bullish =>
    have through : min (((following.map Bar.low).min?).getD gapHigh) gapHigh ≤ gapLow :=
      ((le_deepest_iff.mp (le_refl _)).2 b mem).trans
        (valid.low_close.trans (of_decide_eq_true filled))
    exact congrArg (gapHigh - ·) (max_eq_right through)
  | bearish =>
    have through : gapHigh ≤ max (((following.map Bar.high).max?).getD gapLow) gapLow :=
      ((of_decide_eq_true filled).trans valid.close_high).trans
        ((highest_le_iff.mp (le_refl _)).2 b mem)
    exact congrArg (· - gapLow) (min_eq_right through)

/-- The percentage reported of a depth. -/
def fillPct (gapLow gapHigh depth : ℚ) : ℚ :=
  formatDecimal (Rounding.mul statePrec (Rounding.div statePrec (Rounding.fl statePrec depth)
    (Rounding.sub statePrec gapHigh gapLow)) 100) (-1)

theorem rawGap_pos (gap : gapLow < gapHigh) : 0 < Rounding.sub statePrec gapHigh gapLow :=
  Rounding.fl_pos (by decide) (sub_pos.mpr gap)

theorem fillPct_mono (gap : gapLow < gapHigh) {d d' : ℚ} (le : d ≤ d') :
    fillPct gapLow gapHigh d ≤ fillPct gapLow gapHigh d' := by
  have ratio : Rounding.div statePrec (Rounding.fl statePrec d) (Rounding.sub statePrec gapHigh gapLow) ≤
      Rounding.div statePrec (Rounding.fl statePrec d') (Rounding.sub statePrec gapHigh gapLow) :=
    Rounding.fl_mono (by decide)
      (div_le_div_of_nonneg_right (Rounding.fl_mono (by decide) le) (rawGap_pos gap).le)
  exact Rounding.quantize_mono Rounding.halfEven_monotone _
    (Rounding.fl_mono (by decide) (mul_le_mul_of_nonneg_right ratio (by norm_num)))

theorem fillPct_zero : fillPct gapLow gapHigh 0 = 0 := by
  unfold fillPct Rounding.mul Rounding.div
  rw [Rounding.fl_zero, zero_div, Rounding.fl_zero, zero_mul, Rounding.fl_zero]
  have grid := Rounding.quantize_of_grid (-1) 0
  rw [Int.cast_zero, zero_mul] at grid
  exact grid

theorem fillPct_full (gap : gapLow < gapHigh) : fillPct gapLow gapHigh (gapHigh - gapLow) = 100 := by
  have one : Rounding.fl statePrec 1 = 1 :=
    Rounding.fl_of_representable (by decide) ⟨1, 0, by norm_num, by norm_num⟩
  have hundred : Rounding.fl statePrec 100 = 100 :=
    Rounding.fl_of_representable (by decide) ⟨100, 0, by norm_num, by norm_num⟩
  have whole : Rounding.div statePrec (Rounding.fl statePrec (gapHigh - gapLow))
      (Rounding.sub statePrec gapHigh gapLow) = 1 := by
    unfold Rounding.div
    rw [show Rounding.fl statePrec (gapHigh - gapLow) = Rounding.sub statePrec gapHigh gapLow from rfl,
      div_self (rawGap_pos gap).ne', one]
  unfold fillPct Rounding.mul
  rw [whole, one_mul, hundred]
  have grid := Rounding.quantize_of_grid (-1) 1000
  norm_num at grid
  exact grid

/-! ## The flags -/

/-- A swing that has been broken stays broken. -/
theorem internalSwingBreak_append (broken : internalSwingBreak direction following = true) :
    internalSwingBreak direction (following ++ more) = true := by
  obtain ⟨swing, mem, past⟩ := List.any_eq_true.mp broken
  refine List.any_eq_true.mpr ⟨swing, (confirmedSwings_extends following more).subset mem, ?_⟩
  have later (p : Bar → Bool) (h : (following.drop (swing.index + swingRight + 1)).any p = true) :
      ((following ++ more).drop (swing.index + swingRight + 1)).any p = true := by
    rw [List.drop_append, List.any_append, h, Bool.true_or]
  cases direction with
  | bullish =>
    obtain ⟨kind, closed⟩ := Bool.and_eq_true_iff.mp past
    exact Bool.and_eq_true_iff.mpr ⟨kind, later _ closed⟩
  | bearish =>
    obtain ⟨kind, closed⟩ := Bool.and_eq_true_iff.mp past
    exact Bool.and_eq_true_iff.mpr ⟨kind, later _ closed⟩

/-- `expired` -/
def isExpired (direction : GapDirection) (gapLow gapHigh : ℚ) (following : List Bar) : Bool :=
  fvgExpiryBars < following.length &&
    !(following.take fvgExpiryBars).any (fills direction gapLow gapHigh)

theorem isExpired_append (long : fvgExpiryBars < following.length) (more : List Bar) :
    isExpired direction gapLow gapHigh (following ++ more) =
      isExpired direction gapLow gapHigh following := by
  have longer : fvgExpiryBars < (following ++ more).length := by
    rw [List.length_append]
    omega
  unfold isExpired
  rw [List.take_append_of_le_length long.le, decide_eq_true long, decide_eq_true longer]

theorem isExpired_iff (long : fvgExpiryBars < following.length) :
    isExpired direction gapLow gapHigh following = true ↔
      ∀ b ∈ following.take fvgExpiryBars, fills direction gapLow gapHigh b = false := by
  unfold isExpired
  rw [decide_eq_true long, Bool.true_and, Bool.not_eq_true', List.any_eq_false]
  simp only [Bool.not_eq_true]

/-! ## The lifecycle -/

/-- What `_fill_state` says of a run of bars, in one form for none and for some. -/
theorem fillState_eq (gap : gapLow < gapHigh) (run : contiguous following = true) :
    fillState direction gapLow gapHigh (Rounding.sub statePrec gapHigh gapLow) following =
      .state (fillPct gapLow gapHigh (entered direction gapLow gapHigh following))
        (following.any (fills direction gapLow gapHigh)) (internalSwingBreak direction following)
        (following.any (fills direction gapLow gapHigh) || internalSwingBreak direction following)
        (isExpired direction gapLow gapHigh following) := by
  unfold fillState
  by_cases none_ : following = []
  · subst none_
    have outside : entered direction gapLow gapHigh [] = 0 := by
      cases direction with
      | bullish =>
        show gapHigh - max (min gapHigh gapHigh) gapLow = 0
        rw [min_self, max_eq_left gap.le, sub_self]
      | bearish =>
        show min (max gapLow gapLow) gapHigh - gapLow = 0
        rw [max_self, min_eq_left gap.le, sub_self]
    rw [if_pos rfl, outside, fillPct_zero]
    rfl
  · rw [if_neg none_, run, if_neg Bool.false_ne_true.symm]
    dsimp only
    rw [if_neg (rawGap_pos gap).ne', penetrated_eq]
    rfl

end

/-- **The lifecycle of a gap** as bars follow it. -/
theorem gap_lifecycle (direction : GapDirection) {gapLow gapHigh : ℚ} (gap : gapLow < gapHigh)
    {following more : List Bar} (valid : ∀ b ∈ following ++ more, b.Valid)
    (run : contiguous (following ++ more) = true) :
    ∃ pct full broken expired pct' full' broken' expired',
      fillState direction gapLow gapHigh (Rounding.sub statePrec gapHigh gapLow) following =
        .state pct full broken (full || broken) expired ∧
      fillState direction gapLow gapHigh (Rounding.sub statePrec gapHigh gapLow)
        (following ++ more) = .state pct' full' broken' (full' || broken') expired' ∧
      0 ≤ pct ∧ pct ≤ 100 ∧ (full = true → pct = 100) ∧
      pct ≤ pct' ∧ (full = true → full' = true) ∧ (broken = true → broken' = true) ∧
      ((full || broken) = true → (full' || broken') = true) ∧
      (fvgExpiryBars < following.length →
        (expired = true ↔
          ∀ b ∈ following.take fvgExpiryBars, fills direction gapLow gapHigh b = false) ∧
        expired' = expired) := by
  have filled (full : following.any (fills direction gapLow gapHigh) = true) :
      (following ++ more).any (fills direction gapLow gapHigh) = true := by
    rw [List.any_append, full, Bool.true_or]
  refine ⟨_, _, _, _, _, _, _, _, fillState_eq gap (contiguous_of_append run),
    fillState_eq gap run, ?_, ?_, ?_, fillPct_mono gap entered_mono, filled,
    internalSwingBreak_append, ?_, fun long => ⟨isExpired_iff long, isExpired_append long more⟩⟩
  · exact fillPct_zero.symm.le.trans (fillPct_mono gap (entered_nonneg gap))
  · exact (fillPct_mono gap entered_le).trans (fillPct_full gap).le
  · intro full
    obtain ⟨b, mem, through⟩ := List.any_eq_true.mp full
    rw [entered_of_fills mem (valid b (List.mem_append_left _ mem)) through, fillPct_full gap]
  · intro invalidated
    rcases Bool.or_eq_true_iff.mp invalidated with full | broken
    · exact Bool.or_eq_true_iff.mpr (.inl (filled full))
    · exact Bool.or_eq_true_iff.mpr (.inr (internalSwingBreak_append broken))

/-- A bar that closes through a gap from 2 to 4. -/
def fillingBar : Bar where
  timestamp := 0
  open_ := 3
  high := 3
  low := 1
  close := 1

theorem valid_fillingBar : fillingBar.Valid where
  low_open := by decide
  low_close := le_refl _
  open_high := le_refl _
  close_high := by decide

theorem gap_lifecycle_filled : ∃ pct full broken expired pct' full' broken' expired',
    fillState .bullish 2 4 (Rounding.sub statePrec 4 2) [fillingBar] =
      .state pct full broken (full || broken) expired ∧
    fillState .bullish 2 4 (Rounding.sub statePrec 4 2) [fillingBar, fillingBar] =
      .state pct' full' broken' (full' || broken') expired' ∧
    0 ≤ pct ∧ pct ≤ 100 ∧ (full = true → pct = 100) ∧ pct ≤ pct' := by
  have valid : ∀ b ∈ [fillingBar] ++ [fillingBar], b.Valid := by
    intro b mem
    rcases List.mem_cons.mp mem with rfl | mem
    · exact valid_fillingBar
    · rw [List.mem_singleton.mp mem]
      exact valid_fillingBar
  obtain ⟨pct, full, broken, expired, pct', full', broken', expired', first, second, low, high, all,
    grows, -⟩ := gap_lifecycle .bullish (show (2 : ℚ) < 4 by decide) valid rfl
  exact ⟨pct, full, broken, expired, pct', full', broken', expired', first, second, low, high, all,
    grows⟩

/-- A gap that is filled in time does not expire, however many bars follow. -/
theorem filled_gap_does_not_expire : ∃ following : List Bar, (∀ b ∈ following, b.Valid) ∧
    contiguous following = true ∧ fvgExpiryBars < following.length ∧ ∃ pct full broken invalidated,
      fillState .bullish 2 4 (Rounding.sub statePrec 4 2) following =
        .state pct full broken invalidated false := by
  have run : contiguous (List.replicate 51 fillingBar) = true := by decide
  have in_time : isExpired .bullish 2 4 (List.replicate 51 fillingBar) = false := by decide
  refine ⟨List.replicate 51 fillingBar, fun b mem => ?_, run, by decide, _, _, _, _,
    in_time ▸ fillState_eq (by decide) run⟩
  rw [List.eq_of_mem_replicate mem]
  exact valid_fillingBar

end TradeRecommender.MarketState
