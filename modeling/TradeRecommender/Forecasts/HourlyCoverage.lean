import Mathlib.Data.List.Chain
import TradeRecommender.Lib.NewYorkClock
import TradeRecommender.Market.RegisteredCalendar

/-!
# Hourly coverage

`_has_coverage` of `forecasts/paper.py`: whether the hourly candles of a recommendation, as its query
gives them, are all that the market opened from its generation to an instant.

1. the function and the hours that are due;
2. the next market hour;
3. the steps from candle to candle;
4. lists of candles, and where the function is right about them.
-/

namespace TradeRecommender.Forecasts.Coverage

open Civil Market

/-! ## The function -/

inductive RunStatus
  | running | succeeded | failed | quarantined
  deriving DecidableEq

structure IngestionRun where
  instrument : String
  granularity : String
  status : RunStatus
  requestedFrom : Instant
  requestedTo : Instant
  finishedAt : Option Instant

structure Recommendation where
  instrument : String
  generatedAt : Instant
  contractVersion : ℕ

/-- `manifest_covers_range` -/
def manifestCoversRange (runs : List IngestionRun) (now : Instant) (recommendation : Recommendation)
    (through : Instant) (asOf : Option Instant) : Bool :=
  runs.any fun run =>
    run.instrument = recommendation.instrument && run.granularity = "H1" &&
      run.status = .succeeded && run.requestedFrom ≤ recommendation.generatedAt &&
      through ≤ run.requestedTo &&
      (recommendation.contractVersion ≠ 4 ||
        run.finishedAt.any fun finishedAt => finishedAt ≤ asOf.getD now)

section
variable (c : SundayClock)

/-- The reading of the next market hour. -/
def nextReading (wall : ℤ) : ℤ :=
  let local_ := wall - wall % hour + hour
  if weekday (local_ / day) = 4 ∧ 17 ≤ local_ % day / hour then atFive (local_ + 2 * day)
  else if weekday (local_ / day) = 5 then atFive (local_ + day)
  else if weekday (local_ / day) = 6 ∧ local_ % day / hour < 17 then atFive local_
  else local_

/-- `_next_market_hour` -/
def nextMarketHour (value : Instant) : Instant := c.utc (nextReading (c.wall value))

/-- `_is_weekend_gap` -/
def isWeekendGap (start end_ : Instant) : Bool :=
  let localEnd := c.wall (start + hour)
  let localNext := c.wall end_
  weekday (localEnd / day) = 4 && localEnd % day / hour = 17 &&
    weekday (localNext / day) = 6 && localNext % day / hour = 17

/-- `_has_coverage`, over the timestamps of the candles. -/
def hasCoverage (runs : List IngestionRun) (now : Instant) (recommendation : Recommendation)
    (through : Instant) (candles : List Instant) (asOf : Option Instant) : Bool :=
  if ! manifestCoversRange runs now recommendation through asOf then false
  else match candles with
  | [] => false
  | first :: rest =>
    if first ≠ nextMarketHour c recommendation.generatedAt then false
    else if nextMarketHour c ((first :: rest).getLast (List.cons_ne_nil _ _)) < through then false
    else ((first :: rest).zip rest).all fun (previous, current) =>
      current - previous = hour || isWeekendGap c previous current

/-! ## The hours that are due -/

/-- The start of a registered hour of the open market. -/
def MarketHour (t : Instant) : Prop := isAligned .h1 (c.wall t) = true

/-- The list of all market hours from one instant up to another, in order. -/
structure AllDue (generatedAt through : Instant) (candles : List Instant) : Prop where
  ascending : candles.Pairwise (· < ·)
  due : ∀ t, t ∈ candles ↔ MarketHour c t ∧ generatedAt ≤ t ∧ t < through

/-- Candles as the query gives them: market hours from the generation up to `through`, in order. -/
structure FromQuery (generatedAt through : Instant) (candles : List Instant) : Prop where
  ascending : candles.Pairwise (· < ·)
  inside : ∀ t ∈ candles, MarketHour c t ∧ generatedAt ≤ t ∧ t < through

/-- Under a manifest that covers the period, the function tells whether the candles are all due. -/
def Right (recommendation : Recommendation) (through : Instant) (candles : List Instant) : Prop :=
  ∀ runs now asOf, manifestCoversRange runs now recommendation through asOf = true →
    (hasCoverage c runs now recommendation through candles asOf = true ↔
      AllDue c recommendation.generatedAt through candles)

/-- The last hour before a weekend. -/
def ClosingHour (t : Instant) : Prop :=
  weekday (c.wall t / day) = 4 ∧ c.wall t % day = 16 * hour

/-- The first hour after a weekend. -/
def OpeningHour (t : Instant) : Prop :=
  weekday (c.wall t / day) = 6 ∧ c.wall t % day = 17 * hour

end

/-! ## The next market hour -/

section
variable {c : SundayClock}

/-- The next reading is the first aligned one after a reading. -/
theorem nextReading_spec (wall : ℤ) : isAligned .h1 (nextReading wall) = true ∧
    wall < nextReading wall ∧
    ∀ other, isAligned .h1 other = true → wall < other → nextReading wall ≤ other := by
  simp only [isAligned_h1, marketIsOpen_iff]
  unfold nextReading
  dsimp only
  have onHour : (wall - wall % hour + hour) % hour = 0 := by
    simp only [hour]
    omega
  have after : wall < wall - wall % hour + hour := by
    simp only [hour]
    omega
  have least : ∀ other, other % hour = 0 → wall < other → wall - wall % hour + hour ≤ other := by
    intro other whole later
    simp only [hour] at whole later ⊢
    omega
  generalize wall - wall % hour + hour = first at onHour after least
  split_ifs with friday saturday sunday
  · refine ⟨⟨?_, ?_⟩, ?_, fun other aligned later => ?_⟩
    · simp only [atFive, hour, day]
      omega
    · simp only [atFive, weekday, hour, day] at friday ⊢
      omega
    · simp only [atFive, weekday, hour, day] at friday ⊢
      omega
    · have := least other aligned.1 later
      simp only [atFive, weekday, hour, day] at *
      omega
  · refine ⟨⟨?_, ?_⟩, ?_, fun other aligned later => ?_⟩
    · simp only [atFive, hour, day]
      omega
    · simp only [atFive, weekday, hour, day] at saturday ⊢
      omega
    · simp only [atFive, weekday, hour, day] at saturday ⊢
      omega
    · have := least other aligned.1 later
      simp only [atFive, weekday, hour, day] at *
      omega
  · refine ⟨⟨?_, ?_⟩, ?_, fun other aligned later => ?_⟩
    · simp only [atFive, hour, day]
      omega
    · simp only [atFive, weekday, hour, day] at sunday ⊢
      omega
    · simp only [atFive, weekday, hour, day] at sunday ⊢
      omega
    · have := least other aligned.1 later
      simp only [atFive, weekday, hour, day] at *
      omega
  · refine ⟨⟨onHour, ?_⟩, after, fun other aligned later => least other aligned.1 later⟩
    simp only [weekday, hour, day] at *
    omega

/-- **The next market hour** is the first one after an instant. -/
theorem nextMarketHour_spec (t : Instant) : MarketHour c (nextMarketHour c t) ∧
    t < nextMarketHour c t ∧
    ∀ s, MarketHour c s → t < s → nextMarketHour c t ≤ s := by
  obtain ⟨aligned, after, least⟩ := nextReading_spec (c.wall t)
  have regular := regular_of_isAligned aligned
  refine ⟨?_, ?_, fun s hour later => ?_⟩
  · unfold MarketHour nextMarketHour
    rw [SundayClock.wall_utc regular.unskipped]
    exact aligned
  · rw [nextMarketHour]
    by_contra passed
    exact absurd ((SundayClock.utc_le_iff regular).mp (Int.not_lt.mp passed)) (Int.not_le.mpr after)
  · have regular' := regular_of_isAligned hour
    have read : c.wall t < c.wall s := by
      by_contra passed
      have reached := (SundayClock.utc_le_iff (c := c) regular').mpr (Int.not_lt.mp passed)
      rw [SundayClock.utc_wall regular'] at reached
      exact absurd later (Int.not_lt.mpr reached)
    exact (SundayClock.utc_le_iff regular).mpr (least _ hour read)

theorem MarketHour.regular {t : Instant} (h : MarketHour c t) : SundayClock.Regular (c.wall t) :=
  regular_of_isAligned h

/-- Market hours begin on the hour, in every zone that is whole hours away. -/
theorem MarketHour.onHour {t : Instant} (h : MarketHour c t) : t % hour = 0 := by
  have whole := ((isAligned_h1 _).mp h).1
  rcases SundayClock.wall_cases (c := c) t with read | read <;>
  · rw [read] at whole
    simp only [hour] at whole ⊢
    unfold Instant at *
    omega

/-- The clock does not change within a market hour. -/
theorem MarketHour.wall_add {t : Instant} (h : MarketHour c t) :
    c.wall (t + hour) = c.wall t + hour := by
  have same : c.offset (t + hour) = c.offset t := by
    by_contra changed
    have later : (t : ℤ) ≤ t + hour := Int.le_add_of_nonneg_right (by decide)
    obtain ⟨x, low, high, sunday, two⟩ := SundayClock.exists_change later changed
    have opened := (marketIsOpen_iff _).mp ((isAligned_h1 _).mp h).2
    unfold SundayClock.wall at opened
    clear changed
    generalize c.offset t = offset at *
    simp only [weekday, hour, day] at *
    unfold Instant at *
    omega
  unfold SundayClock.wall
  rw [same]
  ring

/-! ## Steps -/

/-- An hour later, a market hour is the next one. -/
theorem next_of_hour {a b : Instant} (ha : MarketHour c a) (hb : MarketHour c b)
    (step : b - a = hour) : b = nextMarketHour c a := by
  obtain ⟨next, after, least⟩ := nextMarketHour_spec (c := c) a
  have wholeA := ha.onHour
  have wholeN := next.onHour
  have le := least b hb (by
    simp only [hour] at step
    unfold Instant at *
    omega)
  generalize nextMarketHour c a = n at *
  simp only [hour] at *
  unfold Instant at *
  omega

/-- Where a market hour is followed by a weekend. -/
theorem isWeekendGap_iff {a b : Instant} (ha : MarketHour c a) (hb : MarketHour c b) :
    isWeekendGap c a b = true ↔ ClosingHour c a ∧ OpeningHour c b := by
  have wholeA := ((isAligned_h1 _).mp ha).1
  have wholeB := ((isAligned_h1 _).mp hb).1
  unfold isWeekendGap ClosingHour OpeningHour
  dsimp only
  rw [ha.wall_add]
  generalize c.wall a = wa at *
  generalize c.wall b = wb at *
  simp only [Bool.and_eq_true, decide_eq_true_eq]
  simp only [weekday, hour, day] at *
  omega

/-- The next market hour is an hour later, or after the weekend. -/
theorem step_next {a : Instant} (ha : MarketHour c a) :
    nextMarketHour c a - a = hour ∨ isWeekendGap c a (nextMarketHour c a) = true := by
  obtain ⟨next, after, least⟩ := nextMarketHour_spec (c := c) a
  have aligned := (isAligned_h1 _).mp ha
  have opened := (marketIsOpen_iff _).mp aligned.2
  have read : c.wall (nextMarketHour c a) = nextReading (c.wall a) :=
    SundayClock.wall_utc (regular_of_isAligned (nextReading_spec (c.wall a)).1).unskipped
  by_cases closing : ClosingHour c a
  · right
    rw [isWeekendGap_iff ha next]
    refine ⟨closing, ?_⟩
    unfold OpeningHour
    rw [read]
    unfold ClosingHour at closing
    generalize c.wall a = w at *
    unfold nextReading
    simp only [atFive, weekday, hour, day] at *
    split_ifs <;> omega
  · left
    have later : isAligned .h1 (c.wall a + hour) = true := by
      rw [isAligned_h1, marketIsOpen_iff]
      unfold ClosingHour at closing
      generalize c.wall a = w at *
      simp only [weekday, hour, day] at *
      omega
    have there : MarketHour c (a + hour) := by
      unfold MarketHour
      rw [ha.wall_add]
      exact later
    have same := next_of_hour ha there (by ring)
    rw [← same]
    ring

/-- A step of the function leads to the next market hour, or past whole weeks. -/
theorem next_or_skips {a b : Instant} (ha : MarketHour c a) (hb : MarketHour c b) (less : a < b)
    (step : b - a = hour ∨ isWeekendGap c a b = true) :
    b = nextMarketHour c a ∨
      ClosingHour c a ∧ OpeningHour c b ∧ nextMarketHour c a < b := by
  rcases step with step | gap
  · exact .inl (next_of_hour ha hb step)
  · obtain ⟨closing, opening⟩ := (isWeekendGap_iff ha hb).mp gap
    rcases Int.lt_or_eq_of_le ((nextMarketHour_spec a).2.2 b hb less) with later | same
    · exact .inr ⟨closing, opening, later⟩
    · exact .inl same.symm

/-! ## Lists of candles -/

theorem zip_all_iff {p : Instant × Instant → Bool} (first : Instant) (rest : List Instant) :
    ((first :: rest).zip rest).all p = true ↔
      List.IsChain (fun a b => p (a, b) = true) (first :: rest) := by
  induction rest generalizing first with
  | nil => exact ⟨fun _ => .singleton first, fun _ => rfl⟩
  | cons second rest ih =>
    rw [List.zip_cons_cons, List.all_cons, Bool.and_eq_true, ih, List.isChain_cons_cons]

/-- What the function accepts, under a manifest that covers the period. -/
theorem hasCoverage_iff {runs : List IngestionRun} {now : Instant} {recommendation : Recommendation}
    {through : Instant} {asOf : Option Instant}
    (covers : manifestCoversRange runs now recommendation through asOf = true)
    {candles : List Instant} :
    hasCoverage c runs now recommendation through candles asOf = true ↔
      ∃ first rest, candles = first :: rest ∧
        first = nextMarketHour c recommendation.generatedAt ∧
        through ≤ nextMarketHour c ((first :: rest).getLast (List.cons_ne_nil _ _)) ∧
        List.IsChain (fun a b => b - a = hour ∨ isWeekendGap c a b = true) (first :: rest) := by
  unfold hasCoverage
  rw [covers]
  cases candles with
  | nil =>
    constructor
    · intro h
      cases h
    · rintro ⟨first, rest, h, -⟩
      cases h
  | cons first rest =>
    have steps : ((first :: rest).zip rest).all (fun (previous, current) =>
        decide (current - previous = hour) || isWeekendGap c previous current) = true ↔
        List.IsChain (fun a b => b - a = hour ∨ isWeekendGap c a b = true) (first :: rest) := by
      rw [zip_all_iff]
      simp only [Bool.or_eq_true, decide_eq_true_eq]
    constructor
    · intro h
      simp only [Bool.not_true, Bool.false_eq_true, if_false] at h
      by_cases start : first = nextMarketHour c recommendation.generatedAt
      · rw [if_neg (not_not.mpr start)] at h
        by_cases ends : nextMarketHour c ((first :: rest).getLast (List.cons_ne_nil _ _)) < through
        · rw [if_pos ends] at h
          cases h
        · rw [if_neg ends] at h
          exact ⟨first, rest, rfl, start, Int.not_lt.mp ends, steps.mp h⟩
      · rw [if_pos start] at h
        cases h
    · rintro ⟨_, _, same, start, ends, chain⟩
      cases same
      have all := steps.mpr chain
      simp only [Bool.not_true, Bool.false_eq_true, if_false]
      rw [if_neg (not_not.mpr start), if_neg (Int.not_lt.mpr ends)]
      exact all

/-- A chain of next market hours holds all of them from its first to its last. -/
theorem mem_chain {first : Instant} {rest : List Instant} (hour : MarketHour c first)
    (chain : List.IsChain (fun a b => b = nextMarketHour c a) (first :: rest)) :
    ∀ t, t ∈ first :: rest ↔ MarketHour c t ∧ first ≤ t ∧
      t ≤ (first :: rest).getLast (List.cons_ne_nil _ _) := by
  induction rest generalizing first with
  | nil =>
    intro t
    rw [List.mem_singleton, List.getLast_singleton]
    constructor
    · rintro rfl
      exact ⟨hour, Int.le_refl _, Int.le_refl _⟩
    · rintro ⟨-, low, high⟩
      exact Int.le_antisymm high low
  | cons second rest ih =>
    obtain ⟨step, chain⟩ := List.isChain_cons_cons.mp chain
    obtain ⟨next, after, least⟩ := nextMarketHour_spec (c := c) first
    have tail := ih (step ▸ next) chain
    have last : second ≤ (second :: rest).getLast (List.cons_ne_nil _ _) :=
      ((tail second).mp List.mem_cons_self).2.2
    intro t
    rw [List.mem_cons, tail, List.getLast_cons (List.cons_ne_nil _ _)]
    constructor
    · rintro (rfl | ⟨here, low, high⟩)
      · exact ⟨hour, Int.le_refl _, Int.le_trans (Int.le_of_lt (step ▸ after)) last⟩
      · exact ⟨here, Int.le_trans (Int.le_of_lt (step ▸ after)) low, high⟩
    · rintro ⟨here, low, high⟩
      rcases Int.lt_or_eq_of_le low with later | same
      · exact .inr ⟨here, step ▸ least t here later, high⟩
      · exact .inl same.symm

theorem ascending_chain {candles : List Instant}
    (chain : List.IsChain (fun a b => b = nextMarketHour c a) candles) :
    candles.Pairwise (· < ·) := by
  refine (chain.imp fun a b step => ?_).pairwise
  rw [step]
  exact (nextMarketHour_spec a).2.1

/-- **All that is due** is a chain of next market hours. -/
theorem chain_of_due {generatedAt through : Instant} {candles : List Instant}
    (all : AllDue c generatedAt through candles) :
    List.IsChain (fun a b => b = nextMarketHour c a) candles := by
  have closed : ∀ a ∈ candles, nextMarketHour c a < through → nextMarketHour c a ∈ candles := by
    intro a mem inside
    obtain ⟨next, after, -⟩ := nextMarketHour_spec (c := c) a
    exact (all.due _).mpr ⟨next, Int.le_trans ((all.due a).mp mem).2.1 (Int.le_of_lt after), inside⟩
  have hours : ∀ a ∈ candles, MarketHour c a ∧ a < through :=
    fun a mem => ⟨((all.due a).mp mem).1, ((all.due a).mp mem).2.2⟩
  have ascending := all.ascending
  clear all
  induction candles with
  | nil => exact .nil
  | cons a candles ih =>
    obtain ⟨first, ascending⟩ := List.pairwise_cons.mp ascending
    have tail := ih (fun x mem inside => ?_) (fun x mem => hours x (List.mem_cons_of_mem _ mem))
      ascending
    · cases candles with
      | nil => exact .singleton a
      | cons b candles =>
        refine List.isChain_cons_cons.mpr ⟨?_, tail⟩
        obtain ⟨next, after, least⟩ := nextMarketHour_spec (c := c) a
        obtain ⟨hb, inside⟩ := hours b (List.mem_cons_of_mem _ List.mem_cons_self)
        have le := least b hb (first b List.mem_cons_self)
        have mem := closed a List.mem_cons_self (Int.lt_of_le_of_lt le inside)
        rcases List.mem_cons.mp mem with same | mem
        · exact absurd same (Int.ne_of_gt after)
        · rcases List.mem_cons.mp mem with same | mem
          · exact same.symm
          · exact absurd ((List.pairwise_cons.mp ascending).1 _ mem) (Int.not_lt.mpr le)
    · have later := (nextMarketHour_spec (c := c) x).2.1
      rcases List.mem_cons.mp (closed x (List.mem_cons_of_mem _ mem) inside) with same | mem'
      · exact absurd (Int.lt_trans (first x mem) later) (same ▸ Int.lt_irrefl a)
      · exact mem'

section
variable {generatedAt through first : Instant} {rest : List Instant}
  (all : AllDue c generatedAt through (first :: rest))
include all

theorem mem_due : ∀ t, t ∈ first :: rest ↔ MarketHour c t ∧ first ≤ t ∧
    t ≤ (first :: rest).getLast (List.cons_ne_nil _ _) :=
  mem_chain ((all.due first).mp List.mem_cons_self).1 (chain_of_due all)

/-- What is due from a market hour on begins with it. -/
theorem head_of_hour (hour : MarketHour c generatedAt) : first = generatedAt := by
  obtain ⟨-, from_, before⟩ := (all.due first).mp List.mem_cons_self
  have mem := (all.due generatedAt).mpr
    ⟨hour, Int.le_refl _, Int.lt_of_le_of_lt from_ before⟩
  exact Int.le_antisymm ((mem_due all _).mp mem).2.1 from_

/-- What is due from another time on begins with the next market hour. -/
theorem head_of_due (between : ¬ MarketHour c generatedAt) :
    first = nextMarketHour c generatedAt := by
  obtain ⟨here, from_, before⟩ := (all.due first).mp List.mem_cons_self
  obtain ⟨next, after, least⟩ := nextMarketHour_spec (c := c) generatedAt
  have differ : generatedAt ≠ first := by
    rintro rfl
    exact between here
  have le := least first here (Int.lt_iff_le_and_ne.mpr ⟨from_, differ⟩)
  have mem := (all.due _).mpr ⟨next, Int.le_of_lt after, Int.lt_of_le_of_lt le before⟩
  exact Int.le_antisymm ((mem_due all _).mp mem).2.1 le

/-- After the last that is due comes none before the end. -/
theorem through_le_next :
    through ≤ nextMarketHour c ((first :: rest).getLast (List.cons_ne_nil _ _)) := by
  by_contra early
  have last := (all.due _).mp (List.getLast_mem (List.cons_ne_nil first rest))
  obtain ⟨next, after, -⟩ := nextMarketHour_spec (c := c)
    ((first :: rest).getLast (List.cons_ne_nil _ _))
  have mem := (all.due _).mpr
    ⟨next, Int.le_trans last.2.1 (Int.le_of_lt after), Int.not_le.mp early⟩
  exact absurd ((mem_due all _).mp mem).2.2 (Int.not_le.mpr after)

end

theorem exists_due (generatedAt through : Instant) :
    ∃ candles, AllDue c generatedAt through candles := by
  have from_hour : ∀ (n : ℕ) (start : Instant), MarketHour c start → (through - start).toNat ≤ n →
      ∃ candles, AllDue c start through candles := by
    intro n
    induction n with
    | zero =>
      intro start _ bound
      refine ⟨[], .nil, fun t => ⟨fun mem => ?_, ?_⟩⟩
      · cases mem
      · rintro ⟨-, low, high⟩
        unfold Instant at *
        omega
    | succ n ih =>
      intro start hour bound
      by_cases inside : start < through
      · obtain ⟨next, after, least⟩ := nextMarketHour_spec (c := c) start
        obtain ⟨candles, all⟩ := ih (nextMarketHour c start) next (by
          unfold Instant at *
          omega)
        refine ⟨start :: candles, List.pairwise_cons.mpr ⟨fun t mem => ?_, all.ascending⟩,
          fun t => ?_⟩
        · exact Int.lt_of_lt_of_le after ((all.due t).mp mem).2.1
        · rw [List.mem_cons, all.due]
          constructor
          · rintro (rfl | ⟨here, low, high⟩)
            · exact ⟨hour, Int.le_refl _, inside⟩
            · exact ⟨here, Int.le_trans (Int.le_of_lt after) low, high⟩
          · rintro ⟨here, low, high⟩
            rcases Int.lt_or_eq_of_le low with later | same
            · exact .inr ⟨here, least t here later, high⟩
            · exact .inl same.symm
      · refine ⟨[], .nil, fun t => ⟨fun mem => ?_, ?_⟩⟩
        · cases mem
        · rintro ⟨-, low, high⟩
          exact absurd (Int.lt_of_le_of_lt low high) inside
  by_cases hour : MarketHour c generatedAt
  · exact from_hour _ generatedAt hour (Nat.le_refl _)
  · obtain ⟨next, after, least⟩ := nextMarketHour_spec (c := c) generatedAt
    obtain ⟨candles, all⟩ := from_hour _ (nextMarketHour c generatedAt) next (Nat.le_refl _)
    refine ⟨candles, all.ascending, fun t => (all.due t).trans (and_congr_right fun here =>
      and_congr_left fun _ => ⟨fun low => Int.le_trans (Int.le_of_lt after) low, fun low => ?_⟩)⟩
    refine least t here (Int.lt_iff_le_and_ne.mpr ⟨low, ?_⟩)
    rintro rfl
    exact hour here

/-! ## Where the function is right -/

/-- The generation is not itself the start of a market hour, one is due, and the window does not
reach from the last hour before a weekend past the opening after it to that of a later one. -/
structure Sound (c : SundayClock) (generatedAt through : Instant) : Prop where
  between : ¬ MarketHour c generatedAt
  some_due : ∃ t, MarketHour c t ∧ generatedAt ≤ t ∧ t < through
  one_weekend : ∀ a b, ClosingHour c a → OpeningHour c b → generatedAt ≤ a → b < through →
    b ≤ nextMarketHour c a

theorem OpeningHour.marketHour {t : Instant} (h : OpeningHour c t) : MarketHour c t := by
  unfold MarketHour
  rw [isAligned_h1, marketIsOpen_iff]
  unfold OpeningHour at h
  simp only [weekday, hour, day] at *
  omega

theorem ClosingHour.marketHour {t : Instant} (h : ClosingHour c t) : MarketHour c t := by
  unfold MarketHour
  rw [isAligned_h1, marketIsOpen_iff]
  unfold ClosingHour at h
  simp only [weekday, hour, day] at *
  omega

/-- A manifest of the period. -/
theorem exists_manifest (recommendation : Recommendation) (through : Instant) :
    ∃ runs now asOf, manifestCoversRange runs now recommendation through asOf = true := by
  refine ⟨[⟨recommendation.instrument, "H1", .succeeded, recommendation.generatedAt, through,
    some 0⟩], 0, none, ?_⟩
  simp [manifestCoversRange]

section
variable {recommendation : Recommendation} {through : Instant} {candles : List Instant}

/-- In a sound window the function's steps lead from each candle to the next market hour. -/
theorem chain_of_steps (sound : Sound c recommendation.generatedAt through)
    (query : FromQuery c recommendation.generatedAt through candles)
    (steps : List.IsChain (fun a b => b - a = hour ∨ isWeekendGap c a b = true) candles) :
    List.IsChain (fun a b => b = nextMarketHour c a) candles := by
  obtain ⟨ascending, inside⟩ := query
  induction candles with
  | nil => exact .nil
  | cons a candles ih =>
    cases candles with
    | nil => exact .singleton a
    | cons b candles =>
      obtain ⟨step, steps⟩ := List.isChain_cons_cons.mp steps
      obtain ⟨first, ascending⟩ := List.pairwise_cons.mp ascending
      obtain ⟨ha, low, -⟩ := inside a List.mem_cons_self
      obtain ⟨hb, -, high⟩ := inside b (List.mem_cons_of_mem _ List.mem_cons_self)
      refine List.isChain_cons_cons.mpr ⟨?_, ih steps ascending fun t mem =>
        inside t (List.mem_cons_of_mem _ mem)⟩
      rcases next_or_skips ha hb (first b List.mem_cons_self) step with next |
        ⟨closing, opening, later⟩
      · exact next
      · exact absurd (sound.one_weekend a b closing opening low high) (Int.not_le.mpr later)

theorem steps_of_chain (hours : ∀ t ∈ candles, MarketHour c t)
    (chain : List.IsChain (fun a b => b = nextMarketHour c a) candles) :
    List.IsChain (fun a b => b - a = hour ∨ isWeekendGap c a b = true) candles := by
  induction candles with
  | nil => exact .nil
  | cons a candles ih =>
    cases candles with
    | nil => exact .singleton a
    | cons b candles =>
      obtain ⟨next, chain⟩ := List.isChain_cons_cons.mp chain
      refine List.isChain_cons_cons.mpr ⟨?_, ih (fun t mem => hours t
        (List.mem_cons_of_mem _ mem)) chain⟩
      rw [next]
      exact step_next (hours a List.mem_cons_self)

/-- **Sound windows**: of candles from the query the function is right. -/
theorem right_of_sound (sound : Sound c recommendation.generatedAt through)
    (query : FromQuery c recommendation.generatedAt through candles) :
    Right c recommendation through candles := by
  intro runs now asOf covers
  rw [hasCoverage_iff covers]
  constructor
  · rintro ⟨first, rest, rfl, start, ends, steps⟩
    have chain := chain_of_steps sound query steps
    have members := mem_chain (query.inside first List.mem_cons_self).1 chain
    refine ⟨query.ascending, fun t => ⟨query.inside t, ?_⟩⟩
    rintro ⟨here, low, high⟩
    obtain ⟨-, -, least⟩ := nextMarketHour_spec (c := c) recommendation.generatedAt
    obtain ⟨-, -, least'⟩ := nextMarketHour_spec (c := c)
      ((first :: rest).getLast (List.cons_ne_nil _ _))
    have differ : recommendation.generatedAt ≠ t := by
      rintro rfl
      exact sound.between here
    refine (members t).mpr ⟨here, ?_, ?_⟩
    · rw [start]
      exact least t here (Int.lt_iff_le_and_ne.mpr ⟨low, differ⟩)
    · by_contra later
      have past := least' t here (Int.not_le.mp later)
      exact absurd high (Int.not_lt.mpr (Int.le_trans ends past))
  · intro all
    cases candles with
    | nil =>
      obtain ⟨t, due⟩ := sound.some_due
      exact absurd ((all.due t).mpr due) List.not_mem_nil
    | cons first rest =>
      exact ⟨first, rest, rfl, head_of_due all sound.between, through_le_next all,
        steps_of_chain (fun t mem => (query.inside t mem).1) (chain_of_due all)⟩

/-- **Unsound windows**: of some candles from the query the function is wrong. -/
theorem sound_of_right (right : ∀ candles, FromQuery c recommendation.generatedAt through candles →
    Right c recommendation through candles) : Sound c recommendation.generatedAt through := by
  obtain ⟨runs, now, asOf, covers⟩ := exists_manifest recommendation through
  obtain ⟨whole, all⟩ := exists_due (c := c) recommendation.generatedAt through
  have accepted := (right whole ⟨all.ascending, fun t mem => (all.due t).mp mem⟩ runs now asOf
    covers).mpr all
  obtain ⟨first, rest, rfl, start, -, -⟩ := (hasCoverage_iff covers).mp accepted
  have between : ¬ MarketHour c recommendation.generatedAt := by
    intro here
    have same := (head_of_hour all here).symm.trans start
    exact absurd same (Int.ne_of_lt (nextMarketHour_spec _).2.1)
  refine ⟨between, ⟨first, (all.due first).mp List.mem_cons_self⟩, ?_⟩
  intro a b closing opening low high
  by_contra later
  have later := Int.not_le.mp later
  obtain ⟨next, after, least⟩ := nextMarketHour_spec (c := c) a
  -- the candles up to the closing hour, and those from the later opening on
  obtain ⟨before, left⟩ := exists_due (c := c) recommendation.generatedAt (a + 1)
  obtain ⟨behind, tail⟩ := exists_due (c := c) b through
  have mem_a : a ∈ before :=
    (left.due a).mpr ⟨closing.marketHour, low, Int.lt_add_one_of_le (Int.le_refl a)⟩
  have mem_b : b ∈ behind := (tail.due b).mpr ⟨opening.marketHour, Int.le_refl b, high⟩
  cases before with
  | nil => cases mem_a
  | cons first' rest' =>
    cases behind with
    | nil => cases mem_b
    | cons second last =>
      have head_b := head_of_hour tail opening.marketHour
      have last_a : (first' :: rest').getLast (List.cons_ne_nil _ _) = a :=
        Int.le_antisymm (Int.lt_add_one_iff.mp ((left.due _).mp (List.getLast_mem _)).2.2)
          ((mem_due left a).mp mem_a).2.2
      have query : FromQuery c recommendation.generatedAt through
          ((first' :: rest') ++ second :: last) := by
        refine ⟨List.pairwise_append.mpr ⟨left.ascending, tail.ascending,
          fun x hx y hy => ?_⟩, fun t mem => ?_⟩
        · have hx := Int.lt_add_one_iff.mp ((left.due x).mp hx).2.2
          have hy := ((tail.due y).mp hy).2.1
          exact Int.lt_of_le_of_lt hx (Int.lt_trans after (Int.lt_of_lt_of_le later hy))
        · rcases List.mem_append.mp mem with mem | mem
          · obtain ⟨here, from_, to_⟩ := (left.due t).mp mem
            exact ⟨here, from_, Int.lt_of_le_of_lt (Int.lt_add_one_iff.mp to_)
              (Int.lt_trans after (Int.lt_trans later high))⟩
          · obtain ⟨here, from_, to_⟩ := (tail.due t).mp mem
            exact ⟨here, Int.le_trans low (Int.le_trans (Int.le_of_lt after)
              (Int.le_trans (Int.le_of_lt later) from_)), to_⟩
      have accepted : hasCoverage c runs now recommendation through
          ((first' :: rest') ++ second :: last) asOf = true := by
        refine (hasCoverage_iff covers).mpr ⟨first', rest' ++ second :: last, rfl,
          head_of_due left between, ?_, ?_⟩
        · have ends := through_le_next tail
          have same : (first' :: (rest' ++ second :: last)).getLast (List.cons_ne_nil _ _) =
              (second :: last).getLast (List.cons_ne_nil _ _) := by
            show ((first' :: rest') ++ second :: last).getLast _ = _
            exact List.getLast_append_of_ne_nil _ _
          rw [same]
          exact ends
        · refine List.isChain_append.mpr ⟨steps_of_chain (fun t mem => ((left.due t).mp mem).1)
            (chain_of_due left), steps_of_chain (fun t mem => ((tail.due t).mp mem).1)
            (chain_of_due tail), fun x hx y hy => ?_⟩
          rw [List.getLast?_eq_some_getLast (List.cons_ne_nil _ _), last_a] at hx
          obtain rfl := Option.mem_some.mp hx
          obtain rfl := Option.mem_some.mp hy
          right
          rw [head_b]
          exact (isWeekendGap_iff closing.marketHour opening.marketHour).mpr ⟨closing, opening⟩
      have complete := (right _ query runs now asOf covers).mp accepted
      have missing := (complete.due (nextMarketHour c a)).mpr
        ⟨next, Int.le_trans low (Int.le_of_lt after), Int.lt_trans later high⟩
      rcases List.mem_append.mp missing with mem | mem
      · exact absurd after (Int.not_lt.mpr (Int.lt_add_one_iff.mp ((left.due _).mp mem).2.2))
      · exact absurd later (Int.not_lt.mpr ((tail.due _).mp mem).2.1)

theorem exists_chain (n : ℕ) : ∀ start : Instant, MarketHour c start →
    ∃ rest, List.IsChain (fun a b => b = nextMarketHour c a) (start :: rest) ∧
      start + n ≤ (start :: rest).getLast (List.cons_ne_nil _ _) := by
  induction n with
  | zero => exact fun start _ => ⟨[], .singleton start, Int.le_of_eq (Int.add_zero start)⟩
  | succ n ih =>
    intro start _
    obtain ⟨next, after, -⟩ := nextMarketHour_spec (c := c) start
    obtain ⟨rest, chain, far⟩ := ih (nextMarketHour c start) next
    refine ⟨nextMarketHour c start :: rest, List.isChain_cons_cons.mpr ⟨rfl, chain⟩, ?_⟩
    rw [List.getLast_cons (List.cons_ne_nil _ _)]
    refine Int.le_trans ?_ far
    push_cast
    unfold Instant at *
    omega

/-- Hours from `through` on are accepted as well: of some candles the function is wrong. -/
theorem exists_wrong (recommendation : Recommendation) (through : Instant) :
    ∃ candles, ¬ Right c recommendation through candles := by
  obtain ⟨next, -, -⟩ := nextMarketHour_spec (c := c) recommendation.generatedAt
  obtain ⟨rest, chain, far⟩ := exists_chain
    (through - nextMarketHour c recommendation.generatedAt).toNat _ next
  have late : through ≤ (nextMarketHour c recommendation.generatedAt :: rest).getLast
      (List.cons_ne_nil _ _) := by
    refine Int.le_trans ?_ far
    unfold Instant at *
    omega
  refine ⟨nextMarketHour c recommendation.generatedAt :: rest, fun right => ?_⟩
  obtain ⟨runs, now, asOf, covers⟩ := exists_manifest recommendation through
  have hours := fun t mem => ((mem_chain next chain t).mp mem).1
  have accepted := (hasCoverage_iff covers).mpr ⟨_, rest, rfl, rfl,
    Int.le_trans late (Int.le_of_lt (nextMarketHour_spec _).2.1), steps_of_chain hours chain⟩
  have all := (right runs now asOf covers).mp accepted
  exact absurd ((all.due _).mp (List.getLast_mem _)).2.2 (Int.not_lt.mpr late)

variable (c) in
/-- **Hourly coverage**: about candles as the query gives them the function is right exactly in
sound windows, and about any candles whatever in none. -/
theorem hasCoverage_right_iff (recommendation : Recommendation) (through : Instant) :
    ((∀ candles, FromQuery c recommendation.generatedAt through candles →
      Right c recommendation through candles) ↔ Sound c recommendation.generatedAt through) ∧
    ¬ ∀ candles, Right c recommendation through candles := by
  refine ⟨⟨sound_of_right, fun sound candles query => right_of_sound sound query⟩, fun always => ?_⟩
  obtain ⟨candles, wrong⟩ := exists_wrong (c := c) recommendation through
  exact wrong (always candles)

end

end

/-- Generated at ten on a Monday, with the candles of ten and eleven, which are all. -/
theorem generated_on_the_hour :
    ¬ Right newYork ⟨"EUR_USD", 19730 * day + 15 * hour, 4⟩ (19730 * day + 17 * hour)
      [19730 * day + 15 * hour, 19730 * day + 16 * hour] := by
  have hour_of : ∀ s : Instant, isAligned .h1 (newYork.wall s) = true → MarketHour newYork s :=
    fun s aligned => aligned
  have ten := hour_of (19730 * day + 15 * hour) (by decide)
  have eleven := hour_of (19730 * day + 16 * hour) (by decide)
  have all : AllDue newYork (19730 * day + 15 * hour) (19730 * day + 17 * hour)
      [19730 * day + 15 * hour, 19730 * day + 16 * hour] := by
    refine ⟨by decide, fun t => ⟨fun mem => ?_, ?_⟩⟩
    · rcases List.mem_pair.mp mem with rfl | rfl
      · exact ⟨ten, by decide, by decide⟩
      · exact ⟨eleven, by decide, by decide⟩
    · rintro ⟨here, low, high⟩
      have whole := here.onHour
      rw [List.mem_pair]
      simp only [hour, day] at *
      unfold Instant at *
      omega
  intro right
  obtain ⟨runs, now, asOf, covers⟩ := exists_manifest
    ⟨"EUR_USD", 19730 * day + 15 * hour, 4⟩ (19730 * day + 17 * hour)
  have accepted := (right runs now asOf covers).mpr all
  obtain ⟨first, rest, same, start, -, -⟩ := (hasCoverage_iff covers).mp accepted
  have late := (nextMarketHour_spec (c := newYork) (19730 * day + 15 * hour)).2.1
  rw [List.cons.injEq] at same
  exact absurd (same.1.trans start) (Int.ne_of_lt late)

end TradeRecommender.Forecasts.Coverage
