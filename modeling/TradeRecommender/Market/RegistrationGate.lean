import Mathlib.Data.List.Chain
import TradeRecommender.Market.CalendarTiling
import TradeRecommender.Market.CandleValidation

/-!
# The registration gate

`validate_candles` with registered alignment, against the timestamps `expected_candle_timestamps`
registers.

1. what validation says of the timestamps of a list: a condition on each candle and the one before;
2. registered lists as chains of successors;
3. the steps that validation accepts and the calendar does not have;
4. the lists on which the two agree.
-/

namespace TradeRecommender.Market

open Py Civil

/-! ## Validation -/

/-- The issues of a timestamp, a gap, an alignment or a succession. -/
def calendarCodes : List String :=
  ["timestamp_not_utc", "duplicate_timestamp", "non_monotonic_timestamp", "unexpected_gap",
    "alignment_mismatch"]

section
variable (c : SundayClock) (g : Granularity)

/-- A timestamp may follow another. -/
def Accepts (r s : Instant) : Prop :=
  r < s ∧ isExpectedSuccessor c g r s true = .ok true ∧
    (g ∈ [.d, .w] → hasRegisteredAlignment c g s = true)

/-- The check of a timestamp behind another one raises nothing. -/
def Checked (r s : Instant) : Prop := ∃ verdict, isExpectedSuccessor c g r s true = .ok verdict

end

section
variable {c : SundayClock} {g : Granularity}

/-- When a candle has no issue of its timestamp. -/
theorem candleIssues_clean {seen : List Instant} {previous : Option CandleData}
    {candle : CandleData} {codes : List String}
    (h : candleIssues c g true true seen previous candle = .ok codes) :
    ∃ gap, gapBefore c g true true previous candle = .ok gap ∧
      ((∀ code ∈ codes, code ∉ calendarCodes) ↔ candle.utcoffset = 0 ∧ candle.timestamp ∉ seen ∧
        (∀ p, previous = some p → p.timestamp < candle.timestamp) ∧ gap = false ∧
        (g ∈ [.d, .w] → hasRegisteredAlignment c g candle.timestamp = true)) := by
  obtain ⟨gap, checked, h⟩ := bind_eq_ok.mp h
  cases h
  refine ⟨gap, checked, ?_⟩
  have found : ∀ (condition : Bool) (code : String),
      (∀ code' ∈ (if condition = true then [code] else []), code' ∉ calendarCodes) ↔
        (code ∈ calendarCodes → condition = false) := by
    intro condition code
    cases condition with
    | false => simp
    | true => simp
  have calendar : "timestamp_not_utc" ∈ calendarCodes ∧ "duplicate_timestamp" ∈ calendarCodes ∧
      "non_monotonic_timestamp" ∈ calendarCodes ∧ "unexpected_gap" ∈ calendarCodes ∧
      "alignment_mismatch" ∈ calendarCodes := by decide
  have other : "incomplete_candle" ∉ calendarCodes ∧ "negative_volume" ∉ calendarCodes ∧
      "impossible_ohlc" ∉ calendarCodes ∧ "crossed_bid_ask" ∉ calendarCodes := by decide
  have side : ∀ (sides : List Prices), ∀ code ∈ sides.flatMap fun side =>
      (if side.impossible = true then ["impossible_ohlc"] else []), code ∉ calendarCodes := by
    intro sides code mem
    obtain ⟨p, -, mem⟩ := List.mem_flatMap.mp mem
    split_ifs at mem
    · rw [List.mem_singleton.mp mem]
      exact other.2.2.1
    · cases mem
  have component : ∀ (fields : List (Prices → ℚ)), ∀ code ∈ fields.flatMap fun component =>
      (if decide (component candle.ask < component candle.bid) = true then ["crossed_bid_ask"]
        else []), code ∉ calendarCodes := by
    intro fields code mem
    obtain ⟨p, -, mem⟩ := List.mem_flatMap.mp mem
    split_ifs at mem
    · rw [List.mem_singleton.mp mem]
      exact other.2.2.2
    · cases mem
  have order : (previous.any fun p => decide (candle.timestamp ≤ p.timestamp)) = false ↔
      ∀ p, previous = some p → p.timestamp < candle.timestamp := by
    cases previous with
    | none => simp
    | some p => simp
  simp only [List.forall_mem_append, found, calendar, other, forall_const, false_implies, and_true,
    decide_eq_false_iff_not, not_not, Bool.true_and, order]
  constructor
  · rintro ⟨⟨⟨⟨⟨⟨utc, fresh⟩, later⟩, closed⟩, aligned⟩, -⟩, -⟩
    refine ⟨utc, fresh, later, closed, fun daily => ?_⟩
    by_contra unaligned
    simp [daily, unaligned] at aligned
  · rintro ⟨utc, fresh, later, closed, aligned⟩
    refine ⟨⟨⟨⟨⟨⟨utc, fresh⟩, later⟩, closed⟩, ?_⟩, side _⟩, component _⟩
    by_cases daily : g ∈ [.d, .w]
    · rw [aligned daily]
      simp
    · simp [daily]

/-- Behind another candle, one has no issue of its timestamp when that may follow. -/
theorem candleIssues_iff {seen : List Instant} {previous candle : CandleData} {codes : List String}
    (before : ∀ u ∈ seen, u ≤ previous.timestamp) (utc : candle.utcoffset = 0)
    (h : candleIssues c g true true seen (some previous) candle = .ok codes) :
    (∀ code ∈ codes, code ∉ calendarCodes) ↔ Accepts c g previous.timestamp candle.timestamp := by
  obtain ⟨gap, checked, clean⟩ := candleIssues_clean h
  rw [gapBefore, if_pos rfl] at checked
  obtain ⟨verdict, successor, rfl⟩ := map_eq_ok.mp checked
  rw [clean, Accepts, successor]
  constructor
  · rintro ⟨-, -, later, expected, aligned⟩
    refine ⟨later previous rfl, ?_, aligned⟩
    cases verdict with
    | true => rfl
    | false => cases expected
  · rintro ⟨later, expected, aligned⟩
    cases expected
    refine ⟨utc, fun mem => absurd (before _ mem) (not_le.mpr later), ?_, rfl, aligned⟩
    rintro p ⟨⟩
    exact later

/-- The first candle, on an aligned reading, has no issue of its timestamp. -/
theorem candleIssues_first {candle : CandleData} (utc : candle.utcoffset = 0)
    (aligned : isAligned g (c.wall candle.timestamp) = true) :
    ∃ codes, candleIssues c g true true [] none candle = .ok codes ∧
      ∀ code ∈ codes, code ∉ calendarCodes := by
  obtain ⟨codes, found⟩ : ∃ codes, candleIssues c g true true [] none candle = .ok codes :=
    ⟨_, rfl⟩
  refine ⟨codes, found, ?_⟩
  obtain ⟨gap, checked, clean⟩ := candleIssues_clean found
  cases checked
  rw [clean]
  refine ⟨utc, List.not_mem_nil, fun p h => (by cases h), rfl, fun daily => ?_⟩
  rw [hasRegisteredAlignment, Bool.and_eq_true, Bool.or_eq_true, decide_eq_true_iff,
    decide_eq_true_iff, decide_eq_true_iff]
  cases g with
  | w => exact ⟨((isAligned_w _).mp aligned).2, .inr ((isAligned_w _).mp aligned).1⟩
  | d => exact ⟨((isAligned_d _).mp aligned).2, .inl rfl⟩
  | h4 => exact absurd daily (by decide)
  | h1 => exact absurd daily (by decide)
  | m15 => exact absurd daily (by decide)

/-- What validation says of the timestamps behind a candle. -/
theorem validateFrom_iff {rest : List CandleData} (utc : ∀ candle ∈ rest, candle.utcoffset = 0)
    {index : ℕ} {seen : List Instant} {previous : CandleData}
    (before : ∀ u ∈ seen, u ≤ previous.timestamp) {issues : List ValidationIssue}
    (h : validateFrom c g true true index seen (some previous) rest = .ok issues) :
    (∀ issue ∈ issues, issue.code ∉ calendarCodes) ↔
      (previous.timestamp :: rest.map CandleData.timestamp).IsChain (Accepts c g) := by
  induction rest generalizing index seen previous issues with
  | nil =>
    cases h
    simp
  | cons candle rest ih =>
    obtain ⟨codes, here, h⟩ := bind_eq_ok.mp h
    obtain ⟨others, behind, h⟩ := bind_eq_ok.mp h
    cases h
    have first := candleIssues_iff before (utc candle List.mem_cons_self) here
    rw [List.map_cons, List.isChain_cons_cons, List.forall_mem_append, List.forall_mem_map]
    by_cases accepted : Accepts c g previous.timestamp candle.timestamp
    · have seen' : ∀ u ∈ candle.timestamp :: seen, u ≤ candle.timestamp := by
        intro u mem
        rcases List.mem_cons.mp mem with rfl | mem
        · exact le_refl _
        · exact (before u mem).trans accepted.1.le
      rw [ih (fun next mem => utc next (List.mem_cons_of_mem _ mem)) seen' behind]
      exact and_congr first Iff.rfl
    · constructor
      · exact fun h => absurd (first.mp h.1) accepted
      · exact fun h => absurd h.1 accepted

/-- When validation returns behind a candle. -/
theorem validateFrom_returns {rest : List CandleData} (index : ℕ) (seen : List Instant)
    {previous : CandleData} :
    (∃ issues, validateFrom c g true true index seen (some previous) rest = .ok issues) ↔
      (previous.timestamp :: rest.map CandleData.timestamp).IsChain (Checked c g) := by
  induction rest generalizing index seen previous with
  | nil => simp [validateFrom]
  | cons candle rest ih =>
    rw [List.map_cons, List.isChain_cons_cons, ← ih (index + 1) (candle.timestamp :: seen)]
    constructor
    · rintro ⟨issues, h⟩
      obtain ⟨codes, here, h⟩ := bind_eq_ok.mp h
      obtain ⟨others, behind, -⟩ := bind_eq_ok.mp h
      obtain ⟨gap, checked, -⟩ := bind_eq_ok.mp here
      rw [gapBefore, if_pos rfl] at checked
      obtain ⟨verdict, successor, -⟩ := map_eq_ok.mp checked
      exact ⟨⟨verdict, successor⟩, others, behind⟩
    · rintro ⟨⟨verdict, successor⟩, others, behind⟩
      have gap : gapBefore c g true true (some previous) candle = .ok !verdict := by
        rw [gapBefore, if_pos rfl, successor]
        rfl
      obtain ⟨codes, here⟩ : ∃ codes,
          candleIssues c g true true seen (some previous) candle = .ok codes := by
        rw [candleIssues, gap]
        exact ⟨_, rfl⟩
      exact ⟨_, bind_eq_ok.mpr ⟨codes, here, bind_eq_ok.mpr ⟨others, behind, rfl⟩⟩⟩

/-- What validation says of a list that starts on an aligned reading. -/
theorem validateCandles_iff {first : CandleData} {rest : List CandleData}
    (utc : ∀ candle ∈ first :: rest, candle.utcoffset = 0)
    (aligned : isAligned g (c.wall first.timestamp) = true) :
    ((∃ issues, validateCandles c g (first :: rest) true true = .ok issues) ↔
      ((first :: rest).map CandleData.timestamp).IsChain (Checked c g)) ∧
    ∀ issues, validateCandles c g (first :: rest) true true = .ok issues →
      ((∀ issue ∈ issues, issue.code ∉ calendarCodes) ↔
        ((first :: rest).map CandleData.timestamp).IsChain (Accepts c g)) := by
  obtain ⟨codes, here, clean⟩ :=
    candleIssues_first (utc first List.mem_cons_self) aligned
  have seen : ∀ u ∈ [first.timestamp], u ≤ first.timestamp := by
    intro u mem
    rw [List.mem_singleton.mp mem]
  constructor
  · rw [List.map_cons, ← validateFrom_returns 1 [first.timestamp]]
    constructor
    · rintro ⟨issues, h⟩
      obtain ⟨codes, -, h⟩ := bind_eq_ok.mp h
      obtain ⟨others, behind, -⟩ := bind_eq_ok.mp h
      exact ⟨others, behind⟩
    · rintro ⟨others, behind⟩
      exact ⟨_, bind_eq_ok.mpr ⟨codes, here, bind_eq_ok.mpr ⟨others, behind, rfl⟩⟩⟩
  · intro issues h
    obtain ⟨codes', here', h⟩ := bind_eq_ok.mp h
    obtain ⟨others, behind, h⟩ := bind_eq_ok.mp h
    cases h
    rw [here] at here'
    cases here'
    rw [List.map_cons, ← validateFrom_iff (fun next mem => utc next (List.mem_cons_of_mem _ mem))
      seen behind, List.forall_mem_append, List.forall_mem_map]
    exact ⟨fun h => h.2, fun h => ⟨clean, h⟩⟩

/-! ## Registered lists -/

theorem startsFrom_isChain (n : ℕ) (t : Instant) :
    (startsFrom c g n t).IsChain fun r s => s = candleSuccessor c g r := by
  induction n generalizing t with
  | zero => exact .nil
  | succ n ih =>
    cases n with
    | zero => exact .singleton _
    | succ n => exact List.isChain_cons_cons.mpr ⟨rfl, ih _⟩

theorem eq_startsFrom {t : Instant} {rest : List Instant}
    (chain : (t :: rest).IsChain fun r s => s = candleSuccessor c g r) :
    t :: rest = startsFrom c g (rest.length + 1) t := by
  induction rest generalizing t with
  | nil => rfl
  | cons s rest ih =>
    obtain ⟨rfl, chain⟩ := List.isChain_cons_cons.mp chain
    exact congrArg (List.cons t) (ih chain)

/-- From an aligned start, the registered list up to the completion of its last candle is the list
of successors. -/
theorem expected_iff_isChain {t : Instant} {rest : List Instant}
    (aligned : isAligned g (c.wall t) = true) {last : Instant}
    (final : (t :: rest).getLast? = some last) :
    expectedCandleTimestamps c t (candleCompletion c g last) g = .ok (t :: rest) ↔
      (t :: rest).IsChain fun r s => s = candleSuccessor c g r := by
  constructor
  · intro h
    obtain ⟨-, n, starts, -⟩ := expected_spec h
    rw [starts]
    exact startsFrom_isChain (n + 1) t
  · intro chain
    have starts := eq_startsFrom chain
    rw [starts, getLast?_startsFrom] at final
    obtain rfl := Option.some.inj final
    rw [expected_starts rest.length aligned, ← starts]

/-! ## Steps -/

variable (c g) in
/-- From the last interval of a week to the open of a Sunday. -/
def WeekendStep (r s : Instant) : Prop :=
  expectedStart g = .ok (weekday (c.wall r / day), c.wall r % day) ∧
    weekday (c.wall s / day) = 6 ∧ c.wall s % day = 17 * hour

variable (c g) in
/-- One step of the granularity, which is a day of the wall for daily candles. -/
def OneStep (r s : Instant) : Prop :=
  if g = .d then c.wall s = c.wall r + day else s = r + g.step

variable (c g) in
/-- A timestamp that is a step or a weekend behind another. -/
def Continues (r s : Instant) : Prop := OneStep c g r s ∨ (WeekendStep c g r s ∧ r < s)

variable (c g) in
/-- The lists on which validation and the calendar agree. -/
def Coherent (ts : List Instant) : Prop :=
  match g with
  | .w => True
  | .m15 => (∀ t ∈ ts, isAligned .m15 (c.wall t) = true) ∧ ts.IsChain (OneStep c .m15)
  | g =>
    ((∀ t ∈ ts, isAligned g (c.wall t) = true) ∧
      ts.IsChain fun r s => WeekendStep c g r s → s < r + 7 * day) ∨
    ¬ ts.IsChain (Continues c g)

variable {r s : ℤ}

theorem isFxWeekendGap_iff {verdict : Bool} (other : g ≠ .w)
    (h : isFxWeekendGap c g r s true = .ok verdict) : verdict = true ↔ WeekendStep c g r s := by
  rw [isFxWeekendGap, if_neg other, if_pos rfl] at h
  obtain ⟨⟨d, time⟩, start, h⟩ := bind_eq_ok.mp h
  cases h
  rw [WeekendStep, start]
  simp only [Bool.and_eq_true, decide_eq_true_eq, Except.ok.injEq, Prod.mk.injEq]
  tauto

/-- What the successor check accepts. -/
theorem isExpectedSuccessor_iff (other : g ≠ .w) (table : g ≠ .m15) :
    isExpectedSuccessor c g r s true = .ok true ↔
      s - r = g.step ∨ WeekendStep c g r s ∨ (g = .d ∧ c.wall s - c.wall r = g.step) := by
  obtain ⟨verdict, gap⟩ : ∃ verdict, isFxWeekendGap c g r s true = .ok verdict := by
    rw [isFxWeekendGap, if_neg other, if_pos rfl]
    cases g with
    | w => exact absurd rfl other
    | m15 => exact absurd rfl table
    | d => exact ⟨_, rfl⟩
    | h4 => exact ⟨_, rfl⟩
    | h1 => exact ⟨_, rfl⟩
  rw [← isFxWeekendGap_iff other gap, isExpectedSuccessor]
  by_cases step : s - r = g.step
  · rw [if_pos step]
    exact ⟨fun _ => .inl step, fun _ => rfl⟩
  · rw [if_neg step, gap]
    cases verdict with
    | true => exact ⟨fun _ => .inr (.inl rfl), fun _ => rfl⟩
    | false =>
      show Except.ok (decide (g ∈ [.d, .w]) && decide (c.wall s - c.wall r = g.step)) = .ok true ↔ _
      simp only [Except.ok.injEq, Bool.and_eq_true, decide_eq_true_eq, List.mem_cons,
        List.not_mem_nil, or_false]
      constructor
      · rintro ⟨daily | weekly, wall⟩
        · exact .inr (.inr ⟨daily, wall⟩)
        · exact absurd weekly other
      · rintro (h | h | ⟨daily, wall⟩)
        · exact absurd h step
        · cases h
        · exact ⟨.inl daily, wall⟩

theorem lt_of_wall (later : c.wall r + hour < c.wall s) : r < s := by
  rcases SundayClock.wall_cases (c := c) r with h | h <;>
    rcases SundayClock.wall_cases (c := c) s with h' | h' <;> rw [h, h'] at later <;>
      simp only [hour] at later <;> omega

/-- What may follow, below a day. -/
theorem accepts_iff_intraday (intraday : g = .h4 ∨ g = .h1) :
    Accepts c g r s ↔ Continues c g r s := by
  have facts : g ≠ .w ∧ g ≠ .m15 ∧ g ≠ .d ∧ g ∉ [Granularity.d, .w] ∧ 0 < g.step := by
    rcases intraday with rfl | rfl <;> decide
  obtain ⟨other, table, daily, calendar, positive⟩ := facts
  rw [Accepts, isExpectedSuccessor_iff other table, Continues, OneStep, if_neg daily]
  constructor
  · rintro ⟨later, h | h | ⟨h, -⟩, -⟩
    · exact .inl (by linarith)
    · exact .inr ⟨h, later⟩
    · exact absurd h daily
  · rintro (h | ⟨h, later⟩)
    · exact ⟨by linarith, .inl (by linarith), fun h => absurd h calendar⟩
    · exact ⟨later, .inr (.inl h), fun h => absurd h calendar⟩

/-- What may follow a session close. -/
theorem accepts_iff_daily (close : c.wall r % day = 17 * hour) :
    Accepts c .d r s ↔ Continues c .d r s := by
  have alignment : hasRegisteredAlignment c .d s = true ↔ c.wall s % day = 17 * hour := by
    simp [hasRegisteredAlignment]
  have step : Granularity.d.step = day := rfl
  rw [Accepts, isExpectedSuccessor_iff (by decide) (by decide), alignment, Continues, OneStep,
    if_pos rfl, step]
  constructor
  · rintro ⟨later, h, at_five⟩
    have at_five := at_five (by decide)
    rcases h with h | h | ⟨-, h⟩
    · left
      rcases SundayClock.wall_cases (c := c) r with hr | hr <;>
        rcases SundayClock.wall_cases (c := c) s with hs | hs <;> rw [hr] at close ⊢ <;>
          rw [hs] at at_five ⊢ <;> simp only [hour, day] at * <;> omega
    · exact .inr ⟨h, later⟩
    · exact .inl (by linarith)
  · rintro (h | ⟨h, later⟩)
    · refine ⟨lt_of_wall (c := c) ?_, .inr (.inr ⟨rfl, by linarith⟩), fun _ => ?_⟩
      · rw [h]
        simp only [hour, day]
        omega
      · rw [h]
        simp only [hour, day] at close ⊢
        omega
    · exact ⟨later, .inr (.inl h), fun _ => h.2.2⟩

/-- The wall between two instants, up to a change of the clock. -/
theorem wall_between (r s : ℤ) : c.wall r - c.wall s ≤ r - s + hour ∧
    r - s - hour ≤ c.wall r - c.wall s := by
  rcases SundayClock.wall_cases (c := c) r with h | h <;>
    rcases SundayClock.wall_cases (c := c) s with h' | h' <;> rw [h, h'] <;> simp only [hour] <;>
      omega

/-- An aligned instant is the successor of another when its reading is. -/
theorem eq_successor_iff (aligned : isAligned g (c.wall r) = true) : s = candleSuccessor c g r ↔
    isAligned g (c.wall s) = true ∧ c.wall s = successorWall g (c.wall r) := by
  obtain ⟨next, -, -, -⟩ := successorWall_spec aligned
  have regular := regular_of_isAligned next
  constructor
  · rintro rfl
    rw [candleSuccessor, SundayClock.wall_utc regular.unskipped]
    exact ⟨next, rfl⟩
  · rintro ⟨aligned', wall⟩
    rw [candleSuccessor, ← wall, SundayClock.utc_wall (regular_of_isAligned aligned')]

/-- A step behind an aligned instant is a step behind it on the wall. -/
theorem step_iff_wall (short : g ≠ .w) (aligned : isAligned g (c.wall r) = true)
    (aligned' : isAligned g (c.wall s) = true) :
    s = r + g.step ↔ c.wall s = c.wall r + g.step := by
  have completion := completion_eq short aligned
  constructor
  · intro step
    have ends : s = candleCompletion c g r := by rw [completion, step]
    have same := offset_inside short aligned
      (by rw [ends]; exact (candle_spec aligned).2.1.le) ends.le
    rw [SundayClock.wall, SundayClock.wall, same, step]
    ring
  · intro wall
    rw [← completion, candleCompletion, ← wall,
      SundayClock.utc_wall (regular_of_isAligned aligned')]

/-- The registered successor of an instant is a step behind it or, from the last interval of a week,
at the open of its Sunday. -/
theorem successor_iff (table : g = .d ∨ g = .h4 ∨ g = .h1)
    (aligned : isAligned g (c.wall r) = true) : s = candleSuccessor c g r ↔
    isAligned g (c.wall s) = true ∧ Continues c g r s ∧
      (WeekendStep c g r s → s < r + 7 * day) := by
  have short : g ≠ .w := by rcases table with rfl | rfl | rfl <;> decide
  have between := wall_between (c := c) s r
  rw [eq_successor_iff aligned]
  refine and_congr_right fun aligned' => ?_
  have step_wall := step_iff_wall short aligned aligned'
  rw [Continues, WeekendStep, OneStep]
  rcases table with rfl | rfl | rfl
  · rw [isAligned_d] at aligned aligned'
    rw [if_pos rfl, expectedStart]
    simp only [List.mem_cons, List.not_mem_nil, or_false] at aligned aligned'
    simp only [successorWall, Except.ok.injEq, Prod.mk.injEq]
    generalize c.wall r = v at *
    generalize c.wall s = w at *
    simp only [weekday, hour, day] at *
    unfold Instant at *
    split_ifs <;> omega
  · rw [isAligned_h4, marketIsOpen_iff] at aligned aligned'
    rw [if_neg (by decide), step_wall, expectedStart, successorWall_intraday (by decide)]
    simp only [Except.ok.injEq, Prod.mk.injEq]
    generalize c.wall r = v at *
    generalize c.wall s = w at *
    simp only [Granularity.step, weekday, hour, day] at *
    unfold Instant at *
    split_ifs <;> omega
  · rw [isAligned_h1, marketIsOpen_iff] at aligned aligned'
    rw [if_neg (by decide), step_wall, expectedStart, successorWall_intraday (by decide)]
    simp only [Except.ok.injEq, Prod.mk.injEq]
    generalize c.wall r = v at *
    generalize c.wall s = w at *
    simp only [Granularity.step, weekday, hour, day] at *
    unfold Instant at *
    split_ifs <;> omega

/-- What may follow an aligned week. -/
theorem accepts_iff_weekly (aligned : isAligned .w (c.wall r) = true) :
    Accepts c .w r s ↔ s = candleSuccessor c .w r := by
  have expected : isExpectedSuccessor c .w r s true = .ok true ↔
      s - r = 7 * day ∨ c.wall s - c.wall r = 7 * day := by
    rw [isExpectedSuccessor, Granularity.step]
    by_cases step : s - r = 7 * day
    · rw [if_pos step]
      exact ⟨fun _ => .inl step, fun _ => rfl⟩
    · rw [if_neg step]
      show Except.ok (decide (_ ∈ _) && decide (c.wall s - c.wall r = 7 * day)) = .ok true ↔ _
      simp [step]
  have alignment : hasRegisteredAlignment c .w s = true ↔ isAligned .w (c.wall s) = true := by
    rw [isAligned_w, hasRegisteredAlignment]
    simp [and_comm]
  have between := wall_between (c := c) s r
  rw [Accepts, expected, alignment, eq_successor_iff aligned, successorWall]
  rw [isAligned_w] at aligned ⊢
  constructor
  · rintro ⟨later, h, aligned'⟩
    have aligned' := aligned' (by decide)
    refine ⟨aligned', ?_⟩
    simp only [weekday, hour, day] at *
    omega
  · rintro ⟨aligned', wall⟩
    refine ⟨lt_of_wall (c := c) ?_, .inr (by linarith), fun _ => aligned'⟩
    rw [wall]
    simp only [hour, day]
    omega

/-- A quarter of an hour is checked, and may follow, when it is a step behind the one before. -/
theorem quarter_iff : (Checked c .m15 r s ↔ OneStep c .m15 r s) ∧
    (Accepts c .m15 r s ↔ OneStep c .m15 r s) := by
  have one : OneStep c .m15 r s ↔ s - r = Granularity.step .m15 := by
    rw [OneStep, if_neg (by decide)]
    constructor <;> intro h <;> linarith
  have positive : 0 < Granularity.step .m15 := by decide
  rw [one, Checked, Accepts, isExpectedSuccessor]
  by_cases step : s - r = Granularity.step .m15
  · rw [if_pos step]
    refine ⟨⟨fun _ => step, fun _ => ⟨true, rfl⟩⟩, ⟨fun _ => step, fun _ => ?_⟩⟩
    exact ⟨by linarith, rfl, fun h => absurd h (by decide)⟩
  · -- the table of weekends has no entry for quarters
    rw [if_neg step]
    refine ⟨⟨?_, fun h => absurd h step⟩, ⟨?_, fun h => absurd h step⟩⟩
    · rintro ⟨verdict, h⟩
      cases h
    · rintro ⟨-, h, -⟩
      cases h

/-- Behind an aligned quarter, the next one is its successor when it is aligned. -/
theorem successor_of_quarter (aligned : isAligned .m15 (c.wall r) = true)
    (step : OneStep c .m15 r s) :
    s = candleSuccessor c .m15 r ↔ isAligned .m15 (c.wall s) = true := by
  rw [OneStep, if_neg (by decide)] at step
  rw [eq_successor_iff aligned]
  constructor
  · exact fun h => h.1
  · intro aligned'
    refine ⟨aligned', ?_⟩
    have wall := (step_iff_wall (by decide) aligned aligned').mp step
    rw [successorWall_intraday (by decide), wall, if_neg]
    intro close
    rw [← wall] at close
    rw [isAligned_m15, marketIsOpen_iff] at aligned'
    simp only [weekday, hour, day] at close aligned'
    omega

/-! ## Chains -/

/-- Relations that agree behind what a chain keeps have the same chains. -/
theorem isChain_congr {R S : Instant → Instant → Prop} {P : Instant → Prop} {t : Instant}
    {rest : List Instant} (start : P t) (same : ∀ r s, P r → (R r s ↔ S r s))
    (keep : ∀ r s, P r → R r s → P s) : (t :: rest).IsChain R ↔ (t :: rest).IsChain S := by
  induction rest generalizing t with
  | nil => simp
  | cons u rest ih =>
    rw [List.isChain_cons_cons, List.isChain_cons_cons, same t u start]
    refine and_congr_right fun step => ?_
    exact ih (keep t u start ((same t u start).mpr step))

theorem isChain_and {P : Instant → Prop} {R S : Instant → Instant → Prop} {t : Instant}
    {rest : List Instant} : (t :: rest).IsChain (fun r s => P s ∧ R r s ∧ S r s) ↔
      (∀ u ∈ rest, P u) ∧ (t :: rest).IsChain R ∧ (t :: rest).IsChain S := by
  induction rest generalizing t with
  | nil => simp
  | cons u rest ih =>
    rw [List.isChain_cons_cons, List.isChain_cons_cons, List.isChain_cons_cons, ih,
      List.forall_mem_cons]
    tauto

variable {t : Instant} {rest : List Instant}

/-- The registered lists of days, and of hours, from an aligned start. -/
theorem registered_iff (table : g = .d ∨ g = .h4 ∨ g = .h1)
    (aligned : isAligned g (c.wall t) = true) :
    ((t :: rest).IsChain fun r s => s = candleSuccessor c g r) ↔
      ((∀ u ∈ t :: rest, isAligned g (c.wall u) = true) ∧
        (t :: rest).IsChain fun r s => WeekendStep c g r s → s < r + 7 * day) ∧
      (t :: rest).IsChain (Continues c g) := by
  rw [isChain_congr (P := fun u => isAligned g (c.wall u) = true) aligned
    (fun r s first => successor_iff table first)
    (fun r s first next => by rw [next]; exact (candle_spec first).1), isChain_and,
    List.forall_mem_cons]
  tauto

/-- What validation accepts, of days and of hours. -/
theorem accepted_iff (table : g = .d ∨ g = .h4 ∨ g = .h1)
    (aligned : isAligned g (c.wall t) = true) :
    (t :: rest).IsChain (Accepts c g) ↔ (t :: rest).IsChain (Continues c g) := by
  rcases table with rfl | hours
  · refine isChain_congr (P := fun u => c.wall u % day = 17 * hour)
      ((isAligned_d _).mp aligned).2 (fun r s close => accepts_iff_daily close) fun r s _ h => ?_
    have alignment := h.2.2 (by decide)
    rw [hasRegisteredAlignment, Bool.and_eq_true, decide_eq_true_iff] at alignment
    exact alignment.1
  · exact isChain_congr (P := fun _ => True) trivial (fun r s _ => accepts_iff_intraday hours)
      fun _ _ _ _ => trivial

/-- The registered lists of quarters a step apart, from an aligned start. -/
theorem registered_quarters (aligned : isAligned .m15 (c.wall t) = true)
    (steps : (t :: rest).IsChain (OneStep c .m15)) :
    ((t :: rest).IsChain fun r s => s = candleSuccessor c .m15 r) ↔
      ∀ u ∈ t :: rest, isAligned .m15 (c.wall u) = true := by
  induction rest generalizing t with
  | nil => simpa using aligned
  | cons u rest ih =>
    obtain ⟨step, steps⟩ := List.isChain_cons_cons.mp steps
    rw [List.isChain_cons_cons, successor_of_quarter aligned step, List.forall_mem_cons]
    constructor
    · rintro ⟨next, chain⟩
      exact ⟨aligned, (ih next steps).mp chain⟩
    · rintro ⟨-, others⟩
      have next := others u List.mem_cons_self
      exact ⟨next, (ih next steps).mpr others⟩

/-- The check of a successor returns but for quarters. -/
theorem checked (other : g ≠ .m15) (r s : Instant) : Checked c g r s := by
  rw [Checked, isExpectedSuccessor]
  by_cases step : s - r = g.step
  · exact ⟨true, if_pos step⟩
  · rw [if_neg step]
    cases g with
    | m15 => exact absurd rfl other
    | w => exact ⟨_, rfl⟩
    | d => exact bind_returns ⟨_, rfl⟩ fun gap _ => by cases gap <;> exact ⟨_, rfl⟩
    | h4 => exact bind_returns ⟨_, rfl⟩ fun gap _ => by cases gap <;> exact ⟨_, rfl⟩
    | h1 => exact bind_returns ⟨_, rfl⟩ fun gap _ => by cases gap <;> exact ⟨_, rfl⟩

end

/-! ## Agreement -/

/-- Validation returns, and has no issue of a timestamp exactly when the list is the registered one
up to the completion of its last candle. -/
def Agrees (c : SundayClock) (g : Granularity) (first : CandleData) (rest : List CandleData) :
    Prop :=
  ∃ issues, validateCandles c g (first :: rest) true true = .ok issues ∧
    ((∀ issue ∈ issues, issue.code ∉ calendarCodes) ↔
      expectedCandleTimestamps c first.timestamp
        (candleCompletion c g ((first :: rest).getLast (List.cons_ne_nil _ _)).timestamp) g =
          .ok ((first :: rest).map CandleData.timestamp))

/-- From a registered start, validation agrees with the registered calendar on the lists that are
coherent, and on no others. -/
theorem validation_agrees_iff (c : SundayClock) (g : Granularity) (first : CandleData)
    (rest : List CandleData) (utc : ∀ candle ∈ first :: rest, candle.utcoffset = 0)
    (registered : isAligned g (c.wall first.timestamp) = true) :
    Agrees c g first rest ↔ Coherent c g ((first :: rest).map CandleData.timestamp) := by
  obtain ⟨returns, verdict⟩ := validateCandles_iff utc registered
  have final : ((first :: rest).map CandleData.timestamp).getLast? =
      some ((first :: rest).getLast (List.cons_ne_nil _ _)).timestamp := by
    rw [List.getLast?_map, List.getLast?_eq_some_getLast (List.cons_ne_nil _ _)]
    rfl
  have expected := expected_iff_isChain registered final
  rw [List.map_cons] at returns verdict ⊢
  have agrees : Agrees c g first rest ↔
      (first.timestamp :: rest.map CandleData.timestamp).IsChain (Checked c g) ∧
      ((first.timestamp :: rest.map CandleData.timestamp).IsChain (Accepts c g) ↔
        (first.timestamp :: rest.map CandleData.timestamp).IsChain
          fun r s => s = candleSuccessor c g r) := by
    rw [Agrees, List.map_cons, expected, ← returns]
    constructor
    · rintro ⟨issues, returned, same⟩
      exact ⟨⟨issues, returned⟩, (verdict issues returned).symm.trans same⟩
    · rintro ⟨⟨issues, returned⟩, same⟩
      exact ⟨issues, returned, (verdict issues returned).trans same⟩
  rw [agrees]
  have always : g ≠ .m15 →
      (first.timestamp :: rest.map CandleData.timestamp).IsChain (Checked c g) :=
    fun other => (List.pairwise_of_forall fun r s => checked other r s).isChain
  generalize rest.map CandleData.timestamp = ts at *
  have agreement : ∀ A B : Prop, (B ↔ A ∧ B) ↔ A ∨ ¬ B := by
    intro A B
    by_cases h : B
    · simp [h]
    · simp [h]
  have table : g = .d ∨ g = .h4 ∨ g = .h1 →
      (((first.timestamp :: ts).IsChain (Accepts c g) ↔
        (first.timestamp :: ts).IsChain fun r s => s = candleSuccessor c g r) ↔
      ((∀ t ∈ first.timestamp :: ts, isAligned g (c.wall t) = true) ∧
        (first.timestamp :: ts).IsChain fun r s => WeekendStep c g r s → s < r + 7 * day) ∨
      ¬ (first.timestamp :: ts).IsChain (Continues c g)) := by
    intro member
    rw [accepted_iff member registered, registered_iff member registered]
    exact agreement _ _
  cases g with
  | w =>
    have same : (first.timestamp :: ts).IsChain (Accepts c .w) ↔
        (first.timestamp :: ts).IsChain fun r s => s = candleSuccessor c .w r := by
      refine isChain_congr (P := fun u => isAligned .w (c.wall u) = true) registered
        (fun r s aligned => accepts_iff_weekly aligned) fun r s aligned accepted => ?_
      rw [(accepts_iff_weekly aligned).mp accepted]
      exact (candle_spec aligned).1
    rw [and_iff_right (always (by decide)), Coherent]
    exact ⟨fun _ => trivial, fun _ => same⟩
  | d =>
    rw [and_iff_right (always (by decide)), table (.inl rfl)]
    exact Iff.rfl
  | h4 =>
    rw [and_iff_right (always (by decide)), table (.inr (.inl rfl))]
    exact Iff.rfl
  | h1 =>
    rw [and_iff_right (always (by decide)), table (.inr (.inr rfl))]
    exact Iff.rfl
  | m15 =>
    have checks : (first.timestamp :: ts).IsChain (Checked c .m15) ↔
        (first.timestamp :: ts).IsChain (OneStep c .m15) :=
      List.IsChain.iff fun r s => quarter_iff.1
    have accepts : (first.timestamp :: ts).IsChain (Accepts c .m15) ↔
        (first.timestamp :: ts).IsChain (OneStep c .m15) :=
      List.IsChain.iff fun r s => quarter_iff.2
    rw [checks, accepts, Coherent]
    have successors : (first.timestamp :: ts).IsChain (OneStep c .m15) →
        ((first.timestamp :: ts).IsChain (fun r s => s = candleSuccessor c .m15 r) ↔
          ∀ u ∈ first.timestamp :: ts, isAligned .m15 (c.wall u) = true) :=
      registered_quarters registered
    constructor
    · rintro ⟨steps, same⟩
      exact ⟨(successors steps).mp (same.mp steps), steps⟩
    · rintro ⟨aligned, steps⟩
      exact ⟨steps, fun _ => (successors steps).mpr aligned, fun _ => steps⟩

/-! ## A list over a missing week -/

/-- A candle of well-formed prices. -/
def flatCandle (timestamp : Instant) : CandleData :=
  ⟨timestamp, 0, true, 1, ⟨1, 1, 1, 1⟩, ⟨1, 1, 1, 1⟩⟩

/-- Two weekly candles over the change of the clocks of 8 March 2026. -/
theorem validation_agrees_march :
    Agrees newYork .w (flatCandle 1772834400000000) [flatCandle 1773435600000000] ↔
      Coherent newYork .w ([flatCandle 1772834400000000, flatCandle 1773435600000000].map
        CandleData.timestamp) :=
  validation_agrees_iff newYork .w (flatCandle 1772834400000000) [flatCandle 1773435600000000]
    (by simp [flatCandle]) (by decide)

/-- Hourly candles of a Friday and of the second Sunday behind it: they validate without an issue
though a week is missing. And registered quarters over a weekend: they raise a `KeyError`. -/
theorem validation_disagrees :
    isAligned .h1 (newYork.wall 1767992400000000) = true ∧
    validateCandles newYork .h1 [flatCandle 1767992400000000, flatCandle 1768773600000000]
      true true = .ok [] ∧
    ¬ Agrees newYork .h1 (flatCandle 1767992400000000) [flatCandle 1768773600000000] ∧
    isAligned .m15 (newYork.wall 1767995100000000) = true ∧
    validateCandles newYork .m15 [flatCandle 1767995100000000, flatCandle 1768168800000000]
      true true = raise .keyError "M15" ∧
    expectedCandleTimestamps newYork 1767995100000000
      (candleCompletion newYork .m15 1768168800000000) .m15 =
        .ok [1767995100000000, 1768168800000000] ∧
    ¬ Agrees newYork .m15 (flatCandle 1767995100000000) [flatCandle 1768168800000000] := by
  have accepted : validateCandles newYork .h1
      [flatCandle 1767992400000000, flatCandle 1768773600000000] true true = .ok [] := by
    decide
  have missing : expectedCandleTimestamps newYork 1767992400000000
      (candleCompletion newYork .h1 1768773600000000) .h1 ≠
        .ok [1767992400000000, 1768773600000000] := by
    decide +kernel
  have raised : validateCandles newYork .m15
      [flatCandle 1767995100000000, flatCandle 1768168800000000] true true =
        raise .keyError "M15" := by
    decide
  refine ⟨by decide, accepted, ?_, by decide, raised, by decide, ?_⟩
  · rintro ⟨issues, returned, same⟩
    rw [accepted] at returned
    cases returned
    exact missing (same.mp fun issue mem => (by cases mem))
  · rintro ⟨issues, returned, -⟩
    rw [raised] at returned
    cases returned

end TradeRecommender.Market
