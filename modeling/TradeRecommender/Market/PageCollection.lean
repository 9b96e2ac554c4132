import TradeRecommender.Lib.Ascending
import TradeRecommender.Lib.NewYorkClock
import TradeRecommender.Market.LivePages
import TradeRecommender.Market.RegisteredCalendar

/-!
# Collecting live candles over pages

`fetch_candles` against a provider that answers each page from one series of candles.

1. the live grid: its instants, and the last of them at or before a time;
2. candles that end before the next instant of the grid starts;
3. the provider's answers, which fit a page;
4. the candles collected behind each page, and behind the last one.
-/

namespace TradeRecommender.Market

open Py Civil
open TradeRecommender.Research.Acquisition (Library LiveCandle parseLiveCandle)

/-! ## The live grid -/

theorem isLiveAligned_m15 (w : ℤ) : isLiveAligned .m15 w = true ↔ w % (15 * minute) = 0 := by
  unfold isLiveAligned
  split_ifs with whole
  · simp only [minute] at whole ⊢
    constructor
    · intro h
      cases h
    · omega
  · dsimp only
    rw [decide_eq_true_iff]
    simp only [hour, minute] at whole ⊢
    omega

theorem isLiveAligned_h1 (w : ℤ) : isLiveAligned .h1 w = true ↔ w % hour = 0 := by
  unfold isLiveAligned
  split_ifs with whole
  · simp only [minute, hour] at whole ⊢
    constructor
    · intro h
      cases h
    · omega
  · simp only [decide_eq_true_eq]

theorem isLiveAligned_h4 (w : ℤ) : isLiveAligned .h4 w = true ↔ w % (4 * hour) = hour := by
  unfold isLiveAligned
  split_ifs with whole
  · simp only [minute, hour] at whole ⊢
    constructor
    · intro h
      cases h
    · omega
  · dsimp only
    rw [Bool.and_eq_true, decide_eq_true_iff, decide_eq_true_iff]
    simp only [List.mem_cons, List.not_mem_nil, or_false, hour, minute, day] at whole ⊢
    omega

theorem isLiveAligned_d (w : ℤ) : isLiveAligned .d w = true ↔
    w % day = 17 * hour ∧ weekday (w / day) ≠ 4 ∧ weekday (w / day) ≠ 5 := by
  unfold isLiveAligned
  split_ifs with whole
  · simp only [minute, hour, day] at whole ⊢
    constructor
    · intro h
      cases h
    · omega
  · dsimp only
    rw [Bool.and_eq_true, decide_eq_true_iff, decide_eq_true_iff]
    simp only [List.mem_cons, List.not_mem_nil, or_false, weekday, hour, minute, day] at whole ⊢
    omega

theorem isLiveAligned_w (w : ℤ) : isLiveAligned .w w = true ↔
    w % day = 17 * hour ∧ weekday (w / day) = 4 := by
  unfold isLiveAligned
  split_ifs with whole
  · simp only [minute, hour, day] at whole ⊢
    constructor
    · intro h
      cases h
    · omega
  · simp only [Bool.and_eq_true, decide_eq_true_eq]

section
variable {c : SundayClock} {g : Granularity} {t s : ℤ}

/-- The quarters of an hour are those of UTC. -/
theorem aligned_m15 : isLiveAligned .m15 (c.wall t) = true ↔ t % (15 * minute) = 0 := by
  rw [isLiveAligned_m15]
  rcases SundayClock.wall_cases (c := c) t with h | h <;> rw [h] <;> simp only [hour, minute] <;>
    omega

/-- What a granularity of an hour or more aligns on is a whole hour. -/
theorem whole_hour (long : g ≠ .m15) (aligned : isLiveAligned g (c.wall t) = true) :
    t % hour = 0 := by
  have wall : c.wall t % hour = 0 := by
    cases g with
    | m15 => exact absurd rfl long
    | h1 => exact (isLiveAligned_h1 _).mp aligned
    | h4 =>
      rw [isLiveAligned_h4] at aligned
      simp only [hour] at aligned ⊢
      omega
    | d =>
      have := ((isLiveAligned_d _).mp aligned).1
      simp only [hour, day] at this ⊢
      omega
    | w =>
      have := ((isLiveAligned_w _).mp aligned).1
      simp only [hour, day] at this ⊢
      omega
  rcases SundayClock.wall_cases (c := c) t with h | h <;> rw [h] at wall <;>
    simp only [hour] at wall ⊢ <;> omega

/-- A session close that every granularity of an hour or more aligns on lies in the week before a
whole hour. -/
theorem exists_aligned (long : g ≠ .m15) (whole : t % hour = 0) :
    ∃ k : ℕ, k ≤ 168 ∧ isLiveAligned g (c.wall (t - k * hour)) = true := by
  -- Thursday's close or, for weekly candles, Friday's
  obtain ⟨r, close⟩ : ∃ r : ℤ, (r = 0 ∨ r = 1) ∧ ∀ w, w % day = 17 * hour →
      weekday (w / day) = 3 + r → isLiveAligned g w = true := by
    cases g with
    | m15 => exact absurd rfl long
    | h1 =>
      refine ⟨0, .inl rfl, fun w h _ => (isLiveAligned_h1 w).mpr ?_⟩
      simp only [hour, day] at h ⊢
      omega
    | h4 =>
      refine ⟨0, .inl rfl, fun w h _ => (isLiveAligned_h4 w).mpr ?_⟩
      simp only [hour, day] at h ⊢
      omega
    | d => exact ⟨0, .inl rfl, fun w h date => (isLiveAligned_d w).mpr ⟨h, by omega, by omega⟩⟩
    | w => exact ⟨1, .inr rfl, fun w h date => (isLiveAligned_w w).mpr ⟨h, date⟩⟩
  obtain ⟨bounds, aligned⟩ := close
  obtain ⟨z, before, week, five, date⟩ : ∃ z : ℤ, z ≤ c.wall t ∧ c.wall t - z < 7 * day ∧
      z % day = 17 * hour ∧ weekday (z / day) = 3 + r := by
    refine ⟨(c.wall t - 17 * hour - r * day) / (7 * day) * (7 * day) + 17 * hour + r * day, ?_⟩
    simp only [weekday, hour, day]
    rcases bounds with rfl | rfl <;> omega
  have unskipped : ¬ SundayClock.Skipped z := by
    rw [SundayClock.Skipped, five]
    simp only [hour]
    omega
  have back : c.utc z ≤ t := by
    refine le_trans (b := c.utc (c.wall t)) ?_ (SundayClock.utc_wall_le t)
    rcases eq_or_lt_of_le before with same | earlier
    · rw [same]
    · refine SundayClock.utc_le_utc ?_
      rcases SundayClock.wall_cases (c := c) t with h | h <;> rw [h] at earlier ⊢ <;>
        simp only [hour, day] at earlier five whole ⊢ <;> omega
  obtain ⟨k, count⟩ : ∃ k : ℕ, c.utc z = t - k * hour := by
    refine ⟨((t - c.utc z) / hour).toNat, ?_⟩
    unfold Instant at *
    rcases SundayClock.utc_cases (c := c) z with h | h <;> rw [h] at back ⊢ <;>
      simp only [hour, day] at back five whole ⊢ <;> omega
  refine ⟨k, ?_, ?_⟩
  · unfold Instant at *
    rcases SundayClock.wall_cases (c := c) t with h | h <;> rw [h] at week before <;>
      rcases SundayClock.utc_cases (c := c) z with h' | h' <;> rw [h'] at count <;>
        simp only [hour, day] at count week before five whole <;> omega
  · rw [← count, SundayClock.wall_utc unskipped]
    exact aligned z five date

/-- The loop stops at the first aligned hour. -/
theorem alignedHour_eq {n k : ℕ} (within : k < n)
    (aligned : isLiveAligned g (c.wall (t - k * hour)) = true)
    (first : ∀ j : ℕ, j < k → isLiveAligned g (c.wall (t - j * hour)) = false) :
    alignedHour c g n t = .ok (t - k * hour) := by
  induction n generalizing k t with
  | zero => omega
  | succ n ih =>
    rw [alignedHour]
    cases k with
    | zero =>
      rw [Nat.cast_zero, zero_mul, sub_zero] at aligned ⊢
      exact if_pos aligned
    | succ k =>
      have here := first 0 (by omega)
      rw [Nat.cast_zero, zero_mul, sub_zero] at here
      have shift : ∀ j : ℕ, t - hour - j * hour = t - (j + 1 : ℕ) * hour := by
        intro j
        push_cast
        ring
      rw [if_neg (by rw [here]; decide), ih (k := k) (by omega) (by rw [shift]; exact aligned)
        fun j h => by rw [shift]; exact first (j + 1) (by omega), shift]

/-- `canonical_live_start` returns the last instant of the grid at or before a time, which lies in
the week before. -/
theorem canonicalLiveStart_spec (value : ℤ) : ∃ u : ℤ, canonicalLiveStart c g value = .ok u ∧
    isLiveAligned g (c.wall u) = true ∧ u ≤ value ∧ value < u + 170 * hour ∧
    ∀ s : ℤ, isLiveAligned g (c.wall s) = true → s ≤ value → s ≤ u := by
  by_cases quarter : g = .m15
  · subst quarter
    have floor : canonicalLiveStart c .m15 value = .ok (value / minute * minute -
        value / minute * minute % hour / minute % 15 * minute) := rfl
    rw [floor]
    refine ⟨_, rfl, ?_, ?_, ?_, ?_⟩
    · rw [aligned_m15]
      simp only [hour, minute]
      omega
    · simp only [hour, minute]
      omega
    · simp only [hour, minute]
      omega
    · intro s aligned before
      rw [aligned_m15] at aligned
      simp only [hour, minute] at aligned ⊢
      omega
  · have hours : canonicalLiveStart c g value =
        alignedHour c g 170 (value / minute * minute / hour * hour) := if_neg quarter
    rw [hours]
    generalize floor : value / minute * minute / hour * hour = t
    have bounds : t % hour = 0 ∧ t ≤ value ∧ value < t + hour := by
      rw [← floor]
      simp only [hour, minute]
      omega
    classical
    have exist := exists_aligned (c := c) quarter bounds.1
    have found := Nat.find_spec exist
    have first : ∀ j : ℕ, j < Nat.find exist → isLiveAligned g (c.wall (t - j * hour)) = false :=
      fun j h => by
        by_contra aligned
        exact Nat.find_min exist h ⟨by omega, by simpa using aligned⟩
    generalize Nat.find exist = k at found first
    refine ⟨t - k * hour, alignedHour_eq (by omega) found.2 first, found.2, ?_, ?_, ?_⟩
    · simp only [hour] at bounds ⊢
      omega
    · have within := found.1
      simp only [hour] at bounds ⊢
      omega
    · intro s aligned before
      by_contra later
      have hours := whole_hour quarter aligned
      have earlier := first ((t - s) / hour).toNat (by simp only [hour] at *; omega)
      have same : t - (((t - s) / hour).toNat : ℤ) * hour = s := by
        simp only [hour] at *
        omega
      rw [same, aligned] at earlier
      cases earlier

/-! ## Whole intervals -/

variable (c g) in
/-- A candle that ends before the next instant of the grid starts. -/
def Whole (t : Instant) : Prop :=
  ∀ s : Instant, isLiveAligned g (c.wall s) = true → t < s → liveCompletion c g t ≤ s

/-- A completion a multiple of hours after a start is one no later than what its reading says. -/
theorem utc_le_of_wall {w : ℤ} (apart : w = c.wall s ∨ w + hour ≤ c.wall s) : c.utc w ≤ s := by
  refine le_trans (b := c.utc (c.wall s)) ?_ (SundayClock.utc_wall_le s)
  rcases apart with rfl | apart
  · exact le_refl _
  · exact SundayClock.utc_le_utc apart

/-- Session closes are days apart on the wall. -/
theorem wall_closes (first : c.wall t % day = 17 * hour) (second : c.wall s % day = 17 * hour)
    (later : t < s) : c.wall t + day ≤ c.wall s := by
  by_cases same : c.offset s = c.offset t
  · simp only [SundayClock.wall, same, hour, day] at first second ⊢
    unfold Instant at *
    omega
  · -- no change comes within an hour of a close
    obtain ⟨x, low, high, -, two⟩ := SundayClock.exists_change later.le same
    rcases c.two t with h | h <;> rcases c.two s with h' | h' <;> rw [h, h'] at same <;>
      simp only [SundayClock.wall, h, h', hour, day] at first second two same ⊢ <;>
        unfold Instant at * <;> omega

theorem lt_liveCompletion (t : Instant) : t < liveCompletion c g t := by
  rw [liveCompletion]
  have long : g ∉ [Granularity.m15, .h1, .h4] → hour ≤ g.step := by
    cases g <;> decide
  have positive : 0 < g.step := by cases g <;> decide
  split_ifs with intraday
  · linarith
  · exact SundayClock.lt_utc_wall (long intraday)

/-- Candles of every other granularity than four hours end before the next instant of the grid. -/
theorem whole_of_ne (other : g ≠ .h4) (aligned : isLiveAligned g (c.wall t) = true) :
    Whole c g t := by
  intro s next later
  rw [liveCompletion]
  cases g with
  | h4 => exact absurd rfl other
  | m15 =>
    rw [aligned_m15] at aligned next
    rw [if_pos (by decide), Granularity.step]
    simp only [minute] at aligned next ⊢
    unfold Instant at *
    omega
  | h1 =>
    have first := whole_hour (by decide) aligned
    have second := whole_hour (by decide) next
    rw [if_pos (by decide), Granularity.step]
    simp only [hour] at first second ⊢
    unfold Instant at *
    omega
  | d =>
    rw [isLiveAligned_d] at aligned next
    have apart := wall_closes aligned.1 next.1 later
    rw [if_neg (by decide), Granularity.step]
    refine utc_le_of_wall ?_
    have first := aligned.1
    have second := next.1
    simp only [hour, day] at first second apart ⊢
    omega
  | w =>
    rw [isLiveAligned_w] at aligned next
    have apart := wall_closes aligned.1 next.1 later
    rw [if_neg (by decide), Granularity.step]
    refine utc_le_of_wall ?_
    obtain ⟨first, friday⟩ := aligned
    obtain ⟨second, friday'⟩ := next
    simp only [weekday, hour, day] at first second friday friday' apart ⊢
    omega

/-- Candles of four hours that start while the market is open end before the next instant of the
grid: clocks change while it is closed. -/
theorem whole_of_marketIsOpen (aligned : isLiveAligned .h4 (c.wall t) = true)
    (opened : marketIsOpen (c.wall t) = true) : Whole c .h4 t := by
  intro s next later
  rw [isLiveAligned_h4] at aligned next
  rw [marketIsOpen_iff] at opened
  have completion : liveCompletion c .h4 t = t + 4 * hour := if_pos (by decide)
  rw [completion]
  by_cases same : c.offset s = c.offset t
  · simp only [SundayClock.wall, same, hour] at aligned next ⊢
    unfold Instant at *
    omega
  · by_contra inside
    obtain ⟨x, low, high, sunday, two⟩ := SundayClock.exists_change later.le same
    rcases c.two t with h | h <;> rcases c.two s with h' | h' <;> rw [h, h'] at same <;>
      simp only [SundayClock.wall, weekday, h, h', hour, day] at * <;> unfold Instant at * <;> omega

/-! ## Answers -/

/-- The most candles an answer carries. -/
def pageLimit : ℕ := 5000

/-- The candles of an honest answer. -/
def honestPage (all : List LiveCandle) (lower upper : Instant) (includeFirst : Bool) :
    List LiveCandle :=
  (all.filter fun candle => decide (lower ≤ candle.timestamp) && decide (candle.timestamp < upper) &&
    (includeFirst || decide (candle.timestamp ≠ lower))).take pageLimit

/-- A provider of one series of candles, that answers each page from it. -/
structure Honest {δ : Type} (L : Library δ) (c : SundayClock) (client : Client) (instrument : String)
    (g : Granularity) (all : List LiveCandle) : Prop where
  increasing : all.Pairwise fun x y => x.timestamp < y.timestamp
  aligned : ∀ candle ∈ all, isLiveAligned g (c.wall candle.timestamp) = true
  answers : ∀ n lower upper includeFirst, lower < upper → ∃ response,
    client.get n
      { instrument := instrument
        granularity := g
        fromTime := lower
        toTime := upper
        includeFirst := includeFirst } = .ok response ∧ response.status = 200 ∧
      parsePage L response.json = .ok (honestPage all lower upper includeFirst)

/-- What the candles of a granularity lie a step apart by: the wall for days and weeks, and the time
itself below. -/
def spacing (c : SundayClock) (g : Granularity) (t : Instant) : ℤ :=
  if g ∈ [.m15, .h1, .h4] then t else c.wall t

/-- Whole candles of a window of 4,999 steps fit a page. -/
theorem length_window {all : List LiveCandle}
    (increasing : all.Pairwise fun x y => x.timestamp < y.timestamp)
    (aligned : ∀ candle ∈ all, isLiveAligned g (c.wall candle.timestamp) = true)
    (whole : ∀ candle ∈ all, Whole c g candle.timestamp) {lower upper : ℤ}
    (window : upper ≤ lower + g.step * 4999) {p : LiveCandle → Bool}
    (within : ∀ candle, p candle = true → lower ≤ candle.timestamp ∧ candle.timestamp < upper) :
    (all.filter p).length ≤ pageLimit := by
  have bounds : ∀ x ∈ all.filter p, lower ≤ x.timestamp ∧ x.timestamp < upper :=
    fun x hx => within x (List.mem_filter.mp hx).2
  have apart : (all.filter p).Pairwise fun x y =>
      spacing c g x.timestamp + g.step ≤ spacing c g y.timestamp := by
    refine List.Pairwise.imp_of_mem ?_ (increasing.filter p)
    intro x y hx hy later
    have mem := (List.mem_filter.mp hx).1
    have mem' := (List.mem_filter.mp hy).1
    have ends := whole x mem y.timestamp (aligned y mem') later
    rw [liveCompletion] at ends
    rw [spacing, spacing]
    split_ifs at ends ⊢ with intraday
    · exact ends
    · have first := aligned x mem
      have second := aligned y mem'
      cases g with
      | m15 => exact absurd (by decide) intraday
      | h1 => exact absurd (by decide) intraday
      | h4 => exact absurd (by decide) intraday
      | d =>
        rw [isLiveAligned_d] at first second
        exact wall_closes first.1 second.1 later
      | w =>
        rw [isLiveAligned_w] at first second
        have closes := wall_closes first.1 second.1 later
        obtain ⟨five, friday⟩ := first
        obtain ⟨five', friday'⟩ := second
        simp only [Granularity.step, weekday, hour, day] at five five' friday friday' closes ⊢
        omega
  by_cases intraday : g ∈ [.m15, .h1, .h4]
  · have key : ∀ t, spacing c g t = t := fun t => if_pos intraday
    have positive : 0 < g.step := by cases g <;> decide
    refine Ascending.length_le_of_spaced lower apart (fun x hx => ?_) fun x hx => ?_
    · rw [key]
      exact (bounds x hx).1
    · rw [key, pageLimit]
      push_cast
      linarith [(bounds x hx).2]
  · have key : ∀ t, spacing c g t = c.wall t := fun t => if_neg intraday
    have step : hour ≤ g.step := by
      cases g <;> first | exact absurd (by decide) intraday | decide
    refine Ascending.length_le_of_spaced (lower - 5 * hour) apart (fun x hx => ?_)
      fun x hx => ?_
    · rw [key]
      rcases SundayClock.wall_cases (c := c) x.timestamp with h | h <;> rw [h] <;>
        linarith [(bounds x hx).1, show (0 : ℤ) < hour by decide]
    · rw [key, pageLimit]
      push_cast
      rcases SundayClock.wall_cases (c := c) x.timestamp with h | h <;> rw [h] <;>
        linarith [(bounds x hx).2, show (0 : ℤ) < hour by decide]

/-! ## Turns -/

variable {δ : Type} {L : Library δ} {client : Client} {instrument : String}
  {all : List LiveCandle} {start finish cursor : Instant}

/-- The window behind a cursor ends later, at the end of the range or on the grid. -/
theorem windowEnd_spec (c : SundayClock) (g : Granularity) {cursor finish : ℤ}
    (before : cursor < finish) : ∃ upper : ℤ, windowEnd c g finish cursor = .ok upper ∧
      cursor < upper ∧ upper ≤ finish ∧ upper ≤ cursor + g.step * 4999 ∧
      (upper = finish ∨ isLiveAligned g (c.wall upper) = true) := by
  have long : 170 * hour < g.step * 4999 := by cases g <;> decide
  have positive : 0 < hour := by decide
  rw [windowEnd]
  by_cases short : min (cursor + g.step * 4999) finish < finish
  · obtain ⟨upper, returned, aligned, low, high, -⟩ :=
      canonicalLiveStart_spec (c := c) (g := g) (min (cursor + g.step * 4999) finish)
    have raw : min (cursor + g.step * 4999) finish = cursor + g.step * 4999 := by omega
    rw [raw] at short returned low high ⊢
    exact ⟨upper, by rw [if_pos short]; exact returned, by linarith, by linarith, low, .inr aligned⟩
  · have last : min (cursor + g.step * 4999) finish = finish := by omega
    refine ⟨finish, by rw [if_neg short, last], before, le_refl _, ?_, .inl rfl⟩
    omega

variable (c g all start finish) in
/-- The candles that are to be returned. -/
def wanted (candle : LiveCandle) : Bool :=
  candle.complete && decide (start ≤ candle.timestamp) &&
    decide (liveCompletion c g candle.timestamp ≤ finish)

variable (c g) in
/-- What is accepted of a page. -/
def newlyWanted (start finish upper : Instant) (cursor : Instant) (first : Bool)
    (candle : LiveCandle) : Bool :=
  wanted c g start finish candle && decide (liveCompletion c g candle.timestamp ≤ upper) &&
    (decide (cursor < candle.timestamp) || first && decide (candle.timestamp = cursor))

variable (start) in
/-- Behind a page are its candles of the series. -/
theorem fetch_eq (honest : Honest L c client instrument g all)
    (whole : ∀ candle ∈ all, Whole c g candle.timestamp) {st : Paging} {upper : ℤ}
    (later : st.cursor < upper) (within : upper ≤ finish)
    (window : upper ≤ st.cursor + g.step * 4999) :
    ∃ record, st.fetch L c client instrument g start finish upper =
      .ok (all.filter (newlyWanted c g start finish upper st.cursor st.firstRequest), record) := by
  obtain ⟨response, sent, status, parsed⟩ :=
    honest.answers st.requests.length st.cursor upper st.firstRequest later
  have fits : honestPage all st.cursor upper st.firstRequest = all.filter fun candle =>
      decide (st.cursor ≤ candle.timestamp) && decide (candle.timestamp < upper) &&
        (st.firstRequest || decide (candle.timestamp ≠ st.cursor)) := by
    refine List.take_of_length_le (length_window honest.increasing honest.aligned whole window ?_)
    intro candle h
    simp only [Bool.and_eq_true, decide_eq_true_eq] at h
    exact h.1
  refine ⟨st.record response, ?_⟩
  rw [Paging.fetch, Paging.request, sent]
  show (if response.status ≠ 200 then _ else _) = _
  rw [if_neg (not_not.mpr status), parsed, fits]
  show Except.ok (acceptedCandles c g start finish upper st.cursor st.firstRequest _,
    st.record response) = _
  rw [acceptedCandles, List.filter_filter]
  congr 2
  refine List.filter_congr fun candle mem => ?_
  have ends := lt_liveCompletion (c := c) (g := g) candle.timestamp
  rw [Bool.eq_iff_iff, newlyWanted, wanted, min_eq_left within]
  cases candle.complete with
  | false => simp
  | true =>
    cases st.firstRequest <;>
      simp only [Bool.and_eq_true, Bool.or_eq_true, decide_eq_true_eq, if_true, if_false, true_and,
        false_and, or_false, true_or, and_true, false_or, Bool.false_eq_true] <;>
      unfold Instant at * <;> omega

/-- Where the loop stands: it has the wanted candles before its cursor, and that at it where the
page begins behind it. -/
structure Collected (c : SundayClock) (g : Granularity) (all : List LiveCandle)
    (start finish : Instant) (st : Paging) : Prop where
  behind : start ≤ st.cursor
  candles : st.candles = all.filter fun candle => wanted c g start finish candle &&
    (decide (candle.timestamp < st.cursor) ||
      !st.firstRequest && decide (candle.timestamp = st.cursor))

/-- A page goes behind the candles before it. -/
theorem Collected.append {st : Paging} (collected : Collected c g all start finish st)
    (increasing : all.Pairwise fun x y => x.timestamp < y.timestamp) {upper : ℤ}
    {q : LiveCandle → Bool}
    (parts : ∀ candle ∈ all, (wanted c g start finish candle &&
        (decide (candle.timestamp < st.cursor) ||
          !st.firstRequest && decide (candle.timestamp = st.cursor)) ||
      newlyWanted c g start finish upper st.cursor st.firstRequest candle) = q candle) :
    st.candles ++ all.filter (newlyWanted c g start finish upper st.cursor st.firstRequest) =
      all.filter q := by
  rw [collected.candles, Ascending.filter_append_filter increasing]
  · exact List.filter_congr parts
  · intro x _ y _ before behind
    simp only [newlyWanted, Bool.and_eq_true, Bool.or_eq_true, Bool.not_eq_true',
      decide_eq_true_eq] at before behind
    rcases before.2 with h | ⟨asked, h⟩ <;> rcases behind.2 with h' | ⟨asked', h'⟩
    · exact h.trans h'
    · rw [h']
      exact h
    · rw [h]
      exact h'
    · rw [asked] at asked'
      cases asked'

/-- Behind the last page are all that is wanted. -/
theorem Collected.last {st : Paging} (collected : Collected c g all start finish st)
    (increasing : all.Pairwise fun x y => x.timestamp < y.timestamp) :
    st.candles ++ all.filter (newlyWanted c g start finish finish st.cursor st.firstRequest) =
      all.filter (wanted c g start finish) := by
  refine collected.append increasing fun candle mem => ?_
  rw [Bool.eq_iff_iff, newlyWanted]
  simp only [Bool.and_eq_true, Bool.or_eq_true, Bool.not_eq_true', decide_eq_true_eq]
  constructor
  · rintro (h | h)
    · exact h.1
    · exact h.1.1
  · intro h
    have ends := h
    simp only [wanted, Bool.and_eq_true, decide_eq_true_eq] at ends
    rcases lt_trichotomy candle.timestamp st.cursor with order | order | order
    · exact .inl ⟨h, .inl order⟩
    · cases asked : st.firstRequest with
      | false => exact .inl ⟨h, .inr ⟨rfl, order⟩⟩
      | true => exact .inr ⟨⟨h, ends.2⟩, .inr ⟨rfl, order⟩⟩
    · exact .inr ⟨⟨h, ends.2⟩, .inl order⟩

/-- A page that is not the last one leaves the loop further on, with nothing lost before its
cursor. -/
theorem Collected.next {st : Paging} (collected : Collected c g all start finish st)
    (honest : Honest L c client instrument g all)
    (whole : ∀ candle ∈ all, Whole c g candle.timestamp) {upper : ℤ} (later : st.cursor < upper)
    (aligned : isLiveAligned g (c.wall upper) = true) (record : RequestRecord) :
    Collected c g all start finish (st.next upper
        (all.filter (newlyWanted c g start finish upper st.cursor st.firstRequest)) record) ∧
      st.cursor < (st.next upper
        (all.filter (newlyWanted c g start finish upper st.cursor st.firstRequest)) record).cursor := by
  have behind := collected.behind
  -- what is wanted up to an instant of the grid inside the window has been read
  have upTo : ∀ candle ∈ all, wanted c g start finish candle = true →
      ∀ mark : ℤ, isLiveAligned g (c.wall mark) = true → candle.timestamp < mark → mark ≤ upper →
        candle.timestamp < st.cursor ∨ (st.firstRequest = false ∧ candle.timestamp = st.cursor) ∨
          newlyWanted c g start finish upper st.cursor st.firstRequest candle = true := by
    intro candle mem h mark grid below inside
    have ends := (whole candle mem mark grid below).trans inside
    simp only [newlyWanted, Bool.and_eq_true, Bool.or_eq_true, decide_eq_true_eq]
    rcases lt_trichotomy candle.timestamp st.cursor with order | order | order
    · exact .inl order
    · cases asked : st.firstRequest with
      | false => exact .inr (.inl ⟨rfl, order⟩)
      | true => exact .inr (.inr ⟨⟨h, ends⟩, .inr ⟨rfl, order⟩⟩)
    · exact .inr (.inr ⟨⟨h, ends⟩, .inl order⟩)
  have emptied : ∀ requests, Collected c g all start finish ⟨upper, true,
      st.candles ++ all.filter (newlyWanted c g start finish upper st.cursor st.firstRequest),
      requests⟩ := by
    intro requests
    refine ⟨behind.trans later.le, ?_⟩
    refine collected.append honest.increasing fun candle mem => ?_
    have read := upTo candle mem
    have ends := lt_liveCompletion (c := c) (g := g) candle.timestamp
    rw [Bool.eq_iff_iff]
    simp only [Bool.and_eq_true, Bool.or_eq_true, Bool.not_eq_true', decide_eq_true_eq,
      Bool.not_true, Bool.false_and, Bool.or_false]
    constructor
    · rintro (⟨h, h' | h'⟩ | h)
      · exact ⟨h, h'.trans later⟩
      · exact ⟨h, by rw [h'.2]; exact later⟩
      · simp only [newlyWanted, Bool.and_eq_true, decide_eq_true_eq] at h
        exact ⟨h.1.1, lt_of_lt_of_le ends h.1.2⟩
    · rintro ⟨h, below⟩
      rcases read h upper aligned below (le_refl _) with h' | h' | h'
      · exact .inl ⟨h, .inl h'⟩
      · exact .inl ⟨h, .inr h'⟩
      · exact .inr h'
  rw [Paging.next]
  cases found : (all.filter
      (newlyWanted c g start finish upper st.cursor st.firstRequest)).getLast? with
  | none => exact ⟨emptied _, later⟩
  | some last =>
    dsimp only
    by_cases further : st.cursor < last.timestamp
    · rw [if_pos further]
      refine ⟨⟨behind.trans further.le, ?_⟩, further⟩
      obtain ⟨mem, accepted⟩ := List.mem_filter.mp (List.mem_of_getLast? found)
      have ends := lt_liveCompletion (c := c) (g := g) last.timestamp
      have inside : last.timestamp ≤ upper := by
        simp only [newlyWanted, Bool.and_eq_true, decide_eq_true_eq] at accepted
        exact (lt_of_lt_of_le ends accepted.1.2).le
      refine collected.append honest.increasing fun candle mem' => ?_
      have read := upTo candle mem'
      rw [Bool.eq_iff_iff]
      simp only [Bool.and_eq_true, Bool.or_eq_true, Bool.not_eq_true', decide_eq_true_eq,
        Bool.not_false, Bool.true_and]
      constructor
      · rintro (⟨h, h' | h'⟩ | h)
        · exact ⟨h, .inl (h'.trans further)⟩
        · exact ⟨h, .inl (by rw [h'.2]; exact further)⟩
        · have order := Ascending.le_getLast LiveCandle.timestamp
            (honest.increasing.filter _) found (List.mem_filter.mpr ⟨mem', h⟩)
          simp only [newlyWanted, Bool.and_eq_true] at h
          exact ⟨h.1.1, lt_or_eq_of_le order⟩
      · rintro ⟨h, below | same⟩
        · rcases read h last.timestamp (honest.aligned last mem) below inside with h' | h' | h'
          · exact .inl ⟨h, .inl h'⟩
          · exact .inl ⟨h, .inr h'⟩
          · exact .inr h'
        · -- no other candle has its timestamp
          right
          simp only [newlyWanted, Bool.and_eq_true, decide_eq_true_eq] at accepted ⊢
          rw [same]
          exact ⟨⟨h, accepted.1.2⟩, accepted.2⟩
    · rw [if_neg further]
      exact ⟨emptied _, later⟩

/-- With enough fuel the loop returns all that is wanted. -/
theorem fetchPages_eq (honest : Honest L c client instrument g all)
    (whole : ∀ candle ∈ all, Whole c g candle.timestamp) {fuel : ℕ} {st : Paging}
    (collected : Collected c g all start finish st) (enough : (finish - st.cursor).toNat < fuel) :
    ∃ last, fetchPages L c client instrument g start finish fuel st = .ok last ∧
      last.candles = all.filter (wanted c g start finish) := by
  induction fuel generalizing st with
  | zero => omega
  | succ fuel ih =>
    rw [fetchPages]
    by_cases before : st.cursor < finish
    · obtain ⟨upper, cut, later, within, window, ends⟩ := windowEnd_spec c g before
      obtain ⟨record, fetched⟩ := fetch_eq start honest whole later within window
      rw [if_pos before]
      by_cases over_ : upper = finish
      · subst over_
        exact ⟨_, bind_eq_ok.mpr ⟨upper, cut, bind_eq_ok.mpr ⟨_, fetched, if_pos rfl⟩⟩,
          collected.last honest.increasing⟩
      · obtain ⟨collected', further⟩ :=
          collected.next honest whole later (ends.resolve_left over_) record
        obtain ⟨last, returned, candles⟩ := ih collected' (by unfold Instant at *; omega)
        exact ⟨last, bind_eq_ok.mpr ⟨upper, cut, bind_eq_ok.mpr ⟨_, fetched, by
          dsimp only
          rw [if_neg over_, returned]⟩⟩, candles⟩
    · rw [if_neg before]
      refine ⟨st, rfl, ?_⟩
      rw [collected.candles]
      refine List.filter_congr fun candle _ => ?_
      have ends := lt_liveCompletion (c := c) (g := g) candle.timestamp
      rw [Bool.eq_iff_iff]
      simp only [Bool.and_eq_true, Bool.or_eq_true, decide_eq_true_eq]
      constructor
      · exact fun h => h.1
      · intro h
        refine ⟨h, .inl ?_⟩
        simp only [wanted, Bool.and_eq_true, decide_eq_true_eq] at h
        exact lt_of_lt_of_le ends (h.2.trans (not_lt.mp before))

end

/-- Whatever the gaps and the pages, `fetch_candles` returns, in order and once each, the complete
candles from the instant of the grid its start is taken at to its end. -/
theorem fetch_candles_collects {δ : Type} (L : Library δ) (c : SundayClock) (client : Client)
    (instrument : String) (g : Granularity) (all : List LiveCandle)
    (honest : Honest L c client instrument g all)
    (whole : g = .h4 → ∀ candle ∈ all, Whole c g candle.timestamp) (start finish : Instant)
    (order : start < finish) :
    ∃ first candles manifest, canonicalLiveStart c g start = .ok first ∧
      isLiveAligned g (c.wall first) = true ∧ first ≤ start ∧
      (∀ s : Instant, isLiveAligned g (c.wall s) = true → s ≤ start → s ≤ first) ∧
      fetchCandles L c client instrument g start finish = .ok (candles, manifest) ∧
      candles = all.filter (fun candle => candle.complete &&
        decide (first ≤ candle.timestamp) &&
        decide (liveCompletion c g candle.timestamp ≤ finish)) ∧
      candles.Pairwise fun x y => x.timestamp < y.timestamp := by
  have whole : ∀ candle ∈ all, Whole c g candle.timestamp := by
    intro candle mem
    by_cases four : g = .h4
    · exact whole four candle mem
    · exact whole_of_ne four (honest.aligned candle mem)
  obtain ⟨first, floor, aligned, low, -, greatest⟩ :=
    canonicalLiveStart_spec (c := c) (g := g) start
  have start_ : Collected c g all first finish ⟨first, true, [], []⟩ := by
    refine ⟨le_refl _, ?_⟩
    symm
    rw [List.filter_eq_nil_iff]
    intro candle _ h
    simp only [wanted, Bool.and_eq_true, Bool.or_eq_true, decide_eq_true_eq, Bool.not_true,
      Bool.false_and, Bool.false_eq_true, or_false] at h
    exact absurd h.1.1.2 (not_le.mpr h.2)
  have enough : (finish - first).toNat < (finish - first).toNat + 1 := Nat.lt_succ_self _
  obtain ⟨last, returned, candles⟩ := fetchPages_eq honest whole start_ enough
  obtain ⟨manifest, fetched⟩ : ∃ manifest,
      fetchCandles L c client instrument g start finish = .ok (last.candles, manifest) := by
    rw [fetchCandles, if_neg (not_le.mpr order)]
    exact ⟨_, bind_eq_ok.mpr ⟨first, floor, bind_eq_ok.mpr ⟨last, returned, rfl⟩⟩⟩
  refine ⟨first, last.candles, manifest, floor, aligned, low, greatest, fetched, candles, ?_⟩
  rw [candles]
  exact honest.increasing.filter _

/-! ## A provider of given candles -/

/-- The texts of a provider, each with the candle it is of. -/
abbrev Served : Type := List (Val × LiveCandle)

/-- A client whose provider answers with the texts of the window. -/
def servingClient (served : Served) : Client where
  get _ r := .ok
    { url := ""
      status := 200
      requestId := ""
      json := .ok (.dict [("candles", .list (((served.filter fun entry =>
        decide (r.fromTime ≤ entry.2.timestamp) && decide (entry.2.timestamp < r.toTime) &&
          (r.includeFirst || decide (entry.2.timestamp ≠ r.fromTime))).take pageLimit).map
            Prod.fst))])
      retrievedAt := r.toTime }
  format _ := ""

theorem servingClient_honest {δ : Type} {L : Library δ} {c : SundayClock} {g : Granularity}
    (instrument : String) {served : Served}
    (increasing : (served.map Prod.snd).Pairwise fun x y => x.timestamp < y.timestamp)
    (aligned : ∀ candle ∈ served.map Prod.snd, isLiveAligned g (c.wall candle.timestamp) = true)
    (parsed : ∀ entry ∈ served, parseLiveCandle L entry.1 = .ok entry.2) :
    Honest L c (servingClient served) instrument g (served.map Prod.snd) := by
  refine ⟨increasing, aligned, fun n lower upper includeFirst _ => ⟨_, rfl, rfl, ?_⟩⟩
  have texts : ∀ some_ : Served, (∀ entry ∈ some_, entry ∈ served) →
      mapE (parseLiveCandle L) (some_.map Prod.fst) = .ok (some_.map Prod.snd) := by
    intro some_ part
    rw [mapE_eq_ok_iff, List.forall₂_map_left_iff, List.forall₂_map_right_iff, List.forall₂_same]
    exact fun entry mem => parsed entry (part entry mem)
  rw [parsePage]
  show tryExcept (mapE (parseLiveCandle L) (List.map Prod.fst _)) _ _ = _
  rw [texts _ fun entry mem => (List.mem_filter.mp (List.mem_of_mem_take mem)).1]
  rw [tryExcept, honestPage, List.filter_map, List.map_take]
  rfl

def unitSide : Val := .dict [("o", .str "1"), ("h", .str "1"), ("l", .str "1"), ("c", .str "1")]

/-- The text of a candle whose prices are all 1. -/
def unitText (time : String) : Val :=
  .dict [("time", .str time), ("complete", .bool true), ("volume", .int 1), ("bid", unitSide),
    ("ask", unitSide)]

def unitCandle (timestamp : Instant) : LiveCandle :=
  let side : Research.Acquisition.Side := ⟨⟨1, "1"⟩, ⟨1, "1"⟩, ⟨1, "1"⟩, ⟨1, "1"⟩⟩
  ⟨timestamp, true, 1, side, side⟩

def unitLibrary : Library Unit where
  decimal v := if v.isStr "1" then .ok (some ⟨1, "1"⟩) else raise .invalidOperation
  timestampsDigest _ := ()
  contentDigest _ := ()
  blobDigest _ := ()
  requestDigest _ _ := ()
  metadataDigest _ := ()

/-- Two candles of four hours behind the weekend of 8 March 2026. -/
def openServed : Served :=
  [(unitText "2026-03-09T01:00:00Z", unitCandle 1773018000000000),
    (unitText "2026-03-09T05:00:00Z", unitCandle 1773032400000000)]

theorem openServed_honest :
    Honest unitLibrary newYork (servingClient openServed) "EUR_USD" .h4
      (openServed.map Prod.snd) := by
  refine servingClient_honest "EUR_USD" (by decide) (by decide) (by decide)

/-- From November 2023, over two pages. -/
theorem fetch_candles_collects_open :
    ∃ first candles manifest,
      canonicalLiveStart newYork .h4 1700979300000000 = .ok first ∧
      isLiveAligned .h4 (newYork.wall first) = true ∧ first ≤ 1700979300000000 ∧
      (∀ s : Instant, isLiveAligned .h4 (newYork.wall s) = true → s ≤ 1700979300000000 →
        s ≤ first) ∧
      fetchCandles unitLibrary newYork (servingClient openServed) "EUR_USD" .h4 1700979300000000
        1773050400000000 = .ok (candles, manifest) ∧
      candles = (openServed.map Prod.snd).filter (fun candle => candle.complete &&
        decide (first ≤ candle.timestamp) &&
        decide (liveCompletion newYork .h4 candle.timestamp ≤ 1773050400000000)) ∧
      candles.Pairwise fun x y => x.timestamp < y.timestamp :=
  fetch_candles_collects unitLibrary newYork (servingClient openServed) "EUR_USD" .h4
    (openServed.map Prod.snd) openServed_honest
    (fun _ candle mem => whole_of_marketIsOpen (openServed_honest.aligned candle mem)
      (by revert candle; decide))
    1700979300000000 1773050400000000 (by decide)

/-- A candle of four hours over the change of the clocks of 8 March 2026. -/
def closedServed : Served := [(unitText "2026-03-08T06:00:00Z", unitCandle 1772949600000000)]

/-- A range has to be increasing; and a candle of four hours over a change of the clocks is lost
when a window ends inside it. -/
theorem fetch_candles_loses_closed :
    Honest unitLibrary newYork (servingClient closedServed) "EUR_USD" .h4
        [unitCandle 1772949600000000] ∧
      (unitCandle 1772949600000000).complete = true ∧
      (1700978400000000 : Instant) ≤ (unitCandle 1772949600000000).timestamp ∧
      liveCompletion newYork .h4 (unitCandle 1772949600000000).timestamp ≤ 1772978400000000 ∧
      (∃ manifest, fetchCandles unitLibrary newYork (servingClient closedServed) "EUR_USD" .h4
        1700978400000000 1772978400000000 = .ok ([], manifest)) ∧
      fetchCandles unitLibrary newYork (servingClient closedServed) "EUR_USD" .h4 1700978400000000
        1700978400000000 = raise .valueError "start must be before end" := by
  have collected : (fetchCandles unitLibrary newYork (servingClient closedServed) "EUR_USD" .h4
      1700978400000000 1772978400000000).map Prod.fst = .ok [] := by decide
  obtain ⟨⟨candles, manifest⟩, fetched, rfl⟩ := map_eq_ok.mp collected
  refine ⟨servingClient_honest "EUR_USD" (by decide) (by decide) (by decide), rfl,
    by decide, by decide, ⟨manifest, fetched⟩, rfl⟩

end TradeRecommender.Market
