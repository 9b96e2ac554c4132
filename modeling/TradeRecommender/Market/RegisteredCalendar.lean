import Mathlib.Tactic.Linarith
import TradeRecommender.Lib.Python
import TradeRecommender.Lib.SundayClock
import TradeRecommender.Market.Quality

/-!
# Expanding a registered range

`market/quality.py` on a clock that changes on Sundays only: the candles a closed-open range
expands into.

1. alignment, completion and successor, and `expected_candle_timestamps`;
2. the chain of successors from an aligned start;
3. the ranges that expand, and what they expand into.
-/

namespace TradeRecommender.Market

open Py Civil

/-! ## The source's functions -/

section
variable (c : SundayClock)

/-- `registered_candle_completion` -/
def candleCompletion (g : Granularity) (timestamp : Instant) : Instant :=
  c.utc (c.wall timestamp + g.step)

/-- The wall reading the next interval starts at. -/
def successorWall (g : Granularity) (wall : ℤ) : ℤ :=
  match g with
  | .w => wall + 7 * day
  | .d => wall + (if weekday (wall / day) = 3 then 3 else 1) * day
  | g =>
    -- the Friday close is followed by the Sunday open
    if weekday ((wall + g.step) / day) = 4 ∧ (wall + g.step) % day = 17 * hour then
      wall + g.step + 2 * day
    else wall + g.step

/-- `registered_successor` -/
def candleSuccessor (g : Granularity) (timestamp : Instant) : Instant :=
  c.utc (successorWall g (c.wall timestamp))

/-- `_market_is_open` -/
def marketIsOpen (wall : ℤ) : Bool :=
  weekday (wall / day) ∈ [0, 1, 2, 3] ||
    weekday (wall / day) = 4 && wall % day < 17 * hour ||
    weekday (wall / day) = 6 && 17 * hour ≤ wall % day

/-- Whether a reading opens an interval of the granularity. -/
def isAligned (g : Granularity) (wall : ℤ) : Bool :=
  wall % minute = 0 &&
    match g with
    | .m15 => wall % hour / minute % 15 = 0 && marketIsOpen wall
    | .w => wall % hour = 0 && weekday (wall / day) = 4 && wall % day = 17 * hour
    | .d =>
      wall % hour = 0 && weekday (wall / day) ∈ [6, 0, 1, 2, 3] && wall % day = 17 * hour
    | .h4 =>
      wall % hour = 0 && wall % day / hour ∈ [1, 5, 9, 13, 17, 21] && marketIsOpen wall
    | .h1 => wall % hour = 0 && marketIsOpen wall

/-- The loop of `expected_candle_timestamps`; the fuel bounds its turns. -/
def expandFrom (g : Granularity) (finish : Instant) :
    ℕ → Instant → Except Exc (List Instant)
  | 0, _ => raise (.other "OutOfFuel")
  | fuel + 1, current =>
    if current < finish then
      if finish < candleCompletion c g current then
        raise .valueError "candle range end cuts through a registered interval"
      else do
        let rest ← expandFrom g finish fuel (candleSuccessor c g current)
        return current :: rest
    else .ok []

/-- The check on the end of a range. -/
def endsAt (g : Granularity) (finish : Instant) (expected : List Instant) :
    Except Exc (List Instant) :=
  match expected.getLast? with
  | none => raise .valueError "candle range end is not the final candle completion"
  | some last =>
    if candleCompletion c g last = finish then .ok expected
    else raise .valueError "candle range end is not the final candle completion"

/-- `expected_candle_timestamps` -/
def expectedCandleTimestamps (start finish : Instant) (g : Granularity) :
    Except Exc (List Instant) :=
  if finish ≤ start then raise .valueError "candle range requires aware increasing timestamps"
  else if isAligned g (c.wall start) = false then
    raise .valueError "candle range start is not a registered market interval"
  else do
    let expected ← expandFrom c g finish ((finish - start).toNat + 1) start
    endsAt c g finish expected

end

/-! ## The chain of successors -/

section
variable {c : SundayClock} {g : Granularity} {t : Instant}

theorem isAligned_w (w : ℤ) :
    isAligned .w w = true ↔ weekday (w / day) = 4 ∧ w % day = 17 * hour := by
  rw [isAligned]
  simp only [Bool.and_eq_true, decide_eq_true_eq]
  constructor
  · exact fun h => ⟨h.2.1.2, h.2.2⟩
  · intro h
    have := h.2
    simp only [hour, day, minute] at this ⊢
    exact ⟨by omega, ⟨by omega, h.1⟩, by omega⟩

theorem isAligned_d (w : ℤ) :
    isAligned .d w = true ↔ weekday (w / day) ∈ [6, 0, 1, 2, 3] ∧ w % day = 17 * hour := by
  rw [isAligned]
  simp only [Bool.and_eq_true, decide_eq_true_eq]
  constructor
  · exact fun h => ⟨h.2.1.2, h.2.2⟩
  · intro h
    have := h.2
    simp only [hour, day, minute] at this ⊢
    exact ⟨by omega, ⟨by omega, h.1⟩, by omega⟩

theorem marketIsOpen_iff (w : ℤ) :
    marketIsOpen w = true ↔ weekday (w / day) ≤ 3 ∨ (weekday (w / day) = 4 ∧ w % day < 17 * hour) ∨
      (weekday (w / day) = 6 ∧ 17 * hour ≤ w % day) := by
  rw [marketIsOpen]
  simp only [Bool.or_eq_true, Bool.and_eq_true, decide_eq_true_eq, List.mem_cons, List.not_mem_nil,
    or_false]
  simp only [weekday, hour, day]
  omega

theorem isAligned_h1 (w : ℤ) :
    isAligned .h1 w = true ↔ w % hour = 0 ∧ marketIsOpen w = true := by
  rw [isAligned]
  simp only [Bool.and_eq_true, decide_eq_true_eq]
  constructor
  · exact fun h => h.2
  · intro h
    have := h.1
    simp only [hour, minute] at this ⊢
    exact ⟨by omega, h⟩

theorem isAligned_h4 (w : ℤ) :
    isAligned .h4 w = true ↔ w % (4 * hour) = hour ∧ marketIsOpen w = true := by
  rw [isAligned]
  simp only [Bool.and_eq_true, decide_eq_true_eq, List.mem_cons, List.not_mem_nil, or_false]
  constructor
  · rintro ⟨-, ⟨whole, mark⟩, opened⟩
    refine ⟨?_, opened⟩
    simp only [hour, day] at whole mark ⊢
    omega
  · rintro ⟨mark, opened⟩
    refine ⟨?_, ⟨?_, ?_⟩, opened⟩ <;> simp only [hour, minute, day] at mark ⊢ <;> omega

theorem isAligned_m15 (w : ℤ) :
    isAligned .m15 w = true ↔ w % (15 * minute) = 0 ∧ marketIsOpen w = true := by
  rw [isAligned]
  simp only [Bool.and_eq_true, decide_eq_true_eq]
  constructor
  · rintro ⟨whole, quarter, opened⟩
    refine ⟨?_, opened⟩
    simp only [hour, minute] at whole quarter ⊢
    omega
  · rintro ⟨quarter, opened⟩
    refine ⟨?_, ?_, opened⟩ <;> simp only [hour, minute] at quarter ⊢ <;> omega

/-- The market is open at no reading a change skips or repeats. -/
theorem regular_of_isAligned {w : ℤ} (aligned : isAligned g w = true) : SundayClock.Regular w := by
  have closed : ∀ {w}, marketIsOpen w = true → SundayClock.Regular w := by
    intro w opened
    rw [marketIsOpen_iff] at opened
    simp only [SundayClock.Regular, weekday, hour, day] at opened ⊢
    omega
  have five : ∀ {w : ℤ}, w % day = 17 * hour → SundayClock.Regular w := by
    intro w h
    simp only [SundayClock.Regular, hour, day] at h ⊢
    omega
  cases g with
  | w => exact five ((isAligned_w w).mp aligned).2
  | d => exact five ((isAligned_d w).mp aligned).2
  | h4 => exact closed ((isAligned_h4 w).mp aligned).2
  | h1 => exact closed ((isAligned_h1 w).mp aligned).2
  | m15 => exact closed ((isAligned_m15 w).mp aligned).2

/-- Below a day, the readings a step apart are successors but for the Friday close. -/
theorem successorWall_intraday (intraday : g ∈ [.h4, .h1, .m15]) (w : ℤ) :
    successorWall g w = if weekday ((w + g.step) / day) = 4 ∧ (w + g.step) % day = 17 * hour then
      w + g.step + 2 * day else w + g.step := by
  cases g with
  | w => exact absurd intraday (by decide)
  | d => exact absurd intraday (by decide)
  | h4 => rfl
  | h1 => rfl
  | m15 => rfl

/-- From an aligned reading, the interval ends at its successor or, before a weekend, two days
earlier; the successor is aligned; and the end is not in the hours a change may skip or repeat. -/
theorem successorWall_spec {w : ℤ} (aligned : isAligned g w = true) :
    isAligned g (successorWall g w) = true ∧ SundayClock.Regular (w + g.step) ∧ 0 < g.step ∧
      (w + g.step = successorWall g w ∨ w + g.step + 2 * day = successorWall g w) := by
  cases g with
  | w =>
    have next : successorWall .w w = w + 7 * day := rfl
    rw [next, isAligned_w]
    rw [isAligned_w] at aligned
    refine ⟨?_, ?_, ?_, .inl rfl⟩ <;>
      simp only [Granularity.step, SundayClock.Regular, weekday, hour, day] at aligned ⊢ <;> omega
  | d =>
    rw [isAligned_d] at aligned ⊢
    simp only [List.mem_cons, List.not_mem_nil, or_false] at aligned ⊢
    by_cases thursday : weekday (w / day) = 3
    · have next : successorWall .d w = w + 3 * day := by rw [successorWall, if_pos thursday]
      rw [next]
      simp only [Granularity.step, SundayClock.Regular, weekday, hour, day] at aligned thursday ⊢
      omega
    · have next : successorWall .d w = w + 1 * day := by rw [successorWall, if_neg thursday]
      rw [next]
      simp only [Granularity.step, SundayClock.Regular, weekday, hour, day] at aligned thursday ⊢
      omega
  | h4 =>
    rw [isAligned_h4, marketIsOpen_iff] at aligned ⊢
    rw [successorWall_intraday (by decide)]
    split_ifs with close
    · refine ⟨?_, ?_, ?_, .inr rfl⟩ <;>
        simp only [Granularity.step, SundayClock.Regular, weekday, hour, day] at aligned close ⊢ <;>
        omega
    · refine ⟨?_, ?_, ?_, .inl rfl⟩ <;>
        simp only [Granularity.step, SundayClock.Regular, weekday, hour, day] at aligned close ⊢ <;>
        omega
  | h1 =>
    rw [isAligned_h1, marketIsOpen_iff] at aligned ⊢
    rw [successorWall_intraday (by decide)]
    split_ifs with close
    · refine ⟨?_, ?_, ?_, .inr rfl⟩ <;>
        simp only [Granularity.step, SundayClock.Regular, weekday, hour, day] at aligned close ⊢ <;>
        omega
    · refine ⟨?_, ?_, ?_, .inl rfl⟩ <;>
        simp only [Granularity.step, SundayClock.Regular, weekday, hour, day] at aligned close ⊢ <;>
        omega
  | m15 =>
    rw [isAligned_m15, marketIsOpen_iff] at aligned ⊢
    rw [successorWall_intraday (by decide)]
    split_ifs with close
    · refine ⟨?_, ?_, ?_, .inr rfl⟩ <;>
        simp only [Granularity.step, SundayClock.Regular, weekday, minute, hour, day]
          at aligned close ⊢ <;>
        omega
    · refine ⟨?_, ?_, ?_, .inl rfl⟩ <;>
        simp only [Granularity.step, SundayClock.Regular, weekday, minute, hour, day]
          at aligned close ⊢ <;>
        omega

/-- An aligned interval ends after it starts, and no later than its aligned successor starts. -/
theorem candle_spec (aligned : isAligned g (c.wall t) = true) :
    isAligned g (c.wall (candleSuccessor c g t)) = true ∧ t < candleCompletion c g t ∧
      candleCompletion c g t ≤ candleSuccessor c g t := by
  obtain ⟨next, regular, positive, ends⟩ := successorWall_spec aligned
  have regular' := regular_of_isAligned next
  have here := regular_of_isAligned aligned
  refine ⟨?_, ?_, ?_⟩
  · rw [candleSuccessor, SundayClock.wall_utc regular'.unskipped]
    exact next
  · have later := SundayClock.utc_lt_utc (c := c) here regular (by linarith)
    rw [SundayClock.utc_wall here] at later
    exact later
  · rcases ends with same | weekend
    · rw [candleCompletion, candleSuccessor, same]
    · have later := SundayClock.utc_lt_utc (c := c) regular regular'
        (by linarith [show (0 : ℤ) < 2 * day by decide])
      exact later.le

variable (c g) in
/-- The starts of successive intervals, from one on. -/
def startsFrom : ℕ → Instant → List Instant
  | 0, _ => []
  | n + 1, t => t :: startsFrom n (candleSuccessor c g t)

variable (c g) in
/-- The start of the interval after a number of others. -/
def startAfter : ℕ → Instant → Instant
  | 0, t => t
  | n + 1, t => startAfter n (candleSuccessor c g t)

@[simp] theorem length_startsFrom (n : ℕ) (t : Instant) : (startsFrom c g n t).length = n := by
  induction n generalizing t with
  | zero => rfl
  | succ n ih => rw [startsFrom, List.length_cons, ih]

theorem getLast?_startsFrom (n : ℕ) (t : Instant) :
    (startsFrom c g (n + 1) t).getLast? = some (startAfter c g n t) := by
  induction n generalizing t with
  | zero => rfl
  | succ n ih => rw [startsFrom, startsFrom, List.getLast?_cons_cons, startAfter, ← ih, startsFrom]

theorem head?_startsFrom (n : ℕ) (t : Instant) :
    (startsFrom c g (n + 1) t).head? = some t := rfl

theorem drop_startsFrom (k n : ℕ) (t : Instant) :
    (startsFrom c g n t).drop k = startsFrom c g (n - k) (startAfter c g k t) := by
  induction k generalizing n t with
  | zero => rfl
  | succ k ih =>
    cases n with
    | zero => rw [Nat.zero_sub]; rfl
    | succ n => rw [startsFrom, List.drop_succ_cons, ih, startAfter, Nat.succ_sub_succ]

theorem take_startsFrom (k n : ℕ) (t : Instant) :
    (startsFrom c g n t).take k = startsFrom c g (min k n) t := by
  induction k generalizing n t with
  | zero => rw [Nat.zero_min]; rfl
  | succ k ih =>
    cases n with
    | zero => rfl
    | succ n => rw [startsFrom, List.take_succ_cons, ih, Nat.succ_min_succ, startsFrom]

/-- Every start of the chain is aligned, and each lies later than the one before. -/
theorem startAfter_spec (n : ℕ)
    (aligned : isAligned g (c.wall t) = true) :
    isAligned g (c.wall (startAfter c g n t)) = true ∧ t + n ≤ startAfter c g n t := by
  induction n generalizing t with
  | zero => exact ⟨aligned, by rw [Nat.cast_zero, add_zero]; exact le_refl _⟩
  | succ n ih =>
    obtain ⟨next, ends, before⟩ := candle_spec aligned
    obtain ⟨last, far⟩ := ih next
    refine ⟨last, ?_⟩
    rw [startAfter]
    push_cast
    linarith [Int.add_one_le_iff.mpr (lt_of_lt_of_le ends before)]

theorem startsFrom_increasing (n : ℕ)
    (aligned : isAligned g (c.wall t) = true) :
    (startsFrom c g n t).Pairwise (· < ·) ∧ ∀ s ∈ startsFrom c g n t, t ≤ s := by
  induction n generalizing t with
  | zero => exact ⟨List.Pairwise.nil, fun s h => by cases h⟩
  | succ n ih =>
    obtain ⟨next, ends, before⟩ := candle_spec aligned
    obtain ⟨increasing, above⟩ := ih next
    have later : t < candleSuccessor c g t := lt_of_lt_of_le ends before
    refine ⟨List.pairwise_cons.mpr ⟨fun s hs => lt_of_lt_of_le later (above s hs), increasing⟩, ?_⟩
    intro s hs
    rcases List.mem_cons.mp hs with rfl | hs
    · exact le_refl _
    · exact later.le.trans (above s hs)

/-! ## The ranges that expand -/

theorem expandFrom_eq {finish : Instant} {fuel : ℕ} {ts : List Instant}
    (h : expandFrom c g finish fuel t = .ok ts) : ts = startsFrom c g ts.length t := by
  induction fuel generalizing t ts with
  | zero => cases h
  | succ fuel ih =>
    rw [expandFrom] at h
    split_ifs at h
    · cases h
    · obtain ⟨rest, expanded, h⟩ := bind_eq_ok.mp h
      cases h
      rw [List.length_cons, startsFrom, ← ih expanded]
    · cases h
      rfl

/-- With enough fuel, the range up to the completion of a start of the chain expands. -/
theorem expandFrom_starts (n : ℕ) {fuel : ℕ} (enough : n + 2 ≤ fuel)
    (aligned : isAligned g (c.wall t) = true) :
    expandFrom c g (candleCompletion c g (startAfter c g n t)) fuel t =
      .ok (startsFrom c g (n + 1) t) := by
  induction n generalizing t fuel with
  | zero =>
    obtain ⟨next, ends, before⟩ := candle_spec aligned
    obtain ⟨fuel, rfl⟩ : ∃ k, fuel = k + 2 := ⟨fuel - 2, by omega⟩
    rw [startAfter, expandFrom, if_pos ends, if_neg (lt_irrefl _), expandFrom,
      if_neg (not_lt.mpr before)]
    rfl
  | succ n ih =>
    obtain ⟨next, ends, before⟩ := candle_spec aligned
    obtain ⟨last, far⟩ := startAfter_spec n next
    obtain ⟨fuel, rfl⟩ : ∃ k, fuel = k + 1 := ⟨fuel - 1, by omega⟩
    have final := (candle_spec last).2.1
    have reach : candleCompletion c g t ≤
        candleCompletion c g (startAfter c g n (candleSuccessor c g t)) := by
      have start : candleSuccessor c g t ≤ startAfter c g n (candleSuccessor c g t) := by
        have := Int.natCast_nonneg n
        linarith
      linarith
    rw [startAfter, expandFrom, if_pos (lt_of_lt_of_le ends reach), if_neg (not_lt.mpr reach),
      ih (by omega) next]
    rfl

/-- A range that expands does so into the chain from its start, up to the start its end
completes. -/
theorem expected_spec {start finish : Instant} {ts : List Instant}
    (h : expectedCandleTimestamps c start finish g = .ok ts) :
    isAligned g (c.wall start) = true ∧ ∃ n, ts = startsFrom c g (n + 1) start ∧
      finish = candleCompletion c g (startAfter c g n start) := by
  rw [expectedCandleTimestamps] at h
  by_cases empty : finish ≤ start
  · rw [if_pos empty] at h
    cases h
  by_cases unaligned : isAligned g (c.wall start) = false
  · rw [if_neg empty, if_pos unaligned] at h
    cases h
  rw [if_neg empty, if_neg unaligned] at h
  obtain ⟨expected, expanded, h⟩ := bind_eq_ok.mp h
  have chain := expandFrom_eq expanded
  refine ⟨Bool.of_not_eq_false unaligned, ?_⟩
  cases length : expected.length with
  | zero =>
    rw [List.length_eq_zero_iff.mp length] at h
    cases h
  | succ n =>
    rw [length] at chain
    rw [chain, endsAt, getLast?_startsFrom] at h
    dsimp only at h
    split_ifs at h with completes
    · cases h
      exact ⟨n, rfl, completes.symm⟩
    · cases h

/-- Every range from an aligned start to the completion of a start of its chain expands. -/
theorem expected_starts (n : ℕ) (aligned : isAligned g (c.wall t) = true) :
    expectedCandleTimestamps c t (candleCompletion c g (startAfter c g n t)) g =
      .ok (startsFrom c g (n + 1) t) := by
  obtain ⟨last, far⟩ := startAfter_spec n aligned
  have final := (candle_spec last).2.1
  have count := Int.natCast_nonneg n
  have nonempty : ¬ candleCompletion c g (startAfter c g n t) ≤ t := by
    rw [not_le]
    linarith
  have enough : n + 2 ≤ (candleCompletion c g (startAfter c g n t) - t).toNat + 1 := by
    have : (n : ℤ) + 1 ≤ candleCompletion c g (startAfter c g n t) - t := by
      linarith [Int.add_one_le_iff.mpr final]
    omega
  rw [expectedCandleTimestamps, if_neg nonempty, if_neg (by rw [aligned]; decide),
    expandFrom_starts n enough aligned]
  show endsAt c g _ (startsFrom c g (n + 1) t) = _
  rw [endsAt, getLast?_startsFrom]
  exact if_pos rfl

end

end TradeRecommender.Market
