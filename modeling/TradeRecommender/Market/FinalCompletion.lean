import Mathlib.Order.Bounds.Defs
import TradeRecommender.Lib.NewYorkClock
import TradeRecommender.Market.RegisteredCalendar

/-!
# The final completion before a boundary

`final_registered_completion_before` of `market/quality.py`: the last completion of the frozen
calendar strictly before an instant, and where it is the last of the calendar's candles.

1. the function;
2. candles and their completions, as readings;
3. hours, days and weeks;
4. where the function meets the calendar.
-/

namespace TradeRecommender.Market.Final

open Py Civil

/-! ## The function -/

/-- `while …: candidate -= step`; the fuel bounds its turns. -/
def backUntil (stop : ℤ → Bool) (step : ℤ) : ℕ → ℤ → Except Exc ℤ
  | 0, _ => raise (.other "OutOfFuel")
  | fuel + 1, candidate =>
    if stop candidate then .ok candidate else backUntil stop step fuel (candidate - step)

/-- The reading whose instant is returned, from the boundary's. -/
def finalReading (g : Granularity) (boundary : ℤ) : Except Exc ℤ :=
  match g with
  | .h1 => backUntil (fun candidate => marketIsOpen (candidate - hour)) hour 50 (boundary - hour)
  | .d =>
    let candidate := boundary / day * day + 17 * hour
    let candidate := if boundary ≤ candidate then candidate - day else candidate
    backUntil (fun candidate => weekday (candidate / day) ∉ [4, 5]) day 3 candidate
  | .w =>
    let candidate := boundary / day * day + 17 * hour
    let candidate := candidate - (weekday (candidate / day) - 4) % 7 * day
    .ok (if boundary ≤ candidate then candidate - 7 * day else candidate)
  | _ => raise .valueError "boundary must be aware and granularity must be W, D or H1"

section
variable (c : SundayClock)

/-- `final_registered_completion_before` -/
def finalRegisteredCompletionBefore (boundary : Instant) (g : Granularity) :
    Except Exc Instant := do
  let candidate ← finalReading g (c.wall boundary)
  return c.utc candidate

/-- The starts that successors enumerate, from one that is aligned. -/
def Registered (g : Granularity) (start : Instant) : Prop :=
  ∃ first n, isAligned g (c.wall first) = true ∧ startAfter c g n first = start

/-- The completions of registered candles strictly before a boundary. -/
def completionsBefore (g : Granularity) (boundary : Instant) : Set Instant :=
  {completion | ∃ start, Registered c g start ∧ candleCompletion c g start = completion ∧
    completion < boundary}

end

/-- Where the function finds the last completion: for hours, where the boundary is on the hour; for
days, where the last 17:00 before it is one of Monday to Thursday; for weeks, everywhere. -/
def FinalAt (g : Granularity) (boundary : ℤ) : Prop :=
  match g with
  | .h1 => boundary % hour = 0
  | .d => weekday ((boundary - 17 * hour - 1) / day) ≤ 3
  | .w => True
  | _ => False

/-! ## Completions as readings -/

section
variable {c : SundayClock} {g : Granularity}

theorem registered_iff {start : Instant} :
    Registered c g start ↔ isAligned g (c.wall start) = true := by
  constructor
  · rintro ⟨first, n, aligned, rfl⟩
    exact (startAfter_spec n aligned).1
  · exact fun aligned => ⟨start, 0, aligned, rfl⟩

/-- A reading at which a registered candle completes. -/
def Completes (g : Granularity) (reading : ℤ) : Prop := isAligned g (reading - g.step) = true

theorem Completes.regular {reading : ℤ} (completes : Completes g reading) :
    SundayClock.Regular reading := by
  have regular := (successorWall_spec completes).2.1
  rw [sub_add_cancel] at regular
  exact regular

/-- The completions before a boundary are those whose reading is before its reading. -/
theorem mem_completionsBefore {boundary completion : Instant} :
    completion ∈ completionsBefore c g boundary ↔
      ∃ reading, Completes g reading ∧ reading < c.wall boundary ∧ completion = c.utc reading := by
  constructor
  · rintro ⟨start, registered, rfl, before⟩
    have aligned := registered_iff.mp registered
    have completes : Completes g (c.wall start + g.step) := by
      unfold Completes
      rw [add_sub_cancel_right]
      exact aligned
    exact ⟨_, completes, (SundayClock.utc_lt_iff completes.regular).mp before, rfl⟩
  · rintro ⟨reading, completes, before, rfl⟩
    have start := SundayClock.wall_utc (c := c) (regular_of_isAligned completes).unskipped
    refine ⟨c.utc (reading - g.step), registered_iff.mpr ?_, ?_,
      (SundayClock.utc_lt_iff completes.regular).mpr before⟩
    · rw [start]
      exact completes
    · rw [candleCompletion, start, sub_add_cancel]

/-- The last completion before a boundary is that of the last reading. -/
theorem isGreatest_iff {boundary : Instant} {candidate : ℤ}
    (regular : SundayClock.Regular candidate) :
    IsGreatest (completionsBefore c g boundary) (c.utc candidate) ↔
      Completes g candidate ∧ candidate < c.wall boundary ∧
        ∀ reading, Completes g reading → reading < c.wall boundary → reading ≤ candidate := by
  constructor
  · rintro ⟨member, greatest⟩
    obtain ⟨reading, completes, before, same⟩ := mem_completionsBefore.mp member
    have back := SundayClock.wall_utc (c := c) regular.unskipped
    rw [same, SundayClock.wall_utc completes.regular.unskipped] at back
    subst back
    refine ⟨completes, before, fun other completes' before' => ?_⟩
    have le := greatest (mem_completionsBefore.mpr ⟨other, completes', before', rfl⟩)
    rw [SundayClock.utc_le_iff completes'.regular,
      SundayClock.wall_utc completes.regular.unskipped] at le
    exact le
  · rintro ⟨completes, before, last⟩
    refine ⟨mem_completionsBefore.mpr ⟨candidate, completes, before, rfl⟩, ?_⟩
    rintro completion member
    obtain ⟨reading, completes', before', rfl⟩ := mem_completionsBefore.mp member
    rw [SundayClock.utc_le_iff completes'.regular, SundayClock.wall_utc regular.unskipped]
    exact last reading completes' before'

/-! ## The loop -/

/-- The loop ends at the first reading it goes back to that stops it. -/
theorem backUntil_eq {stop : ℤ → Bool} {step : ℤ} {k fuel : ℕ} {candidate : ℤ}
    (stops : stop (candidate - k * step) = true)
    (first : ∀ j < k, stop (candidate - j * step) = false) (enough : k < fuel) :
    backUntil stop step fuel candidate = .ok (candidate - k * step) := by
  induction k generalizing fuel candidate with
  | zero =>
    obtain ⟨fuel, rfl⟩ := Nat.exists_eq_succ_of_ne_zero (Nat.ne_of_gt enough)
    rw [Nat.cast_zero, zero_mul, sub_zero] at stops ⊢
    rw [backUntil, if_pos stops]
  | succ k ih =>
    obtain ⟨fuel, rfl⟩ := Nat.exists_eq_succ_of_ne_zero (Nat.ne_of_gt (Nat.zero_lt_of_lt enough))
    have here := first 0 (Nat.succ_pos k)
    rw [Nat.cast_zero, zero_mul, sub_zero] at here
    have shift : ∀ j : ℕ, candidate - step - j * step = candidate - (j + 1 : ℕ) * step := by
      intro j
      push_cast
      ring
    rw [backUntil, if_neg (by rw [here]; exact Bool.false_ne_true), ← shift]
    refine ih ?_ (fun j less => ?_) (Nat.lt_of_succ_lt_succ enough)
    · rw [shift]
      exact stops
    · rw [shift]
      exact first (j + 1) (Nat.succ_lt_succ less)

/-! ## Hours -/

theorem completes_h1 {reading : ℤ} :
    Completes .h1 reading ↔ reading % hour = 0 ∧ marketIsOpen (reading - hour) = true := by
  unfold Completes
  rw [isAligned_h1]
  refine and_congr_left fun _ => ?_
  simp only [Granularity.step, hour]
  omega

/-- The market was open at most two days ago. -/
theorem exists_open (reading : ℤ) : ∃ k : ℕ, k < 50 ∧ marketIsOpen (reading - k * hour) = true := by
  by_cases opened : marketIsOpen reading = true
  · exact ⟨0, by decide, by rwa [Nat.cast_zero, zero_mul, sub_zero]⟩
  · rw [marketIsOpen_iff] at opened
    refine ⟨((reading % day + (weekday (reading / day) - 4) * day - 17 * hour) / hour + 1).toNat,
      ?_, ?_⟩
    · simp only [weekday, hour, day] at opened ⊢
      omega
    · rw [marketIsOpen_iff]
      simp only [weekday, hour, day] at opened ⊢
      omega

/-- **Hours**: the function meets the calendar where the boundary is on the hour. -/
theorem final_h1 (boundary : Instant) :
    ∃ candidate, finalReading .h1 (c.wall boundary) = .ok candidate ∧
      (IsGreatest (completionsBefore c .h1 boundary) (c.utc candidate) ↔
        FinalAt .h1 (c.wall boundary)) := by
  set reading := c.wall boundary with reading_eq
  have opens : ∃ k : ℕ, marketIsOpen (reading - hour - k * hour - hour) = true := by
    obtain ⟨k, -, opened⟩ := exists_open (reading - hour - hour)
    exact ⟨k, by rwa [sub_right_comm]⟩
  have first := fun j (less : j < Nat.find opens) => Nat.find_min opens less
  have opened := Nat.find_spec opens
  have enough : Nat.find opens < 50 := by
    obtain ⟨k, bound, opened⟩ := exists_open (reading - hour - hour)
    exact Nat.lt_of_le_of_lt (Nat.find_le (by rwa [sub_right_comm] at opened)) bound
  generalize Nat.find opens = k at first opened enough
  have regular : SundayClock.Regular (reading - hour - k * hour) := by
    rw [marketIsOpen_iff] at opened
    simp only [SundayClock.Regular, weekday, hour, day] at opened ⊢
    omega
  refine ⟨reading - hour - k * hour,
    backUntil_eq opened (fun j less => Bool.eq_false_iff.mpr (first j less)) enough, ?_⟩
  rw [isGreatest_iff regular, completes_h1, ← reading_eq]
  constructor
  · rintro ⟨⟨onHour, -⟩, -, -⟩
    show reading % hour = 0
    simp only [hour] at onHour ⊢
    omega
  · intro onHour
    have onHour : reading % hour = 0 := onHour
    refine ⟨⟨?_, opened⟩, ?_, fun other completes before => ?_⟩
    · simp only [hour] at onHour ⊢
      omega
    · simp only [hour]
      omega
    · -- an hour that completes later would have stopped the loop before
      rw [completes_h1] at completes
      by_contra later
      have turns : other - hour =
          reading - hour - ((reading - other) / hour - 1).toNat * hour - hour := by
        simp only [hour] at completes onHour before later ⊢
        omega
      refine first ((reading - other) / hour - 1).toNat ?_ (turns ▸ completes.2)
      simp only [hour] at completes onHour before later ⊢
      omega

/-! ## Days and weeks -/

theorem completes_d {reading : ℤ} :
    Completes .d reading ↔ weekday (reading / day) ≤ 4 ∧ reading % day = 17 * hour := by
  unfold Completes
  rw [isAligned_d]
  simp only [List.mem_cons, List.not_mem_nil, or_false, Granularity.step, weekday, hour, day]
  omega

theorem completes_w {reading : ℤ} :
    Completes .w reading ↔ weekday (reading / day) = 4 ∧ reading % day = 17 * hour := by
  unfold Completes
  rw [isAligned_w]
  simp only [Granularity.step, weekday, hour, day]
  omega

/-- The date of the last 17:00 before a reading. -/
def lastFive (reading : ℤ) : ℤ := (reading - 17 * hour - 1) / day

/-- The loop goes back from a Saturday to its Thursday, and from a Friday to its Thursday. -/
theorem finalReading_d (reading : ℤ) :
    finalReading .d reading = .ok ((lastFive reading -
      (if weekday (lastFive reading) = 5 then 2 else if weekday (lastFive reading) = 4 then 1
        else 0)) * day + 17 * hour) := by
  have start : (if reading ≤ reading / day * day + 17 * hour then
      reading / day * day + 17 * hour - day else reading / day * day + 17 * hour) =
      lastFive reading * day + 17 * hour := by
    simp only [lastFive, hour, day]
    split_ifs <;> omega
  unfold finalReading
  dsimp only
  rw [start]
  generalize lastFive reading = date
  have passes : ∀ k : ℕ, (decide (weekday ((date * day + 17 * hour - k * day) / day) ∉ [4, 5])) =
      decide (weekday (date - k) ≠ 4 ∧ weekday (date - k) ≠ 5) := by
    intro k
    have days : (date * day + 17 * hour - k * day) / day = date - k := by
      simp only [hour, day]
      omega
    rw [days]
    simp only [List.mem_cons, List.not_mem_nil, or_false, not_or]
  have goes : ∀ k : ℕ, k < 3 → (weekday (date - k) ≠ 4 ∧ weekday (date - k) ≠ 5) →
      (∀ j < k, ¬ (weekday (date - j) ≠ 4 ∧ weekday (date - j) ≠ 5)) →
      backUntil (fun candidate => decide (weekday (candidate / day) ∉ [4, 5])) day 3
        (date * day + 17 * hour) = .ok ((date - k) * day + 17 * hour) := by
    intro k enough stops first
    rw [backUntil_eq (k := k) (by rw [passes]; exact decide_eq_true stops)
      (fun j less => by rw [passes]; exact decide_eq_false (first j less)) enough]
    congr 1
    ring
  by_cases saturday : weekday date = 5
  · rw [if_pos saturday]
    refine goes 2 (by decide) ?_ ?_
    · simp only [weekday] at saturday ⊢
      omega
    · intro j less
      simp only [weekday] at saturday ⊢
      omega
  · by_cases friday : weekday date = 4
    · rw [if_neg saturday, if_pos friday]
      refine goes 1 (by decide) ?_ ?_
      · simp only [weekday] at friday ⊢
        omega
      · intro j less
        simp only [weekday] at friday ⊢
        omega
    · rw [if_neg saturday, if_neg friday]
      refine goes 0 (by decide) ?_ ?_
      · rw [Nat.cast_zero, sub_zero]
        exact ⟨friday, saturday⟩
      · intro j less
        cases less

/-- **Days**: the function meets the calendar where the last 17:00 is one of Monday to Thursday. -/
theorem final_d (boundary : Instant) :
    ∃ candidate, finalReading .d (c.wall boundary) = .ok candidate ∧
      (IsGreatest (completionsBefore c .d boundary) (c.utc candidate) ↔
        FinalAt .d (c.wall boundary)) := by
  refine ⟨_, finalReading_d _, ?_⟩
  have regular : ∀ date : ℤ, SundayClock.Regular (date * day + 17 * hour) := by
    intro date
    simp only [SundayClock.Regular, hour, day]
    omega
  rw [isGreatest_iff (regular _), completes_d]
  show _ ↔ weekday (lastFive (c.wall boundary)) ≤ 3
  have before : ∀ date : ℤ,
      date * day + 17 * hour < c.wall boundary ↔ date ≤ lastFive (c.wall boundary) := by
    intro date
    simp only [lastFive, hour, day]
    omega
  rw [before]
  have bounds : 0 ≤ weekday (lastFive (c.wall boundary)) ∧
      weekday (lastFive (c.wall boundary)) ≤ 6 := by
    simp only [weekday]
    omega
  constructor
  · rintro ⟨⟨completes, -⟩, -, greatest⟩
    by_contra late
    -- the Friday before the boundary completes, and lies after the reading
    have friday := greatest ((lastFive (c.wall boundary) -
      (weekday (lastFive (c.wall boundary)) - 4)) * day + 17 * hour)
    rw [completes_d, before] at friday
    generalize lastFive (c.wall boundary) = date at *
    simp only [weekday, hour, day] at *
    omega
  · intro early
    rw [if_neg (by omega), if_neg (by omega)]
    refine ⟨⟨?_, ?_⟩, ?_, fun reading completes less => ?_⟩
    · generalize lastFive (c.wall boundary) = date at *
      simp only [weekday, hour, day] at *
      omega
    · simp only [hour, day]
      omega
    · omega
    · rw [completes_d] at completes
      have whole : reading = reading / day * day + 17 * hour := by
        simp only [hour, day] at completes ⊢
        omega
      rw [whole, before] at less
      generalize lastFive (c.wall boundary) = date at *
      simp only [hour, day] at *
      omega

/-- **Weeks**: the function meets the calendar everywhere. -/
theorem final_w (boundary : Instant) :
    ∃ candidate, finalReading .w (c.wall boundary) = .ok candidate ∧
      (IsGreatest (completionsBefore c .w boundary) (c.utc candidate) ↔
        FinalAt .w (c.wall boundary)) := by
  refine ⟨_, rfl, ?_⟩
  rw [isGreatest_iff, completes_w]
  · refine ⟨fun _ => trivial, fun _ => ?_⟩
    generalize c.wall boundary = reading
    simp only [completes_w]
    refine ⟨?_, ?_, fun other completes less => ?_⟩ <;>
      simp only [weekday, hour, day] at * <;> split_ifs <;> omega
  · generalize c.wall boundary = reading
    simp only [SundayClock.Regular, weekday, hour, day]
    split_ifs <;> omega

/-! ## Where the function meets the calendar -/

/-- What a reading gives for the function. -/
theorem final_of_reading {boundary : Instant} {condition : Prop}
    (found : ∃ candidate, finalReading g (c.wall boundary) = .ok candidate ∧
      (IsGreatest (completionsBefore c g boundary) (c.utc candidate) ↔ condition)) :
    (∃ completion, finalRegisteredCompletionBefore c boundary g = .ok completion ∧
      IsGreatest (completionsBefore c g boundary) completion) ↔ condition := by
  obtain ⟨candidate, read, greatest⟩ := found
  have returned : finalRegisteredCompletionBefore c boundary g = .ok (c.utc candidate) :=
    bind_eq_ok.mpr ⟨candidate, read, rfl⟩
  rw [returned, ← greatest]
  constructor
  · rintro ⟨completion, same, last⟩
    rw [Except.ok.inj same]
    exact last
  · exact fun last => ⟨_, rfl, last⟩

variable (c g) in
/-- **The final completion**: the function returns the last completion of the calendar strictly
before a boundary exactly where the boundary is on the hour, for hours; where the last 17:00 before
it is one of Monday to Thursday, for days; and always, for weeks. -/
theorem finalRegisteredCompletionBefore_iff (boundary : Instant) :
    (∃ completion, finalRegisteredCompletionBefore c boundary g = .ok completion ∧
      IsGreatest (completionsBefore c g boundary) completion) ↔ FinalAt g (c.wall boundary) := by
  cases g with
  | w => exact final_of_reading (final_w boundary)
  | d => exact final_of_reading (final_d boundary)
  | h1 => exact final_of_reading (final_h1 boundary)
  | h4 =>
    refine ⟨?_, False.elim⟩
    rintro ⟨completion, returned, -⟩
    cases returned
  | m15 =>
    refine ⟨?_, False.elim⟩
    rintro ⟨completion, returned, -⟩
    cases returned

end

/-- At noon of a Saturday the function goes back to the Thursday. -/
theorem saturday_skips_friday :
    ¬ ∀ (boundary : Instant), ∀ g ∈ [Granularity.h1, .d, .w], ∃ completion,
      finalRegisteredCompletionBefore newYork boundary g = .ok completion ∧
        IsGreatest (completionsBefore newYork g boundary) completion := by
  intro always
  have saturday := final_of_reading (final_d (c := newYork) (19728 * day + 12 * hour))
  have friday : ¬ weekday ((newYork.wall (19728 * day + 12 * hour) - 17 * hour - 1) / day) ≤ 3 := by
    decide
  exact friday (saturday.mp (always _ .d (by decide)))

end TradeRecommender.Market.Final
