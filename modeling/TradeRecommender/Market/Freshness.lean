import TradeRecommender.Market.CalendarTiling
import TradeRecommender.Market.PageCollection

/-!
# Freshness

The completion `market/freshness.py` expects of a series, against the intervals
`market/live_acquisition.py` enumerates up to the same time.

1. the source's functions;
2. readings that complete an interval, and the last of them the freshness loops find;
3. from a weekend to the open behind it;
4. the intervals enumerated, and the last of them.
-/

namespace TradeRecommender.Market

open Py Civil

/-! ## The source's functions -/

/-- A loop down the hours of the wall to one that has a property; the fuel bounds its turns. -/
def hoursBack (found : ℤ → Bool) : ℕ → ℤ → Except Exc ℤ
  | 0, _ => raise (.other "OutOfFuel")
  | fuel + 1, candidate =>
    if found candidate then .ok candidate else hoursBack found fuel (candidate - hour)

/-- A loop down the days of the wall to one outside the weekend. -/
def weekdayBack : ℕ → ℤ → Except Exc ℤ
  | 0, _ => raise (.other "OutOfFuel")
  | fuel + 1, candidate =>
    if weekday (candidate / day) ∈ [5, 6] then weekdayBack fuel (candidate - day)
    else .ok candidate

section
variable (c : SundayClock) (g : Granularity)

/-- `latest_expected_completion` -/
def latestExpectedCompletion (now : Instant) : Except Exc Instant :=
  let wall := c.wall now
  match g with
  | .w =>
    let candidate := atFive wall - (weekday (atFive wall / day) - 4) % 7 * day
    .ok (c.utc (if wall < candidate then candidate - 7 * day else candidate))
  | .d => do
    let candidate ← weekdayBack 7
      (if wall < atFive wall then atFive wall - day else atFive wall)
    return c.utc candidate
  | .h4 => do
    let candidate ← hoursBack
      (fun candidate => candidate % day / hour ∈ [1, 5, 9, 13, 17, 21] &&
        marketIsOpen (candidate - 4 * hour)) 170 (wall / hour * hour)
    return c.utc candidate
  | _ => do
    let candidate ← hoursBack (fun candidate => marketIsOpen (candidate - hour)) 170
      (wall / hour * hour)
    return c.utc candidate

/-- `MAX_COVERAGE_INTERVALS` -/
def MAX_COVERAGE_INTERVALS : ℕ := 100000

/-- The loop over a closed market at the start of a window. -/
def openFrom : ℕ → Instant → Except Exc Instant
  | 0, _ => raise (.other "OutOfFuel")
  | fuel + 1, current =>
    if marketIsOpen (c.wall current) then .ok current
    else if isLiveAligned g (c.wall (current + g.step)) then openFrom fuel (current + g.step)
    else do
      -- the clock has changed in the closed market, and the grid has shifted
      let floor ← canonicalLiveStart c g (current + g.step)
      openFrom fuel (floor + g.step)

/-- The loop over the intervals, behind those of before. -/
def intervalsFrom (finish : Instant) : ℕ → List Instant → Instant → Except Exc (List Instant)
  | 0, _, _ => raise (.other "OutOfFuel")
  | fuel + 1, expected, current =>
    if current < finish ∧ liveCompletion c g current ≤ finish then
      if MAX_COVERAGE_INTERVALS ≤ expected.length then
        raise .valueError "Requested coverage exceeds bounded report limit"
      else intervalsFrom finish fuel (expected ++ [current]) (candleSuccessor c g current)
    else .ok expected

/-- `complete_live_intervals` between aware times -/
def completeLiveIntervals (start finish : Instant) : Except Exc (List Instant) :=
  if finish ≤ start then raise .valueError "Invalid canonical live window"
  else do
    if (← canonicalLiveStart c g start) ≠ start then
      raise .valueError "Invalid canonical live window"
    else do
      let current ← if g ∈ [.m15, .h1, .h4] then openFrom c g 1000 start else .ok start
      intervalsFrom c g finish ((finish - start).toNat + 1) [] current

end

/-! ## Completions on the wall -/

/-- A reading that an interval ends at. -/
def Completes (g : Granularity) (z : ℤ) : Prop := isAligned g (z - g.step) = true

theorem completes_w (z : ℤ) :
    Completes .w z ↔ weekday (z / day) = 4 ∧ z % day = 17 * hour := by
  rw [Completes, isAligned_w]
  simp only [Granularity.step, weekday, hour, day]
  omega

theorem completes_d (z : ℤ) :
    Completes .d z ↔ weekday (z / day) ≤ 4 ∧ z % day = 17 * hour := by
  rw [Completes, isAligned_d]
  simp only [Granularity.step, List.mem_cons, List.not_mem_nil, or_false, weekday, hour, day]
  omega

/-- The loop down the hours finds the last hour with the property. -/
theorem hoursBack_spec (found : ℤ → Bool) {fuel k : ℕ} {w : ℤ} (within : k < fuel)
    (holds : found (w - k * hour) = true) : ∃ z, hoursBack found fuel w = .ok z ∧
      found z = true ∧ z ≤ w ∧ (w - z) % hour = 0 ∧
      ∀ v, found v = true → v ≤ w → (w - v) % hour = 0 → v ≤ z := by
  induction fuel generalizing k w with
  | zero => omega
  | succ fuel ih =>
    rw [hoursBack]
    by_cases here : found w = true
    · rw [if_pos here]
      refine ⟨w, rfl, here, le_refl _, ?_, fun v _ low _ => low⟩
      rw [sub_self]
      rfl
    · rw [if_neg here]
      cases k with
      | zero =>
        rw [Nat.cast_zero, zero_mul, sub_zero] at holds
        exact absurd holds here
      | succ k =>
        have shift : w - hour - k * hour = w - (k + 1 : ℕ) * hour := by
          push_cast
          ring
        obtain ⟨z, returned, first, low, whole, greatest⟩ :=
          ih (k := k) (w := w - hour) (by omega) (by rw [shift]; exact holds)
        refine ⟨z, returned, first, ?_, ?_, fun v h below hours => ?_⟩
        · simp only [hour] at low
          omega
        · simp only [hour] at whole ⊢
          omega
        · rcases eq_or_lt_of_le below with rfl | below
          · exact absurd h here
          · refine greatest v h ?_ ?_ <;> simp only [hour] at hours ⊢ <;> omega

theorem weekdayBack_spec {w : ℤ} (five : w % day = 17 * hour) : ∃ z, weekdayBack 7 w = .ok z ∧
    Completes .d z ∧ z ≤ w ∧ ∀ v, Completes .d v → v ≤ w → v ≤ z := by
  have stop : ∀ fuel v, weekday (v / day) ≤ 4 → weekdayBack (fuel + 1) v = .ok v := by
    intro fuel v h
    rw [weekdayBack, if_neg]
    simp only [List.mem_cons, List.not_mem_nil, or_false]
    omega
  have step : ∀ fuel v, 4 < weekday (v / day) →
      weekdayBack (fuel + 1) v = weekdayBack fuel (v - day) := by
    intro fuel v h
    rw [weekdayBack, if_pos]
    simp only [List.mem_cons, List.not_mem_nil, or_false, weekday] at h ⊢
    omega
  by_cases friday : weekday (w / day) ≤ 4
  · exact ⟨w, stop 6 w friday, (completes_d w).mpr ⟨friday, five⟩, le_refl _, fun v _ low => low⟩
  · rw [step 6 w (not_le.mp friday)]
    by_cases saturday : weekday ((w - day) / day) ≤ 4
    · refine ⟨w - day, stop 5 _ saturday, ?_, ?_, fun v h low => ?_⟩
      · rw [completes_d]
        simp only [weekday, hour, day] at *
        omega
      · simp only [day]
        omega
      · rw [completes_d] at h
        simp only [weekday, hour, day] at *
        omega
    · have sunday : weekday ((w - day - day) / day) ≤ 4 := by
        simp only [weekday, hour, day] at *
        omega
      rw [step 5 _ (not_le.mp saturday)]
      refine ⟨w - day - day, stop 4 _ sunday, ?_, ?_, fun v h low => ?_⟩
      · rw [completes_d]
        simp only [weekday, hour, day] at *
        omega
      · simp only [day]
        omega
      · rw [completes_d] at h
        simp only [weekday, hour, day] at *
        omega

section
variable {c : SundayClock} {g : Granularity} {t : ℤ}

/-- Below a day, a close of the week lies in the week before an hour. -/
theorem exists_close (w : ℤ) : ∃ k : ℕ, k < 170 ∧ ∃ v, v = w / hour * hour - k * hour ∧
    weekday (v / day) = 4 ∧ v % day = 17 * hour := by
  refine ⟨((w / hour * hour - ((w / hour * hour - 17 * hour - day) / (7 * day) * (7 * day) +
    17 * hour + day)) / hour).toNat, ?_, _, rfl, ?_, ?_⟩ <;>
    simp only [weekday, hour, day] <;> omega

/-- What freshness expects is the last completion on the wall. -/
theorem latestExpectedCompletion_spec (supported : g ≠ .m15) (now : ℤ) : ∃ z : ℤ,
    latestExpectedCompletion c g now = .ok (c.utc z) ∧ Completes g z ∧ z ≤ c.wall now ∧
      ∀ v, Completes g v → v ≤ c.wall now → v ≤ z := by
  obtain ⟨k, within, v, rfl, friday, five⟩ := exists_close (c.wall now)
  have floor : ∀ z : ℤ, z ≤ c.wall now / hour * hour → z ≤ c.wall now := by
    intro z low
    simp only [hour] at low
    omega
  have hours : ∀ z : ℤ, z % hour = 0 → z ≤ c.wall now →
      z ≤ c.wall now / hour * hour ∧ (c.wall now / hour * hour - z) % hour = 0 := by
    intro z whole low
    simp only [hour] at whole ⊢
    omega
  cases g with
  | m15 => exact absurd rfl supported
  | w =>
    refine ⟨_, rfl, ?_, ?_, fun v h low => ?_⟩
    · rw [completes_w]
      split_ifs with later <;> simp only [atFive, weekday, hour, day] at later ⊢ <;> omega
    · split_ifs with later
      · simp only [atFive, weekday, hour, day] at later ⊢
        omega
      · exact not_lt.mp later
    · rw [completes_w] at h
      split_ifs with later <;> simp only [atFive, weekday, hour, day] at h later ⊢ <;> omega
  | d =>
    have close : (if c.wall now < atFive (c.wall now) then atFive (c.wall now) - day
        else atFive (c.wall now)) % day = 17 * hour := by
      split_ifs <;> simp only [atFive, hour, day] <;> omega
    obtain ⟨z, returned, completes, low, greatest⟩ := weekdayBack_spec close
    refine ⟨z, ?_, completes, ?_, fun v h below => greatest v h ?_⟩
    · exact bind_eq_ok.mpr ⟨z, returned, rfl⟩
    · split_ifs at low <;> simp only [atFive, hour, day] at * <;> omega
    · rw [completes_d] at h
      split_ifs <;> simp only [atFive, hour, day] at * <;> omega
  | h4 =>
    have found : ∀ v : ℤ, v % hour = 0 → ((decide (v % day / hour ∈ [1, 5, 9, 13, 17, 21]) &&
        marketIsOpen (v - 4 * hour)) = true ↔ Completes .h4 v) := by
      intro v whole
      rw [Completes, isAligned_h4, Bool.and_eq_true, decide_eq_true_iff]
      refine and_congr_left fun _ => ?_
      simp only [Granularity.step, List.mem_cons, List.not_mem_nil, or_false, hour, day] at whole ⊢
      omega
    have open_ : marketIsOpen (c.wall now / hour * hour - k * hour - 4 * hour) = true := by
      rw [marketIsOpen_iff]
      simp only [weekday, hour, day] at friday five ⊢
      omega
    obtain ⟨z, returned, holds, low, whole, greatest⟩ := hoursBack_spec
      (fun candidate => decide (candidate % day / hour ∈ [1, 5, 9, 13, 17, 21]) &&
        marketIsOpen (candidate - 4 * hour)) within (by
        rw [Bool.and_eq_true, decide_eq_true_iff]
        refine ⟨?_, open_⟩
        simp only [List.mem_cons, List.not_mem_nil, or_false, hour, day] at five ⊢
        omega)
    have multiple : z % hour = 0 := by
      simp only [hour] at whole ⊢
      omega
    refine ⟨z, ?_, (found z multiple).mp holds, floor z low, fun v h below => ?_⟩
    · exact bind_eq_ok.mpr ⟨z, returned, rfl⟩
    · have whole' : v % hour = 0 := by
        rw [Completes, isAligned_h4] at h
        have := h.1
        simp only [Granularity.step, hour] at this ⊢
        omega
      exact greatest v ((found v whole').mpr h) (hours v whole' below).1 (hours v whole' below).2
  | h1 =>
    have found : ∀ v : ℤ, v % hour = 0 → (marketIsOpen (v - hour) = true ↔ Completes .h1 v) := by
      intro v whole
      rw [Completes, isAligned_h1, Granularity.step]
      simp only [hour] at whole ⊢
      constructor
      · intro h
        exact ⟨by omega, h⟩
      · exact fun h => h.2
    have open_ : marketIsOpen (c.wall now / hour * hour - k * hour - hour) = true := by
      rw [marketIsOpen_iff]
      simp only [weekday, hour, day] at friday five ⊢
      omega
    obtain ⟨z, returned, holds, low, whole, greatest⟩ := hoursBack_spec
      (fun candidate => marketIsOpen (candidate - hour)) within open_
    have multiple : z % hour = 0 := by
      simp only [hour] at whole ⊢
      omega
    refine ⟨z, ?_, (found z multiple).mp holds, floor z low, fun v h below => ?_⟩
    · exact bind_eq_ok.mpr ⟨z, returned, rfl⟩
    · have whole' : v % hour = 0 := by
        rw [Completes, isAligned_h1] at h
        have := h.1
        simp only [Granularity.step, hour] at this ⊢
        omega
      exact greatest v ((found v whole').mpr h) (hours v whole' below).1 (hours v whole' below).2

/-! ## From a weekend to the open -/

/-- A reading at which the market opens for a week. -/
def Opens (z : ℤ) : Prop := weekday (z / day) = 6 ∧ z % day = 17 * hour

theorem Opens.regular {z : ℤ} (h : Opens z) : SundayClock.Regular z := by
  simp only [Opens, SundayClock.Regular, hour, day] at h ⊢
  omega

/-- A closed market opens within two days. -/
theorem exists_opens {w : ℤ} (closed : marketIsOpen w ≠ true) :
    ∃ z, Opens z ∧ z - 2 * day ≤ w ∧ w < z := by
  rw [Ne, marketIsOpen_iff] at closed
  refine ⟨(w / day + (6 - weekday (w / day)) % 7) * day + 17 * hour, ⟨?_, ?_⟩, ?_, ?_⟩ <;>
    simp only [weekday, hour, day] at closed ⊢ <;> omega

theorem Opens.closed {z w : ℤ} (h : Opens z) (low : z - 2 * day ≤ w) (high : w < z) :
    marketIsOpen w ≠ true := by
  rw [Ne, marketIsOpen_iff]
  simp only [Opens, weekday, hour, day] at h low high ⊢
  omega

/-- An instant of the live grid in an open market is registered. -/
theorem aligned_of_open (intraday : g = .h4 ∨ g = .h1) (live : isLiveAligned g (c.wall t) = true)
    (opened : marketIsOpen (c.wall t) = true) : isAligned g (c.wall t) = true := by
  rcases intraday with rfl | rfl
  · exact (isAligned_h4 _).mpr ⟨(isLiveAligned_h4 _).mp live, opened⟩
  · exact (isAligned_h1 _).mpr ⟨(isLiveAligned_h1 _).mp live, opened⟩

/-- Behind a change of the clock in a closed market, the grid of four hours goes on from its last
instant before the next step. -/
theorem shifted_grid {z U : ℤ} (opens : Opens z) (live : c.wall t % (4 * hour) = hour)
    (back : c.wall U = z) (low : z - 2 * day ≤ c.wall t) (high : c.wall t < z)
    (changed : c.offset (t + 4 * hour) ≠ c.offset t) : ∃ floor : ℤ,
      canonicalLiveStart c .h4 (t + 4 * hour) = .ok floor ∧ t + hour ≤ floor + 4 * hour ∧
      floor + 4 * hour ≤ U ∧ isLiveAligned .h4 (c.wall (floor + 4 * hour)) = true := by
  obtain ⟨x, after, until_, change⟩ := SundayClock.exists_change
    (by simp only [hour]; omega : t ≤ t + 4 * hour) changed
  obtain ⟨sunday, five⟩ := opens
  obtain ⟨sunday', two⟩ := change
  have one : x = t + hour ∧ c.wall t = z - 16 * hour ∧ t + 4 * hour ≤ U := by
    rcases c.two t with h | h <;> rcases c.two U with h' | h' <;>
      simp only [SundayClock.wall, h, h', weekday, hour, day] at * <;> unfold Instant at * <;> omega
  obtain ⟨rfl, reading, room⟩ := one
  have here : c.wall t = t + c.offset t := rfl
  have open_ : c.wall U = U + c.offset U := rfl
  -- behind the change the offset is that of the open
  have settled : ∀ y : ℤ, t + hour ≤ y → y ≤ U → c.offset y = c.offset (t + 4 * hour) := by
    intro y from_ to_
    by_contra differ
    rcases le_total y (t + 4 * hour) with early | late
    · have same : c.offset y = c.offset t := by
        rcases c.two t with h | h <;> rcases c.two y with h' | h' <;>
          rcases c.two (t + 4 * hour) with h'' | h'' <;> rw [h, h''] at changed <;>
            rw [h', h''] at differ <;> first | exact absurd rfl changed | exact absurd rfl differ |
              rw [h, h']
      obtain ⟨x', after', until', sunday'', two'⟩ :=
        SundayClock.exists_change early (Ne.symm differ)
      rw [same] at sunday'' two'
      simp only [weekday, hour, day] at *
      omega
    · obtain ⟨x', after', until', sunday'', two'⟩ := SundayClock.exists_change late differ
      rcases c.two t with h | h <;> rcases c.two (t + 4 * hour) with h' | h' <;>
        rcases c.two U with h'' | h'' <;> rw [h, h'] at changed <;> rw [h'] at sunday'' two' <;>
          rw [h] at here <;> rw [h''] at open_ <;>
            simp only [weekday, hour, day] at * <;> omega
  have final := settled U (by simp only [hour] at room ⊢; omega) (le_refl _)
  -- the first instant of the grid behind the change
  obtain ⟨mark, from_, to_, grid⟩ : ∃ mark : ℤ, t + hour ≤ mark ∧ mark ≤ t + 4 * hour ∧
      isLiveAligned .h4 (c.wall mark) = true := by
    rcases c.two t with h | h <;> rcases c.two (t + 4 * hour) with h' | h' <;>
      rw [h, h'] at changed
    · exact absurd rfl changed
    · refine ⟨t + hour, le_refl _, by simp only [hour]; omega, ?_⟩
      have same := settled (t + hour) (le_refl _) (by simp only [hour] at room ⊢; omega)
      rw [isLiveAligned_h4, SundayClock.wall, same, h']
      simp only [SundayClock.wall, h, hour] at live ⊢
      omega
    · refine ⟨t + 3 * hour, by simp only [hour]; omega, by simp only [hour]; omega, ?_⟩
      have same := settled (t + 3 * hour) (by simp only [hour]; omega)
        (by simp only [hour] at room ⊢; omega)
      rw [isLiveAligned_h4, SundayClock.wall, same, h']
      simp only [SundayClock.wall, h, hour] at live ⊢
      omega
    · exact absurd rfl changed
  obtain ⟨floor, returned, aligned, below, -, greatest⟩ :=
    canonicalLiveStart_spec (c := c) (g := .h4) (t + 4 * hour)
  have above := greatest mark grid to_
  have here := settled floor (from_.trans above) (below.trans room)
  have phase : floor % (4 * hour) = U % (4 * hour) := by
    rw [isLiveAligned_h4, SundayClock.wall, here] at aligned
    rw [SundayClock.wall, final] at back
    rcases c.two (t + 4 * hour) with h | h <;> rw [h] at aligned back <;>
      simp only [hour, day] at * <;> unfold Instant at * <;> omega
  have within : floor + 4 * hour ≤ U := by
    have strict : t + 4 * hour < U := by
      rcases c.two t with h | h <;> rcases c.two U with h' | h' <;>
        simp only [SundayClock.wall, h, h', hour, day] at * <;> unfold Instant at * <;> omega
    simp only [hour] at *
    omega
  refine ⟨floor, returned, ?_, within, ?_⟩
  · simp only [hour] at *
    omega
  · have there := settled (floor + 4 * hour) (by simp only [hour] at *; omega) within
    rw [isLiveAligned_h4, SundayClock.wall, here] at aligned
    rw [isLiveAligned_h4, SundayClock.wall, there]
    simp only [hour] at aligned ⊢
    omega

/-- Behind an hour of a closed market, the loop goes on at a later instant of the grid, no later
than the open. -/
theorem openFrom_turn (intraday : g = .h4 ∨ g = .h1) {z : ℤ} (opens : Opens z)
    (live : isLiveAligned g (c.wall t) = true) (low : z - 2 * day ≤ c.wall t)
    (before : t < c.utc z) : ∃ u : ℤ, t + hour ≤ u ∧ u ≤ c.utc z ∧
      isLiveAligned g (c.wall u) = true ∧
      ∀ fuel, openFrom c g (fuel + 1) t = openFrom c g fuel u := by
  have back : c.wall (c.utc z) = z := SundayClock.wall_utc opens.regular.unskipped
  have high : c.wall t < z := by
    by_contra reached
    exact absurd ((SundayClock.utc_le_iff opens.regular).mpr (not_lt.mp reached)) (not_le.mpr before)
  have closed := opens.closed low high
  obtain ⟨sunday, five⟩ := opens
  generalize utc : c.utc z = U at *
  have turn : isLiveAligned g (c.wall (t + g.step)) = true → ∀ fuel,
      openFrom c g (fuel + 1) t = openFrom c g fuel (t + g.step) := by
    intro next fuel
    rw [openFrom, if_neg closed, if_pos next]
  rcases intraday with rfl | rfl
  · have first := whole_hour (by decide) live
    have step : Granularity.h4.step = 4 * hour := rfl
    rw [isLiveAligned_h4] at live
    rw [step] at turn
    by_cases next : isLiveAligned .h4 (c.wall (t + 4 * hour)) = true
    · refine ⟨t + 4 * hour, by simp only [hour]; omega, ?_, next, turn next⟩
      by_contra short
      by_cases same : c.offset U = c.offset t
      · simp only [SundayClock.wall, same, hour, day] at *
        unfold Instant at *
        omega
      · obtain ⟨x, after, until_, sunday', two⟩ := SundayClock.exists_change before.le same
        rcases c.two t with h | h <;> rcases c.two U with h' | h' <;>
          simp only [SundayClock.wall, h, h', weekday, hour, day] at * <;> unfold Instant at * <;>
            omega
    · have changed : c.offset (t + 4 * hour) ≠ c.offset t := by
        intro same
        refine next ((isLiveAligned_h4 _).mpr ?_)
        rw [SundayClock.wall, same]
        rw [SundayClock.wall] at live
        simp only [hour] at live ⊢
        omega
      obtain ⟨floor, returned, later, within, live'⟩ :=
        shifted_grid ⟨sunday, five⟩ live back low high changed
      refine ⟨floor + 4 * hour, later, within, live', fun fuel => ?_⟩
      rw [openFrom, if_neg closed, step, if_neg next, returned]
      rfl
  · have first := whole_hour (by decide) live
    rw [isLiveAligned_h1] at live
    have last : U % hour = 0 := by
      rcases SundayClock.wall_cases (c := c) U with h | h <;> rw [h] at back <;>
        rw [← back] at five <;> simp only [hour, day] at five ⊢ <;> unfold Instant at * <;> omega
    have next : isLiveAligned .h1 (c.wall (t + hour)) = true := by
      rw [isLiveAligned_h1]
      rcases SundayClock.wall_cases (c := c) (t + hour) with h | h <;> rw [h] <;>
        simp only [hour] at first ⊢ <;> omega
    refine ⟨t + hour, le_refl _, ?_, next, turn next⟩
    simp only [hour] at first last ⊢
    unfold Instant at *
    omega

/-- In a closed market, the loop goes on to the open. -/
theorem openFrom_opens (intraday : g = .h4 ∨ g = .h1) {z : ℤ} (opens : Opens z) {fuel : ℕ}
    (live : isLiveAligned g (c.wall t) = true) (low : z - 2 * day ≤ c.wall t)
    (before : t ≤ c.utc z) (enough : c.utc z - t ≤ fuel * hour) :
    openFrom c g (fuel + 1) t = .ok (c.utc z) := by
  have back : c.wall (c.utc z) = z := SundayClock.wall_utc opens.regular.unskipped
  have reached : ∀ fuel, openFrom c g (fuel + 1) (c.utc z) = .ok (c.utc z) := by
    intro fuel
    rw [openFrom, if_pos]
    rw [back, marketIsOpen_iff]
    exact .inr (.inr ⟨opens.1, opens.2.ge⟩)
  induction fuel generalizing t with
  | zero =>
    have same : t = c.utc z := by
      rw [Nat.cast_zero, zero_mul] at enough
      unfold Instant at *
      omega
    rw [same]
    exact reached 0
  | succ fuel ih =>
    rcases eq_or_lt_of_le before with rfl | before
    · exact reached _
    · obtain ⟨u, later, within, live', turn⟩ := openFrom_turn intraday opens live low before
      have above : c.wall t ≤ c.wall u := by
        rcases SundayClock.wall_cases (c := c) t with h | h <;>
          rcases SundayClock.wall_cases (c := c) u with h' | h' <;> rw [h, h'] <;>
            simp only [hour] at later ⊢ <;> omega
      rw [turn]
      refine ih live' (low.trans above) within ?_
      push_cast at enough
      linarith

/-- The first interval at or behind an instant of the live grid. -/
theorem exists_first (supported : g ≠ .m15) (live : isLiveAligned g (c.wall t) = true) : ∃ u : ℤ,
    (if g ∈ [.m15, .h1, .h4] then openFrom c g 1000 t else .ok t) = .ok u ∧
      isAligned g (c.wall u) = true ∧ t ≤ u ∧ u ≤ t + 3 * day := by
  have near : t ≤ t + 3 * day := by
    simp only [day]
    omega
  by_cases short : g ∈ [.m15, .h1, .h4]
  · rw [if_pos short]
    have intraday : g = .h4 ∨ g = .h1 := by
      revert supported short
      cases g <;> decide
    by_cases opened : marketIsOpen (c.wall t) = true
    · refine ⟨t, ?_, aligned_of_open intraday live opened, le_refl _, near⟩
      rw [openFrom, if_pos opened]
    · obtain ⟨z, opens, low, high⟩ := exists_opens opened
      have before : t < c.utc z := by
        by_contra reached
        exact absurd ((SundayClock.utc_le_iff opens.regular).mp (not_lt.mp reached)) (not_le.mpr high)
      have back : c.wall (c.utc z) = z := SundayClock.wall_utc opens.regular.unskipped
      have soon : c.utc z ≤ t + 49 * hour := by
        rcases SundayClock.wall_cases (c := c) t with h | h <;> rw [h] at low <;>
          rcases SundayClock.utc_cases (c := c) z with h' | h' <;> rw [h'] <;>
            simp only [hour, day] at low ⊢ <;> unfold Instant at * <;> omega
      refine ⟨c.utc z, openFrom_opens intraday opens live low before.le ?_, ?_, before.le, ?_⟩
      · simp only [hour] at soon ⊢
        unfold Instant at *
        omega
      · rw [back]
        have open_ : marketIsOpen z = true :=
          (marketIsOpen_iff z).mpr (.inr (.inr ⟨opens.1, opens.2.ge⟩))
        obtain ⟨-, five⟩ := opens
        rcases intraday with rfl | rfl
        · refine (isAligned_h4 z).mpr ⟨?_, open_⟩
          simp only [hour, day] at five ⊢
          omega
        · refine (isAligned_h1 z).mpr ⟨?_, open_⟩
          simp only [hour, day] at five ⊢
          omega
      · simp only [hour, day] at soon ⊢
        unfold Instant at *
        omega
  · rw [if_neg short]
    refine ⟨t, rfl, ?_, le_refl _, near⟩
    cases g with
    | w => exact (isAligned_w _).mpr ((isLiveAligned_w _).mp live).symm
    | d =>
      rw [isLiveAligned_d] at live
      refine (isAligned_d _).mpr ⟨?_, live.1⟩
      simp only [List.mem_cons, List.not_mem_nil, or_false, weekday] at live ⊢
      omega
    | h4 => exact absurd (by decide) short
    | h1 => exact absurd (by decide) short
    | m15 => exact absurd (by decide) short

/-! ## The intervals -/

/-- The live completion of a registered interval. -/
theorem liveCompletion_eq (aligned : isAligned g (c.wall t) = true) :
    liveCompletion c g t = candleCompletion c g t := by
  rw [liveCompletion]
  split_ifs with short
  · refine (completion_eq ?_ aligned).symm
    rintro rfl
    exact absurd short (by decide)
  · rfl

/-- A supported interval is of an hour at least, and of a week and an hour at most. -/
theorem completion_bounds (supported : g ≠ .m15) (aligned : isAligned g (c.wall t) = true) :
    t + hour ≤ candleCompletion c g t ∧ candleCompletion c g t ≤ t + 7 * day + hour := by
  by_cases week : g = .w
  · subst week
    rw [candleCompletion]
    rcases SundayClock.wall_cases (c := c) t with h | h <;> rw [h] <;>
      rcases SundayClock.utc_cases (c := c) (c.wall t + Granularity.w.step) with h' | h' <;>
        rw [h] at h' <;> rw [h'] <;> simp only [Granularity.step, hour, day] <;>
          unfold Instant at * <;> omega
  · rw [completion_eq week aligned]
    cases g with
    | m15 => exact absurd rfl supported
    | w => exact absurd rfl week
    | _ =>
      simp only [Granularity.step, hour, day]
      unfold Instant at *
      omega

/-- The successor of a reading is the next one that opens an interval. -/
theorem successorWall_le (supported : g ≠ .m15) {w v : ℤ} (aligned : isAligned g w = true)
    (aligned' : isAligned g v = true) (less : w < v) : successorWall g w ≤ v := by
  cases g with
  | m15 => exact absurd rfl supported
  | w =>
    rw [isAligned_w] at aligned aligned'
    simp only [successorWall, weekday, hour, day] at *
    omega
  | d =>
    rw [isAligned_d] at aligned aligned'
    simp only [List.mem_cons, List.not_mem_nil, or_false] at aligned aligned'
    rw [successorWall]
    split_ifs with thursday <;> simp only [weekday, hour, day] at * <;> omega
  | h4 =>
    rw [isAligned_h4, marketIsOpen_iff] at aligned aligned'
    rw [successorWall_intraday (by decide)]
    split_ifs with close <;> simp only [Granularity.step, weekday, hour, day] at * <;> omega
  | h1 =>
    rw [isAligned_h1, marketIsOpen_iff] at aligned aligned'
    rw [successorWall_intraday (by decide)]
    split_ifs with close <;> simp only [Granularity.step, weekday, hour, day] at * <;> omega

/-- The intervals from a registered start on are those of its chain that end in time. -/
theorem intervalsFrom_eq (supported : g ≠ .m15) (finish : ℤ) {fuel : ℕ} {expected : List Instant}
    (aligned : isAligned g (c.wall t) = true) (enough : (finish - t).toNat < fuel)
    (bounded : expected.length * hour + (finish - t) ≤ MAX_COVERAGE_INTERVALS * hour) : ∃ n,
      intervalsFrom c g finish fuel expected t = .ok (expected ++ startsFrom c g n t) ∧
      finish < candleCompletion c g (startAfter c g n t) ∧
      ∀ k < n, candleCompletion c g (startAfter c g k t) ≤ finish := by
  induction fuel generalizing t expected with
  | zero => omega
  | succ fuel ih =>
    obtain ⟨next, ends, before⟩ := candle_spec aligned
    obtain ⟨long, -⟩ := completion_bounds supported aligned
    rw [intervalsFrom, liveCompletion_eq aligned]
    by_cases inside : candleCompletion c g t ≤ finish
    · have room : ¬ MAX_COVERAGE_INTERVALS ≤ expected.length := by
        intro full
        rw [MAX_COVERAGE_INTERVALS] at full bounded
        simp only [hour] at long bounded
        unfold Instant at *
        omega
      rw [if_pos ⟨lt_of_lt_of_le ends inside, inside⟩, if_neg room]
      have enough' : (finish - candleSuccessor c g t).toNat < fuel := by
        unfold Instant at *
        omega
      have bounded' : (expected ++ [t]).length * hour + (finish - candleSuccessor c g t) ≤
          MAX_COVERAGE_INTERVALS * hour := by
        rw [List.length_append, List.length_singleton]
        push_cast
        simp only [hour] at long bounded ⊢
        unfold Instant at *
        omega
      obtain ⟨n, returned, behind, within⟩ := ih next enough' bounded'
      refine ⟨n + 1, ?_, behind, fun k less => ?_⟩
      · rw [returned, List.append_assoc]
        rfl
      · cases k with
        | zero => exact inside
        | succ k => exact within k (by omega)
    · rw [if_neg fun h => inside h.2]
      refine ⟨0, ?_, not_le.mp inside, fun k less => absurd less (Nat.not_lt_zero k)⟩
      rw [startsFrom, List.append_nil]

end

/-- What freshness expects of a series is the completion of the last interval acquisition
enumerates from three weeks before. -/
theorem freshness_agrees (c : SundayClock) (g : Granularity) (supported : g ≠ .m15)
    (now : Instant) : ∃ first intervals last,
      canonicalLiveStart c g (now - 21 * day) = .ok first ∧
      completeLiveIntervals c g first now = .ok intervals ∧ intervals.getLast? = some last ∧
      latestExpectedCompletion c g now = .ok (liveCompletion c g last) := by
  obtain ⟨first, floor, live, low, near, -⟩ :=
    canonicalLiveStart_spec (c := c) (g := g) (now - 21 * day)
  obtain ⟨u, opened, aligned, above, soon⟩ := exists_first supported live
  have enough : (now - u).toNat < (now - first).toNat + 1 := by
    unfold Instant at *
    omega
  have bounded : ([] : List Instant).length * hour + (now - u) ≤ MAX_COVERAGE_INTERVALS * hour := by
    rw [List.length_nil, MAX_COVERAGE_INTERVALS]
    simp only [hour, day] at near above ⊢
    unfold Instant at *
    omega
  obtain ⟨n, returned, behind, within⟩ := intervalsFrom_eq supported now aligned enough bounded
  rw [List.nil_append] at returned
  have intervals : completeLiveIntervals c g first now = .ok (startsFrom c g n u) := by
    have order : ¬ now ≤ first := by
      simp only [day] at low
      unfold Instant at *
      omega
    rw [completeLiveIntervals, if_neg order]
    have same : canonicalLiveStart c g first = .ok first := by
      obtain ⟨first', floor', live', low', -, greatest⟩ :=
        canonicalLiveStart_spec (c := c) (g := g) first
      rw [floor', le_antisymm low' (greatest first live (le_refl _))]
    refine bind_eq_ok.mpr ⟨first, same, ?_⟩
    rw [if_neg (not_not.mpr rfl)]
    split_ifs at opened with intraday
    · rw [if_pos intraday]
      exact bind_eq_ok.mpr ⟨u, opened, returned⟩
    · rw [if_neg intraday]
      exact bind_eq_ok.mpr ⟨u, opened, returned⟩
  obtain ⟨n, rfl⟩ : ∃ k, n = k + 1 := by
    cases n with
    | zero =>
      have ends := (completion_bounds supported aligned).2
      rw [startAfter] at behind
      simp only [hour, day] at low soon ends
      unfold Instant at *
      omega
    | succ n => exact ⟨n, rfl⟩
  obtain ⟨last, -⟩ := startAfter_spec n aligned
  have ended := within n (Nat.lt_succ_self n)
  refine ⟨first, _, _, floor, intervals, getLast?_startsFrom n u, ?_⟩
  rw [startAfter_succ] at behind
  rw [liveCompletion_eq last]
  generalize startAfter c g n u = t at *
  obtain ⟨next, regular, -⟩ := successorWall_spec last
  obtain ⟨-, regular', -⟩ := successorWall_spec next
  obtain ⟨z, returned', completes, low', greatest⟩ :=
    latestExpectedCompletion_spec (c := c) supported now
  have back : c.wall (candleSuccessor c g t) = successorWall g (c.wall t) :=
    SundayClock.wall_utc (regular_of_isAligned next).unskipped
  rw [candleCompletion, back] at behind
  rw [returned', candleCompletion]
  -- the last completion on the wall is that of the last interval
  have same : z = c.wall t + g.step := by
    refine le_antisymm ?_ (greatest _ ?_ ((SundayClock.utc_le_iff regular).mp ended))
    · by_contra later
      have order := successorWall_le supported last completes (by linarith)
      have reached : successorWall g (c.wall t) + g.step ≤ c.wall now := by linarith
      exact absurd ((SundayClock.utc_le_iff regular').mpr reached) (not_le.mpr behind)
    · rw [Completes, add_sub_cancel_right]
      exact last
  rw [same]

/-- On 17 July 2026, at 17:00 in New York. -/
theorem freshness_agrees_friday : ∃ first intervals last,
    canonicalLiveStart newYork .h4 (1784322000000000 - 21 * day) = .ok first ∧
    completeLiveIntervals newYork .h4 first 1784322000000000 = .ok intervals ∧
    intervals.getLast? = some last ∧
    latestExpectedCompletion newYork .h4 1784322000000000 = .ok (liveCompletion newYork .h4 last) :=
  freshness_agrees newYork .h4 (by decide) 1784322000000000

end TradeRecommender.Market
