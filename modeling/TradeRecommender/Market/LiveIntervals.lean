import TradeRecommender.Market.Freshness

/-!
# All the intervals due

`complete_live_intervals` of `market/live_acquisition.py`: it returns the intervals due in a window,
each of them, in order, unless they are more than its bound.

1. intervals that are due;
2. the loop over a closed market ends where the market opens;
3. every registered start is on the chain of successors;
4. the loop over the intervals;
5. the function.
-/

namespace TradeRecommender.Market

open Py Civil

/-! ## Due intervals -/

/-- A start of the live grid in the window, in an open market if it is not the weekly one at the
close, whose interval is complete. -/
structure Due (c : SundayClock) (g : Granularity) (start finish t : Instant) : Prop where
  live : isLiveAligned g (c.wall t) = true
  opened : g ≠ .w → marketIsOpen (c.wall t) = true
  low : start ≤ t
  complete : liveCompletion c g t ≤ finish

section
variable {c : SundayClock} {g : Granularity} {t u start finish : ℤ}

/-- The live grid in an open market is the registered one. -/
theorem isAligned_iff {w : ℤ} : isAligned g w = true ↔
    isLiveAligned g w = true ∧ (g ≠ .w → marketIsOpen w = true) := by
  cases g with
  | w =>
    rw [isAligned_w, isLiveAligned_w]
    exact ⟨fun h => ⟨h.symm, fun other => absurd rfl other⟩, fun h => h.1.symm⟩
  | d =>
    rw [isAligned_d, isLiveAligned_d, marketIsOpen_iff]
    simp only [List.mem_cons, List.not_mem_nil, or_false, weekday, hour, day]
    omega
  | h4 =>
    rw [isAligned_h4, isLiveAligned_h4]
    exact and_congr_right fun _ => ⟨fun h _ => h, fun h => h (by decide)⟩
  | h1 =>
    rw [isAligned_h1, isLiveAligned_h1]
    exact and_congr_right fun _ => ⟨fun h _ => h, fun h => h (by decide)⟩
  | m15 =>
    rw [isAligned_m15, isLiveAligned_m15]
    exact and_congr_right fun _ => ⟨fun h _ => h, fun h => h (by decide)⟩

theorem due_iff : Due c g start finish t ↔
    isAligned g (c.wall t) = true ∧ start ≤ t ∧ candleCompletion c g t ≤ finish := by
  constructor
  · rintro ⟨live, opened, low, complete⟩
    have aligned := isAligned_iff.mpr ⟨live, opened⟩
    exact ⟨aligned, low, liveCompletion_eq aligned ▸ complete⟩
  · rintro ⟨aligned, low, complete⟩
    obtain ⟨live, opened⟩ := isAligned_iff.mp aligned
    exact ⟨live, opened, low, (liveCompletion_eq aligned).symm ▸ complete⟩

/-! ## The closed market -/

/-- In a closed market, the loop over quarters goes on to the open. -/
theorem openFrom_quarters {z : ℤ} (opens : Opens z) {fuel : ℕ}
    (live : t % (15 * minute) = 0) (low : z - 2 * day ≤ c.wall t) (before : t ≤ c.utc z)
    (enough : c.utc z - t ≤ fuel * (15 * minute)) :
    openFrom c .m15 (fuel + 1) t = .ok (c.utc z) := by
  have friday : SundayClock.Regular (z - 2 * day) := by
    simp only [Opens, SundayClock.Regular, weekday, hour, day] at opens ⊢
    omega
  have back : c.wall (c.utc z) = z := SundayClock.wall_utc opens.regular.unskipped
  have whole : (c.utc z : ℤ) % (15 * minute) = 0 := by
    have five := opens.2
    rcases SundayClock.utc_cases (c := c) z with h | h <;> rw [h] <;>
      simp only [hour, minute, day] at five ⊢ <;> unfold Instant at * <;> omega
  induction fuel generalizing t with
  | zero =>
    have same : t = c.utc z := by
      rw [Nat.cast_zero, zero_mul] at enough
      unfold Instant at *
      omega
    rw [same, openFrom, if_pos]
    rw [back, marketIsOpen_iff]
    exact .inr (.inr ⟨opens.1, opens.2.ge⟩)
  | succ fuel ih =>
    rcases eq_or_lt_of_le before with rfl | before
    · rw [openFrom, if_pos]
      rw [back, marketIsOpen_iff]
      exact .inr (.inr ⟨opens.1, opens.2.ge⟩)
    · have high : c.wall t < z := by
        by_contra reached
        exact absurd ((SundayClock.utc_le_iff opens.regular).mpr (not_lt.mp reached))
          (not_le.mpr before)
      have step : Granularity.m15.step = 15 * minute := rfl
      have next : (t + 15 * minute) % (15 * minute) = 0 := by
        simp only [minute] at live ⊢
        omega
      have behind : z - 2 * day ≤ c.wall (t + 15 * minute) := by
        rw [← SundayClock.utc_le_iff friday] at low ⊢
        simp only [minute]
        unfold Instant at *
        omega
      rw [openFrom, if_neg (opens.closed low high), step, if_pos (aligned_m15.mpr next)]
      refine ih next behind ?_ ?_
      · simp only [minute] at live whole before ⊢
        unfold Instant at *
        omega
      · push_cast at enough
        simp only [minute] at enough ⊢
        unfold Instant at *
        omega

/-- The first registered start at or behind an instant of the live grid: the loop over a closed
market returns it, and none is before it. -/
theorem exists_first_due (live : isLiveAligned g (c.wall t) = true) : ∃ u : ℤ,
    (if g ∈ [.m15, .h1, .h4] then openFrom c g 1000 t else .ok t) = .ok u ∧
      isAligned g (c.wall u) = true ∧ t ≤ u ∧
        ∀ s : ℤ, t ≤ s → s < u → isAligned g (c.wall s) ≠ true := by
  by_cases opened : g ≠ .w → marketIsOpen (c.wall t) = true
  · refine ⟨t, ?_, isAligned_iff.mpr ⟨live, opened⟩, le_refl _, fun s low high => ?_⟩
    · split_ifs with intraday
      · rw [openFrom, if_pos (opened (by rintro rfl; exact absurd intraday (by decide)))]
      · rfl
    · exact absurd low (not_le.mpr high)
  · obtain ⟨other, closed⟩ := Classical.not_imp.mp opened
    have intraday : g = .m15 ∨ g = .h4 ∨ g = .h1 := by
      cases g with
      | w => exact absurd rfl other
      | d =>
        rw [isLiveAligned_d] at live
        refine absurd ((marketIsOpen_iff _).mpr ?_) closed
        simp only [weekday, hour, day] at live ⊢
        omega
      | h4 => exact .inr (.inl rfl)
      | h1 => exact .inr (.inr rfl)
      | m15 => exact .inl rfl
    obtain ⟨z, opens, low, high⟩ := exists_opens closed
    have before : t < c.utc z := by
      by_contra reached
      exact absurd ((SundayClock.utc_le_iff opens.regular).mp (not_lt.mp reached)) (not_le.mpr high)
    have back : c.wall (c.utc z) = z := SundayClock.wall_utc opens.regular.unskipped
    have soon : c.utc z ≤ t + 49 * hour := by
      rcases SundayClock.wall_cases (c := c) t with h | h <;> rw [h] at low <;>
        rcases SundayClock.utc_cases (c := c) z with h' | h' <;> rw [h'] <;>
          simp only [hour, day] at low ⊢ <;> unfold Instant at * <;> omega
    have open_ : marketIsOpen z = true :=
      (marketIsOpen_iff z).mpr (.inr (.inr ⟨opens.1, opens.2.ge⟩))
    have five := opens.2
    refine ⟨c.utc z, ?_, isAligned_iff.mpr ⟨?_, fun _ => back.symm ▸ open_⟩, before.le,
      fun s from_ to_ aligned => ?_⟩
    · rcases intraday with rfl | intraday
      · rw [if_pos (by decide)]
        refine openFrom_quarters opens (aligned_m15.mp live) low before.le ?_
        simp only [hour, minute] at soon ⊢
        unfold Instant at *
        omega
      · rw [if_pos (by rcases intraday with rfl | rfl <;> decide)]
        refine openFrom_opens intraday opens live low before.le ?_
        simp only [hour] at soon ⊢
        unfold Instant at *
        omega
    · rw [back]
      rcases intraday with rfl | rfl | rfl
      · rw [isLiveAligned_m15]
        simp only [hour, minute, day] at five ⊢
        omega
      · rw [isLiveAligned_h4]
        simp only [hour, day] at five ⊢
        omega
      · rw [isLiveAligned_h1]
        simp only [hour, day] at five ⊢
        omega
    · -- the Friday close has been read, and the Sunday open has not
      have friday : SundayClock.Regular (z - 2 * day) := by
        simp only [Opens, SundayClock.Regular, weekday, hour, day] at opens ⊢
        omega
      have read : z - 2 * day ≤ c.wall s :=
        (SundayClock.utc_le_iff friday).mp (((SundayClock.utc_le_iff friday).mpr low).trans from_)
      have unread : c.wall s < z := by
        by_contra reached
        exact absurd ((SundayClock.utc_le_iff opens.regular).mpr (not_lt.mp reached))
          (not_le.mpr to_)
      exact opens.closed read unread ((isAligned_iff.mp aligned).2 other)

/-! ## The chain -/

/-- A registered start is followed by its successor, with none between. -/
theorem successor_le (aligned : isAligned g (c.wall u) = true)
    (aligned' : isAligned g (c.wall t) = true) (less : u < t) : candleSuccessor c g u ≤ t := by
  have here := regular_of_isAligned aligned
  have there := regular_of_isAligned aligned'
  obtain ⟨next, -⟩ := successorWall_spec aligned
  have order : c.wall u < c.wall t := by
    rw [← SundayClock.utc_lt_iff here, SundayClock.utc_wall here]
    exact less
  refine (SundayClock.utc_le_iff (regular_of_isAligned next)).mpr ?_
  by_cases quarter : g = .m15
  · subst quarter
    rw [isAligned_m15, marketIsOpen_iff] at aligned aligned'
    rw [successorWall_intraday (by decide)]
    split_ifs with close <;> simp only [Granularity.step, weekday, minute, hour, day] at * <;> omega
  · exact successorWall_le quarter aligned aligned' order

/-- Every registered start behind another is on its chain. -/
theorem exists_startAfter (aligned : isAligned g (c.wall u) = true)
    (aligned' : isAligned g (c.wall t) = true) (le : u ≤ t) : ∃ k, t = startAfter c g k u := by
  obtain ⟨n, far⟩ := Int.le.dest le
  induction n using Nat.strong_induction_on generalizing u with
  | _ n ih =>
    rcases eq_or_lt_of_le le with rfl | less
    · exact ⟨0, rfl⟩
    · obtain ⟨next, ends, before⟩ := candle_spec aligned
      have close := successor_le aligned aligned' less
      have later : u < candleSuccessor c g u := lt_of_lt_of_le ends before
      obtain ⟨m, rest⟩ := Int.le.dest close
      obtain ⟨k, reached⟩ := ih m (by unfold Instant at *; omega) next close rest
      exact ⟨k + 1, reached⟩

/-- A later interval ends later. -/
theorem completion_le (aligned : isAligned g (c.wall u) = true)
    (aligned' : isAligned g (c.wall t) = true) (le : u ≤ t) :
    candleCompletion c g u ≤ candleCompletion c g t := by
  rcases eq_or_lt_of_le le with rfl | less
  · exact le_refl _
  · obtain ⟨-, -, before⟩ := candle_spec aligned
    obtain ⟨-, ends, -⟩ := candle_spec aligned'
    exact (before.trans (successor_le aligned aligned' less)).trans ends.le

theorem startAfter_add (m n : ℕ) (u : Instant) :
    startAfter c g (m + n) u = startAfter c g n (startAfter c g m u) := by
  induction m generalizing u with
  | zero => rw [Nat.zero_add]; rfl
  | succ m ih =>
    rw [Nat.succ_add]
    exact ih (candleSuccessor c g u)

theorem mem_startsFrom {n : ℕ} {s : Instant} : s ∈ startsFrom c g n u ↔
    ∃ k < n, s = startAfter c g k u := by
  induction n generalizing u with
  | zero => exact ⟨fun h => absurd h List.not_mem_nil, fun ⟨k, less, _⟩ => absurd less (by omega)⟩
  | succ n ih =>
    rw [startsFrom, List.mem_cons, ih]
    constructor
    · rintro (rfl | ⟨k, less, rfl⟩)
      · exact ⟨0, Nat.succ_pos n, rfl⟩
      · exact ⟨k + 1, Nat.succ_lt_succ less, rfl⟩
    · rintro ⟨k, less, rfl⟩
      cases k with
      | zero => exact .inl rfl
      | succ k => exact .inr ⟨k, Nat.lt_of_succ_lt_succ less, rfl⟩

/-- How many intervals of a chain end in time. -/
theorem exists_count (finish : ℤ) (aligned : isAligned g (c.wall u) = true) : ∃ n,
    finish < candleCompletion c g (startAfter c g n u) ∧
      ∀ k < n, candleCompletion c g (startAfter c g k u) ≤ finish := by
  have ends : ∃ n, finish < candleCompletion c g (startAfter c g n u) := by
    obtain ⟨last, far⟩ := startAfter_spec (finish - u).toNat aligned
    obtain ⟨-, positive, -⟩ := candle_spec last
    refine ⟨(finish - u).toNat, ?_⟩
    unfold Instant at *
    omega
  classical
  exact ⟨Nat.find ends, Nat.find_spec ends, fun k less => not_lt.mp (Nat.find_min ends less)⟩

/-- The intervals of a chain that end in time are those that are due. -/
theorem mem_startsFrom_iff {n : ℕ} (aligned : isAligned g (c.wall u) = true) (low : start ≤ u)
    (none_ : ∀ s : ℤ, start ≤ s → s < u → isAligned g (c.wall s) ≠ true)
    (behind : finish < candleCompletion c g (startAfter c g n u))
    (within : ∀ k < n, candleCompletion c g (startAfter c g k u) ≤ finish) :
    t ∈ startsFrom c g n u ↔ Due c g start finish t := by
  rw [mem_startsFrom, due_iff]
  constructor
  · rintro ⟨k, less, rfl⟩
    obtain ⟨aligned', far⟩ := startAfter_spec k aligned
    refine ⟨aligned', ?_, within k less⟩
    unfold Instant at *
    omega
  · rintro ⟨aligned', from_, complete⟩
    have le : u ≤ t := by
      by_contra before
      exact none_ t from_ (not_le.mp before) aligned'
    obtain ⟨k, rfl⟩ := exists_startAfter aligned aligned' le
    refine ⟨k, ?_, rfl⟩
    by_contra beyond
    obtain ⟨last, -⟩ := startAfter_spec n aligned
    obtain ⟨rest, split⟩ := Nat.le.dest (not_lt.mp beyond)
    have later : startAfter c g n u ≤ startAfter c g k u := by
      rw [← split, startAfter_add]
      have := (startAfter_spec rest last).2
      unfold Instant at *
      omega
    exact absurd (completion_le last aligned' later) (not_le.mpr (lt_of_le_of_lt complete behind))

/-! ## The loop -/

/-- **The loop over the intervals** returns those that end in time behind the ones it has, unless
they come to more than the bound. -/
theorem intervalsFrom_spec {n fuel : ℕ} {expected : List Instant}
    (aligned : isAligned g (c.wall u) = true) (enough : n < fuel)
    (behind : finish < candleCompletion c g (startAfter c g n u))
    (within : ∀ k < n, candleCompletion c g (startAfter c g k u) ≤ finish)
    (short : expected.length ≤ MAX_COVERAGE_INTERVALS) :
    intervalsFrom c g finish fuel expected u =
      if (expected ++ startsFrom c g n u).length ≤ MAX_COVERAGE_INTERVALS then
        .ok (expected ++ startsFrom c g n u)
      else raise .valueError "Requested coverage exceeds bounded report limit" := by
  induction n generalizing u fuel expected with
  | zero =>
    obtain ⟨fuel, rfl⟩ : ∃ k, fuel = k + 1 := ⟨fuel - 1, by omega⟩
    have late : ¬ (u < finish ∧ liveCompletion c g u ≤ finish) := by
      rw [liveCompletion_eq aligned]
      exact fun h => absurd h.2 (not_le.mpr behind)
    rw [intervalsFrom, if_neg late, startsFrom, List.append_nil, if_pos short]
  | succ n ih =>
    obtain ⟨fuel, rfl⟩ : ∃ k, fuel = k + 1 := ⟨fuel - 1, by omega⟩
    obtain ⟨next, ends, -⟩ := candle_spec aligned
    have inside : candleCompletion c g u ≤ finish := within 0 (Nat.succ_pos n)
    have due : u < finish ∧ liveCompletion c g u ≤ finish := by
      rw [liveCompletion_eq aligned]
      exact ⟨lt_of_lt_of_le ends inside, inside⟩
    rw [intervalsFrom, if_pos due]
    by_cases full : MAX_COVERAGE_INTERVALS ≤ expected.length
    · rw [if_pos full, if_neg]
      rw [List.length_append, length_startsFrom]
      omega
    · rw [if_neg full, ih next (by omega) behind (fun k less => within (k + 1) (by omega)),
        List.append_assoc]
      · rfl
      · rw [List.length_append, List.length_singleton]
        omega

end

/-! ## The function -/

/-- **`complete_live_intervals`** from a canonical start: it returns the intervals that are due, each
once and in increasing order, or refuses a window in which more than its bound are due. -/
theorem completeLiveIntervals_spec (c : SundayClock) (g : Granularity) (start finish : Instant)
    (canonical : canonicalLiveStart c g start = .ok start) (later : start < finish) :
    ∃ due : List Instant, due.Pairwise (· < ·) ∧ (∀ t, t ∈ due ↔ Due c g start finish t) ∧
      completeLiveIntervals c g start finish =
        if due.length ≤ MAX_COVERAGE_INTERVALS then .ok due
        else raise .valueError "Requested coverage exceeds bounded report limit" := by
  obtain ⟨floor, same, live, -⟩ := canonicalLiveStart_spec (c := c) (g := g) start
  obtain rfl : start = floor := Except.ok.inj (canonical.symm.trans same)
  obtain ⟨u, opened, aligned, low, none_⟩ := exists_first_due live
  obtain ⟨n, behind, within⟩ := exists_count finish aligned
  have enough : n < (finish - start).toNat + 1 := by
    cases n with
    | zero => omega
    | succ n =>
      obtain ⟨last, far⟩ := startAfter_spec n aligned
      obtain ⟨-, ends, -⟩ := candle_spec last
      have inside := within n (Nat.lt_succ_self n)
      unfold Instant at *
      omega
  have short : ([] : List Instant).length ≤ MAX_COVERAGE_INTERVALS := Nat.zero_le _
  have loop := intervalsFrom_spec aligned enough behind within short
  rw [List.nil_append] at loop
  refine ⟨startsFrom c g n u, (startsFrom_increasing n aligned).1,
    fun t => mem_startsFrom_iff aligned low none_ behind within, ?_⟩
  rw [← loop, completeLiveIntervals, if_neg (Int.not_le.mpr later), canonical]
  simp only [bind, Except.bind]
  rw [if_neg (not_not.mpr rfl)]
  split_ifs at opened with intraday
  · rw [if_pos intraday, opened]
  · rw [if_neg intraday]
    rw [Except.ok.inj opened]

/-- Two weeks from 17 July 2026, at 17:00 in New York. -/
theorem completeLiveIntervals_spec_weekly : ∃ due : List Instant, due.Pairwise (· < ·) ∧
    (∀ t, t ∈ due ↔ Due newYork .w 1784322000000000 1785531600000000 t) ∧
    completeLiveIntervals newYork .w 1784322000000000 1785531600000000 =
      if due.length ≤ MAX_COVERAGE_INTERVALS then .ok due
      else raise .valueError "Requested coverage exceeds bounded report limit" :=
  completeLiveIntervals_spec newYork .w 1784322000000000 1785531600000000 (by decide +kernel)
    (by decide)

/-- The weekly starts are those of Fridays at the close, when the market is not open. -/
theorem weekly_starts_at_the_close :
    completeLiveIntervals newYork .w 1784322000000000 1785531600000000 =
      .ok [1784322000000000, 1784926800000000] ∧
    marketIsOpen (newYork.wall 1784322000000000) = false := by
  decide +kernel

end TradeRecommender.Market
