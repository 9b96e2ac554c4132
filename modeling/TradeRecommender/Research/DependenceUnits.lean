import TradeRecommender.Lib.Sorted
import TradeRecommender.Lib.UnionFind
import TradeRecommender.Research.ValidationReports

/-!
# Dependence units

Trades that are open in a common ISO week depend on each other. `effective_weeks` of
`research/validation_reports.py` counts the independent groups of weeks with a union-find over the
weeks of each trade, and `dependence` of `research/validation_reconciliation_metrics.py` counts them
again by merging the week sets themselves.

1. the two counts;
2. both read the weeks in which a trade is open;
3. both count the components of the weeks.
-/

namespace TradeRecommender.Research.Reports

open Civil (Instant day)
open Components Py Relation UnionFind

/-! ## The counts -/

/-- `effective_weeks` -/
def effectiveWeeks (trades : List Trade) : Except Exc (ℕ × List String) := do
  let forest ← trades.foldlM
    (fun forest trade => forest.span (· ≤ ·) (tradeWeeks trade).dedup) ({} : Forest String)
  let (forest, roots) ← forest.rootsOf forest.keys
  return (roots.dedup.length, sorted forest.keys)

/-- `while start <= end`: a day at a time, the end included. -/
def untilEnd (start end_ : Instant) : List Instant :=
  if start ≤ end_ then start :: untilEnd (start + day) end_ else []
termination_by (end_ + 1 - start).toNat
decreasing_by
  rename_i le
  have positive : 0 < day := by decide
  unfold Instant at *
  omega

/-- The weeks `dependence` reads of one trade. -/
def openWeeks (trade : Trade) : List String :=
  isoWeek trade.exitedAt :: (untilEnd trade.enteredAt trade.exitedAt).map isoWeek

/-- `dependence` -/
def dependence (trades : List Trade) : ℕ × List String :=
  let components := (trades.map openWeeks).foldl mergeInto []
  (components.length, sortedOnce components.flatten)

/-! ## The weeks of a trade -/

/-- The trade is open at some time of the week. -/
def Trade.Spans (trade : Trade) (week : String) : Prop :=
  ∃ at_ : Instant, trade.enteredAt ≤ at_ ∧ at_ ≤ trade.exitedAt ∧ isoWeek at_ = week

/-- Two weeks in which one of the trades is open. -/
def Spanned (trades : List Trade) (week week' : String) : Prop :=
  ∃ trade ∈ trades, trade.Spans week ∧ trade.Spans week'

/-- The groups of weeks that trades link. -/
noncomputable def dependenceUnits (trades : List Trade) : ℕ :=
  count (fun week => ∃ trade ∈ trades, trade.Spans week) (Spanned trades)

theorem isoWeek_of_day {at_ at' : Instant} (same : at_ / day = at' / day) :
    isoWeek at_ = isoWeek at' := by
  unfold isoWeek
  rw [same]

theorem mem_untilEnd {start end_ at_ : Instant} :
    at_ ∈ untilEnd start end_ ↔ ∃ k : ℕ, at_ = start + k * day ∧ at_ ≤ end_ := by
  induction start using untilEnd.induct end_ with
  | case1 start le ih =>
    rw [untilEnd, if_pos le, List.mem_cons, ih]
    constructor
    · rintro (rfl | ⟨k, rfl, bound⟩)
      · exact ⟨0, by simp, le⟩
      · refine ⟨k + 1, ?_, bound⟩
        push_cast
        ring
    · rintro ⟨k, rfl, bound⟩
      cases k with
      | zero => exact .inl (by simp)
      | succ k =>
        refine .inr ⟨k, ?_, bound⟩
        push_cast
        ring
  | case2 start gt =>
    rw [untilEnd, if_neg gt]
    constructor
    · intro mem
      cases mem
    · rintro ⟨k, rfl, bound⟩
      have grown : 0 ≤ (k : ℤ) * day := Int.mul_nonneg (Int.natCast_nonneg k) (by decide)
      unfold Instant at *
      omega

/-- The days of the loop fall into every day there is between the two times. -/
theorem exists_step {start end_ at_ : Instant} (after : start ≤ at_) (before : at_ ≤ end_) :
    isoWeek at_ = isoWeek end_ ∨
      ∃ k : ℕ, start + k * day ≤ end_ ∧ isoWeek at_ = isoWeek (start + k * day) := by
  have positive : 0 < day := by decide
  obtain ⟨k, hk⟩ := Int.eq_ofNat_of_zero_le
    (Int.ediv_nonneg (Int.sub_nonneg.mpr after) (Int.le_of_lt positive))
  have low : start + k * day ≤ at_ := by
    have := Int.ediv_mul_le (at_ - start) (Int.ne_of_gt positive)
    rw [hk] at this
    unfold Instant at *
    omega
  have high : at_ < start + (k + 1) * day := by
    have := Int.lt_ediv_add_one_mul_self (at_ - start) positive
    rw [hk] at this
    unfold Instant at *
    omega
  have day_low : (start + k * day) / day ≤ at_ / day := Int.ediv_le_ediv positive low
  have day_next : (start + (k + 1) * day) / day = (start + k * day) / day + 1 := by
    rw [show start + (k + 1) * day = start + k * day + 1 * day by ring,
      Int.add_mul_ediv_right _ _ (Int.ne_of_gt positive)]
  by_cases same : at_ / day = (start + k * day) / day
  · exact .inr ⟨k, Int.le_trans low before, isoWeek_of_day same⟩
  · -- the time lies in the day of the next step, or in that of the end
    have day_high : at_ / day ≤ (start + (k + 1) * day) / day :=
      Int.ediv_le_ediv positive (Int.le_of_lt high)
    have next : at_ / day = (start + (k + 1) * day) / day := by
      refine Int.le_antisymm day_high ?_
      rw [day_next]
      exact Int.lt_iff_le_and_ne.mpr ⟨day_low, Ne.symm same⟩
    by_cases inside : start + (k + 1) * day ≤ end_
    · refine .inr ⟨k + 1, by exact_mod_cast inside, isoWeek_of_day ?_⟩
      push_cast
      exact next
    · have day_end : end_ / day ≤ (start + (k + 1) * day) / day :=
        Int.ediv_le_ediv positive (Int.le_of_lt (Int.not_le.mp inside))
      have day_before : at_ / day ≤ end_ / day := Int.ediv_le_ediv positive before
      exact .inl (isoWeek_of_day (Int.le_antisymm day_before (next ▸ day_end)))

section
variable {trade : Trade}

theorem mem_openWeeks (later : trade.enteredAt ≤ trade.exitedAt) {week : String} :
    week ∈ openWeeks trade ↔ trade.Spans week := by
  unfold openWeeks
  rw [List.mem_cons, List.mem_map]
  constructor
  · rintro (rfl | ⟨at_, mem, rfl⟩)
    · exact ⟨trade.exitedAt, later, Int.le_refl _, rfl⟩
    · obtain ⟨k, rfl, bound⟩ := mem_untilEnd.mp mem
      have grown : 0 ≤ (k : ℤ) * day := Int.mul_nonneg (Int.natCast_nonneg k) (by decide)
      exact ⟨_, Int.le_add_of_nonneg_right grown, bound, rfl⟩
  · rintro ⟨at_, after, before, rfl⟩
    rcases exists_step after before with same | ⟨k, bound, same⟩
    · exact .inl same
    · exact .inr ⟨_, mem_untilEnd.mpr ⟨k, rfl, bound⟩, same.symm⟩

theorem mem_tradeWeeks (later : trade.enteredAt ≤ trade.exitedAt) {week : String} :
    week ∈ tradeWeeks trade ↔ trade.Spans week := by
  rw [← mem_openWeeks later]
  unfold tradeWeeks openWeeks
  simp only [List.mem_cons, List.mem_map, List.mem_filter, List.mem_range, decide_eq_true_eq]
  have positive : 0 < day := by decide
  constructor
  · rintro (rfl | rfl | ⟨_, ⟨⟨k, -, rfl⟩, before⟩, rfl⟩)
    · exact .inr ⟨_, mem_untilEnd.mpr ⟨0, by simp, later⟩, rfl⟩
    · exact .inl rfl
    · exact .inr ⟨_, mem_untilEnd.mpr ⟨k, rfl, Int.le_of_lt before⟩, rfl⟩
  · rintro (rfl | ⟨at_, mem, rfl⟩)
    · exact .inr (.inl rfl)
    · obtain ⟨k, rfl, bound⟩ := mem_untilEnd.mp mem
      rcases Int.lt_or_eq_of_le bound with before | equal
      · refine .inr (.inr ⟨_, ⟨⟨k, ?_, rfl⟩, before⟩, rfl⟩)
        have steps : (k : ℤ) ≤ (trade.exitedAt - trade.enteredAt) / day :=
          (Int.le_ediv_iff_mul_le positive).mpr (Int.le_sub_left_of_add_le bound)
        omega
      · exact .inr (.inl (congrArg isoWeek equal))

end

/-! ## The counts agree -/

section
variable {trades : List Trade} {weeks : Trade → List String}
  (each : ∀ trade ∈ trades, ∀ week, week ∈ weeks trade ↔ trade.Spans week)
include each

theorem named_iff {week : String} :
    Named (trades.map weeks) week ↔ ∃ trade ∈ trades, trade.Spans week := by
  constructor
  · rintro ⟨_, mem, inside⟩
    obtain ⟨trade, there, rfl⟩ := List.mem_map.mp mem
    exact ⟨trade, there, (each trade there week).mp inside⟩
  · rintro ⟨trade, mem, spans⟩
    exact ⟨weeks trade, List.mem_map.mpr ⟨trade, mem, rfl⟩, (each trade mem week).mpr spans⟩

theorem joined_iff {week week' : String} :
    Joined (trades.map weeks) week week' ↔ Spanned trades week week' := by
  constructor
  · rintro ⟨_, mem, inside, inside'⟩
    obtain ⟨trade, there, rfl⟩ := List.mem_map.mp mem
    exact ⟨trade, there, (each trade there week).mp inside, (each trade there week').mp inside'⟩
  · rintro ⟨trade, mem, spans, spans'⟩
    exact ⟨weeks trade, List.mem_map.mpr ⟨trade, mem, rfl⟩, (each trade mem week).mpr spans,
      (each trade mem week').mpr spans'⟩

theorem count_weeks :
    count (Named (trades.map weeks)) (Joined (trades.map weeks)) = dependenceUnits trades := by
  have named : Named (trades.map weeks) = fun week => ∃ trade ∈ trades, trade.Spans week :=
    funext fun week => propext (named_iff each)
  have joined : Joined (trades.map weeks) = Spanned trades :=
    funext fun week => funext fun week' => propext (joined_iff each)
  rw [named, joined]
  rfl

end

theorem dependenceUnits_perm {trades trades' : List Trade} (perm : trades.Perm trades') :
    dependenceUnits trades' = dependenceUnits trades := by
  have mem : ∀ trade, trade ∈ trades' ↔ trade ∈ trades := fun trade => perm.mem_iff.symm
  unfold dependenceUnits Spanned
  simp only [mem]

section
variable {trades : List Trade} (later : ∀ trade ∈ trades, trade.enteredAt < trade.exitedAt)
include later

theorem effectiveWeeks_eq : effectiveWeeks trades =
    .ok (dependenceUnits trades, sortedOnce (trades.flatMap openWeeks)) := by
  have each : ∀ trade ∈ trades, ∀ week, week ∈ (tradeWeeks trade).dedup ↔ trade.Spans week := by
    intro trade mem week
    rw [List.mem_dedup, mem_tradeWeeks (Int.le_of_lt (later trade mem))]
  have some_ : ∀ weeks ∈ trades.map fun trade => (tradeWeeks trade).dedup, weeks ≠ [] := by
    intro weeks mem none
    obtain ⟨trade, there, rfl⟩ := List.mem_map.mp mem
    have first : isoWeek trade.enteredAt ∈ (tradeWeeks trade).dedup :=
      List.mem_dedup.mpr List.mem_cons_self
    rw [none] at first
    cases first
  obtain ⟨forest, spanned, isForest⟩ := isForest_empty.spans_spec (· ≤ ·) some_
  rw [List.foldlM_map] at spanned
  rw [List.nil_append] at isForest
  obtain ⟨tops, found, counted⟩ := isForest.count_roots
  have weeks_eq : sorted forest.keys = sortedOnce (trades.flatMap openWeeks) := by
    have distinct : sorted forest.keys = sortedOnce forest.keys := by
      unfold sortedOnce
      rw [isForest.nodup.dedup]
    rw [distinct]
    refine sortedOnce_congr fun week => ?_
    rw [isForest.keys, named_iff each, List.mem_flatMap]
    exact exists_congr fun trade => and_congr_right fun mem =>
      (mem_openWeeks (Int.le_of_lt (later trade mem))).symm
  unfold effectiveWeeks
  refine bind_eq_ok.mpr ⟨forest, spanned, bind_eq_ok.mpr ⟨⟨forest, tops⟩, found, ?_⟩⟩
  show Except.ok (tops.dedup.length, sorted forest.keys) = _
  rw [counted, count_weeks each, weeks_eq]

theorem dependence_eq : dependence trades =
    (dependenceUnits trades, sortedOnce (trades.flatMap openWeeks)) := by
  have each : ∀ trade ∈ trades, ∀ week, week ∈ openWeeks trade ↔ trade.Spans week :=
    fun trade mem week => mem_openWeeks (Int.le_of_lt (later trade mem))
  have some_ : ∀ weeks ∈ trades.map openWeeks, weeks ≠ [] := by
    intro weeks mem none
    obtain ⟨trade, there, rfl⟩ := List.mem_map.mp mem
    cases none
  have components := isComponents_nil.merges some_
  rw [List.nil_append] at components
  have weeks_eq : sortedOnce ((trades.map openWeeks).foldl mergeInto []).flatten =
      sortedOnce (trades.flatMap openWeeks) := by
    refine sortedOnce_congr fun week => ?_
    rw [List.mem_flatten, components.covers, named_iff each, List.mem_flatMap]
    exact exists_congr fun trade => and_congr_right fun mem => (each trade mem week).symm
  show (((trades.map openWeeks).foldl mergeInto []).length, _) = _
  rw [components.length_eq (joined_symm _), count_weeks each, weeks_eq]

/-- **Dependence units**: both counts are the number of groups of weeks that trades link, with the
weeks in which a trade is open, whatever the order of the trades. -/
theorem effectiveWeeks_dependence :
    effectiveWeeks trades = .ok (dependence trades) ∧
      (dependence trades).1 = dependenceUnits trades ∧
      (dependence trades).2.Pairwise (· < ·) ∧
      (∀ week, week ∈ (dependence trades).2 ↔ ∃ trade ∈ trades, trade.Spans week) ∧
      ∀ trades', trades.Perm trades' →
        effectiveWeeks trades' = effectiveWeeks trades ∧ dependence trades' = dependence trades := by
  rw [effectiveWeeks_eq later, dependence_eq later]
  refine ⟨rfl, rfl, ?_, fun week => ?_, fun trades' perm => ?_⟩
  · exact pairwise_sortedOnce _
  · rw [mem_sortedOnce, List.mem_flatMap]
    exact exists_congr fun trade => and_congr_right fun mem =>
      mem_openWeeks (Int.le_of_lt (later trade mem))
  · have later' : ∀ trade ∈ trades', trade.enteredAt < trade.exitedAt :=
      fun trade mem => later trade (perm.mem_iff.mpr mem)
    have weeks_eq : sortedOnce (trades'.flatMap openWeeks) =
        sortedOnce (trades.flatMap openWeeks) := by
      refine sortedOnce_congr fun week => ?_
      rw [List.mem_flatMap, List.mem_flatMap]
      exact exists_congr fun trade => and_congr_left fun _ => perm.mem_iff.symm
    rw [effectiveWeeks_eq later', dependence_eq later', dependenceUnits_perm perm, weeks_eq]
    exact ⟨rfl, rfl⟩

end

/-- Two trades in weeks of their own, and one that bridges them. -/
def bridged : List Trade :=
  let trade (start end_ : ℤ) : Trade := ⟨1, start * day, end_ * day, 0, "", fun _ => 0⟩
  [trade 19723 19724, trade 19730 19731, trade 19724 19732]

/-- The bridge joins the weeks. -/
theorem effectiveWeeks_dependence_bridged : effectiveWeeks bridged = .ok (dependence bridged) ∧
    (dependence bridged).1 = dependenceUnits bridged := by
  have later : ∀ trade ∈ bridged, trade.enteredAt < trade.exitedAt := by
    intro trade mem
    have positive : (0 : ℤ) < day := by decide
    unfold bridged at mem
    simp only [List.mem_cons, List.not_mem_nil, or_false] at mem
    rcases mem with rfl | rfl | rfl <;>
    · exact Int.mul_lt_mul_of_pos_right (by decide) positive
  have agree := effectiveWeeks_dependence later
  exact ⟨agree.1, agree.2.1⟩

end TradeRecommender.Research.Reports
