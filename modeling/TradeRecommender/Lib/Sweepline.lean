import Mathlib.Algebra.BigOperators.Group.List.Lemmas
import Mathlib.Algebra.Order.BigOperators.Group.List
import Mathlib.Data.Prod.Lex
import Mathlib.Tactic.Ring
import TradeRecommender.Lib.Sorted

/-!
# Sweep lines

The peak of a running count over the ends of half-open intervals, read in the order of their times
with departures before arrivals, is the largest number of intervals that hold one instant.

1. the changes of intervals and the running peak;
2. prefixes of a sorted list of changes;
3. the peak is reached, and never passed.
-/

namespace Sweepline

open Py

/-- The running count and its peak, change by change. -/
def running (changes : List (ℤ × ℤ)) (state : ℤ × ℤ) : ℤ × ℤ :=
  changes.foldl (fun state change =>
    (state.1 + change.2, max state.2 (state.1 + change.2))) state

/-- An interval begins and ends. -/
def changesOf (intervals : List (ℤ × ℤ)) : List (ℤ × ℤ) :=
  intervals.flatMap fun interval => [(interval.1, 1), (interval.2, -1)]

/-- Changes in the order of their times, departures first. -/
def ordered (changes : List (ℤ × ℤ)) : List (ℤ × ℤ) :=
  sortedBy (fun change => toLex (change.1, change.2)) changes

/-- The largest value the running count takes. -/
def peak (intervals : List (ℤ × ℤ)) : ℤ := (running (ordered (changesOf intervals)) (0, 0)).2

/-- The intervals that hold an instant. -/
def holding (t : ℤ) (intervals : List (ℤ × ℤ)) : ℕ :=
  intervals.countP fun interval => interval.1 ≤ t ∧ t < interval.2

/-- The sum of changes. -/
def total (changes : List (ℤ × ℤ)) : ℤ := (changes.map Prod.snd).sum

variable {changes front rest : List (ℤ × ℤ)} {intervals : List (ℤ × ℤ)} {t : ℤ}

theorem total_append : total (front ++ rest) = total front + total rest := by
  rw [total, List.map_append, List.sum_append]
  rfl

theorem total_perm (perm : front.Perm rest) : total front = total rest :=
  (perm.map Prod.snd).sum_eq

/-! ## The running count -/

/-- The peak is at least every value the count takes, and one of them or the peak before. -/
theorem running_peak (changes : List (ℤ × ℤ)) (state : ℤ × ℤ) :
    state.2 ≤ (running changes state).2 ∧
      (∀ front, front <+: changes → front ≠ [] →
        state.1 + total front ≤ (running changes state).2) ∧
      ((running changes state).2 = state.2 ∨ ∃ front, front <+: changes ∧
        (running changes state).2 = state.1 + total front) := by
  induction changes generalizing state with
  | nil => exact ⟨le_rfl, fun front leading some_ => absurd (List.prefix_nil.mp leading) some_,
      .inl rfl⟩
  | cons change changes ih =>
    obtain ⟨low, each, reached⟩ := ih (state.1 + change.2, max state.2 (state.1 + change.2))
    have step : running (change :: changes) state =
        running changes (state.1 + change.2, max state.2 (state.1 + change.2)) := rfl
    have total_cons (front : List (ℤ × ℤ)) :
        state.1 + total (change :: front) = state.1 + change.2 + total front := by
      rw [total, total, List.map_cons, List.sum_cons]
      ring
    rw [step]
    refine ⟨(le_max_left _ _).trans low, ?_, ?_⟩
    · intro front leading some_
      cases front with
      | nil => exact absurd rfl some_
      | cons first front =>
        obtain ⟨rfl, inner⟩ := List.cons_prefix_cons.mp leading
        rw [total_cons]
        rcases eq_or_ne front [] with rfl | more
        · have here := (le_max_right _ _).trans low
          simpa [total] using here
        · exact each front inner more
    · rcases reached with same | ⟨front, leading, same⟩
      · rcases max_choice state.2 (state.1 + change.2) with before | here
        · exact .inl (same.trans before)
        · refine .inr ⟨[change], List.cons_prefix_cons.mpr ⟨rfl, List.nil_prefix⟩, ?_⟩
          rw [same.trans here, total_cons]
          simp [total]
      · exact .inr ⟨change :: front, List.cons_prefix_cons.mpr ⟨rfl, leading⟩,
          same.trans (total_cons front).symm⟩

/-! ## Changes up to an instant -/

/-- The changes up to an instant add up to the intervals that hold it. -/
theorem total_upTo (proper : ∀ interval ∈ intervals, interval.1 < interval.2) (t : ℤ) :
    total ((changesOf intervals).filter fun change => change.1 ≤ t) = holding t intervals := by
  induction intervals with
  | nil => rfl
  | cons interval intervals ih =>
    obtain ⟨first, proper⟩ := List.forall_mem_cons.mp proper
    have split : changesOf (interval :: intervals) =
        [(interval.1, 1), (interval.2, -1)] ++ changesOf intervals := rfl
    rw [split, List.filter_append, total_append, ih proper, holding, holding, List.countP_cons]
    push_cast
    by_cases begun : interval.1 ≤ t
    · by_cases ended : interval.2 ≤ t
      · have outside : ¬ (interval.1 ≤ t ∧ t < interval.2) := by omega
        simp [total, begun, ended]
      · have inside : interval.1 ≤ t ∧ t < interval.2 := by omega
        simp [total, begun, ended, inside.2]
        ring
    · have later : ¬ interval.2 ≤ t := by omega
      simp [total, begun, later]

theorem perm_ordered (changes : List (ℤ × ℤ)) : (ordered changes).Perm changes :=
  perm_sortedBy _ changes

theorem pairwise_ordered (changes : List (ℤ × ℤ)) :
    (ordered changes).Pairwise fun a b => a.1 < b.1 ∨ a.1 = b.1 ∧ a.2 ≤ b.2 :=
  (pairwise_sortedBy (fun change : ℤ × ℤ => toLex (change.1, change.2)) changes).imp fun h =>
    Prod.Lex.toLex_le_toLex.mp h

/-- What comes up to an instant comes first. -/
theorem upTo_extends (sorted : changes.Pairwise fun a b => a.1 < b.1 ∨ a.1 = b.1 ∧ a.2 ≤ b.2)
    (t : ℤ) : (changes.filter fun change => change.1 ≤ t) <+: changes := by
  induction changes with
  | nil => exact List.prefix_rfl
  | cons change changes ih =>
    obtain ⟨first, sorted⟩ := List.pairwise_cons.mp sorted
    by_cases early : change.1 ≤ t
    · rw [List.filter_cons_of_pos (by simpa using early)]
      exact List.cons_prefix_cons.mpr ⟨rfl, ih sorted⟩
    · have none_early : (change :: changes).filter (fun change => change.1 ≤ t) = [] := by
        refine List.filter_eq_nil_iff.mpr fun other mem => ?_
        rcases List.mem_cons.mp mem with rfl | mem
        · simpa using early
        · have := first other mem
          simp only [decide_eq_true_eq]
          omega
      rw [none_early]
      exact List.nil_prefix

/-- A count that is taken is no larger than that of some instant. -/
theorem prefix_le (proper : ∀ interval ∈ intervals, interval.1 < interval.2)
    (front : List (ℤ × ℤ)) (leading : front <+: ordered (changesOf intervals)) :
    ∃ t, total front ≤ holding t intervals := by
  induction front using List.reverseRecOn with
  | nil => exact ⟨0, by simp [total]⟩
  | append_singleton front change ih =>
    have mem : change ∈ changesOf intervals :=
      (perm_ordered _).mem_iff.mp (leading.subset (List.mem_append_right _ (List.mem_singleton_self _)))
    obtain ⟨interval, -, kind⟩ := List.mem_flatMap.mp mem
    rcases List.mem_cons.mp kind with arrival | departure
    · refine ⟨change.1, ?_⟩
      obtain ⟨rest, split⟩ := leading
      have sorted := pairwise_ordered (changesOf intervals)
      rw [← split] at sorted
      obtain ⟨front_sorted, -, before⟩ := List.pairwise_append.mp sorted
      obtain ⟨-, -, last⟩ := List.pairwise_append.mp front_sorted
      have delta : change.2 = 1 := by rw [arrival]
      have front_early : (front ++ [change]).filter (fun other => other.1 ≤ change.1) =
          front ++ [change] := by
        refine List.filter_eq_self.mpr fun other mem => decide_eq_true ?_
        rcases List.mem_append.mp mem with mem | mem
        · have := last other mem change (List.mem_singleton_self _)
          omega
        · exact (List.mem_singleton.mp mem) ▸ le_rfl
      have rest_up : 0 ≤ total (rest.filter fun other => other.1 ≤ change.1) := by
        refine List.sum_nonneg fun delta mem => ?_
        obtain ⟨other, hother, rfl⟩ := List.mem_map.mp mem
        obtain ⟨inside, early⟩ := List.mem_filter.mp hother
        have early := of_decide_eq_true early
        have := before change (List.mem_append_right _ (List.mem_singleton_self _)) other inside
        omega
      have upTo := total_upTo proper change.1
      rw [← total_perm ((perm_ordered _).filter _), ← split, List.filter_append, total_append,
        front_early] at upTo
      omega
    · obtain rfl := List.mem_singleton.mp departure
      obtain ⟨t, smaller⟩ := ih ((List.prefix_append _ _).trans leading)
      refine ⟨t, ?_⟩
      rw [total_append]
      have one : total [(interval.2, (-1 : ℤ))] = -1 := rfl
      omega

/-! ## The peak -/

/-- No instant is held by more intervals than the peak. -/
theorem holding_le_peak (proper : ∀ interval ∈ intervals, interval.1 < interval.2) (t : ℤ) :
    holding t intervals ≤ peak intervals := by
  obtain ⟨low, each, -⟩ := running_peak (ordered (changesOf intervals)) (0, 0)
  have upTo := total_upTo proper t
  rw [← total_perm ((perm_ordered _).filter _)] at upTo
  rw [← upTo, peak]
  rcases eq_or_ne ((ordered (changesOf intervals)).filter fun change => change.1 ≤ t) [] with
    none_early | some_early
  · rw [none_early]
    exact low
  · have := each _ (upTo_extends (pairwise_ordered _) t) some_early
    omega

/-- The peak is the number of intervals that hold some instant, and the largest such number. -/
theorem peak_spec (proper : ∀ interval ∈ intervals, interval.1 < interval.2) :
    (∀ t, (holding t intervals : ℤ) ≤ peak intervals) ∧
      ∃ t, (holding t intervals : ℤ) = peak intervals := by
  refine ⟨holding_le_peak proper, ?_⟩
  obtain ⟨low, -, reached⟩ := running_peak (ordered (changesOf intervals)) (0, 0)
  have some_front : ∃ front, front <+: ordered (changesOf intervals) ∧
      peak intervals = total front := by
    rcases reached with zero | ⟨front, leading, same⟩
    · exact ⟨[], List.nil_prefix, zero⟩
    · exact ⟨front, leading, by rw [peak, same]; ring⟩
  obtain ⟨front, leading, same⟩ := some_front
  obtain ⟨t, bound⟩ := prefix_le proper front leading
  exact ⟨t, le_antisymm (holding_le_peak proper t) (same ▸ bound)⟩

end Sweepline
