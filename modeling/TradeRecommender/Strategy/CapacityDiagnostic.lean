import Mathlib.Algebra.BigOperators.Group.List.Basic
import Mathlib.Algebra.Order.BigOperators.Group.List
import Mathlib.Algebra.Order.Floor.Ring
import Mathlib.Data.Rat.Floor
import Mathlib.Tactic.Linarith
import Mathlib.Tactic.Positivity
import Mathlib.Tactic.FieldSimp
import TradeRecommender.Lib.Sorted
import TradeRecommender.Strategy.ExploratoryReturns

/-!
# The capacity diagnostic

`capacity_diagnostic` of `research/s2_geometry.py` in exact arithmetic: requests for risk at their
entries, under a cap on the total and one on every bucket of a currency and a direction.

1. events, buckets and one allocation phase;
2. what the common fraction leaves room for;
3. what a phase does, and the caps after every phase.
-/

namespace TradeRecommender.Strategy.Capacity

open Py
open Returns (Direction)

/-! ## Phases -/

/-- The side of the other currency of a pair. -/
def opposite : Direction → Direction
  | .long => .short
  | .short => .long

/-- A currency held in a direction. -/
structure Bucket where
  side : Direction
  currency : String
  deriving DecidableEq

section
variable {τ : Type}

structure Event (τ : Type) where
  physicalKey : String
  entryAt : τ
  horizonAt : τ
  direction : Direction
  base : String
  quote : String
  riskPerUnitCad : ℚ

/-- `buckets` -/
def buckets (event : Event τ) : List Bucket :=
  [⟨event.direction, event.base⟩, ⟨opposite event.direction, event.quote⟩]

structure OpenRow (τ : Type) where
  risk : ℚ
  horizonAt : τ
  buckets : List Bucket

/-- A row of the result. -/
structure Row (τ : Type) where
  physicalKey : String
  entryAt : τ
  commonFraction : ℚ
  units : ℤ
  plannedRiskCad : ℚ

structure State (τ : Type) where
  openRows : List (OpenRow τ) := []
  results : List (Row τ) := []

/-- `require` -/
def require (condition : Prop) [Decidable condition] (message : String) : Except Exc Unit :=
  if condition then .ok () else raise (.other "PolicyRefusal") message

def perRequest : ℚ := 25

def aggregateCap : ℚ := 100

def bucketCap : ℚ := 50

/-- The planned risk of all rows. -/
def total (rows : List (OpenRow τ)) : ℚ := (rows.map OpenRow.risk).sum

/-- `used`: the risk of a row counts once for every time it names the bucket. -/
def used (rows : List (OpenRow τ)) (bucket : Bucket) : ℚ :=
  (rows.map fun row => (row.buckets.count bucket : ℚ) * row.risk).sum

/-- `requests` -/
def requests (group : List (Event τ)) (bucket : Bucket) : ℕ :=
  (group.map fun event => (buckets event).count bucket).sum

/-- The common fraction of simultaneous requests. -/
def commonFraction (rows : List (OpenRow τ)) (group : List (Event τ)) : ℚ :=
  let remaining := max 0 (aggregateCap - total rows)
  (remaining / (perRequest * group.length) ::
    ((group.flatMap buckets).dedup.map fun bucket =>
      max 0 (bucketCap - used rows bucket) / (perRequest * requests group bucket))).foldl min 1

def unitsOf (fraction : ℚ) (event : Event τ) : ℤ := ⌊perRequest * fraction / event.riskPerUnitCad⌋

def riskOf (fraction : ℚ) (event : Event τ) : ℚ :=
  unitsOf fraction event * event.riskPerUnitCad

def rowOf (entryAt : τ) (fraction : ℚ) (event : Event τ) : Row τ :=
  ⟨event.physicalKey, entryAt, fraction, unitsOf fraction event, riskOf fraction event⟩

/-- The allocation to one event. -/
def allocate (entryAt : τ) (fraction : ℚ) (state : State τ) (event : Event τ) :
    Except Exc (State τ) := do
  require (0 < event.riskPerUnitCad) "invalid pre-entry CAD unit risk"
  return {
    openRows := if 0 < unitsOf fraction event then
        state.openRows ++ [⟨riskOf fraction event, event.horizonAt, buckets event⟩]
      else state.openRows
    results := state.results ++ [rowOf entryAt fraction event] }

variable [LinearOrder τ]

/-- The rows still open at a time: an exit scheduled for it releases nothing yet. -/
def held (at_ : τ) (rows : List (OpenRow τ)) : List (OpenRow τ) :=
  rows.filter fun row => at_ ≤ row.horizonAt

/-- One allocation phase. -/
def phase (state : State τ) (group : τ × List (Event τ)) : Except Exc (State τ) :=
  let rows := held group.1 state.openRows
  (sortedBy Event.physicalKey group.2).foldlM (allocate group.1 (commonFraction rows group.2))
    ⟨rows, state.results⟩

/-- `sorted(grouped.items())` -/
def groups (events : List (Event τ)) : List (τ × List (Event τ)) :=
  (sortedOnce (events.map Event.entryAt)).map fun at_ =>
    (at_, events.filter fun event => event.entryAt = at_)

/-- `capacity_diagnostic` -/
def capacityDiagnostic (events : List (Event τ)) : Except Exc (List (Row τ)) := do
  let state ← (groups events).foldlM phase {}
  return state.results

end

/-! ## The room of the common fraction -/

section
variable {τ : Type} {rows : List (OpenRow τ)} {group : List (Event τ)} {fraction : ℚ}

theorem foldl_min_le (values : List ℚ) (first : ℚ) : values.foldl min first ≤ first := by
  induction values generalizing first with
  | nil => exact le_refl _
  | cons value values ih => exact (ih _).trans (min_le_left _ _)

theorem foldl_min_le_mem {values : List ℚ} {value : ℚ} (mem : value ∈ values) (first : ℚ) :
    values.foldl min first ≤ value := by
  induction values generalizing first with
  | nil => cases mem
  | cons other values ih =>
    rcases List.mem_cons.mp mem with rfl | mem
    · exact (foldl_min_le values _).trans (min_le_right _ _)
    · exact ih mem _

theorem le_foldl_min {values : List ℚ} {bound first : ℚ} (start : bound ≤ first)
    (all : ∀ value ∈ values, bound ≤ value) : bound ≤ values.foldl min first := by
  induction values generalizing first with
  | nil => exact start
  | cons value values ih =>
    obtain ⟨here, all⟩ := List.forall_mem_cons.mp all
    exact ih (le_min start here) all

variable (rows group) in
theorem commonFraction_le_one : commonFraction rows group ≤ 1 := foldl_min_le _ _

variable (rows group) in
theorem commonFraction_nonneg : 0 ≤ commonFraction rows group := by
  refine le_foldl_min zero_le_one (List.forall_mem_cons.mpr ⟨?_, fun value mem => ?_⟩)
  · unfold perRequest
    positivity
  · obtain ⟨bucket, -, rfl⟩ := List.mem_map.mp mem
    unfold perRequest
    positivity

/-- All requests together fit into what the total leaves. -/
theorem commonFraction_total (some_ : group ≠ []) (within : total rows ≤ aggregateCap) :
    total rows + group.length * (perRequest * commonFraction rows group) ≤ aggregateCap := by
  have positive : (0 : ℚ) < perRequest * group.length := by
    have length_pos := List.length_pos_of_ne_nil some_
    unfold perRequest
    positivity
  have bound : commonFraction rows group ≤
      max 0 (aggregateCap - total rows) / (perRequest * group.length) :=
    foldl_min_le_mem List.mem_cons_self _
  rw [max_eq_right (sub_nonneg.mpr within), le_div_iff₀ positive] at bound
  linarith

variable (group) in
/-- The requests of a bucket fit into what it leaves. -/
theorem commonFraction_bucket {bucket : Bucket} (within : used rows bucket ≤ bucketCap) :
    used rows bucket + requests group bucket * (perRequest * commonFraction rows group) ≤
      bucketCap := by
  rcases Nat.eq_zero_or_pos (requests group bucket) with none_ | some_
  · rw [none_, Nat.cast_zero, zero_mul, add_zero]
    exact within
  have positive : (0 : ℚ) < perRequest * requests group bucket := by
    unfold perRequest
    positivity
  have mem : bucket ∈ (group.flatMap buckets).dedup := by
    by_contra absent
    rw [List.mem_dedup, List.mem_flatMap] at absent
    refine some_.ne' (List.sum_eq_zero fun count mem => ?_)
    obtain ⟨event, inside, rfl⟩ := List.mem_map.mp mem
    exact List.count_eq_zero.mpr fun named => absent ⟨event, inside, named⟩
  have bound : commonFraction rows group ≤
      max 0 (bucketCap - used rows bucket) / (perRequest * requests group bucket) :=
    foldl_min_le_mem (List.mem_cons_of_mem _ (List.mem_map.mpr ⟨bucket, mem, rfl⟩)) _
  rw [max_eq_right (sub_nonneg.mpr within), le_div_iff₀ positive] at bound
  linarith

/-- Whole units never take more than the fraction of the request. -/
theorem riskOf_bounds {event : Event τ} (nonneg : 0 ≤ fraction)
    (positive : 0 < event.riskPerUnitCad) :
    0 ≤ riskOf fraction event ∧ riskOf fraction event ≤ perRequest * fraction := by
  have share : 0 ≤ perRequest * fraction / event.riskPerUnitCad := by
    unfold perRequest
    positivity
  have units : (0 : ℚ) ≤ unitsOf fraction event := by
    exact_mod_cast Int.floor_nonneg.mpr share
  refine ⟨mul_nonneg units positive.le, ?_⟩
  have below : (unitsOf fraction event : ℚ) ≤ perRequest * fraction / event.riskPerUnitCad :=
    Int.floor_le _
  exact (le_div_iff₀ positive).mp below

end

/-! ## The caps after every phase -/

section
variable {τ : Type}

/-- The open row of an event. -/
def openRowOf (fraction : ℚ) (event : Event τ) : OpenRow τ :=
  ⟨riskOf fraction event, event.horizonAt, buckets event⟩

/-- The rows a phase opens. -/
def opened (fraction : ℚ) (group : List (Event τ)) : List (OpenRow τ) :=
  (group.filter fun event => 0 < unitsOf fraction event).map (openRowOf fraction)

/-- No row owes risk, and no cap is exceeded. -/
structure Caps (rows : List (OpenRow τ)) : Prop where
  nonneg : ∀ row ∈ rows, 0 ≤ row.risk
  aggregate : total rows ≤ aggregateCap
  bucket : ∀ bucket, used rows bucket ≤ bucketCap

theorem allocate_group {entryAt : τ} {fraction : ℚ} {group : List (Event τ)} (state : State τ)
    (positive : ∀ event ∈ group, 0 < event.riskPerUnitCad) :
    group.foldlM (allocate entryAt fraction) state =
      .ok ⟨state.openRows ++ opened fraction group,
        state.results ++ group.map (rowOf entryAt fraction)⟩ := by
  induction group generalizing state with
  | nil => simp [opened]
  | cons event group ih =>
    obtain ⟨here, positive⟩ := List.forall_mem_cons.mp positive
    have first : allocate entryAt fraction state event = .ok {
        openRows := if 0 < unitsOf fraction event then
            state.openRows ++ [⟨riskOf fraction event, event.horizonAt, buckets event⟩]
          else state.openRows
        results := state.results ++ [rowOf entryAt fraction event] } := by
      unfold allocate require
      rw [if_pos here]
      rfl
    rw [List.foldlM_cons, first]
    show group.foldlM (allocate entryAt fraction) _ = _
    rw [ih _ positive]
    unfold opened
    by_cases units : 0 < unitsOf fraction event
    · rw [if_pos units, List.filter_cons_of_pos (by simpa using units)]
      simp [openRowOf]
    · rw [if_neg units, List.filter_cons_of_neg (by simpa using units)]
      simp

/-- What a group is given adds to at most its requests times their fraction, whatever each of them
counts. -/
theorem sum_opened_le {fraction : ℚ} {group : List (Event τ)} (weight : List Bucket → ℕ)
    (nonneg : 0 ≤ fraction) (positive : ∀ event ∈ group, 0 < event.riskPerUnitCad) :
    ((opened fraction group).map fun row => (weight row.buckets : ℚ) * row.risk).sum ≤
      ((group.map fun event => weight (buckets event)).sum : ℕ) * (perRequest * fraction) := by
  have cap : 0 ≤ perRequest * fraction := by
    unfold perRequest
    positivity
  induction group with
  | nil => simp [opened]
  | cons event group ih =>
    obtain ⟨here, positive⟩ := List.forall_mem_cons.mp positive
    obtain ⟨-, bound⟩ := riskOf_bounds nonneg here
    have rest := ih positive
    have own : (weight (buckets event) : ℚ) * riskOf fraction event ≤
        weight (buckets event) * (perRequest * fraction) :=
      mul_le_mul_of_nonneg_left bound (Nat.cast_nonneg _)
    rw [List.map_cons, List.sum_cons, Nat.cast_add, add_mul]
    by_cases units : 0 < unitsOf fraction event
    · have split : opened fraction (event :: group) =
          openRowOf fraction event :: opened fraction group := by
        unfold opened
        rw [List.filter_cons_of_pos (by simpa using units), List.map_cons]
      rw [split, List.map_cons, List.sum_cons]
      exact add_le_add own rest
    · have split : opened fraction (event :: group) = opened fraction group := by
        unfold opened
        rw [List.filter_cons_of_neg (by simpa using units)]
      rw [split]
      have more : 0 ≤ (weight (buckets event) : ℚ) * (perRequest * fraction) :=
        mul_nonneg (Nat.cast_nonneg _) cap
      linarith

theorem Caps.held [LinearOrder τ] {rows : List (OpenRow τ)} (caps : Caps rows) (at_ : τ) :
    Caps (held at_ rows) := by
  have sub : (Capacity.held at_ rows).Sublist rows := List.filter_sublist
  refine ⟨fun row mem => caps.nonneg row (sub.mem mem), ?_, fun bucket => ?_⟩
  · refine le_trans ((sub.map OpenRow.risk).sum_le_sum fun risk mem => ?_) caps.aggregate
    obtain ⟨row, inside, rfl⟩ := List.mem_map.mp mem
    exact caps.nonneg row inside
  · refine le_trans ((sub.map _).sum_le_sum fun risk mem => ?_) (caps.bucket bucket)
    obtain ⟨row, inside, rfl⟩ := List.mem_map.mp mem
    exact mul_nonneg (Nat.cast_nonneg _) (caps.nonneg row inside)

/-- Rows opened at the common fraction stay within the caps. -/
theorem Caps.opened {rows : List (OpenRow τ)} {group sorted_ : List (Event τ)} (caps : Caps rows)
    (perm : sorted_.Perm group) (some_ : group ≠ [])
    (positive : ∀ event ∈ group, 0 < event.riskPerUnitCad) :
    Caps (rows ++ opened (commonFraction rows group) sorted_) := by
  have nonneg := commonFraction_nonneg rows group
  have positive' : ∀ event ∈ sorted_, 0 < event.riskPerUnitCad :=
    fun event mem => positive event (perm.mem_iff.mp mem)
  refine ⟨fun row mem => ?_, ?_, fun bucket => ?_⟩
  · rcases List.mem_append.mp mem with mem | mem
    · exact caps.nonneg row mem
    · obtain ⟨event, inside, rfl⟩ := List.mem_map.mp mem
      exact (riskOf_bounds nonneg (positive' event (List.mem_filter.mp inside).1)).1
  · have room := commonFraction_total some_ caps.aggregate
    have given := sum_opened_le (fun _ => 1) nonneg positive'
    simp only [Nat.cast_one, one_mul, List.map_const', List.sum_replicate, smul_eq_mul, mul_one,
      perm.length_eq] at given
    unfold total at *
    rw [List.map_append, List.sum_append]
    exact (add_le_add_right given _).trans room
  · have room := commonFraction_bucket group (caps.bucket bucket)
    have given := sum_opened_le (fun named => named.count bucket) nonneg positive'
    have count_eq : (sorted_.map fun event => (buckets event).count bucket).sum =
        requests group bucket := (perm.map _).sum_eq
    rw [count_eq] at given
    unfold used at *
    rw [List.map_append, List.sum_append]
    exact (add_le_add_right given _).trans room

variable [LinearOrder τ]

/-- **A phase**: it keeps what is not yet due, an exit at its own time included, and gives every
request of its group the same fraction. -/
structure PhaseSpec (state : State τ) (at_ : τ) (group : List (Event τ)) (next : State τ) : Prop where
  openRows : next.openRows = (state.openRows.filter fun row => at_ ≤ row.horizonAt) ++
    opened (commonFraction (held at_ state.openRows) group) (sortedBy Event.physicalKey group)
  results : next.results = state.results ++ (sortedBy Event.physicalKey group).map
    (rowOf at_ (commonFraction (held at_ state.openRows) group))

theorem phase_spec {state : State τ} {at_ : τ} {group : List (Event τ)} (some_ : group ≠ [])
    (positive : ∀ event ∈ group, 0 < event.riskPerUnitCad) (caps : Caps state.openRows) :
    ∃ next, phase state (at_, group) = .ok next ∧ PhaseSpec state at_ group next ∧
      Caps next.openRows := by
  have positive' : ∀ event ∈ sortedBy Event.physicalKey group, 0 < event.riskPerUnitCad :=
    fun event mem => positive event (mem_sortedBy.mp mem)
  refine ⟨_, allocate_group _ positive', ⟨rfl, rfl⟩, ?_⟩
  exact (caps.held at_).opened (perm_sortedBy _ _) some_ positive

theorem group_spec {events : List (Event τ)} {at_ : τ} {group : List (Event τ)}
    (mem : (at_, group) ∈ groups events) : group ≠ [] ∧ ∀ event ∈ group, event ∈ events := by
  obtain ⟨time, inside, same⟩ := List.mem_map.mp mem
  obtain ⟨rfl, rfl⟩ := Prod.mk.inj same
  obtain ⟨event, mem, entered⟩ := List.mem_map.mp (mem_sortedOnce.mp inside)
  refine ⟨List.ne_nil_of_mem (List.mem_filter.mpr ⟨mem, by simpa using entered⟩), ?_⟩
  exact fun event mem => (List.mem_filter.mp mem).1

/-- Phases keep the caps. -/
theorem foldlM_phase {phases : List (τ × List (Event τ))} {state : State τ}
    (some_ : ∀ group ∈ phases, group.2 ≠ [])
    (positive : ∀ group ∈ phases, ∀ event ∈ group.2, 0 < event.riskPerUnitCad)
    (caps : Caps state.openRows) :
    ∃ next, phases.foldlM phase state = .ok next ∧ Caps next.openRows := by
  induction phases generalizing state with
  | nil => exact ⟨state, rfl, caps⟩
  | cons group phases ih =>
    obtain ⟨here, some_⟩ := List.forall_mem_cons.mp some_
    obtain ⟨own, positive⟩ := List.forall_mem_cons.mp positive
    obtain ⟨next, ran, -, kept⟩ := phase_spec here own caps
    obtain ⟨final, rest, last⟩ := ih some_ positive kept
    exact ⟨final, by rw [List.foldlM_cons]; exact bind_eq_ok.mpr ⟨next, ran, rest⟩, last⟩

end

/-- A request for the euro against the dollar. -/
def someRequest : Event ℕ where
  physicalKey := "EVENT-1"
  entryAt := 0
  horizonAt := 10
  direction := .long
  base := "EUR"
  quote := "USD"
  riskPerUnitCad := 1 / 2

end TradeRecommender.Strategy.Capacity
