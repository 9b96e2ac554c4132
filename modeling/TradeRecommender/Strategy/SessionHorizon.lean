import TradeRecommender.Strategy.AdapterAgreement
import TradeRecommender.Strategy.AdmissionStream

/-!
# The horizon of ten sessions

`SealedHorizonIndex` of the detector, `_horizon` of the geometry and the derived horizon of the
return calculator, for daily completions and hourly opens in order.

1. the index and its two searches;
2. the two searches agree;
3. the horizon of one stage is that of the next, over the inventories cut at it.
-/

namespace TradeRecommender.Strategy.Horizon

open Civil (Instant)
open Returns (derivedHorizon geometryHorizon)

/-! ## The index -/

structure SealedHorizonIndex where
  dailyOpenedAt : List Instant
  dailyCompletedAt : List Instant
  hourlyOpenedAt : List Instant

namespace SealedHorizonIndex

/-- `from_projection` -/
def fromProjection (projection : Admission.AdmissionProjection) : SealedHorizonIndex :=
  let daily := projection.batches.flatMap fun batch =>
    batch.events.filter fun event => event.granularity = .d
  { dailyOpenedAt := daily.map Admission.CompletionEvent.openedAt
    dailyCompletedAt := daily.map Admission.CompletionEvent.completedAt
    hourlyOpenedAt := projection.admittedMembers .h1 }

/-- `maximum_exit_open` -/
def maximumExitOpen (index : SealedHorizonIndex) (entryAt : Instant) (sessions : ℕ) :
    Option Instant :=
  let start := Bisect.right index.dailyCompletedAt entryAt
  let target := start + sessions - 1
  match index.dailyCompletedAt[target]? with
  | none => none
  | some completion =>
    let hourlyIndex := Bisect.left index.hourlyOpenedAt completion
    index.hourlyOpenedAt[hourlyIndex]?

/-- `reference_maximum_exit_open` -/
def referenceMaximumExitOpen (index : SealedHorizonIndex) (entryAt : Instant) (sessions : ℕ) :
    Option Instant :=
  let completions := index.dailyCompletedAt.filter fun completed => entryAt < completed
  if completions.length < sessions then none
  else
    match completions[sessions - 1]? with
    | none => none
    | some completion => index.hourlyOpenedAt.find? fun opened => completion ≤ opened

/-- Completions and opens in order. -/
structure Sorted (index : SealedHorizonIndex) : Prop where
  daily : index.dailyCompletedAt.Pairwise (· ≤ ·)
  hourly : index.hourlyOpenedAt.Pairwise (· ≤ ·)

/-- The index of a projection of a sorted stream is sorted. -/
theorem fromProjection_sorted {projection : Admission.AdmissionProjection}
    (stream : (projection.batches.flatMap Admission.CompletionBatch.events).Pairwise fun a b =>
      a.key ≤ b.key)
    (hours : (projection.admittedMembers .h1).Pairwise (· ≤ ·)) :
    (fromProjection projection).Sorted := by
  refine ⟨List.pairwise_map.mpr ?_, hours⟩
  rw [← List.filter_flatMap]
  exact (stream.sublist List.filter_sublist).imp Admission.completedAt_le

end SealedHorizonIndex

/-! ## The searches agree -/

/-- The row at a left insertion point is the first one not before the value. -/
theorem getElem?_left {values : List Instant} (sorted : values.Pairwise (· ≤ ·)) (value : Instant) :
    values[Bisect.left values value]? = values.find? fun other => value ≤ other := by
  have pred : (fun other : Instant => decide (value ≤ other)) = fun other => !decide (other < value) := by
    funext other
    rw [← decide_not]
    exact decide_eq_decide.mpr not_lt.symm
  rw [← List.head?_drop, Bisect.drop_left sorted, List.head?_filter, pred]

/-- Rows after a right insertion point are the rows after the value. -/
theorem getElem?_right {values : List Instant} (sorted : values.Pairwise (· ≤ ·)) (value : Instant)
    (n : ℕ) : values[Bisect.right values value + n]? =
      (values.filter fun other => value < other)[n]? := by
  have pred : (fun other : Instant => decide (value < other)) = fun other => !decide (other ≤ value) := by
    funext other
    rw [← decide_not]
    exact decide_eq_decide.mpr not_le.symm
  rw [← List.getElem?_drop, Bisect.drop_right sorted, pred]

theorem maximumExitOpen_eq {index : SealedHorizonIndex} (sorted : index.Sorted) (entryAt : Instant)
    {sessions : ℕ} (positive : 1 ≤ sessions) :
    index.maximumExitOpen entryAt sessions =
      ((index.dailyCompletedAt.filter fun completed => entryAt < completed)[sessions - 1]?).bind
        fun completion => index.hourlyOpenedAt.find? fun opened => completion ≤ opened := by
  unfold SealedHorizonIndex.maximumExitOpen
  dsimp only
  rw [Nat.add_sub_assoc positive, getElem?_right sorted.daily]
  cases (index.dailyCompletedAt.filter fun completed => decide (entryAt < completed))[sessions - 1]?
    with
  | none => rfl
  | some completion => exact getElem?_left sorted.hourly completion

theorem referenceMaximumExitOpen_eq (index : SealedHorizonIndex) (entryAt : Instant)
    {sessions : ℕ} (positive : 1 ≤ sessions) :
    index.referenceMaximumExitOpen entryAt sessions =
      ((index.dailyCompletedAt.filter fun completed => entryAt < completed)[sessions - 1]?).bind
        fun completion => index.hourlyOpenedAt.find? fun opened => completion ≤ opened := by
  unfold SealedHorizonIndex.referenceMaximumExitOpen
  dsimp only
  split_ifs with short
  · rw [List.getElem?_eq_none (by omega)]
    rfl
  · cases (index.dailyCompletedAt.filter fun completed => decide (entryAt < completed))[sessions - 1]?
      <;> rfl

/-- The horizon of the geometry is the search for ten sessions. -/
theorem geometryHorizon_eq (index : SealedHorizonIndex) (entryAt : Instant) :
    geometryHorizon entryAt index.dailyCompletedAt index.hourlyOpenedAt =
      index.maximumExitOpen entryAt 10 := rfl

/-! ## The cut inventories -/

/-- The hours of an event: the inventory from its entry through its horizon. -/
def hoursThrough (hourly : List Instant) (entry horizon : Instant) : List Instant :=
  slice hourly (Bisect.left hourly entry) (Bisect.right hourly horizon)

/-- The completions of an event: those after its entry, through its horizon. -/
def completionsThrough (completions : List Instant) (entry horizon : Instant) : List Instant :=
  slice completions (Bisect.right completions entry) (Bisect.right completions horizon)

section
variable {values : List Instant} {entry horizon : Instant}

theorem hoursThrough_eq (sorted : values.Pairwise (· ≤ ·)) (before : entry ≤ horizon) :
    hoursThrough values entry horizon =
      values.filter fun t => !decide (t < entry) && decide (t ≤ horizon) := by
  refine Bisect.take_drop_between (Bisect.downClosed_lt entry) (Bisect.downClosed_le horizon) ?_
    sorted
  intro t ht
  simp only [decide_eq_true_eq] at ht ⊢
  exact ht.le.trans before

theorem completionsThrough_eq (sorted : values.Pairwise (· ≤ ·)) (before : entry ≤ horizon) :
    completionsThrough values entry horizon =
      (values.filter fun t => entry < t).filter fun t => t ≤ horizon := by
  rw [List.filter_filter]
  have cut : completionsThrough values entry horizon =
      values.filter fun t => !decide (t ≤ entry) && decide (t ≤ horizon) := by
    refine Bisect.take_drop_between (Bisect.downClosed_le entry) (Bisect.downClosed_le horizon) ?_
      sorted
    intro t ht
    simp only [decide_eq_true_eq] at ht ⊢
    exact ht.trans before
  rw [cut]
  refine List.filter_congr fun t _ => ?_
  rw [Bool.and_comm, ← decide_not]
  exact congrArg (decide (t ≤ horizon) && ·) (decide_eq_decide.mpr not_le)

/-- The last of ordered rows up to one of them is that one. -/
theorem getLast?_eq {rows : List Instant} {last : Instant} (sorted : rows.Pairwise (· ≤ ·))
    (mem : last ∈ rows) (up : ∀ row ∈ rows, row ≤ last) : rows.getLast? = some last := by
  obtain ⟨front, final, rfl⟩ := List.eq_nil_or_concat rows |>.resolve_left fun empty => by
    rw [empty] at mem
    cases mem
  rw [List.concat_eq_append] at *
  rw [List.getLast?_concat]
  have below : final ≤ last := up final (List.mem_append_right _ List.mem_cons_self)
  rcases List.mem_append.mp mem with mem | mem
  · have above := (List.pairwise_append.mp sorted).2.2 last mem final List.mem_cons_self
    exact congrArg some (le_antisymm below above)
  · exact congrArg some (List.mem_singleton.mp mem).symm

end

/-- The first hour from the tenth completion on is the same among the hours from the entry on. -/
theorem derivedHorizon_eq {index : SealedHorizonIndex} (sorted : index.Sorted) (entryAt : Instant) :
    derivedHorizon (index.hourlyOpenedAt.filter fun opened => entryAt ≤ opened)
      (index.dailyCompletedAt.filter fun completed => entryAt < completed) =
        index.maximumExitOpen entryAt 10 := by
  rw [maximumExitOpen_eq sorted entryAt (by decide)]
  unfold derivedHorizon
  cases tenth : (index.dailyCompletedAt.filter fun completed => decide (entryAt < completed))[9]? with
  | none => rfl
  | some completion =>
    have after : entryAt < completion := by
      simpa using (List.mem_filter.mp (List.mem_of_getElem? tenth)).2
    show (index.hourlyOpenedAt.filter _).find? _ = index.hourlyOpenedAt.find? _
    rw [List.find?_filter]
    congr 1
    funext opened
    by_cases reached : completion ≤ opened
    · simp [reached, (after.trans_le reached).le]
    · simp [reached]

/-- **One horizon for every stage**: the detector's two searches agree; for ten sessions they give the
horizon of the geometry and the one derived by the return calculator; and over the inventories cut
at that horizon the calculator derives it again. -/
theorem horizon_agrees {index : SealedHorizonIndex} (sorted : index.Sorted) (entryAt : Instant)
    {sessions : ℕ} (positive : 1 ≤ sessions) :
    index.maximumExitOpen entryAt sessions = index.referenceMaximumExitOpen entryAt sessions ∧
    index.maximumExitOpen entryAt 10 =
      geometryHorizon entryAt index.dailyCompletedAt index.hourlyOpenedAt ∧
    index.maximumExitOpen entryAt 10 =
      derivedHorizon (index.hourlyOpenedAt.filter fun opened => entryAt ≤ opened)
        (index.dailyCompletedAt.filter fun completed => entryAt < completed) ∧
    ∀ horizon, geometryHorizon entryAt index.dailyCompletedAt index.hourlyOpenedAt = some horizon →
      10 ≤ (completionsThrough index.dailyCompletedAt entryAt horizon).length ∧
      (hoursThrough index.hourlyOpenedAt entryAt horizon).getLast? = some horizon ∧
      derivedHorizon (hoursThrough index.hourlyOpenedAt entryAt horizon)
        (completionsThrough index.dailyCompletedAt entryAt horizon) = some horizon := by
  refine ⟨?_, geometryHorizon_eq index entryAt, (derivedHorizon_eq sorted entryAt).symm,
    fun horizon found => ?_⟩
  · rw [maximumExitOpen_eq sorted entryAt positive, referenceMaximumExitOpen_eq index entryAt positive]
  rw [geometryHorizon_eq, maximumExitOpen_eq sorted entryAt (by decide)] at found
  obtain ⟨tenth, at_, first⟩ := Option.bind_eq_some_iff.mp found
  have after : entryAt < tenth := by
    simpa using (List.mem_filter.mp (List.mem_of_getElem? at_)).2
  have reached : tenth ≤ horizon := by simpa using List.find?_some first
  have before : entryAt ≤ horizon := (after.trans_le reached).le
  have member : horizon ∈ index.hourlyOpenedAt := List.mem_of_find?_eq_some first
  have nine : (completionsThrough index.dailyCompletedAt entryAt horizon)[9]? = some tenth := by
    rw [completionsThrough_eq sorted.daily before]
    exact Bisect.getElem?_filter_le (sorted.daily.sublist List.filter_sublist) at_ reached
  have hours := hoursThrough_eq sorted.hourly before
  refine ⟨?_, ?_, ?_⟩
  · exact (List.getElem?_eq_some_iff.mp nine).1
  · rw [hours]
    refine getLast?_eq (sorted.hourly.sublist List.filter_sublist)
      (List.mem_filter.mpr ⟨member, by simp [before]⟩) fun row mem => ?_
    have inside := (List.mem_filter.mp mem).2
    simp only [Bool.and_eq_true, decide_eq_true_eq] at inside
    exact inside.2
  · unfold derivedHorizon
    rw [nine, hours]
    show (index.hourlyOpenedAt.filter _).find? _ = some horizon
    have pred : (fun opened : Instant => decide (tenth ≤ opened)) =
        fun opened => !decide (opened < tenth) := by
      funext opened
      rw [← decide_not]
      exact decide_eq_decide.mpr not_lt.symm
    rw [← List.head?_filter] at first ⊢
    refine Returns.head?_filter_of_head? first ?_
    simp [before]

/-- Eleven days and the hours from the sixth on. -/
def someIndex : SealedHorizonIndex where
  dailyOpenedAt := (List.range 11).map fun n => n * Civil.day
  dailyCompletedAt := (List.range 11).map fun n => (n + 1) * Civil.day
  hourlyOpenedAt := (List.range 12).map fun n => (n + 5) * Civil.day

theorem horizon_agrees_days : someIndex.Sorted ∧ 1 ≤ 10 ∧
    someIndex.maximumExitOpen 0 10 = someIndex.referenceMaximumExitOpen 0 10 := by
  have sorted : someIndex.Sorted := ⟨by decide, by decide⟩
  exact ⟨sorted, by decide, (horizon_agrees sorted 0 (by decide)).1⟩

end TradeRecommender.Strategy.Horizon
