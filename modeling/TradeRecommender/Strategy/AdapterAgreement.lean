import TradeRecommender.Strategy.ReturnAdapter
import TradeRecommender.Strategy.StopFirst

/-!
# What the calculator makes of an adapted event

The adapter gathers conversions for the times it takes to be possible exits; the calculator may also
leave at the open of any hour after a daily break. Where that open is none of those times, and only
there, an event the adapter built comes back as unresolved data.
-/

namespace TradeRecommender.Strategy.Returns

open Civil (Instant)
open Py (Exc)

/-! ## What a built event holds -/

/-- The fields of an event the adapter built, and the loops that filled them. -/
structure Normalized (ev : Evidence) (geometry : Geometry) (evaluation : Evaluation)
    (confirmation : Confirmation) (event : Event) : Prop where
  key : event.physicalEventKey = geometry.physicalKey
  books : event.books = geometry.books
  instrument : event.instrument = geometry.instrument
  direction : event.direction = geometry.direction
  entryAt : event.entryAt = evaluation.entryTimestamp
  horizonAt : event.horizonAt = geometry.horizonAt
  starts : event.expectedH1Starts =
    h1StartsOf ev evaluation.instrument evaluation.entryTimestamp geometry.horizonAt
  horizonLast : event.expectedH1Starts.getLast? = some geometry.horizonAt
  dCompletions : event.dCompletions = dailySection ev evaluation.instrument
    evaluation.entryTimestamp geometry.horizonAt (ev.completions evaluation.instrument .d)
  ten : 10 ≤ event.dCompletions.length
  h1 : Py.mapE (h1Row ev geometry.instrument) event.expectedH1Starts = .ok event.h1
  daily : Py.mapE (dailyRow ev geometry.instrument)
    ((dailySection ev evaluation.instrument evaluation.entryTimestamp geometry.horizonAt
      (ev.inventory evaluation.instrument .d)).zip event.dCompletions) = .ok event.daily
  first : event.h1.head?.map Bar.bidOpen = some event.entryBid ∧
    event.h1.head?.map Bar.askOpen = some event.entryAsk
  entryPrice : evaluation.entryPrice = some event.entry
  stopPrice : evaluation.stopPrice = some event.stop
  targetPrice : evaluation.targetPrice = some event.target
  risk : evaluation.riskPerUnitCad = some event.riskPerUnitCad
  swing : confirmation.supportingSwing = some event.supportingSwing
  conversion : Py.mapE (fun when_ => (conversion ev geometry.instrument.quote when_).map
      fun row => (when_, row))
    (sortedSet (possible evaluation.entryTimestamp geometry.horizonAt event.expectedH1Starts)) =
      .ok event.conversion

/-- **Inversion of the adapter.** -/
theorem normalizeEvent_ok {ev : Evidence} {geometry : Geometry} {evaluation : Evaluation}
    {confirmation : Confirmation} {event : Event}
    (h : normalizeEvent ev geometry evaluation confirmation = .ok event) :
    Normalized ev geometry evaluation confirmation event := by
  unfold normalizeEvent at h
  obtain ⟨_, inventory, h⟩ := Py.bind_eq_ok.mp h
  obtain ⟨h1, hours, h⟩ := Py.bind_eq_ok.mp h
  obtain ⟨daily, days, h⟩ := Py.bind_eq_ok.mp h
  obtain ⟨marks, _, h⟩ := Py.bind_eq_ok.mp h
  obtain ⟨rollovers, _, h⟩ := Py.bind_eq_ok.mp h
  rw [runnerRequire_eq_ok] at inventory
  split at h
  case h_2 => exact absurd h Py.raise_ne_ok
  case h_1 =>
    rename_i hentry hstop htarget hrisk _ _ _
    obtain ⟨_, governed, h⟩ := Py.bind_eq_ok.mp h
    obtain ⟨_, _, h⟩ := Py.bind_eq_ok.mp h
    rw [runnerRequire_eq_ok] at governed
    split at h
    case h_1 => exact absurd h Py.raise_ne_ok
    case h_2 swing hswing =>
      obtain ⟨conversions, gathered, h⟩ := Py.bind_eq_ok.mp h
      cases h
      exact ⟨rfl, rfl, rfl, rfl, rfl, rfl, rfl, inventory.2, rfl, inventory.1, hours, days,
        ⟨rfl, rfl⟩, by rw [hentry, ← governed]; rfl, hstop, htarget, hrisk, hswing, gathered⟩

/-! ## Sealed evidence and geometry events -/

/-- The ordering constraints of a stored candle, with a positive close. -/
structure Row.WellFormed (row : Row) : Prop where
  bidOpen : row.bidLow ≤ row.bidOpen ∧ row.bidOpen ≤ row.bidHigh
  bidClose : row.bidLow ≤ row.bidClose ∧ row.bidClose ≤ row.bidHigh
  askOpen : row.askLow ≤ row.askOpen ∧ row.askOpen ≤ row.askHigh
  askClose : row.askLow ≤ row.askClose ∧ row.askClose ≤ row.askHigh
  open_ : row.bidOpen ≤ row.askOpen
  close : row.bidClose ≤ row.askClose
  positive : 0 < row.bidClose

/-- Well-formed candles, and daily intervals that complete one after another. -/
structure Evidence.Sealed (ev : Evidence) : Prop where
  rows : ∀ code granularity start row,
    ev.candles code granularity start = some row → row.WellFormed
  daily : ∀ code, (ev.completions code .d).Pairwise (· < ·)

/-- What the geometry says of its event: an hour of the inventory as entry, the first hour at or
after the tenth daily completion as horizon. -/
structure GeometryEvent (ev : Evidence) (geometry : Geometry) (evaluation : Evaluation) : Prop where
  instrument : geometry.instrument = evaluation.instrument
  key : geometry.physicalKey ≠ ""
  books : StrictlyAscending geometry.books ∧ geometry.books ≠ []
  entry : evaluation.entryTimestamp ∈ ev.inventory evaluation.instrument .h1
  horizon : geometryHorizon evaluation.entryTimestamp (ev.completions evaluation.instrument .d)
    (ev.inventory evaluation.instrument .h1) = some geometry.horizonAt

/-- The prices of an `ENTRY_PENDING` evaluation against its opening hour: the open short of the
stop, the entry at the far side of the spread, reward beyond the entry, a positive risk. -/
def EntryPending (direction : Direction) (opening : Row) (evaluation : Evaluation) : Prop :=
  ∀ entry stop target risk, evaluation.entryPrice = some entry →
    evaluation.stopPrice = some stop → evaluation.targetPrice = some target →
    evaluation.riskPerUnitCad = some risk → 0 < risk ∧
      match direction with
      | .long => stop < opening.bidOpen ∧ entry = opening.askOpen ∧ entry < target
      | .short => opening.askOpen < stop ∧ entry = opening.bidOpen ∧ target < entry

/-! ## The hours of the event -/

theorem sortedSet_ascending (values : List Instant) : (sortedSet values).Pairwise (· < ·) := by
  have sorted : (sortedSet values).Pairwise (· ≤ ·) := List.pairwise_insertionSort _ _
  have distinct : (sortedSet values).Nodup :=
    (List.perm_insertionSort _ _).nodup_iff.mpr (List.nodup_dedup values)
  exact (sorted.and distinct).imp fun h => lt_of_le_of_ne h.1 h.2

@[simp]
theorem mem_sortedSet {values : List Instant} {value : Instant} :
    value ∈ sortedSet values ↔ value ∈ values := by
  unfold sortedSet
  rw [List.mem_insertionSort, List.mem_dedup]

theorem ascending_le {values : List Instant} (h : values.Pairwise (· < ·)) :
    values.Pairwise (· ≤ ·) := h.imp fun h => h.le

/-- The tenth completion after the entry, and the horizon as the first hour not before it. -/
theorem geometryHorizon_spec {entryAt horizon : Instant} {completions hourly : List Instant}
    (hc : completions.Pairwise (· < ·)) (hh : hourly.Pairwise (· < ·))
    (h : geometryHorizon entryAt completions hourly = some horizon) :
    ∃ tenth, (completions.filter fun y => !decide (y ≤ entryAt))[9]? = some tenth ∧
      entryAt < tenth ∧ tenth ≤ horizon ∧
      (hourly.filter fun y => !decide (y < tenth)).head? = some horizon := by
  unfold geometryHorizon at h
  dsimp only at h
  split at h
  · simp at h
  case h_2 tenth htenth =>
    have hdrop : (completions.filter fun y => !decide (y ≤ entryAt))[9]? = some tenth := by
      rw [← Bisect.drop_right (ascending_le hc), List.getElem?_drop, htenth]
    have hhead : (hourly.filter fun y => !decide (y < tenth)).head? = some horizon := by
      rw [← Bisect.drop_left (ascending_le hh), List.head?_drop, h]
    have hlate := (List.mem_filter.mp (List.mem_of_getElem? hdrop)).2
    have hfrom := (List.mem_filter.mp (List.mem_of_mem_head? hhead)).2
    exact ⟨tenth, hdrop, by simpa using hlate, by simpa using hfrom, hhead⟩

theorem h1StartsOf_eq {ev : Evidence} {code : Instrument} {entry horizon : Instant}
    (h : entry ≤ horizon) :
    h1StartsOf ev code entry horizon =
      (ev.inventory code .h1).filter fun t => !decide (t < entry) && decide (t ≤ horizon) := by
  refine Bisect.take_drop_between (Bisect.downClosed_lt entry) (Bisect.downClosed_le horizon) ?_
    (ascending_le (sortedSet_ascending _))
  intro t ht
  simp only [decide_eq_true_eq] at ht ⊢
  exact ht.le.trans h

theorem dailySection_completions {ev : Evidence} (hs : ev.Sealed) {code : Instrument}
    {entry horizon : Instant} (h : entry ≤ horizon) :
    dailySection ev code entry horizon (ev.completions code .d) =
      (ev.completions code .d).filter
        fun t => !decide (t ≤ entry) && decide (t ≤ horizon) := by
  refine Bisect.take_drop_between (Bisect.downClosed_le entry) (Bisect.downClosed_le horizon) ?_
    (ascending_le (hs.daily code))
  intro t ht
  simp only [decide_eq_true_eq] at ht ⊢
  exact ht.trans h

/-- A filter keeps the first element of another filter that it does not reject. -/
theorem head?_filter_of_head? {values : List Instant} {p q : Instant → Bool} {first : Instant}
    (h : (values.filter p).head? = some first) (hq : q first = true) :
    ((values.filter q).filter p).head? = some first := by
  rw [List.head?_filter] at h ⊢
  rw [List.find?_filter]
  rw [List.find?_eq_some_iff_append] at h ⊢
  obtain ⟨hp, front, back, rfl, hfront⟩ := h
  refine ⟨by simp [hp, hq], front, back, rfl, fun other hother => ?_⟩
  have := hfront other hother
  simp only [Bool.not_eq_eq_eq_not, Bool.not_true] at this
  simp [this]

/-- The times of an adapted event: all that `_event_input` asks of them. -/
structure Timed (event : Event) : Prop where
  before : event.entryAt < event.horizonAt
  starts : StrictlyAscending event.expectedH1Starts
  first : event.expectedH1Starts.head? = some event.entryAt
  last : event.expectedH1Starts.getLast? = some event.horizonAt
  ten : 10 ≤ event.dCompletions.length
  completions : StrictlyAscending event.dCompletions
  after : ∀ value ∈ event.dCompletions, event.entryAt < value
  derived : derivedHorizon event.expectedH1Starts event.dCompletions = some event.horizonAt

theorem Normalized.timed {ev : Evidence} {geometry : Geometry} {evaluation : Evaluation}
    {confirmation : Confirmation} {event : Event}
    (hn : Normalized ev geometry evaluation confirmation event) (hs : ev.Sealed)
    (hg : GeometryEvent ev geometry evaluation) : Timed event := by
  have ascending := sortedSet_ascending (ev.observations evaluation.instrument .h1)
  obtain ⟨tenth, hten, hlate, hfrom, hhead⟩ :=
    geometryHorizon_spec (hs.daily evaluation.instrument) ascending hg.horizon
  have hbefore : evaluation.entryTimestamp < geometry.horizonAt := lt_of_lt_of_le hlate hfrom
  have hstarts : event.expectedH1Starts = (ev.inventory evaluation.instrument .h1).filter
      fun t => !decide (t < evaluation.entryTimestamp) && decide (t ≤ geometry.horizonAt) := by
    rw [hn.starts, h1StartsOf_eq hbefore.le]
  have hcompletions : event.dCompletions = (ev.completions evaluation.instrument .d).filter
      fun t => !decide (t ≤ evaluation.entryTimestamp) && decide (t ≤ geometry.horizonAt) := by
    rw [hn.dCompletions, dailySection_completions hs hbefore.le]
  have hascending : StrictlyAscending event.expectedH1Starts := by
    rw [hstarts]
    exact ascending.sublist List.filter_sublist
  have hdAscending : StrictlyAscending event.dCompletions := by
    rw [hcompletions]
    exact (hs.daily evaluation.instrument).sublist List.filter_sublist
  have hfirst : event.expectedH1Starts.head? = some event.entryAt := by
    have hmem : evaluation.entryTimestamp ∈ event.expectedH1Starts := by
      rw [hstarts, List.mem_filter]
      exact ⟨hg.entry, by simp [hbefore.le]⟩
    cases hlist : event.expectedH1Starts with
    | nil => simp [hlist] at hmem
    | cons start rest =>
      rw [hlist] at hmem hascending
      have hin : start ∈ event.expectedH1Starts := by simp [hlist]
      rw [hstarts, List.mem_filter] at hin
      have hge : evaluation.entryTimestamp ≤ start := by
        simpa using (Bool.and_eq_true_iff.mp hin.2).1
      rw [hn.entryAt, List.head?_cons]
      rcases List.mem_cons.mp hmem with h | h
      · rw [h]
      · exact absurd (List.rel_of_pairwise_cons hascending h) (not_lt.mpr hge)
  have hderived : derivedHorizon event.expectedH1Starts event.dCompletions =
      some event.horizonAt := by
    have hnine : event.dCompletions[9]? = some tenth := by
      have hsorted : ((ev.completions evaluation.instrument .d).filter
          fun y => !decide (y ≤ evaluation.entryTimestamp)).Pairwise (· ≤ ·) :=
        ascending_le ((hs.daily evaluation.instrument).sublist List.filter_sublist)
      have hcut := Bisect.getElem?_filter_le hsorted hten hfrom
      rw [List.filter_filter] at hcut
      rw [hcompletions, ← hcut]
      congr 1
      apply List.filter_congr
      intro t _
      exact Bool.and_comm _ _
    have hfind : event.expectedH1Starts.find? (fun start => tenth ≤ start) =
        some geometry.horizonAt := by
      rw [← List.head?_filter, hstarts]
      have hpred : (fun start : Instant => decide (tenth ≤ start)) =
          fun start => !decide (start < tenth) := by
        funext start
        rw [← decide_not]
        exact decide_eq_decide.mpr not_lt.symm
      rw [hpred]
      apply head?_filter_of_head? hhead
      simp [hbefore.le]
    unfold derivedHorizon
    rw [hnine, hn.horizonAt]
    exact hfind
  have hafter : ∀ value ∈ event.dCompletions, event.entryAt < value := by
    intro value hvalue
    rw [hcompletions, List.mem_filter] at hvalue
    rw [hn.entryAt]
    simpa using (Bool.and_eq_true_iff.mp hvalue.2).1
  exact ⟨by rw [hn.entryAt, hn.horizonAt]; exact hbefore, hascending, hfirst,
    by rw [hn.horizonAt]; exact hn.horizonLast, hn.ten, hdAscending, hafter, hderived⟩

/-! ## The bars of the event -/

theorem candle_ok {ev : Evidence} {code : Instrument} {granularity : Granularity} {start : Instant}
    {row : Row} (h : candle ev code granularity start = .ok row) :
    ev.candles code granularity start = some row := by
  unfold candle at h
  cases found : ev.candles code granularity start with
  | none =>
    rw [found] at h
    exact absurd h Py.raise_ne_ok
  | some other =>
    rw [found] at h
    dsimp only at h
    split_ifs at h with hcomplete
    · cases h
      rfl
    · exact absurd h Py.raise_ne_ok

/-- A bar of the adapter and the candle it was built from. -/
theorem h1Row_ok {ev : Evidence} {code : Instrument} {start : Instant} {bar : Bar}
    (h : h1Row ev code start = .ok bar) :
    ∃ row, ev.candles code .h1 start = some row ∧
      bar = ⟨start, true, true, false, row.bidOpen, row.bidHigh, row.bidLow, row.bidClose,
        row.askOpen, row.askHigh, row.askLow, row.askClose⟩ := by
  obtain ⟨row, hrow, h⟩ := Py.bind_eq_ok.mp h
  cases h
  exact ⟨row, candle_ok hrow, rfl⟩

theorem validateBar_h1Row {ev : Evidence} (hs : ev.Sealed) {code : Instrument} {start : Instant}
    {bar : Bar} (h : h1Row ev code start = .ok bar) : validateBar bar = .ok bar := by
  obtain ⟨row, hrow, rfl⟩ := h1Row_ok h
  have wellFormed := hs.rows code .h1 start row hrow
  unfold validateBar
  rw [require_bind ⟨rfl, rfl, rfl⟩, require_bind ⟨wellFormed.bidOpen.1, wellFormed.bidOpen.2,
    wellFormed.askOpen.1, wellFormed.askOpen.2⟩, require_bind ⟨wellFormed.open_, wellFormed.close⟩]
  rfl

theorem Normalized.bars {ev : Evidence} {geometry : Geometry} {evaluation : Evaluation}
    {confirmation : Confirmation} {event : Event}
    (hn : Normalized ev geometry evaluation confirmation event) :
    List.Forall₂ (fun start bar => h1Row ev geometry.instrument start = .ok bar)
      event.expectedH1Starts event.h1 :=
  Py.mapE_eq_ok_iff.mp hn.h1

theorem Normalized.barStarts {ev : Evidence} {geometry : Geometry} {evaluation : Evaluation}
    {confirmation : Confirmation} {event : Event}
    (hn : Normalized ev geometry evaluation confirmation event) :
    event.h1.map Bar.start = event.expectedH1Starts := by
  have pairs := hn.bars
  generalize event.expectedH1Starts = starts at pairs
  generalize event.h1 = bars at pairs
  induction pairs with
  | nil => rfl
  | cons hrow _ ih =>
    obtain ⟨row, _, rfl⟩ := h1Row_ok hrow
    rw [List.map_cons, ih]

/-- **The calculator accepts the input of an adapted event.** -/
theorem Normalized.eventInput {ev : Evidence} {geometry : Geometry} {evaluation : Evaluation}
    {confirmation : Confirmation} {event : Event}
    (hn : Normalized ev geometry evaluation confirmation event) (hs : ev.Sealed)
    (hg : GeometryEvent ev geometry evaluation) : eventInput event = .ok event.h1 := by
  have timed := hn.timed hs hg
  have hkey : event.physicalEventKey ≠ "" := by rw [hn.key]; exact hg.key
  have hbooks : StrictlyAscending event.books ∧ event.books ≠ [] := by rw [hn.books]; exact hg.books
  have hhorizon : event.horizonAt ∈ event.expectedH1Starts := List.mem_of_getLast? timed.last
  have hvalid : Py.mapE validateBar event.h1 = .ok event.h1 := by
    rw [Py.mapE_eq_ok_iff, List.forall₂_same]
    intro bar hbar
    obtain ⟨start, _, hrow⟩ := Py.mem_mapE hn.h1 hbar
    exact validateBar_h1Row hs hrow
  unfold Returns.eventInput
  rw [require_bind hkey, require_bind hbooks, require_bind timed.before]
  dsimp only
  rw [require_bind ⟨timed.starts, timed.first⟩, require_bind hhorizon,
    require_bind ⟨timed.ten, timed.completions, timed.after⟩, require_bind timed.derived, hvalid]
  show (require (event.h1.map Bar.start = event.expectedH1Starts) _ >>= _) = _
  rw [require_bind hn.barStarts]
  rfl

/-! ## The daily structure -/

/-- A daily row after the entry and by the boundary closed beyond the swing. -/
def Due (event : Event) (boundary : Instant) : Prop :=
  ∃ row ∈ event.daily, event.entryAt < row.completedAt ∧ row.completedAt ≤ boundary ∧
    breaks event.direction event.supportingSwing row.midClose = true

/-- The daily rows of an event: one for each expected completion, none missing or in conflict. -/
structure Daily (event : Event) : Prop where
  completions : event.daily.map DailyRow.completedAt = event.dCompletions
  distinct : event.dCompletions.Nodup
  clean : ∀ row ∈ event.daily, row.isSealed = true ∧ row.complete = true ∧ row.conflict = false

theorem Daily.members {event : Event} (h : Daily event) : DailyMembers event where
  distinct := by
    rw [h.completions]
    exact h.distinct
  member := by
    intro completed hmem
    rw [← h.completions, List.mem_map] at hmem
    obtain ⟨row, hrow, rfl⟩ := hmem
    exact ⟨row, hrow, rfl, h.clean row hrow⟩

/-- Where every row is of an expected completion, being due asks for no more than the row. -/
theorem Daily.closeDue_iff {event : Event} (h : Daily event) (boundary : Instant) :
    CloseDue event boundary ↔ Due event boundary := by
  constructor
  · rintro ⟨row, hrow, -, hdue⟩
    exact ⟨row, hrow, hdue⟩
  · rintro ⟨row, hrow, hdue⟩
    refine ⟨row, hrow, ?_, hdue⟩
    rw [← h.completions]
    exact List.mem_map_of_mem hrow

/-! ## The exit -/

/-- The bar ends the position, by structure, horizon, stop or target. -/
def Ends (event : Event) (bar : Bar) : Prop :=
  Due event bar.start ∨ bar.start = event.horizonAt ∨ (touch event bar).stopTouch = true ∨
    (touch event bar).targetTouch = true

theorem Daily.endsBy_eq_none {event : Event} (h : Daily event) (bar : Bar) :
    endsBy event bar = none ↔ ¬ Ends event bar := by
  rw [Returns.endsBy_eq_none, h.closeDue_iff]
  simp [Ends, not_or]

/-- The loop of an adapted event: one bar is the first to end the position, and it gives the exit. -/
theorem exitLoop_split {event : Event} (h : Daily event) (timed : Timed event)
    (hbars : event.h1.map Bar.start = event.expectedH1Starts) {pre : List Bar} {bar : Bar}
    {post : List Bar} (hsplit : event.h1 = pre ++ bar :: post) (hpre : ∀ b ∈ pre, ¬ Ends event b)
    (hbar : Ends event bar) :
    ∃ exit, exitLoop event true false event.h1 = .ok (some exit) ∧
      (Due event bar.start ∨ bar.start = event.horizonAt → exit.exitAt = bar.start) ∧
      (¬ (Due event bar.start ∨ bar.start = event.horizonAt) →
        exit.exitAt = bar.start + Civil.hour) := by
  have hfirst : event.h1.head?.map Bar.start = some event.entryAt := by
    rw [← List.head?_map, hbars]
    exact timed.first
  have hquiet : ∀ b ∈ pre, endsBy event b = none := fun b hb =>
    (h.endsBy_eq_none b).mpr (hpre b hb)
  obtain ⟨terminal, hends⟩ : ∃ terminal, endsBy event bar = some terminal := by
    rw [← Option.isSome_iff_exists, Option.isSome_iff_ne_none]
    intro hnone
    exact (h.endsBy_eq_none bar).mp hnone hbar
  rw [hsplit] at hfirst ⊢
  refine ⟨exitOf event bar terminal,
    exitLoop_first_end_from_entry h.members hfirst timed.before hquiet hends, ?_, ?_⟩
  · intro hopen
    rw [← h.closeDue_iff] at hopen
    rw [exitOf_exitAt hends, if_pos hopen]
  · intro hclosed
    rw [← h.closeDue_iff] at hclosed
    rw [exitOf_exitAt hends, if_neg hclosed]

/-! ## Conversions -/

theorem mid_pos {bid ask : ℚ} (hbid : 0 < bid) (hask : bid ≤ ask) : 0 < mid bid ask := by
  have hsum : 0 < Rounding.add prec bid ask := Rounding.fl_pos (by norm_num) (by linarith)
  exact Rounding.fl_pos (by norm_num) (by linarith)

/-- A leg of the adapter is the route's pair and direction, sealed, strictly prior and positive. -/
theorem conversionLeg_ok {ev : Evidence} (hs : ev.Sealed) {when_ : Instant}
    {route : Instrument × RouteDirection} {leg : Leg} (h : conversionLeg ev when_ route = .ok leg) :
    leg.pair = route.1 ∧ leg.direction = route.2 ∧
      (leg.isSealed = true ∧ leg.complete = true ∧ leg.conflict = false) ∧
      leg.completedAt < when_ ∧ 0 < leg.midpointClose := by
  obtain ⟨start, hstart, h⟩ := Py.bind_eq_ok.mp h
  obtain ⟨row, hrow, h⟩ := Py.bind_eq_ok.mp h
  cases h
  have wellFormed := hs.rows _ _ _ _ (candle_ok hrow)
  have hprior : registeredCandleCompletion start .h1 < when_ := by
    obtain ⟨_, hindex, hstart⟩ := Py.bind_eq_ok.mp hstart
    rw [runnerRequire_eq_ok] at hindex
    split at hstart
    case h_2 => exact absurd hstart Py.raise_ne_ok
    case h_1 found hfound =>
      cases hstart
      have hlast : Bisect.left (ev.completions route.1 .h1) when_ - 1 <
          Bisect.left (ev.completions route.1 .h1) when_ := by omega
      apply Bisect.lt_of_getElem?_left when_ hlast
      unfold Evidence.completions
      rw [List.getElem?_map]
      exact congrArg (Option.map _) hfound
  exact ⟨rfl, rfl, ⟨rfl, rfl, rfl⟩, hprior, mid_pos wellFormed.positive wellFormed.close⟩

/-- **A conversion the adapter gathered resolves** at its own time. -/
theorem conversionRate_ok {ev : Evidence} (hs : ev.Sealed) {currency : Currency}
    {when_ : Instant} {evidence : Conversion} (h : conversion ev currency when_ = .ok evidence) :
    ∃ rate, conversionRate evidence currency when_ = .ok rate := by
  obtain ⟨legs, hlegs, h⟩ := Py.bind_eq_ok.mp h
  cases h
  obtain ⟨hlength, hpairs⟩ := List.forall₂_iff_zip.mp (Py.mapE_eq_ok_iff.mp hlegs)
  have hfold : ∀ (rows : List (Leg × Instrument × RouteDirection)) (rate : ℚ),
      (∀ row ∈ rows, conversionLeg ev when_ row.2 = .ok row.1) →
      ∃ rate', rows.foldlM (legRate when_) rate = .ok rate' := by
    intro rows
    induction rows with
    | nil => exact fun rate _ => ⟨rate, rfl⟩
    | cons row rows ih =>
      intro rate hrows
      obtain ⟨hpair, hdirection, hclean, hprior, hpositive⟩ :=
        conversionLeg_ok hs (hrows row (by simp))
      rw [List.foldlM_cons]
      unfold legRate
      dsimp only
      rw [require_bind ⟨hpair, hdirection⟩, require_bind hclean, require_bind hprior,
        require_bind hpositive]
      exact ih _ fun other hother => hrows other (by simp [hother])
  unfold conversionRate
  rw [require_bind rfl, require_bind rfl]
  dsimp only
  rw [require_bind hlength.symm]
  apply hfold
  intro row hrow
  have hswap : (row.2, row.1) ∈ (cadRoutes currency).zip legs := by
    rw [← List.zip_swap]
    exact List.mem_map.mpr ⟨row, hrow, rfl⟩
  exact hpairs hswap

/-- The gathered conversions answer exactly for the times they were gathered for. -/
theorem lookup_gathered {ev : Evidence} {currency : Currency} {times : List Instant}
    {pairs : List (Instant × Conversion)}
    (h : Py.mapE (fun when_ => (conversion ev currency when_).map fun row => (when_, row)) times =
      .ok pairs) (when_ : Instant) :
    (when_ ∉ times → pairs.lookup when_ = none) ∧
      (when_ ∈ times → ∃ evidence, pairs.lookup when_ = some evidence ∧
        conversion ev currency when_ = .ok evidence) := by
  rw [Py.mapE_eq_ok_iff] at h
  induction h with
  | nil => simp
  | @cons time pair times pairs hpair _ ih =>
    obtain ⟨evidence, hevidence, rfl⟩ := Py.map_eq_ok.mp hpair
    by_cases heq : when_ = time
    · subst heq
      refine ⟨fun hnot => absurd List.mem_cons_self hnot, fun _ => ⟨evidence, ?_, hevidence⟩⟩
      simp
    · have hlookup : List.lookup when_ ((time, evidence) :: pairs) = pairs.lookup when_ := by
        rw [List.lookup_cons, beq_false_of_ne heq]
      rw [hlookup]
      constructor
      · intro hnot
        exact ih.1 fun hmem => hnot (List.mem_cons_of_mem _ hmem)
      · intro hmem
        exact ih.2 ((List.mem_cons.mp hmem).resolve_left heq)

/-! ## Exits no conversion was gathered for -/

/-- A daily interval completed after the entry and by the boundary, and its midpoint closed beyond
the swing. -/
def BrokenBy (ev : Evidence) (geometry : Geometry) (evaluation : Evaluation) (swing : ℚ)
    (boundary : Instant) : Prop :=
  ∃ start ∈ ev.inventory evaluation.instrument .d,
    evaluation.entryTimestamp < registeredCandleCompletion start .d ∧
    registeredCandleCompletion start .d ≤ boundary ∧
    ∃ row, ev.candles geometry.instrument .d start = some row ∧
      breaks geometry.direction swing (mid row.bidClose row.askClose) = true

/-- The candle of an hour reached the stop or the target. -/
def Touched (ev : Evidence) (geometry : Geometry) (stop target : ℚ) (start : Instant) : Prop :=
  ∃ row, ev.candles geometry.instrument .h1 start = some row ∧
    match geometry.direction with
    | .long => row.bidLow ≤ stop ∨ target ≤ row.bidHigh
    | .short => stop ≤ row.askHigh ∨ row.askLow ≤ target

/-- The first hour that opens after a daily break, no earlier hour having reached stop or target,
opens at a time that is not the entry, the horizon, the end of an hour of the event, a rollover or a
17:00 mark. -/
def StrandedExit (ev : Evidence) (geometry : Geometry) (evaluation : Evaluation)
    (confirmation : Confirmation) : Prop :=
  ∃ swing stop target, confirmation.supportingSwing = some swing ∧
    evaluation.stopPrice = some stop ∧ evaluation.targetPrice = some target ∧
    ∃ pre start post,
      h1StartsOf ev evaluation.instrument evaluation.entryTimestamp geometry.horizonAt =
        pre ++ start :: post ∧
      (∀ earlier ∈ pre, ¬ BrokenBy ev geometry evaluation swing earlier ∧
        ¬ Touched ev geometry stop target earlier) ∧
      BrokenBy ev geometry evaluation swing start ∧
      start ∉ possible evaluation.entryTimestamp geometry.horizonAt
        (h1StartsOf ev evaluation.instrument evaluation.entryTimestamp geometry.horizonAt)

section
variable {ev : Evidence} {geometry : Geometry} {evaluation : Evaluation}
  {confirmation : Confirmation} {event : Event}

/-- The daily starts of the event with their completions. -/
theorem Normalized.dailyPairs (hn : Normalized ev geometry evaluation confirmation event) :
    ∃ starts : List Instant, (∀ start ∈ starts, start ∈ ev.inventory evaluation.instrument .d) ∧
      event.dCompletions = starts.map (registeredCandleCompletion · .d) ∧
      Py.mapE (dailyRow ev geometry.instrument)
        (starts.map fun start => (start, registeredCandleCompletion start .d)) =
          .ok event.daily := by
  refine ⟨dailySection ev evaluation.instrument evaluation.entryTimestamp geometry.horizonAt
    (ev.inventory evaluation.instrument .d), ?_, ?_, ?_⟩
  · intro start hstart
    exact List.mem_of_mem_drop (List.mem_of_mem_take hstart)
  · rw [hn.dCompletions]
    unfold dailySection slice
    dsimp only
    rw [List.map_take, List.map_drop]
    rfl
  · rw [← hn.daily, hn.dCompletions]
    congr 1
    unfold dailySection slice
    dsimp only
    generalize Bisect.right (ev.completions evaluation.instrument .d) evaluation.entryTimestamp = i
    generalize Bisect.right (ev.completions evaluation.instrument .d) geometry.horizonAt - i = j
    unfold Evidence.completions
    rw [← List.map_drop, ← List.map_take]
    exact List.map_prod_left_eq_zip

theorem Normalized.dailyClean (hn : Normalized ev geometry evaluation confirmation event)
    (timed : Timed event) : Daily event := by
  obtain ⟨starts, -, hcompletions, hrows⟩ := hn.dailyPairs
  refine ⟨?_, timed.completions.imp ne_of_lt, ?_⟩
  · rw [hcompletions]
    clear hcompletions
    rw [Py.mapE_eq_ok_iff, List.forall₂_map_left_iff] at hrows
    generalize event.daily = daily at hrows
    induction hrows with
    | nil => rfl
    | cons hrow _ ih =>
      obtain ⟨row, _, hbuilt⟩ := Py.bind_eq_ok.mp hrow
      cases hbuilt
      rw [List.map_cons, List.map_cons, ih]
  · intro row hrow
    obtain ⟨pair, _, hbuilt⟩ := Py.mem_mapE hrows hrow
    obtain ⟨_, _, hbuilt⟩ := Py.bind_eq_ok.mp hbuilt
    cases hbuilt
    exact ⟨rfl, rfl, rfl⟩

/-- A daily break of the event is a daily break of the evidence. -/
theorem Normalized.due_iff (hn : Normalized ev geometry evaluation confirmation event)
    (hs : ev.Sealed) (hbefore : evaluation.entryTimestamp ≤ geometry.horizonAt)
    {boundary : Instant} (hb : boundary ≤ geometry.horizonAt) :
    Due event boundary ↔ BrokenBy ev geometry evaluation event.supportingSwing boundary := by
  obtain ⟨starts, hinventory, hcompletions, hrows⟩ := hn.dailyPairs
  constructor
  · rintro ⟨row, hrow, hafter, hby, hbreaks⟩
    obtain ⟨pair, hpair, hbuilt⟩ := Py.mem_mapE hrows hrow
    obtain ⟨start, hstart, rfl⟩ := List.mem_map.mp hpair
    obtain ⟨candle, hcandle, hbuilt⟩ := Py.bind_eq_ok.mp hbuilt
    cases hbuilt
    rw [hn.entryAt] at hafter
    rw [hn.direction] at hbreaks
    exact ⟨start, hinventory start hstart, hafter, hby, candle, candle_ok hcandle, hbreaks⟩
  · rintro ⟨start, hstart, hafter, hby, row, hrow, hbreaks⟩
    have hin : registeredCandleCompletion start .d ∈ event.dCompletions := by
      rw [hn.dCompletions, dailySection_completions hs hbefore, List.mem_filter]
      exact ⟨List.mem_map_of_mem hstart, by simp [hafter, hby.trans hb]⟩
    rw [hcompletions, List.mem_map] at hin
    obtain ⟨other, hother, hsame⟩ := hin
    have hnodup : ((ev.inventory evaluation.instrument .d).map
        (registeredCandleCompletion · .d)).Nodup := (hs.daily evaluation.instrument).imp ne_of_lt
    obtain rfl : other = start :=
      List.inj_on_of_nodup_map hnodup (hinventory other hother) hstart hsame
    obtain ⟨built, hbuilt, hbuild⟩ := Py.exists_mem_of_mapE hrows
      (List.mem_map.mpr ⟨other, hother, rfl⟩)
    obtain ⟨candle, hcandle, hbuild⟩ := Py.bind_eq_ok.mp hbuild
    cases hbuild
    have hcandle' := candle_ok hcandle
    rw [hrow] at hcandle'
    cases hcandle'
    refine ⟨_, hbuilt, ?_, hby, ?_⟩
    · rw [hn.entryAt]
      exact hafter
    · rw [hn.direction]
      exact hbreaks

/-- A touch of the event is a touch of the evidence. -/
theorem Normalized.touch_iff (hn : Normalized ev geometry evaluation confirmation event)
    {start : Instant} {bar : Bar} (h : h1Row ev geometry.instrument start = .ok bar) :
    ((touch event bar).stopTouch = true ∨ (touch event bar).targetTouch = true) ↔
      Touched ev geometry event.stop event.target start := by
  obtain ⟨row, hrow, rfl⟩ := h1Row_ok h
  have hdirection := hn.direction
  unfold touch Touched
  rw [hdirection]
  generalize geometry.direction = side
  constructor
  · intro ht
    refine ⟨row, hrow, ?_⟩
    cases side <;> simpa using ht
  · rintro ⟨other, hother, ht⟩
    rw [hrow] at hother
    cases hother
    cases side <;> simpa using ht

/-- The opening hour of an adapted event. -/
theorem Normalized.opening (hn : Normalized ev geometry evaluation confirmation event)
    (timed : Timed event) :
    ∃ row, ev.candles geometry.instrument .h1 evaluation.entryTimestamp = some row ∧
      event.entryBid = row.bidOpen ∧ event.entryAsk = row.askOpen := by
  have hbars := hn.bars
  have hhead := timed.first
  have hfirst := hn.first
  generalize event.expectedH1Starts = starts at hbars hhead
  generalize event.h1 = bars at hbars hfirst
  cases hbars with
  | nil => simp at hhead
  | @cons start bar _ _ hrow _ =>
    obtain ⟨row, hcandle, rfl⟩ := h1Row_ok hrow
    obtain rfl : start = evaluation.entryTimestamp := by
      rw [← hn.entryAt]
      simpa using hhead
    refine ⟨row, hcandle, ?_, ?_⟩
    · simpa using hfirst.1.symm
    · simpa using hfirst.2.symm

/-- The entry geometry of a pending evaluation is the geometry the calculator asks for. -/
theorem Normalized.entryGeometry (hn : Normalized ev geometry evaluation confirmation event)
    (hs : ev.Sealed) (timed : Timed event)
    (hp : ∀ opening, ev.candles geometry.instrument .h1 evaluation.entryTimestamp = some opening →
      EntryPending geometry.direction opening evaluation) :
    event.geometry ∧ event.fillable ∧ 0 < event.riskPerUnitCad := by
  obtain ⟨row, hrow, hbid, hask⟩ := hn.opening timed
  have hspread := (hs.rows _ _ _ _ hrow).open_
  obtain ⟨hrisk, hside⟩ := hp row hrow _ _ _ _ hn.entryPrice hn.stopPrice hn.targetPrice hn.risk
  have hdirection := hn.direction
  refine ⟨?_, ?_, hrisk⟩
  · unfold Event.geometry
    rw [hdirection]
    cases hd : geometry.direction with
    | long =>
      rw [hd] at hside
      have hentry : event.entry = row.askOpen := hside.2.1
      exact ⟨by rw [hentry]; exact lt_of_lt_of_le hside.1 hspread, hside.2.2⟩
    | short =>
      rw [hd] at hside
      have hentry : event.entry = row.bidOpen := hside.2.1
      exact ⟨hside.2.2, by rw [hentry]; exact lt_of_le_of_lt hspread hside.1⟩
  · unfold Event.fillable
    rw [hdirection]
    cases hd : geometry.direction with
    | long =>
      rw [hd] at hside
      rw [hbid]
      exact hside.1
    | short =>
      rw [hd] at hside
      rw [hask]
      exact hside.1

end

/-- `resolve_event` returned the terminal `UNRESOLVED_DATA`. -/
def Unresolved (result : Except Exc Resolution) : Prop :=
  ∃ books key reason, result = .ok (.unresolvedData books key reason)

theorem money_cases (value : ℚ) :
    (∃ amount, money value = .ok amount) ∨ money value = Py.raise .invalidOperation := by
  unfold money
  split_ifs
  · exact Or.inr rfl
  · exact Or.inl ⟨_, rfl⟩

/-- What the two quantizations raise is not a refusal. -/
theorem rounded_not_unresolved (cad r : ℚ) (build : ℚ → ℚ → Resolved)
    (handle : Exc → Except Exc Resolution) {books : List String} {key reason : String} :
    Py.tryExcept (money cad >>= fun cad => ratio r >>= fun r => pure (.resolved (build cad r)))
      [returnRefusal] handle ≠ .ok (.unresolvedData books key reason) := by
  intro h
  rcases money_cases cad with ⟨cad', hcad⟩ | hcad <;> rw [hcad] at h
  · rcases money_cases r with ⟨r', hr⟩ | hr <;> rw [ratio, hr] at h <;> cases h
  · cases h

/-- With its input accepted and its exit found, an event is unresolved exactly when the exit's
conversion is refused. -/
theorem unresolved_of_exit {event : Event} {exit : Exit} (hinput : eventInput event = .ok event.h1)
    (hfill : event.h1.head?.map Bar.bidOpen = some event.entryBid ∧
      event.h1.head?.map Bar.askOpen = some event.entryAsk)
    (hgeometry : event.geometry) (hfillable : event.fillable) (hrisk : 0 < event.riskPerUnitCad)
    (hexit : exitLoop event true false event.h1 = .ok (some exit)) :
    (event.conversion.lookup exit.exitAt = none → Unresolved (resolveEvent event)) ∧
      (∀ rate, exitConversion event exit.exitAt = .ok rate →
        ¬ Unresolved (resolveEvent event)) := by
  constructor
  · intro hnone
    have hraise : exitConversion event exit.exitAt =
        Py.raise returnRefusal "missing point-in-time CAD conversion evidence" := by
      unfold exitConversion
      rw [hnone]
    refine ⟨event.books, event.physicalEventKey,
      "missing point-in-time CAD conversion evidence", ?_⟩
    unfold resolveEvent resolveBody
    rw [hinput]
    show Py.tryExcept (require _ _ >>= _) _ _ = _
    rw [require_bind hfill, require_bind hgeometry, require_bind hfillable, hexit]
    show Py.tryExcept (exitConversion event exit.exitAt >>= _) _ _ = _
    rw [hraise]
    rfl
  · rintro rate hrate ⟨books, key, reason, hresolved⟩
    unfold resolveEvent resolveBody at hresolved
    rw [hinput] at hresolved
    change Py.tryExcept (require _ _ >>= _) _ _ = _ at hresolved
    rw [require_bind hfill, require_bind hgeometry, require_bind hfillable, hexit] at hresolved
    change Py.tryExcept (exitConversion event exit.exitAt >>= _) _ _ = _ at hresolved
    rw [hrate] at hresolved
    change Py.tryExcept (require _ _ >>= _) _ _ = _ at hresolved
    rw [require_bind hrisk] at hresolved
    exact rounded_not_unresolved _ _ _ _ hresolved

section
variable {ev : Evidence} {geometry : Geometry} {evaluation : Evaluation}
  {confirmation : Confirmation} {event : Event}

/-- An adapted event is unresolved exactly when its exit is none of the possible times. -/
theorem Normalized.unresolved_iff (hn : Normalized ev geometry evaluation confirmation event)
    (hs : ev.Sealed) (hg : GeometryEvent ev geometry evaluation)
    (hp : ∀ opening, ev.candles geometry.instrument .h1 evaluation.entryTimestamp = some opening →
      EntryPending geometry.direction opening evaluation)
    {exit : Exit} (hexit : exitLoop event true false event.h1 = .ok (some exit)) :
    Unresolved (resolveEvent event) ↔
      exit.exitAt ∉ possible evaluation.entryTimestamp geometry.horizonAt
        event.expectedH1Starts := by
  have timed := hn.timed hs hg
  obtain ⟨hgeometry, hfillable, hrisk⟩ := hn.entryGeometry hs timed hp
  obtain ⟨hnone, hsome⟩ :=
    unresolved_of_exit (hn.eventInput hs hg) hn.first hgeometry hfillable hrisk hexit
  obtain ⟨hmissing, hgathered⟩ := lookup_gathered hn.conversion exit.exitAt
  rw [mem_sortedSet] at hmissing hgathered
  constructor
  · intro hunresolved hmem
    obtain ⟨evidence, hlookup, hconversion⟩ := hgathered hmem
    obtain ⟨rate, hrate⟩ := conversionRate_ok hs hconversion
    refine hsome rate ?_ hunresolved
    unfold exitConversion
    rw [hlookup, hn.instrument]
    exact hrate
  · intro hnot
    exact hnone (hmissing hnot)

/-- A bar of the event is the adapter's row of its own start, an hour through the horizon. -/
theorem Normalized.bar_mem (hn : Normalized ev geometry evaluation confirmation event)
    (hbefore : evaluation.entryTimestamp ≤ geometry.horizonAt) {bar : Bar}
    (hbar : bar ∈ event.h1) :
    h1Row ev geometry.instrument bar.start = .ok bar ∧ bar.start ≤ geometry.horizonAt ∧
      bar.start ∈ event.expectedH1Starts := by
  obtain ⟨start, hstart, hrow⟩ := Py.mem_mapE hn.h1 hbar
  have hat : bar.start = start := by
    obtain ⟨row, _, rfl⟩ := h1Row_ok hrow
    rfl
  rw [hat]
  refine ⟨hrow, ?_, hstart⟩
  rw [hn.starts, h1StartsOf_eq hbefore, List.mem_filter] at hstart
  simpa using (Bool.and_eq_true_iff.mp hstart.2).2

/-- A bar short of the horizon ends the position exactly when the evidence breaks or is touched. -/
theorem Normalized.ends_iff (hn : Normalized ev geometry evaluation confirmation event)
    (hs : ev.Sealed) (hbefore : evaluation.entryTimestamp ≤ geometry.horizonAt) {bar : Bar}
    (hbar : bar ∈ event.h1) :
    Ends event bar ↔ BrokenBy ev geometry evaluation event.supportingSwing bar.start ∨
      bar.start = geometry.horizonAt ∨ Touched ev geometry event.stop event.target bar.start := by
  obtain ⟨hrow, hle, _⟩ := hn.bar_mem hbefore hbar
  unfold Ends
  rw [hn.due_iff hs hbefore hle, hn.touch_iff hrow, hn.horizonAt]

end

/-- **Adapter and calculator.** For sealed evidence, an event of the geometry and a pending
evaluation from which the adapter builds an event, the calculator resolves it unless the position's
exit is an open no conversion was gathered for. -/
theorem adapted_resolves_iff {ev : Evidence} {geometry : Geometry} {evaluation : Evaluation}
    {confirmation : Confirmation} {event : Event} (hs : ev.Sealed)
    (hg : GeometryEvent ev geometry evaluation)
    (hp : ∀ opening, ev.candles geometry.instrument .h1 evaluation.entryTimestamp = some opening →
      EntryPending geometry.direction opening evaluation)
    (h : normalizeEvent ev geometry evaluation confirmation = .ok event) :
    ¬ Unresolved (resolveEvent event) ↔ ¬ StrandedExit ev geometry evaluation confirmation := by
  have hn := normalizeEvent_ok h
  have timed := hn.timed hs hg
  have daily := hn.dailyClean timed
  have hbefore : evaluation.entryTimestamp ≤ geometry.horizonAt := by
    rw [← hn.entryAt, ← hn.horizonAt]
    exact timed.before.le
  rw [not_iff_not]
  constructor
  · -- an unresolved event left at an open that is none of the possible times
    intro hunresolved
    have hends : ∃ bar ∈ event.h1, Ends event bar := by
      have hlast := timed.last
      rw [← hn.barStarts, List.getLast?_map, Option.map_eq_some_iff] at hlast
      obtain ⟨bar, hbar, hat⟩ := hlast
      exact ⟨bar, List.mem_of_getLast? hbar, Or.inr (Or.inl hat)⟩
    obtain ⟨pre, bar, post, hsplit, hpre, hbar⟩ := exists_first hends
    have hmem : bar ∈ event.h1 := by simp [hsplit]
    obtain ⟨_, hle, hstart⟩ := hn.bar_mem hbefore hmem
    obtain ⟨exit, hexit, hopen, hclose⟩ :=
      exitLoop_split daily timed hn.barStarts hsplit hpre hbar
    rw [hn.unresolved_iff hs hg hp hexit] at hunresolved
    have hdue : Due event bar.start ∧ exit.exitAt = bar.start := by
      by_cases hat : Due event bar.start ∨ bar.start = event.horizonAt
      · refine ⟨hat.resolve_right fun hh => hunresolved ?_, hopen hat⟩
        rw [hopen hat, hh, hn.horizonAt]
        simp [possible]
      · exfalso
        apply hunresolved
        rw [hclose hat]
        simp only [possible, List.cons_append, List.mem_cons, List.mem_append, List.mem_map]
        exact Or.inr (Or.inr (Or.inl (Or.inl ⟨bar.start, hstart, rfl⟩)))
    refine ⟨event.supportingSwing, event.stop, event.target, hn.swing, hn.stopPrice,
      hn.targetPrice, pre.map Bar.start, bar.start, post.map Bar.start, ?_, ?_, ?_, ?_⟩
    · rw [← hn.starts, ← hn.barStarts, hsplit]
      simp
    · intro earlier hearlier
      obtain ⟨other, hother, rfl⟩ := List.mem_map.mp hearlier
      have hnot := hpre other hother
      rw [hn.ends_iff hs hbefore (by simp [hsplit, hother])] at hnot
      exact ⟨fun hb => hnot (Or.inl hb), fun ht => hnot (Or.inr (Or.inr ht))⟩
    · exact (hn.due_iff hs hbefore hle).mp hdue.1
    · rw [← hdue.2, ← hn.starts]
      exact hunresolved
  · -- the first broken open, untouched before, is the exit
    rintro ⟨swing, stop, target, hswing, hstop, htarget, pre, start, post, hsplit, hpre, hbroken,
      hstranded⟩
    obtain rfl : event.supportingSwing = swing := Option.some.inj (hn.swing.symm.trans hswing)
    obtain rfl : event.stop = stop := Option.some.inj (hn.stopPrice.symm.trans hstop)
    obtain rfl : event.target = target := Option.some.inj (hn.targetPrice.symm.trans htarget)
    rw [← hn.starts] at hsplit hstranded
    have hbars := hn.barStarts
    rw [hsplit] at hbars
    obtain ⟨preBars, restBars, hlist, hpreBars, hrest⟩ := List.map_eq_append_iff.mp hbars
    obtain ⟨bar, postBars, rfl, rfl, -⟩ := List.map_eq_cons_iff.mp hrest
    have hmem : bar ∈ event.h1 := by simp [hlist]
    obtain ⟨_, hle, _⟩ := hn.bar_mem hbefore hmem
    have hdue : Due event bar.start := (hn.due_iff hs hbefore hle).mpr hbroken
    have hquiet : ∀ b ∈ preBars, ¬ Ends event b := by
      intro b hb
      have hearlier : b.start ∈ pre := by
        rw [← hpreBars]
        exact List.mem_map_of_mem hb
      have hlt : b.start < bar.start := by
        have hascending := timed.starts
        rw [hsplit] at hascending
        exact (List.pairwise_append.mp hascending).2.2 b.start hearlier bar.start (by simp)
      rw [hn.ends_iff hs hbefore (by simp [hlist, hb])]
      rintro (hb' | hh | ht)
      · exact (hpre b.start hearlier).1 hb'
      · exact absurd (hh ▸ hlt) (not_lt.mpr hle)
      · exact (hpre b.start hearlier).2 ht
    obtain ⟨exit, hexit, hopen, _⟩ :=
      exitLoop_split daily timed hn.barStarts hlist hquiet (Or.inl hdue)
    rw [hn.unresolved_iff hs hg hp hexit, hopen (Or.inl hdue)]
    exact hstranded

/-! ## A missing hour after a daily break -/

/-- Whether an adapted event comes back unresolved, when the adapter builds one. -/
def comesBackUnresolved (ev : Evidence) (geometry : Geometry) (evaluation : Evaluation)
    (confirmation : Confirmation) : Option Bool :=
  match normalizeEvent ev geometry evaluation confirmation with
  | .error _ => none
  | .ok event =>
    match resolveEvent event with
    | .ok (.unresolvedData _ _ _) => some true
    | _ => some false

theorem comesBackUnresolved_spec {ev : Evidence} {geometry : Geometry} {evaluation : Evaluation}
    {confirmation : Confirmation} {unresolved : Bool}
    (h : comesBackUnresolved ev geometry evaluation confirmation = some unresolved) :
    ∃ event, normalizeEvent ev geometry evaluation confirmation = .ok event ∧
      (Unresolved (resolveEvent event) ↔ unresolved = true) := by
  unfold comesBackUnresolved at h
  cases built : normalizeEvent ev geometry evaluation confirmation with
  | error e => simp [built] at h
  | ok event =>
    rw [built] at h
    refine ⟨event, rfl, ?_⟩
    unfold Unresolved
    cases result : resolveEvent event with
    | error e => simp_all
    | ok resolution =>
      cases resolution with
      | resolved _ => simp_all
      | unresolvedData books key reason => simp_all

/-- A Monday at 10:00 in New York, 2010-01-04. -/
def gapEntry : Instant := 14613 * Civil.day + 15 * Civil.hour

/-- The Sunday at 17:00 after the tenth daily completion. -/
def gapHorizon : Instant := 14626 * Civil.day + 22 * Civil.hour

/-- Ten daily starts, at 17:00 in New York. -/
def gapDays : List Instant :=
  [14612, 14613, 14614, 14615, 14616, 14619, 14620, 14621, 14622, 14623].map
    fun days => days * Civil.day + 22 * Civil.hour

/-- Three observed hours, the entry, another and the horizon; every daily candle closes below the
swing. -/
def gapEvidence (second : Instant) : Evidence where
  observations := fun code granularity =>
    match code, granularity with
    | .usdCad, .h1 => [gapEntry, second, gapHorizon]
    | .usdCad, .d => gapDays
    | _, _ => []
  candles := fun _ granularity _ =>
    match granularity with
    | .h1 => some ⟨true, 100, 100, 100, 100, 101, 101, 101, 101⟩
    | .d => some ⟨true, 98, 98, 98, 98, 99, 99, 99, 99⟩

def gapGeometry : Geometry := ⟨"event", ["book"], .usdCad, .long, gapHorizon, "hash"⟩

def gapEvaluation : Evaluation := ⟨.usdCad, gapEntry, some 101, some 90, some 120, some 11⟩

def gapConfirmation : Confirmation := ⟨gapEntry, some 99, "hash"⟩

theorem gapEvidence_sealed (second : Instant) : (gapEvidence second).Sealed where
  rows := by
    intro code granularity start row hrow
    cases granularity <;> cases hrow <;> constructor <;> norm_num
  daily := by
    have days : ((sortedSet gapDays).map (registeredCandleCompletion · .d)).Pairwise (· < ·) := by
      decide
    have none_ : ((sortedSet []).map (registeredCandleCompletion · .d)).Pairwise (· < ·) := by
      decide
    intro code
    cases code <;> first | exact days | exact none_

theorem gapEvaluation_pending (second : Instant) (opening : Row)
    (h : (gapEvidence second).candles .usdCad .h1 gapEntry = some opening) :
    EntryPending .long opening gapEvaluation := by
  cases h
  intro entry stop target risk hentry hstop htarget hrisk
  cases hentry
  cases hstop
  cases htarget
  cases hrisk
  norm_num

/-- Where the second hour opens at 17:00, the time of a mark, nothing is stranded. -/
theorem adapted_resolves_iff_mark :
    ∃ event, normalizeEvent (gapEvidence (gapEntry + 7 * Civil.hour)) gapGeometry gapEvaluation
        gapConfirmation = .ok event ∧
      ¬ StrandedExit (gapEvidence (gapEntry + 7 * Civil.hour)) gapGeometry gapEvaluation
        gapConfirmation := by
  have run : comesBackUnresolved (gapEvidence (gapEntry + 7 * Civil.hour)) gapGeometry
      gapEvaluation gapConfirmation = some false := by decide +kernel
  obtain ⟨event, built, resolved⟩ := comesBackUnresolved_spec run
  have geometry : GeometryEvent (gapEvidence (gapEntry + 7 * Civil.hour)) gapGeometry
      gapEvaluation :=
    ⟨rfl, by decide, by decide, by decide, by decide⟩
  refine ⟨event, built, ?_⟩
  exact (adapted_resolves_iff (gapEvidence_sealed _) geometry (gapEvaluation_pending _) built).mp
    (by rw [resolved]; decide)

/-- Where it opens at 18:00, one hour after the break and after no hour of the event, the adapter
builds the event and the calculator returns it unresolved. -/
theorem gap_open_unresolved :
    (gapEvidence (gapEntry + 8 * Civil.hour)).Sealed ∧
    GeometryEvent (gapEvidence (gapEntry + 8 * Civil.hour)) gapGeometry gapEvaluation ∧
    (∀ opening, (gapEvidence (gapEntry + 8 * Civil.hour)).candles .usdCad .h1 gapEntry =
      some opening → EntryPending .long opening gapEvaluation) ∧
    ∃ event, normalizeEvent (gapEvidence (gapEntry + 8 * Civil.hour)) gapGeometry gapEvaluation
        gapConfirmation = .ok event ∧ Unresolved (resolveEvent event) := by
  have run : comesBackUnresolved (gapEvidence (gapEntry + 8 * Civil.hour)) gapGeometry
      gapEvaluation gapConfirmation = some true := by decide +kernel
  obtain ⟨event, built, unresolved⟩ := comesBackUnresolved_spec run
  exact ⟨gapEvidence_sealed _, ⟨rfl, by decide, by decide, by decide, by decide⟩,
    gapEvaluation_pending _, event, built, unresolved.mpr rfl⟩

end TradeRecommender.Strategy.Returns
