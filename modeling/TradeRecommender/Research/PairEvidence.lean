import Mathlib.Data.List.Induction
import Mathlib.Data.List.Sort
import Mathlib.Data.String.Basic
import TradeRecommender.Lib.Vintage
import TradeRecommender.Research.Records

/-!
# The events of a pair's evidence

The selection of upcoming events in `capture_pair_evidence`: the rows of the pair's jurisdictions
that were known at the capture and fall into its window, the newest of each key, by event time.
-/

namespace TradeRecommender.Research

open Py Civil

/-- `Instrument`, the columns the capture reads. -/
structure Instrument where
  code : String
  baseCurrency : String
  quoteCurrency : String

/-- The jurisdiction of each currency. -/
def jurisdictions : List (String × String) :=
  [("USD", "US"), ("CAD", "CA"), ("GBP", "GB"), ("EUR", "EU")]

/-- The jurisdictions of a pair. -/
def pairJurisdictions (instrument : Instrument) : Except Exc (List String) := do
  let base ← match jurisdictions.lookup instrument.baseCurrency with
    | some code => pure code
    | none => raise .keyError instrument.baseCurrency
  let quote ← match jurisdictions.lookup instrument.quoteCurrency with
    | some code => pure code
    | none => raise .keyError instrument.quoteCurrency
  return [base, quote]

/-- An event time in the window of a capture. -/
def inCaptureWindow (capturedAt eventAt : Instant) : Bool :=
  capturedAt - day ≤ eventAt && eventAt ≤ capturedAt + 45 * day

/-- The rows the query keeps. -/
def isUpcoming (places : List String) (capturedAt : Instant) (row : EconomicEvent) : Bool :=
  row.country ∈ places && row.firstObservedAt ≤ capturedAt &&
    inCaptureWindow capturedAt row.eventAt

/-- `order_by("provider_event_key", "-first_observed_at")`. -/
def eventOrder (a b : EconomicEvent) : Bool :=
  a.providerEventKey < b.providerEventKey ||
    (a.providerEventKey = b.providerEventKey && b.firstObservedAt ≤ a.firstObservedAt)

/-- `latest_events.setdefault(key, event)` over the rows. -/
def latestEvents (rows : List EconomicEvent) : List EconomicEvent :=
  rows.foldl (fun kept row =>
    if kept.any (·.providerEventKey = row.providerEventKey) then kept else kept ++ [row]) []

/-- The events a capture lists. -/
def upcomingEvents (places : List String) (capturedAt : Instant) (db : Db) :
    List EconomicEvent :=
  let eventRows := (db.events.filter (isUpcoming places capturedAt)).mergeSort eventOrder
  (latestEvents eventRows).mergeSort fun a b => a.eventAt ≤ b.eventAt

/-! ## What the selection keeps -/

theorem latestEvents_concat (rows : List EconomicEvent) (row : EconomicEvent) :
    latestEvents (rows ++ [row]) =
      if (latestEvents rows).any (·.providerEventKey = row.providerEventKey) then
        latestEvents rows
      else latestEvents rows ++ [row] := by
  simp [latestEvents]

theorem exists_key_latestEvents {rows : List EconomicEvent} {key : String} :
    (∃ row ∈ latestEvents rows, row.providerEventKey = key) ↔
      ∃ row ∈ rows, row.providerEventKey = key := by
  induction rows using List.reverseRecOn with
  | nil => simp [latestEvents]
  | append_singleton rows row ih =>
    rw [latestEvents_concat]
    by_cases known : (latestEvents rows).any (·.providerEventKey = row.providerEventKey)
    · rw [if_pos known, ih]
      obtain ⟨kept, hkept, same⟩ := List.any_eq_true.mp known
      constructor
      · rintro ⟨found, h, hk⟩
        exact ⟨found, List.mem_append_left _ h, hk⟩
      · rintro ⟨found, h, hk⟩
        rcases List.mem_append.mp h with h | h
        · exact ⟨found, h, hk⟩
        · obtain rfl := List.mem_singleton.mp h
          exact ih.mp ⟨kept, hkept, (of_decide_eq_true same).trans hk⟩
    · rw [if_neg known]
      simp only [List.mem_append, List.mem_singleton, or_and_right, exists_or, ih]

/-- The first row of a key is the one `setdefault` keeps. -/
theorem mem_latestEvents {rows : List EconomicEvent} {row : EconomicEvent} :
    row ∈ latestEvents rows ↔ ∃ pre post, rows = pre ++ row :: post ∧
      ∀ other ∈ pre, other.providerEventKey ≠ row.providerEventKey := by
  induction rows using List.reverseRecOn with
  | nil => simp [latestEvents]
  | append_singleton rows last ih =>
    have known_iff : (latestEvents rows).any (·.providerEventKey = last.providerEventKey) = true ↔
        ∃ other ∈ rows, other.providerEventKey = last.providerEventKey := by
      rw [← exists_key_latestEvents]
      simp
    have split_iff : (∃ pre post, rows ++ [last] = pre ++ row :: post ∧
          ∀ other ∈ pre, other.providerEventKey ≠ row.providerEventKey) ↔
        (∃ pre post, rows = pre ++ row :: post ∧
          ∀ other ∈ pre, other.providerEventKey ≠ row.providerEventKey) ∨
        (row = last ∧ ∀ other ∈ rows, other.providerEventKey ≠ last.providerEventKey) := by
      constructor
      · rintro ⟨pre, post, split, fresh⟩
        rcases List.eq_nil_or_concat post with rfl | ⟨post, end', rfl⟩
        · obtain ⟨rfl, h⟩ := List.append_inj' split rfl
          cases h
          exact Or.inr ⟨rfl, fresh⟩
        · rw [List.concat_eq_append, ← List.cons_append, ← List.append_assoc] at split
          obtain ⟨rfl, h⟩ := List.append_inj' split rfl
          exact Or.inl ⟨pre, post, rfl, fresh⟩
      · rintro (⟨pre, post, rfl, fresh⟩ | ⟨rfl, fresh⟩)
        · exact ⟨pre, post ++ [last], by simp, fresh⟩
        · exact ⟨rows, [], rfl, fresh⟩
    rw [latestEvents_concat, split_iff]
    by_cases known : (latestEvents rows).any (·.providerEventKey = last.providerEventKey)
    · rw [if_pos known, ih]
      refine ⟨Or.inl, ?_⟩
      rintro (h | ⟨-, fresh⟩)
      · exact h
      · obtain ⟨other, hother, same⟩ := known_iff.mp known
        exact absurd same (fresh other hother)
    · rw [if_neg known, List.mem_append, List.mem_singleton, ih]
      refine or_congr_right (and_iff_left_of_imp ?_).symm
      rintro rfl other hother same
      exact known (known_iff.mpr ⟨other, hother, same⟩)

theorem eventOrder_trans (a b c : EconomicEvent) (hab : eventOrder a b) (hbc : eventOrder b c) :
    eventOrder a c := by
  simp only [eventOrder, Bool.or_eq_true, Bool.and_eq_true, decide_eq_true_eq] at *
  rcases hab with hab | ⟨hab, tab⟩ <;> rcases hbc with hbc | ⟨hbc, tbc⟩
  · exact Or.inl (lt_trans hab hbc)
  · exact Or.inl (hbc ▸ hab)
  · exact Or.inl (hab ▸ hbc)
  · exact Or.inr ⟨hab.trans hbc, le_trans tbc tab⟩

theorem eventOrder_total (a b : EconomicEvent) : (eventOrder a b || eventOrder b a) = true := by
  simp only [eventOrder, Bool.or_eq_true, Bool.and_eq_true, decide_eq_true_eq]
  rcases lt_trichotomy a.providerEventKey b.providerEventKey with h | h | h
  · exact Or.inl (Or.inl h)
  · rcases le_total b.firstObservedAt a.firstObservedAt with t | t
    · exact Or.inl (Or.inr ⟨h, t⟩)
    · exact Or.inr (Or.inr ⟨h.symm, t⟩)
  · exact Or.inr (Or.inl h)

/-- Where the rows of a key were first observed at different times, a capture lists the newest of
its upcoming rows. -/
theorem mem_upcomingEvents {places : List String} {capturedAt : Instant} {db : Db}
    {row : EconomicEvent}
    (distinct : ∀ a ∈ db.events, ∀ b ∈ db.events, a.providerEventKey = row.providerEventKey →
      b.providerEventKey = row.providerEventKey → a.firstObservedAt = b.firstObservedAt → a = b) :
    row ∈ upcomingEvents places capturedAt db ↔
      row ∈ db.events ∧ isUpcoming places capturedAt row ∧
      ∀ other ∈ db.events, isUpcoming places capturedAt other →
        other.providerEventKey = row.providerEventKey →
        other.firstObservedAt ≤ row.firstObservedAt := by
  have sorted : ((db.events.filter (isUpcoming places capturedAt)).mergeSort eventOrder).Pairwise
      fun a b => eventOrder a b :=
    List.pairwise_mergeSort eventOrder_trans eventOrder_total _
  have member {other : EconomicEvent} :
      other ∈ (db.events.filter (isUpcoming places capturedAt)).mergeSort eventOrder ↔
        other ∈ db.events ∧ isUpcoming places capturedAt other := by
    rw [List.mem_mergeSort, List.mem_filter]
  unfold upcomingEvents
  rw [List.mem_mergeSort, mem_latestEvents]
  generalize (db.events.filter (isUpcoming places capturedAt)).mergeSort eventOrder = rows
    at sorted member
  constructor
  · rintro ⟨pre, post, rfl, fresh⟩
    obtain ⟨stored, upcoming⟩ := member.mp (by simp : row ∈ pre ++ row :: post)
    refine ⟨stored, upcoming, fun other hother hupcoming same => ?_⟩
    have here := member.mpr ⟨hother, hupcoming⟩
    rcases List.mem_append.mp here with h | h
    · exact absurd same (fresh other h)
    · rcases List.mem_cons.mp h with rfl | h
      · exact le_rfl
      · obtain ⟨-, tail, -⟩ := List.pairwise_append.mp sorted
        have order := (List.pairwise_cons.mp tail).1 other h
        simp only [eventOrder, same, lt_irrefl, decide_false, decide_true, Bool.false_or,
          Bool.true_and, decide_eq_true_eq] at order
        exact order
  · rintro ⟨stored, upcoming, newest⟩
    obtain ⟨pre, post, rfl, absent⟩ := List.eq_append_cons_of_mem (member.mpr ⟨stored, upcoming⟩)
    refine ⟨pre, post, rfl, fun other hother same => absent ?_⟩
    obtain ⟨hstored, hupcoming⟩ := member.mp (List.mem_append_left _ hother)
    obtain ⟨-, -, cross⟩ := List.pairwise_append.mp sorted
    have order := cross other hother row List.mem_cons_self
    simp only [eventOrder, same, lt_irrefl, decide_false, decide_true, Bool.false_or,
      Bool.true_and, decide_eq_true_eq] at order
    have equal := distinct other hstored row stored same rfl
      (le_antisymm (newest other hstored hupcoming same) order)
    exact equal ▸ hother

/-- The stored vintages of an event key, oldest first. -/
def vintages (db : Db) (key : String) : List EconomicEvent :=
  db.events.filter (·.providerEventKey = key)

/-- Where the vintages of a key were first observed one after the other, a capture lists the last
of those that are upcoming. -/
theorem upcoming_vintage_iff {places : List String} {capturedAt : Instant} {db : Db}
    {row : EconomicEvent}
    (ascending : (vintages db row.providerEventKey).Pairwise
      fun a b => a.firstObservedAt < b.firstObservedAt) :
    row ∈ upcomingEvents places capturedAt db ↔
      ((vintages db row.providerEventKey).filter (isUpcoming places capturedAt)).getLast? =
        some row := by
  have vintage {other : EconomicEvent} : other ∈ vintages db row.providerEventKey ↔
      other ∈ db.events ∧ other.providerEventKey = row.providerEventKey := by
    simp [vintages]
  have distinct : ∀ a ∈ db.events, ∀ b ∈ db.events, a.providerEventKey = row.providerEventKey →
      b.providerEventKey = row.providerEventKey → a.firstObservedAt = b.firstObservedAt →
      a = b := by
    intro a ha b hb ka kb same
    have nodup := (List.pairwise_map (f := fun v : EconomicEvent => v.firstObservedAt)).mpr
      (ascending.imp fun h => ne_of_lt h)
    exact List.inj_on_of_nodup_map nodup (vintage.mpr ⟨ha, ka⟩) (vintage.mpr ⟨hb, kb⟩) same
  rw [mem_upcomingEvents distinct, Vintage.getLast?_eq_some_of_ascending (ascending.filter _)]
  simp only [List.mem_filter, vintage]
  constructor
  · rintro ⟨stored, upcoming, newest⟩
    exact ⟨⟨⟨stored, trivial⟩, upcoming⟩, fun w hw => newest w hw.1.1 hw.2 hw.1.2⟩
  · rintro ⟨⟨⟨stored, -⟩, upcoming⟩, newest⟩
    exact ⟨stored, upcoming, fun w hw hu hk => newest w ⟨⟨hw, hk⟩, hu⟩⟩

end TradeRecommender.Research
