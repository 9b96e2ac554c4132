import Mathlib.Data.Prod.Lex
import TradeRecommender.Lib.Civil
import TradeRecommender.Lib.Merge
import TradeRecommender.Lib.Python

/-!
# The admission stream

Sealed members of three granularities are admitted in the order they complete
(`research/failed_break_detector_v2.py`).

1. inventories, completion events and the two streams of them;
2. the projection of a stream into batches of one completion, and the handlers driven by it;
3. the merged stream is the sorted one;
4. what a batch admits;
5. which streams are accepted, and what they admit.
-/

namespace TradeRecommender.Strategy.Admission

open Civil (Instant)
open Py

/-! ## Streams -/

/-- `GRANULARITY_ORDER` -/
inductive Granularity
  | h1 | w | d
  deriving DecidableEq

def granularityOrder : List Granularity := [.h1, .w, .d]

def Granularity.name : Granularity → String
  | .h1 => "H1"
  | .w => "W"
  | .d => "D"

/-- `GRANULARITY_PRIORITY` -/
def Granularity.priority : Granularity → ℕ
  | .h1 => 0
  | .w => 1
  | .d => 2

/-- `DetectorV2EvidenceError` -/
def evidenceError : ExcClass := .other "DetectorV2EvidenceError"

/-- `if not condition: raise DetectorV2EvidenceError(message)` -/
def require (condition : Prop) [Decidable condition] (message : String) : Except Exc Unit :=
  if condition then .ok () else raise evidenceError message

/-- A mapping with exactly the three granularities. -/
abbrev Inventory := Granularity → List Instant

structure CompletionEvent where
  completedAt : Instant
  priority : ℕ
  granularity : Granularity
  openedAt : Instant
  deriving DecidableEq

/-- The fields of an event in the order they are compared. -/
def CompletionEvent.key (event : CompletionEvent) :
    Lex (Instant × Lex (ℕ × Lex (String × Instant))) :=
  toLex (event.completedAt, toLex (event.priority, toLex (event.granularity.name, event.openedAt)))

/-- `CompletionEvent.create` -/
def CompletionEvent.create (granularity : Granularity) (openedAt completedAt : Instant) :
    CompletionEvent :=
  ⟨completedAt, granularity.priority, granularity, openedAt⟩

/-- `_validate_inventory` -/
def validateInventory (inventory : Inventory) : Except Exc Unit :=
  granularityOrder.forM fun granularity =>
    require (inventory granularity = sorted (inventory granularity) ∧
      (inventory granularity).Nodup) (granularity.name ++ " inventory is not unique and ordered")

section
variable (inventory : Inventory) (resolver : Granularity → Instant → Instant)

/-- `_events_for_granularity` -/
def eventsFor (granularity : Granularity) : Except Exc (List CompletionEvent) := do
  let events := (inventory granularity).map fun openedAt =>
    CompletionEvent.create granularity openedAt (resolver granularity openedAt)
  require (events = sortedBy CompletionEvent.key events)
    (granularity.name ++ " completion order is not monotonic")
  return events

/-- `reference_completion_stream` -/
def referenceCompletionStream : Except Exc (List CompletionEvent) := do
  validateInventory inventory
  let events ← mapE (eventsFor inventory resolver) granularityOrder
  return sortedBy CompletionEvent.key events.flatten

/-- `completion_stream` -/
def completionStream : Except Exc (List CompletionEvent) := do
  validateInventory inventory
  let streams ← mapE (eventsFor inventory resolver) granularityOrder
  return Streams.merge CompletionEvent.key streams

end

/-! ## Projection -/

/-- `PHASE_ORDER` -/
inductive Phase
  | entryOpen | admitH1 | admitW | admitD | updateLifecycle | resolvePending | evaluateSweep
  deriving DecidableEq

def phaseOrder : List Phase :=
  [.entryOpen, .admitH1, .admitW, .admitD, .updateLifecycle, .resolvePending, .evaluateSweep]

def admitPhase : Granularity → Phase
  | .h1 => .admitH1
  | .w => .admitW
  | .d => .admitD

structure CompletionBatch where
  completedAt : Instant
  events : List CompletionEvent

/-- The granularities of a batch. -/
def CompletionBatch.granularities (batch : CompletionBatch) : List Granularity :=
  batch.events.map CompletionEvent.granularity

/-- The first event of a granularity. -/
def CompletionBatch.of (batch : CompletionBatch) (granularity : Granularity) :
    Option CompletionEvent :=
  batch.events.find? fun event => event.granularity = granularity

structure AdmissionProjection where
  batches : List CompletionBatch := []
  admittedMembers : Granularity → List Instant := fun _ => []
  analysisTimestamps : List Instant := []
  phaseTrace : List (Instant × List Phase) := []

/-- The phases of a batch. -/
def CompletionBatch.phases (batch : CompletionBatch) : List Phase :=
  (if .h1 ∈ batch.granularities then [.entryOpen] else []) ++
  (granularityOrder.filter fun granularity => granularity ∈ batch.granularities).map admitPhase ++
  (if .w ∈ batch.granularities ∨ .d ∈ batch.granularities then [.updateLifecycle] else []) ++
  (if .h1 ∈ batch.granularities then [.resolvePending, .evaluateSweep] else [])

/-- One turn of the loop of `project_admission`. -/
def admitBatch (projection : AdmissionProjection) (batch : CompletionBatch) :
    Except Exc AdmissionProjection := do
  require (batch.events = sortedBy CompletionEvent.priority batch.events ∧
    batch.granularities.Nodup) "same-completion events are ambiguous or out of canonical order"
  return {
    batches := projection.batches ++ [batch]
    admittedMembers := fun granularity => projection.admittedMembers granularity ++
      ((batch.of granularity).map CompletionEvent.openedAt).toList
    analysisTimestamps := projection.analysisTimestamps ++
      ((batch.of .h1).map CompletionEvent.openedAt).toList
    phaseTrace := projection.phaseTrace ++ [(batch.completedAt, batch.phases)] }

/-- The loop of `project_admission`: the events from an index on that share its completion are a
batch. -/
def projectFrom (projection : AdmissionProjection) :
    ℕ → List CompletionEvent → Except Exc AdmissionProjection
  | _, [] => .ok projection
  | 0, _ :: _ => raise (.other "OutOfFuel")
  | turns + 1, event :: rest => do
    let same := rest.takeWhile fun other => other.completedAt = event.completedAt
    let projection ← admitBatch projection ⟨event.completedAt, event :: same⟩
    projectFrom projection turns
      (rest.dropWhile fun other => other.completedAt = event.completedAt)

/-- `project_admission`; a turn takes at least one event. -/
def projectAdmission (events : List CompletionEvent) : Except Exc AdmissionProjection :=
  projectFrom {} events.length events

/-- `assert_complete_projection` -/
def assertCompleteProjection (projection : AdmissionProjection) (inventory : Inventory) :
    Except Exc Unit := do
  validateInventory inventory
  granularityOrder.forM fun granularity =>
    require (projection.admittedMembers granularity = inventory granularity)
      (granularity.name ++ " projection does not equal sealed inventory")
  require (projection.analysisTimestamps = inventory .h1)
    "AnalysisRun projection does not equal sealed H1 inventory"

section
variable {σ : Type}

/-- A state callback of a phase. -/
abbrev Handler (σ : Type) := CompletionBatch → Option CompletionEvent → σ → Except Exc σ

/-- The granularity whose event a phase is handed. -/
def Phase.granularity : Phase → Option Granularity
  | .entryOpen | .admitH1 | .resolvePending | .evaluateSweep => some .h1
  | .admitW => some .w
  | .admitD => some .d
  | .updateLifecycle => none

/-- `by_granularity[...]`, where a phase is handed an event; of two events the last is kept. -/
def eventOf (batch : CompletionBatch) (phase : Phase) : Except Exc (Option CompletionEvent) :=
  match phase.granularity with
  | none => .ok none
  | some granularity =>
    match batch.events.reverse.find? fun event => event.granularity = granularity with
    | some event => .ok (some event)
    | none => raise .keyError granularity.name

/-- `drive_admission` -/
def driveAdmission (events : List CompletionEvent) (handlers : Phase → Option (Handler σ))
    (state : σ) : Except Exc (AdmissionProjection × σ) := do
  require (∀ phase ∈ phaseOrder, (handlers phase).isSome = true)
    "admission handlers must cover every canonical phase"
  let projection ← projectAdmission events
  let state ← (projection.batches.zip projection.phaseTrace).foldlM (fun state turn =>
    turn.2.2.foldlM (fun state phase => do
      let event ← eventOf turn.1 phase
      match handlers phase with
      | some handler => handler turn.1 event state
      | none => raise .keyError) state) state
  return (projection, state)

end

/-! ## The streams agree -/

section
variable {inventory : Inventory} {resolver : Granularity → Instant → Instant}

theorem require_eq_ok {condition : Prop} [Decidable condition] {message : String} {u : Unit} :
    require condition message = .ok u ↔ condition := by
  unfold require
  split_ifs with h <;> simp [h, raise]

theorem name_injective {a b : Granularity} (same : a.name = b.name) : a = b := by
  cases a <;> cases b <;> first | rfl | (revert same; decide)

/-- The compared fields are all fields. -/
theorem key_injective {a b : CompletionEvent} (same : a.key = b.key) : a = b := by
  obtain ⟨completedAt, priority, granularity, openedAt⟩ := a
  obtain ⟨completedAt', priority', granularity', openedAt'⟩ := b
  obtain ⟨rfl, same⟩ := Prod.mk.inj (toLex.injective same)
  obtain ⟨rfl, same⟩ := Prod.mk.inj (toLex.injective same)
  obtain ⟨names, rfl⟩ := Prod.mk.inj (toLex.injective same)
  obtain rfl := name_injective names
  rfl

/-- An inventory of unique ordered members. -/
def Ordered (inventory : Inventory) : Prop :=
  ∀ granularity, (inventory granularity).Pairwise (· < ·)

/-- The events of a granularity. -/
def eventList (inventory : Inventory) (resolver : Granularity → Instant → Instant)
    (granularity : Granularity) : List CompletionEvent :=
  (inventory granularity).map fun openedAt =>
    .create granularity openedAt (resolver granularity openedAt)

/-- The completions of every granularity come in the order of its members. -/
def KeepsOrder (inventory : Inventory) (resolver : Granularity → Instant → Instant) : Prop :=
  ∀ granularity, ((inventory granularity).map (resolver granularity)).Pairwise (· ≤ ·)

theorem mem_granularityOrder (granularity : Granularity) : granularity ∈ granularityOrder := by
  cases granularity <;> decide

theorem forM_ok {α : Type} {f : α → Except Exc Unit} {xs : List α} (h : ∀ x ∈ xs, f x = .ok ()) :
    xs.forM f = .ok () := by
  induction xs with
  | nil => rfl
  | cons x xs ih =>
    show (f x >>= fun _ => xs.forM f) = .ok ()
    rw [h x List.mem_cons_self]
    exact ih fun y mem => h y (List.mem_cons_of_mem _ mem)

theorem validateInventory_ok (ordered : Ordered inventory) :
    validateInventory inventory = .ok () := by
  refine forM_ok fun granularity _ => require_eq_ok.mpr ⟨?_, (ordered granularity).imp ne_of_lt⟩
  exact (((ordered granularity).imp le_of_lt).insertionSort_eq).symm

/-- The events of a granularity are sorted. -/
theorem eventList_sorted (ordered : Ordered inventory) (keeps : KeepsOrder inventory resolver)
    (granularity : Granularity) :
    (eventList inventory resolver granularity).Pairwise fun a b => a.key ≤ b.key := by
  refine List.pairwise_map.mpr (((ordered granularity).and
    (List.pairwise_map.mp (keeps granularity))).imp ?_)
  rintro a b ⟨opened, completed⟩
  refine Prod.Lex.toLex_le_toLex.mpr ?_
  rcases lt_or_eq_of_le completed with later | same
  · exact .inl later
  · refine .inr ⟨same, Prod.Lex.toLex_le_toLex.mpr (.inr ⟨rfl, ?_⟩)⟩
    exact Prod.Lex.toLex_le_toLex.mpr (.inr ⟨rfl, opened.le⟩)

theorem eventsFor_eq (ordered : Ordered inventory) (keeps : KeepsOrder inventory resolver)
    (granularity : Granularity) :
    eventsFor inventory resolver granularity = .ok (eventList inventory resolver granularity) := by
  have sorted_ := (eventList_sorted ordered keeps granularity).insertionSort_eq
  exact bind_eq_ok.mpr ⟨(), require_eq_ok.mpr sorted_.symm, rfl⟩

/-- The merged events. -/
def streamOf (inventory : Inventory) (resolver : Granularity → Instant → Instant) :
    List CompletionEvent :=
  sortedBy CompletionEvent.key (granularityOrder.flatMap (eventList inventory resolver))

theorem mapE_eventsFor (ordered : Ordered inventory) (keeps : KeepsOrder inventory resolver) :
    mapE (eventsFor inventory resolver) granularityOrder =
      .ok (granularityOrder.map (eventList inventory resolver)) := by
  refine mapE_eq_ok_iff.mpr (List.forall₂_map_right_iff.mpr ?_)
  exact List.forall₂_same.mpr fun granularity _ => eventsFor_eq ordered keeps granularity

theorem referenceCompletionStream_eq (ordered : Ordered inventory)
    (keeps : KeepsOrder inventory resolver) :
    referenceCompletionStream inventory resolver = .ok (streamOf inventory resolver) :=
  bind_eq_ok.mpr ⟨(), validateInventory_ok ordered,
    bind_eq_ok.mpr ⟨_, mapE_eventsFor ordered keeps, rfl⟩⟩

/-- **The merge is the sorted stream.** -/
theorem completionStream_eq (ordered : Ordered inventory) (keeps : KeepsOrder inventory resolver) :
    completionStream inventory resolver = .ok (streamOf inventory resolver) := by
  refine bind_eq_ok.mpr ⟨(), validateInventory_ok ordered,
    bind_eq_ok.mpr ⟨_, mapE_eventsFor ordered keeps, congrArg Except.ok ?_⟩⟩
  refine Streams.merge_eq_sortedBy (fun stream mem => ?_) fun _ _ => key_injective
  obtain ⟨granularity, -, rfl⟩ := List.mem_map.mp mem
  exact eventList_sorted ordered keeps granularity

/-- The events of a granularity in the stream are those of its members, in order. -/
theorem filter_streamOf (ordered : Ordered inventory) (keeps : KeepsOrder inventory resolver)
    (granularity : Granularity) :
    (streamOf inventory resolver).filter (fun event => event.granularity = granularity) =
      eventList inventory resolver granularity := by
  have own : ∀ g, (eventList inventory resolver g).filter
      (fun event => event.granularity = granularity) =
        if g = granularity then eventList inventory resolver g else [] := by
    intro g
    split_ifs with same
    · refine List.filter_eq_self.mpr fun event mem => ?_
      obtain ⟨openedAt, -, rfl⟩ := List.mem_map.mp mem
      exact decide_eq_true same
    · refine List.filter_eq_nil_iff.mpr fun event mem => ?_
      obtain ⟨openedAt, -, rfl⟩ := List.mem_map.mp mem
      exact fun h => same (of_decide_eq_true h)
  have flat : (granularityOrder.flatMap (eventList inventory resolver)).filter
      (fun event => event.granularity = granularity) =
        eventList inventory resolver granularity := by
    rw [List.filter_flatMap]
    simp only [own]
    cases granularity <;> simp [granularityOrder]
  have perm := (perm_sortedBy CompletionEvent.key
    (granularityOrder.flatMap (eventList inventory resolver))).filter
      fun event => decide (event.granularity = granularity)
  rw [flat] at perm
  refine perm.eq_of_pairwise ?_ ((pairwise_sortedBy _ _).sublist List.filter_sublist)
    (eventList_sorted ordered keeps granularity)
  exact fun a b _ _ le ge => key_injective (le_antisymm le ge)

end

/-! ## Batches -/

/-- The batches of a stream; a turn takes at least one event. -/
def batchesOf : ℕ → List CompletionEvent → List CompletionBatch
  | _, [] => []
  | 0, _ :: _ => []
  | turns + 1, event :: rest =>
    ⟨event.completedAt,
      event :: rest.takeWhile fun other => other.completedAt = event.completedAt⟩ ::
    batchesOf turns (rest.dropWhile fun other => other.completedAt = event.completedAt)

theorem projectFrom_eq (projection : AdmissionProjection) {turns : ℕ}
    {events : List CompletionEvent} (enough : events.length ≤ turns) :
    projectFrom projection turns events = (batchesOf turns events).foldlM admitBatch projection := by
  induction turns generalizing projection events with
  | zero =>
    rw [List.length_eq_zero_iff.mp (Nat.le_zero.mp enough)]
    rfl
  | succ turns ih =>
    cases events with
    | nil => rfl
    | cons event rest =>
      have shorter : (rest.dropWhile fun other =>
          decide (other.completedAt = event.completedAt)).length ≤ turns :=
        (List.dropWhile_sublist _).length_le.trans (Nat.le_of_succ_le_succ enough)
      rw [projectFrom, batchesOf, List.foldlM_cons]
      exact bind_congr fun _ => ih _ shorter

theorem flatMap_batchesOf {turns : ℕ} {events : List CompletionEvent}
    (enough : events.length ≤ turns) :
    (batchesOf turns events).flatMap CompletionBatch.events = events := by
  induction turns generalizing events with
  | zero =>
    rw [List.length_eq_zero_iff.mp (Nat.le_zero.mp enough)]
    rfl
  | succ turns ih =>
    cases events with
    | nil => rfl
    | cons event rest =>
      have shorter : (rest.dropWhile fun other =>
          decide (other.completedAt = event.completedAt)).length ≤ turns :=
        (List.dropWhile_sublist _).length_le.trans (Nat.le_of_succ_le_succ enough)
      rw [batchesOf, List.flatMap_cons, ih shorter, List.cons_append, List.takeWhile_append_dropWhile]

/-- An event has the priority of its granularity. -/
def WellFormed (events : List CompletionEvent) : Prop :=
  ∀ event ∈ events, event.priority = event.granularity.priority

/-- No two events of one granularity share a completion. -/
def Apart (events : List CompletionEvent) : Prop :=
  events.Pairwise fun a b => a.completedAt = b.completedAt → a.granularity ≠ b.granularity

/-- A batch holds events of its completion, in the order they are compared. -/
structure CompletionBatch.Cut (batch : CompletionBatch) : Prop where
  completed : ∀ event ∈ batch.events, event.completedAt = batch.completedAt
  sorted : batch.events.Pairwise fun a b => a.key ≤ b.key
  wellFormed : WellFormed batch.events

theorem batchesOf_nil (turns : ℕ) : batchesOf turns [] = [] := by
  cases turns <;> rfl

theorem completedAt_le {a b : CompletionEvent} (h : a.key ≤ b.key) :
    a.completedAt ≤ b.completedAt := by
  rcases Prod.Lex.toLex_le_toLex.mp h with later | ⟨same, -⟩
  · exact later.le
  · exact same.le

/-- What follows the events of the first completion completes later. -/
theorem completedAt_dropWhile {events : List CompletionEvent} {completedAt : Instant}
    (sorted : events.Pairwise fun a b => a.key ≤ b.key)
    (first : ∀ event ∈ events, completedAt ≤ event.completedAt) :
    ∀ event ∈ events.dropWhile fun other => other.completedAt = completedAt,
      event.completedAt ≠ completedAt := by
  induction events with
  | nil => exact fun _ mem => by cases mem
  | cons event rest ih =>
    obtain ⟨below, sorted⟩ := List.pairwise_cons.mp sorted
    by_cases same : event.completedAt = completedAt
    · rw [List.dropWhile_cons_of_pos (by simpa using same)]
      exact ih sorted fun other mem => first other (List.mem_cons_of_mem _ mem)
    · rw [List.dropWhile_cons_of_neg (by simpa using same)]
      have later : completedAt < event.completedAt :=
        lt_of_le_of_ne (first event List.mem_cons_self) (Ne.symm same)
      intro other mem
      rcases List.mem_cons.mp mem with rfl | mem
      · exact same
      · exact (later.trans_le (completedAt_le (below other mem))).ne'

/-- Events of one completion are apart where their granularities differ. -/
theorem apart_iff {events : List CompletionEvent} {completedAt : Instant}
    (same : ∀ event ∈ events, event.completedAt = completedAt) :
    Apart events ↔ (events.map CompletionEvent.granularity).Nodup := by
  rw [List.Nodup, List.pairwise_map]
  refine List.Pairwise.iff_of_mem fun {a b} ha hb => ?_
  exact forall_prop_of_true ((same a ha).trans (same b hb).symm)

/-- A sorted stream falls apart into batches, each of one completion. -/
theorem batchesOf_spec {turns : ℕ} {events : List CompletionEvent} (enough : events.length ≤ turns)
    (sorted : events.Pairwise fun a b => a.key ≤ b.key) (wellFormed : WellFormed events) :
    (∀ batch ∈ batchesOf turns events, batch.Cut) ∧
      (Apart events ↔ ∀ batch ∈ batchesOf turns events, batch.granularities.Nodup) := by
  induction turns generalizing events with
  | zero =>
    rw [List.length_eq_zero_iff.mp (Nat.le_zero.mp enough), batchesOf_nil]
    simp [Apart]
  | succ turns ih =>
    cases events with
    | nil =>
      rw [batchesOf_nil]
      simp [Apart]
    | cons event rest =>
      rw [batchesOf]
      have split := List.takeWhile_append_dropWhile
        (p := fun other : CompletionEvent => decide (other.completedAt = event.completedAt))
        (l := rest)
      have shorter : (rest.dropWhile fun other =>
          decide (other.completedAt = event.completedAt)).length ≤ turns :=
        (List.dropWhile_sublist _).length_le.trans (Nat.le_of_succ_le_succ enough)
      obtain ⟨below, sortedRest⟩ := List.pairwise_cons.mp sorted
      have later := completedAt_dropWhile sortedRest fun other mem => completedAt_le (below other mem)
      have together : ∀ other ∈ rest.takeWhile fun other =>
          decide (other.completedAt = event.completedAt), other.completedAt = event.completedAt :=
        fun other mem => by simpa using List.all_eq_true.mp List.all_takeWhile other mem
      generalize rest.takeWhile (fun other => decide (other.completedAt = event.completedAt)) = same
        at split together ⊢
      generalize rest.dropWhile (fun other => decide (other.completedAt = event.completedAt)) = tail
        at split shorter later ⊢
      subst split
      have whole : event :: (same ++ tail) = (event :: same) ++ tail := rfl
      rw [whole, List.pairwise_append] at sorted
      have here : ∀ other ∈ event :: same, other.completedAt = event.completedAt :=
        List.forall_mem_cons.mpr ⟨rfl, together⟩
      obtain ⟨cuts, apart⟩ := ih shorter sorted.2.1 fun other mem =>
        wellFormed other (List.mem_cons_of_mem _ (List.mem_append_right _ mem))
      constructor
      · refine List.forall_mem_cons.mpr ⟨⟨here, sorted.1, fun other mem => ?_⟩, cuts⟩
        exact wellFormed other (whole ▸ List.mem_append_left _ mem)
      · rw [List.forall_mem_cons, ← apart, whole, Apart, List.pairwise_append]
        refine ⟨fun h => ⟨(apart_iff here).mp h.1, h.2.1⟩, fun h => ⟨(apart_iff here).mpr h.1, h.2, ?_⟩⟩
        intro a ha b hb equal
        exact absurd (equal.symm.trans (here a ha)) (later b hb)

/-! ## What a batch admits -/

/-- A batch is admitted where its granularities differ. -/
theorem admitBatch_ok_iff (projection : AdmissionProjection) {batch : CompletionBatch}
    (cut : batch.Cut) :
    (∃ next, admitBatch projection batch = .ok next) ↔ batch.granularities.Nodup := by
  have ordered : batch.events.Pairwise fun a b => a.priority ≤ b.priority := by
    refine cut.sorted.imp_of_mem fun {a b} ha hb le => ?_
    rcases Prod.Lex.toLex_le_toLex.mp le with later | ⟨-, le⟩
    · rw [cut.completed a ha, cut.completed b hb] at later
      exact absurd later (lt_irrefl _)
    · rcases Prod.Lex.toLex_le_toLex.mp le with less | ⟨same, -⟩
      · exact less.le
      · exact same.le
  constructor
  · rintro ⟨next, h⟩
    obtain ⟨_, passed, -⟩ := bind_eq_ok.mp h
    exact (require_eq_ok.mp passed).2
  · intro nodup
    exact ⟨_, bind_eq_ok.mpr ⟨(), require_eq_ok.mpr ⟨ordered.insertionSort_eq.symm, nodup⟩, rfl⟩⟩

/-- The one event of a granularity in a batch. -/
theorem filter_eq_of {batch : CompletionBatch} (nodup : batch.granularities.Nodup)
    (granularity : Granularity) :
    batch.events.filter (fun event => event.granularity = granularity) =
      (batch.of granularity).toList := by
  obtain ⟨completedAt, events⟩ := batch
  unfold CompletionBatch.of
  unfold CompletionBatch.granularities at nodup
  dsimp only at nodup ⊢
  induction events with
  | nil => rfl
  | cons event rest ih =>
    obtain ⟨fresh, nodup⟩ := List.nodup_cons.mp nodup
    by_cases same : event.granularity = granularity
    · rw [List.filter_cons_of_pos (by simpa using same), List.find?_cons_of_pos (by simpa using same),
        List.filter_eq_nil_iff.mpr]
      · rfl
      · intro other mem other_same
        refine fresh (List.mem_map.mpr ⟨other, mem, ?_⟩)
        rw [of_decide_eq_true other_same, same]
    · rw [List.filter_cons_of_neg (by simpa using same), List.find?_cons_of_neg (by simpa using same)]
      exact ih nodup

/-- What the batches so far have admitted. -/
structure Admitted (projection : AdmissionProjection) (read : List CompletionBatch) : Prop where
  batches : projection.batches = read
  members : ∀ granularity, projection.admittedMembers granularity =
    ((read.flatMap CompletionBatch.events).filter fun event =>
      event.granularity = granularity).map CompletionEvent.openedAt
  analyses : projection.analysisTimestamps = projection.admittedMembers .h1
  trace : projection.phaseTrace = read.map fun batch => (batch.completedAt, batch.phases)

theorem Admitted.step {projection next : AdmissionProjection} {read : List CompletionBatch}
    {batch : CompletionBatch} (admitted : Admitted projection read)
    (h : admitBatch projection batch = .ok next) : Admitted next (read ++ [batch]) := by
  obtain ⟨_, passed, h⟩ := bind_eq_ok.mp h
  obtain rfl := Except.ok.inj h
  have nodup := (require_eq_ok.mp passed).2
  have here : ∀ granularity, ((batch.of granularity).map CompletionEvent.openedAt).toList =
      (batch.events.filter fun event => event.granularity = granularity).map
        CompletionEvent.openedAt := by
    intro granularity
    rw [filter_eq_of nodup]
    cases batch.of granularity <;> rfl
  refine ⟨?_, fun granularity => ?_, ?_, ?_⟩
  · exact congrArg (· ++ [batch]) admitted.batches
  · show projection.admittedMembers granularity ++ _ = _
    rw [admitted.members, here, List.flatMap_append, List.filter_append, List.map_append,
      List.flatMap_singleton]
  · exact congrArg (· ++ _) admitted.analyses
  · show projection.phaseTrace ++ _ = _
    rw [admitted.trace, List.map_append]
    rfl

/-! ## Runs of batches -/

/-- **The loop goes through exactly where every batch does**, and has admitted them all. -/
theorem foldlM_admitBatch {batches read : List CompletionBatch} {projection : AdmissionProjection}
    (admitted : Admitted projection read) (cuts : ∀ batch ∈ batches, batch.Cut) :
    ((∃ final, batches.foldlM admitBatch projection = .ok final) ↔
        ∀ batch ∈ batches, batch.granularities.Nodup) ∧
      ∀ final, batches.foldlM admitBatch projection = .ok final →
        Admitted final (read ++ batches) := by
  induction batches generalizing projection read with
  | nil =>
    refine ⟨⟨fun _ _ mem => (by cases mem), fun _ => ⟨projection, rfl⟩⟩, fun final h => ?_⟩
    obtain rfl := Except.ok.inj h
    rw [List.append_nil]
    exact admitted
  | cons batch rest ih =>
    obtain ⟨cut, cuts⟩ := List.forall_mem_cons.mp cuts
    rw [List.foldlM_cons, List.forall_mem_cons, ← admitBatch_ok_iff projection cut]
    constructor
    · constructor
      · rintro ⟨final, h⟩
        obtain ⟨next, first, h⟩ := bind_eq_ok.mp h
        exact ⟨⟨next, first⟩, (ih (admitted.step first) cuts).1.mp ⟨final, h⟩⟩
      · rintro ⟨⟨next, first⟩, nodup⟩
        obtain ⟨final, h⟩ := (ih (admitted.step first) cuts).1.mpr nodup
        exact ⟨final, bind_eq_ok.mpr ⟨next, first, h⟩⟩
    · intro final h
      obtain ⟨next, first, h⟩ := bind_eq_ok.mp h
      have whole := (ih (admitted.step first) cuts).2 final h
      rw [List.append_assoc] at whole
      exact whole

/-- A phase runs in a batch where its event is there: the one it is handed, or for the lifecycle one
that is not of an hour. -/
def CompletionBatch.runs (batch : CompletionBatch) (phase : Phase) : Bool :=
  match phase.granularity with
  | some granularity => granularity ∈ batch.granularities
  | none => .w ∈ batch.granularities ∨ .d ∈ batch.granularities

/-- The phases of a batch come in the canonical order. -/
theorem phases_eq (batch : CompletionBatch) :
    batch.phases = phaseOrder.filter fun phase => batch.runs phase := by
  unfold CompletionBatch.phases CompletionBatch.runs phaseOrder granularityOrder
  by_cases h1 : .h1 ∈ batch.granularities <;> by_cases w : .w ∈ batch.granularities <;>
    by_cases d : .d ∈ batch.granularities <;> simp [h1, w, d, Phase.granularity, admitPhase]

/-- A phase that runs is handed the event of its granularity. -/
theorem eventOf_ok {batch : CompletionBatch} {phase : Phase} (nodup : batch.granularities.Nodup)
    (runs : batch.runs phase = true) :
    eventOf batch phase = .ok (phase.granularity.bind batch.of) := by
  unfold eventOf
  unfold CompletionBatch.runs at runs
  cases handed : phase.granularity with
  | none => rfl
  | some granularity =>
    rw [handed] at runs
    dsimp only at runs ⊢
    have one := filter_eq_of nodup granularity
    have last : batch.events.reverse.find? (fun event => event.granularity = granularity) =
        batch.of granularity := by
      rw [← List.head?_filter, List.filter_reverse, one]
      cases batch.of granularity <;> rfl
    rw [last, Option.bind_some]
    cases found : batch.of granularity with
    | some event => rfl
    | none =>
      obtain ⟨event, mem, same⟩ := List.mem_map.mp (of_decide_eq_true runs)
      exact absurd (decide_eq_true same) (List.find?_eq_none.mp found event mem)

section
variable {σ : Type}

/-- The callbacks of a batch, in the order of its phases. -/
def runBatch (handlers : Phase → Handler σ) (state : σ) (batch : CompletionBatch) : Except Exc σ :=
  (phaseOrder.filter fun phase => batch.runs phase).foldlM
    (fun state phase => handlers phase batch (phase.granularity.bind batch.of) state) state

theorem foldlM_congr_mem {α β : Type} {f g : β → α → Except Exc β} {xs : List α} {first : β}
    (same : ∀ b, ∀ x ∈ xs, f b x = g b x) : xs.foldlM f first = xs.foldlM g first := by
  induction xs generalizing first with
  | nil => rfl
  | cons x xs ih =>
    rw [List.foldlM_cons, List.foldlM_cons, same first x List.mem_cons_self]
    exact bind_congr fun b => ih fun c y mem => same c y (List.mem_cons_of_mem _ mem)

/-- **Driving an accepted stream runs every batch through its callbacks**, and raises nothing else
than they do. -/
theorem driveAdmission_eq {events : List CompletionEvent} {projection : AdmissionProjection}
    {batches : List CompletionBatch} (accepted : projectAdmission events = .ok projection)
    (admitted : Admitted projection batches) (nodup : ∀ batch ∈ batches, batch.granularities.Nodup)
    (handlers : Phase → Handler σ) (state : σ) :
    driveAdmission events (fun phase => some (handlers phase)) state =
      (batches.foldlM (runBatch handlers) state).map fun final => (projection, final) := by
  have turns : projection.batches.zip projection.phaseTrace =
      batches.map fun batch => (batch, batch.completedAt, batch.phases) := by
    rw [admitted.batches, admitted.trace]
    have zipped : (batches.map id).zip (batches.map fun batch => (batch.completedAt, batch.phases)) =
        batches.map fun batch => (id batch, batch.completedAt, batch.phases) := List.zip_map'
    rw [List.map_id] at zipped
    exact zipped
  have present : require (∀ phase ∈ phaseOrder, (some (handlers phase)).isSome = true)
      "admission handlers must cover every canonical phase" = .ok () :=
    require_eq_ok.mpr fun _ _ => rfl
  have each : batches.foldlM (fun state batch => batch.phases.foldlM (fun state phase =>
      eventOf batch phase >>= fun event => handlers phase batch event state) state) state =
        batches.foldlM (runBatch handlers) state := by
    refine foldlM_congr_mem fun state batch mem => ?_
    rw [runBatch, ← phases_eq]
    refine foldlM_congr_mem fun state phase runs => ?_
    rw [phases_eq] at runs
    rw [eventOf_ok (nodup batch mem) (List.mem_filter.mp runs).2]
    rfl
  calc driveAdmission events (fun phase => some (handlers phase)) state
      = (projection.batches.zip projection.phaseTrace).foldlM (fun state turn =>
          turn.2.2.foldlM (fun state phase =>
            eventOf turn.1 phase >>= fun event => handlers phase turn.1 event state) state) state >>=
          fun final => .ok (projection, final) := by
        unfold driveAdmission
        rw [present, accepted]
        rfl
    _ = batches.foldlM (runBatch handlers) state >>= fun final => .ok (projection, final) := by
        rw [turns, List.foldlM_map, ← each]
    _ = (batches.foldlM (runBatch handlers) state).map fun final => (projection, final) := by
        cases batches.foldlM (runBatch handlers) state <;> rfl

end

/-! ## The stream of an inventory -/

section
variable {inventory : Inventory} {resolver : Granularity → Instant → Instant}

theorem streamOf_wellFormed : WellFormed (streamOf inventory resolver) := by
  intro event mem
  obtain ⟨granularity, -, mem⟩ := List.mem_flatMap.mp (mem_sortedBy.mp mem)
  obtain ⟨openedAt, -, rfl⟩ := List.mem_map.mp mem
  rfl

theorem apart_iff_filter {events : List CompletionEvent} :
    Apart events ↔ ∀ granularity, ((events.filter fun event =>
      event.granularity = granularity).map CompletionEvent.completedAt).Nodup := by
  induction events with
  | nil => simp [Apart]
  | cons event rest ih =>
    rw [Apart, List.pairwise_cons, ← Apart, ih]
    constructor
    · rintro ⟨first, rest_⟩ granularity
      by_cases same : event.granularity = granularity
      · rw [List.filter_cons_of_pos (by simpa using same), List.map_cons, List.nodup_cons]
        refine ⟨fun mem => ?_, rest_ granularity⟩
        obtain ⟨other, mem, equal⟩ := List.mem_map.mp mem
        obtain ⟨mem, other_same⟩ := List.mem_filter.mp mem
        exact first other mem equal.symm (same.trans (of_decide_eq_true other_same).symm)
      · rw [List.filter_cons_of_neg (by simpa using same)]
        exact rest_ granularity
    · intro h
      refine ⟨fun other mem equal same => ?_, fun granularity => ?_⟩
      · have nodup := h event.granularity
        rw [List.filter_cons_of_pos (by simp), List.map_cons, List.nodup_cons] at nodup
        exact nodup.1 (List.mem_map.mpr ⟨other, List.mem_filter.mpr ⟨mem, by simpa using same.symm⟩,
          equal.symm⟩)
      · have nodup := h granularity
        by_cases same : event.granularity = granularity
        · rw [List.filter_cons_of_pos (by simpa using same), List.map_cons] at nodup
          exact (List.nodup_cons.mp nodup).2
        · rwa [List.filter_cons_of_neg (by simpa using same)] at nodup

/-- Completions of the inventory that tell the members of each granularity apart. -/
def Distinct (inventory : Inventory) (resolver : Granularity → Instant → Instant) : Prop :=
  ∀ granularity, ((inventory granularity).map (resolver granularity)).Nodup

/-- **The admission stream of an ordered inventory**: the merge is the reference; it is accepted
exactly where no two members of a granularity share a completion; and then every member is admitted
once and in order, with one analysis for each hour, and every batch runs its phases in the canonical
order. -/
theorem completionStream_admission (ordered : Ordered inventory)
    (keeps : KeepsOrder inventory resolver) :
    completionStream inventory resolver = referenceCompletionStream inventory resolver ∧
    ∃ events, completionStream inventory resolver = .ok events ∧
      ((∃ projection, projectAdmission events = .ok projection) ↔ Distinct inventory resolver) ∧
      ∀ projection, projectAdmission events = .ok projection →
        assertCompleteProjection projection inventory = .ok () ∧
        (∀ granularity, projection.admittedMembers granularity = inventory granularity) ∧
        projection.analysisTimestamps = inventory .h1 ∧
        projection.phaseTrace = projection.batches.map (fun batch =>
          (batch.completedAt, phaseOrder.filter fun phase => batch.runs phase)) ∧
        projection.batches.flatMap CompletionBatch.events = events ∧
        ∀ (σ : Type) (handlers : Phase → Handler σ) (state : σ),
          driveAdmission events (fun phase => some (handlers phase)) state =
            (projection.batches.foldlM (runBatch handlers) state).map fun final =>
              (projection, final) := by
  have merged := completionStream_eq ordered keeps
  refine ⟨merged.trans (referenceCompletionStream_eq ordered keeps).symm, _, merged, ?_⟩
  have sorted_ : (streamOf inventory resolver).Pairwise fun a b => a.key ≤ b.key :=
    pairwise_sortedBy _ _
  obtain ⟨cuts, apart⟩ := batchesOf_spec le_rfl sorted_ streamOf_wellFormed
  have start : Admitted {} [] := ⟨rfl, fun _ => rfl, rfl, rfl⟩
  obtain ⟨accepts, admits⟩ := foldlM_admitBatch start cuts
  have project := projectFrom_eq {} (le_refl (streamOf inventory resolver).length)
  have distinct : Apart (streamOf inventory resolver) ↔ Distinct inventory resolver := by
    rw [apart_iff_filter]
    refine forall_congr' fun granularity => ?_
    rw [filter_streamOf ordered keeps, eventList, List.map_map]
    rfl
  unfold projectAdmission
  rw [project]
  refine ⟨accepts.trans (apart.symm.trans distinct), fun projection h => ?_⟩
  have admitted := admits projection h
  rw [List.nil_append] at admitted
  have whole := flatMap_batchesOf (le_refl (streamOf inventory resolver).length)
  have members : ∀ granularity, projection.admittedMembers granularity = inventory granularity := by
    intro granularity
    rw [admitted.members, whole, filter_streamOf ordered keeps, eventList, List.map_map]
    exact List.map_id _
  have analyses : projection.analysisTimestamps = inventory .h1 := by
    rw [admitted.analyses, members]
  refine ⟨?_, members, analyses, ?_, ?_, fun σ handlers state => ?_⟩
  · refine bind_eq_ok.mpr ⟨(), validateInventory_ok ordered, bind_eq_ok.mpr ⟨(), ?_, ?_⟩⟩
    · exact forM_ok fun granularity _ => require_eq_ok.mpr (members granularity)
    · exact require_eq_ok.mpr analyses
  · rw [admitted.trace, admitted.batches]
    exact List.map_congr_left fun batch _ => by rw [phases_eq]
  · rw [admitted.batches, whole]
  · have accepted : projectAdmission (streamOf inventory resolver) = .ok projection :=
      project.trans h
    rw [admitted.batches]
    exact driveAdmission_eq accepted admitted (accepts.mp ⟨projection, h⟩) handlers state

end

/-- Two hours, a week and two days. -/
def someMembers : Inventory
  | .h1 => [0, Civil.hour]
  | .w => [0]
  | .d => [0, Civil.day]

/-- Members that complete an hour, a week and a day on. -/
def someResolver : Granularity → Instant → Instant
  | .h1, openedAt => openedAt + Civil.hour
  | .w, openedAt => openedAt + 7 * Civil.day
  | .d, openedAt => openedAt + Civil.day

theorem completionStream_admission_members : Ordered someMembers ∧
    KeepsOrder someMembers someResolver ∧
    completionStream someMembers someResolver =
      referenceCompletionStream someMembers someResolver := by
  have ordered : Ordered someMembers := fun granularity => by cases granularity <;> decide
  have keeps : KeepsOrder someMembers someResolver :=
    fun granularity => by cases granularity <;> decide
  exact ⟨ordered, keeps, (completionStream_admission ordered keeps).1⟩

end TradeRecommender.Strategy.Admission
