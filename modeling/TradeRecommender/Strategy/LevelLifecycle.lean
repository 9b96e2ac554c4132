import TradeRecommender.Lib.Sorted
import TradeRecommender.Strategy.Indicators

/-!
# The lifecycle of a level

`evaluate_level` of `research/strategy.py`, and the detector's loop, which keeps the first state it
returns that is not active.

1. the source's functions;
2. later candles come behind those of before, and leave what the loop over them has found;
3. when a level has ended of itself;
4. the states of two evaluations, and of a history of them.
-/

namespace TradeRecommender.Strategy

open Civil (Instant)

/-! ## The source's functions -/

inductive Lifecycle
  | active | invalidated | expired | superseded | supersededByFlip
  deriving DecidableEq

structure LevelState where
  state : Lifecycle
  effectiveAt : Option Instant := none
  flipped : Option LevelSpec := none
  deriving DecidableEq

namespace LevelSpec

variable (level : LevelSpec)

/-- `can_flip` -/
def canFlip : Bool := level.family ∈ ["PREVIOUS_WEEKLY_EXTREME", "CONFIRMED_DAILY_SWING"]

/-- `crossed_central` -/
def crossedCentral (candle : Candle) : Bool :=
  match level.role with
  | .support => candle.close < level.centralPrice
  | .resistance => level.centralPrice < candle.close

/-- `invalidated` -/
def invalidated (candle : Candle) : Bool :=
  match level.role with
  | .support => candle.close < level.zoneLower
  | .resistance => level.zoneUpper < candle.close

/-- `expires_at is not None and expires_at <= t` -/
def expiredBy (t : Instant) : Bool := level.expiresAt.any fun expiresAt => expiresAt ≤ t

/-- `expires_after_sessions is not None and index >= expires_after_sessions` -/
def outOfSessions (index : ℕ) : Bool := level.expiresAfterSessions.any fun sessions => sessions ≤ index

/-- What the loop returns at a candle. -/
def endsAt (index : ℕ) (candle : Candle) : Option LevelState :=
  if level.expiredBy candle.completedAt then some { state := .expired, effectiveAt := level.expiresAt }
  else if level.outOfSessions index then
    some { state := .expired, effectiveAt := some candle.completedAt }
  else if level.canFlip && level.crossedCentral candle then
    some { state := .supersededByFlip, effectiveAt := some candle.completedAt }
  else if level.invalidated candle then
    some { state := .invalidated, effectiveAt := some candle.completedAt }
  else none

/-- The loop over the completed candles. -/
def scan : ℕ → List Candle → Option LevelState
  | _, [] => none
  | index, candle :: rest => (level.endsAt index candle).or (scan (index + 1) rest)

/-- `done` -/
def sessions (daily : List Candle) (context : Context) : List Candle :=
  (completedCandles daily context).filter fun candle => level.activatedAt ≤ candle.completedAt

end LevelSpec

/-- `evaluate_level` -/
def evaluateLevel (level : LevelSpec) (daily : List Candle) (context : Context)
    (supersededAt : Option Instant) : LevelState :=
  if supersededAt.any fun t => t ≤ context.asOf then
    { state := .superseded, effectiveAt := supersededAt }
  else
    match level.scan 0 (level.sessions daily context) with
    | some state => state
    | none =>
      if level.expiredBy context.asOf then { state := .expired, effectiveAt := level.expiresAt }
      else { state := .active }

/-- One turn of `_persist_material_levels` on a level: a state that is not active is kept. -/
def persistState (level : LevelSpec) (daily : List Candle) (supersededAt : Option Instant)
    (state : LevelState) (context : Context) : LevelState :=
  if state.state ≠ .active then state else evaluateLevel level daily context supersededAt

/-- The state behind the evaluations at some times. -/
def history (level : LevelSpec) (daily : List Candle) (supersededAt : Option Instant)
    (times : List Context) : LevelState :=
  times.foldl (persistState level daily supersededAt) { state := .active }

/-! ## Later candles -/

/-- Openings in the order of completions. -/
def InOrder (daily : List Candle) : Prop :=
  ∀ a ∈ daily, ∀ b ∈ daily, a.completedAt < b.completedAt → a.openedAt < b.openedAt

/-- The candles completed by a time are those of before. -/
def SameBy (t : Instant) (daily daily' : List Candle) : Prop :=
  daily'.filter (fun candle => candle.completedAt ≤ t) =
    daily.filter fun candle => candle.completedAt ≤ t

section
variable {level : LevelSpec} {daily daily' : List Candle} {context context' : Context}

/-- Later, the completed candles are those of before and then others. -/
theorem completedCandles_later (inOrder : InOrder daily') (same : SameBy context.asOf daily daily')
    (later : context.asOf ≤ context'.asOf) : ∃ rest,
      completedCandles daily' context' = completedCandles daily context ++ rest ∧
        ∀ candle ∈ rest, context.asOf < candle.completedAt ∧ candle.completedAt ≤ context'.asOf := by
  have split := Py.mergeSort_split (fun a b : Candle => decide (a.openedAt ≤ b.openedAt))
    (fun candle => decide (candle.completedAt ≤ context.asOf))
    (daily'.filter fun c => c.complete && c.completedAt ≤ context'.asOf) (fun a b c => by
      simp only [decide_eq_true_eq]
      exact le_trans)
    (fun a b => by
      simp only [Bool.or_eq_true, decide_eq_true_eq]
      exact le_total _ _)
    (fun a mem b mem' early late => by
      rw [decide_eq_true_iff] at early
      rw [decide_eq_false_iff_not, not_le] at late
      have order := inOrder a (List.mem_filter.mp mem).1 b (List.mem_filter.mp mem').1
        (lt_of_le_of_lt early late)
      rw [decide_eq_true_iff, decide_eq_false_iff_not, not_le]
      exact ⟨order.le, order⟩)
  have early : (daily'.filter fun c => c.complete && c.completedAt ≤ context'.asOf).filter
      (fun candle => decide (candle.completedAt ≤ context.asOf)) =
        daily.filter fun c => c.complete && c.completedAt ≤ context.asOf := by
    have narrow : ∀ candles : List Candle,
        candles.filter (fun c => c.complete && c.completedAt ≤ context.asOf) =
          (candles.filter fun c => c.completedAt ≤ context.asOf).filter Candle.complete := by
      intro candles
      rw [List.filter_filter]
    rw [narrow daily, ← same, ← narrow, List.filter_filter]
    refine List.filter_congr fun candle _ => ?_
    rw [Bool.eq_iff_iff]
    simp only [Bool.and_eq_true, decide_eq_true_eq]
    exact ⟨fun h => ⟨h.2.1, h.1⟩, fun h => ⟨h.2, h.1, h.2.trans later⟩⟩
  rw [early] at split
  refine ⟨_, split, fun candle mem => ?_⟩
  have mem := List.mem_filter.mp (List.mem_mergeSort.mp mem)
  simp only [List.mem_filter, Bool.and_eq_true, Bool.not_eq_true', decide_eq_true_eq,
    decide_eq_false_iff_not, not_le] at mem
  exact ⟨mem.2, mem.1.2.2⟩

/-- What the loop has returned, later candles do not change. -/
theorem LevelSpec.scan_append (index : ℕ) (candles rest : List Candle) :
    level.scan index (candles ++ rest) =
      (level.scan index candles).or (level.scan (index + candles.length) rest) := by
  induction candles generalizing index with
  | nil => rw [scan, List.nil_append, Option.none_or, List.length_nil, Nat.add_zero]
  | cons candle candles ih =>
    rw [List.cons_append, scan, scan, ih, Option.or_assoc, List.length_cons]
    congr 3
    omega

/-- The loop never returns a supersession or an active state. -/
theorem LevelSpec.endsAt_state {index : ℕ} {candle : Candle} {state : LevelState}
    (h : level.endsAt index candle = some state) :
    state.state ≠ .superseded ∧ state.state ≠ .active := by
  have states : state.state ∈ [.expired, .supersededByFlip, .invalidated] := by
    rw [endsAt] at h
    split_ifs at h <;> cases h <;> simp only [List.mem_cons, true_or, or_true]
  constructor <;> intro other <;> rw [other] at states <;> exact absurd states (by decide)

theorem LevelSpec.scan_state {index : ℕ} {candles : List Candle} {state : LevelState}
    (h : level.scan index candles = some state) :
    state.state ≠ .superseded ∧ state.state ≠ .active := by
  induction candles generalizing index with
  | nil => cases h
  | cons candle candles ih =>
    rw [scan] at h
    rcases Option.or_eq_some_iff.mp h with found | ⟨-, found⟩
    · exact endsAt_state found
    · exact ih found

theorem LevelSpec.expiredBy_mono {t t' : Instant} (later : t ≤ t') (h : level.expiredBy t = true) :
    level.expiredBy t' = true := by
  rw [expiredBy, Option.any_eq_true] at h ⊢
  obtain ⟨expiresAt, expires, reached⟩ := h
  rw [decide_eq_true_iff] at reached
  exact ⟨expiresAt, expires, decide_eq_true (reached.trans later)⟩

/-! ## The end a level comes to of itself -/

/-- The state of a level that nothing supersedes. -/
def ownState (level : LevelSpec) (daily : List Candle) (context : Context) : LevelState :=
  evaluateLevel level daily context none

theorem evaluateLevel_eq (supersededAt : Option Instant) :
    evaluateLevel level daily context supersededAt =
      if supersededAt.any fun t => t ≤ context.asOf then
        { state := .superseded, effectiveAt := supersededAt }
      else ownState level daily context := rfl

theorem ownState_eq : ownState level daily context =
    match level.scan 0 (level.sessions daily context) with
    | some state => state
    | none =>
      if level.expiredBy context.asOf then { state := .expired, effectiveAt := level.expiresAt }
      else { state := .active } := rfl

theorem ownState_ne_superseded : (ownState level daily context).state ≠ .superseded := by
  rw [ownState_eq]
  cases found : level.scan 0 (level.sessions daily context) with
  | some state => exact (LevelSpec.scan_state found).1
  | none =>
    dsimp only
    split_ifs <;> exact fun h => by cases h

/-- A state that is active says no more. -/
theorem evaluateLevel_active {supersededAt : Option Instant}
    (h : (evaluateLevel level daily context supersededAt).state = .active) :
    evaluateLevel level daily context supersededAt = { state := .active } := by
  rw [evaluateLevel_eq] at h ⊢
  by_cases superseded : (supersededAt.any fun t => t ≤ context.asOf) = true
  · rw [if_pos superseded] at h
    cases h
  · rw [if_neg superseded, ownState_eq] at h ⊢
    cases found : level.scan 0 (level.sessions daily context) with
    | some state =>
      rw [found] at h
      exact absurd h (LevelSpec.scan_state found).2
    | none =>
      rw [found] at h
      dsimp only at h ⊢
      by_cases expired : level.expiredBy context.asOf = true
      · rw [if_pos expired] at h
        cases h
      · rw [if_neg expired]

/-- A level that has ended of itself stays as it is. -/
theorem ownState_final (inOrder : InOrder daily') (same : SameBy context.asOf daily daily')
    (later : context.asOf ≤ context'.asOf)
    (ended : (ownState level daily context).state ≠ .active) :
    ownState level daily' context' = ownState level daily context := by
  obtain ⟨rest, done, after⟩ := completedCandles_later inOrder same later
  rw [ownState_eq] at ended
  rw [ownState_eq, ownState_eq, LevelSpec.sessions, done, List.filter_append,
    LevelSpec.scan_append, ← LevelSpec.sessions]
  cases found : level.scan 0 (level.sessions daily context) with
  | some state => rw [Option.some_or]
  | none =>
    rw [found] at ended
    dsimp only at ended
    have expired : level.expiredBy context.asOf = true := by
      by_contra running
      rw [if_neg running] at ended
      exact ended rfl
    rw [Option.none_or]
    -- the first later candle finds the level expired
    cases behind : rest.filter fun candle => level.activatedAt ≤ candle.completedAt with
    | nil =>
      rw [LevelSpec.scan]
      dsimp only
      rw [if_pos expired, if_pos (LevelSpec.expiredBy_mono later expired)]
    | cons candle candles =>
      have mem : candle ∈ rest.filter fun candle => level.activatedAt ≤ candle.completedAt := by
        rw [behind]
        exact List.mem_cons_self
      have mem := (List.mem_filter.mp mem).1
      rw [LevelSpec.scan, LevelSpec.endsAt,
        if_pos (LevelSpec.expiredBy_mono (after candle mem).1.le expired), Option.some_or]
      dsimp only
      rw [if_pos expired]

/-- A level ends of itself when it has expired or one of its candles ends it. -/
def Ended (level : LevelSpec) (daily : List Candle) (context : Context) : Prop :=
  level.expiredBy context.asOf = true ∨
    ∃ index candle, (level.sessions daily context)[index]? = some candle ∧
      (level.outOfSessions index = true ∨
        (level.canFlip = true ∧ level.crossedCentral candle = true) ∨
        level.invalidated candle = true)

theorem LevelSpec.scan_eq_none {index : ℕ} {candles : List Candle} :
    level.scan index candles = none ↔
      ∀ k candle, candles[k]? = some candle → level.endsAt (index + k) candle = none := by
  induction candles generalizing index with
  | nil =>
    rw [scan]
    refine iff_of_true rfl fun k candle h => ?_
    rw [List.getElem?_nil] at h
    cases h
  | cons first candles ih =>
    rw [scan, Option.or_eq_none_iff, ih]
    constructor
    · rintro ⟨here, there⟩ k candle h
      cases k with
      | zero =>
        rw [List.getElem?_cons_zero] at h
        cases h
        exact here
      | succ k =>
        rw [List.getElem?_cons_succ] at h
        have turn : index + (k + 1) = index + 1 + k := by omega
        rw [turn]
        exact there k candle h
    · intro h
      refine ⟨h 0 first rfl, fun k candle found => ?_⟩
      have turn : index + 1 + k = index + (k + 1) := by omega
      rw [turn]
      exact h (k + 1) candle found

theorem LevelSpec.endsAt_eq_none {index : ℕ} {candle : Candle} : level.endsAt index candle = none ↔
    level.expiredBy candle.completedAt ≠ true ∧ level.outOfSessions index ≠ true ∧
      ¬ (level.canFlip = true ∧ level.crossedCentral candle = true) ∧
        level.invalidated candle ≠ true := by
  rw [← Bool.and_eq_true, endsAt]
  split_ifs with h1 h2 h3 h4
  · exact iff_of_false (fun h => by cases h) fun h => h.1 h1
  · exact iff_of_false (fun h => by cases h) fun h => h.2.1 h2
  · exact iff_of_false (fun h => by cases h) fun h => h.2.2.1 h3
  · exact iff_of_false (fun h => by cases h) fun h => h.2.2.2 h4
  · exact iff_of_true rfl ⟨h1, h2, h3, h4⟩

theorem ended_iff : (ownState level daily context).state ≠ .active ↔ Ended level daily context := by
  rw [ownState_eq, Ended]
  cases found : level.scan 0 (level.sessions daily context) with
  | some state =>
    refine iff_of_true (LevelSpec.scan_state found).2 ?_
    by_contra running
    rw [not_or] at running
    have none_ : level.scan 0 (level.sessions daily context) = none := by
      rw [LevelSpec.scan_eq_none]
      intro k candle h
      rw [Nat.zero_add, LevelSpec.endsAt_eq_none]
      have completed : candle.completedAt ≤ context.asOf := by
        have mem := (List.mem_filter.mp (List.mem_of_getElem? h)).1
        have mem := (List.mem_filter.mp (List.mem_mergeSort.mp mem)).2
        rw [Bool.and_eq_true, decide_eq_true_iff] at mem
        exact mem.2
      refine ⟨fun expired => running.1 (LevelSpec.expiredBy_mono completed expired),
        fun out => running.2 ⟨k, candle, h, .inl out⟩,
        fun flips => running.2 ⟨k, candle, h, .inr (.inl flips)⟩,
        fun invalid => running.2 ⟨k, candle, h, .inr (.inr invalid)⟩⟩
    rw [found] at none_
    cases none_
  | none =>
    dsimp only
    have quiet := LevelSpec.scan_eq_none.mp found
    constructor
    · intro ended
      left
      by_contra running
      rw [if_neg running] at ended
      exact ended rfl
    · rintro (expired | ⟨k, candle, h, ends⟩)
      · rw [if_pos expired]
        exact fun h => by cases h
      · have none_ := quiet k candle h
        rw [Nat.zero_add, LevelSpec.endsAt_eq_none] at none_
        rcases ends with out | flips | invalid
        · exact absurd out none_.2.1
        · exact absurd flips none_.2.2.1
        · exact absurd invalid none_.2.2.2

/-! ## Evaluations at two times, and at many -/

/-- The supersession tells a level the same at two times. -/
def SameSupersession (context context' : Context) (supersededAt supersededAt' : Option Instant) :
    Prop :=
  if supersededAt.any fun t => t ≤ context.asOf then supersededAt' = supersededAt
  else ¬ supersededAt'.any fun t => t ≤ context'.asOf

/-- A terminal state is that of a later evaluation unless a supersession comes between. -/
theorem evaluateLevel_later (inOrder : InOrder daily') (same : SameBy context.asOf daily daily')
    (later : context.asOf ≤ context'.asOf) {supersededAt : Option Instant}
    (terminal : (evaluateLevel level daily context supersededAt).state ≠ .active)
    (supersededAt' : Option Instant) :
    evaluateLevel level daily' context' supersededAt' =
        evaluateLevel level daily context supersededAt ↔
      SameSupersession context context' supersededAt supersededAt' := by
  rw [evaluateLevel_eq] at terminal
  rw [SameSupersession, evaluateLevel_eq, evaluateLevel_eq]
  by_cases superseded : (supersededAt.any fun t => t ≤ context.asOf) = true
  · rw [if_pos superseded, if_pos superseded]
    split_ifs with superseded'
    · constructor
      · exact fun h => congrArg LevelState.effectiveAt h
      · intro h
        rw [h]
    · refine iff_of_false (fun h => ?_) fun h => ?_
      · exact ownState_ne_superseded (congrArg LevelState.state h)
      · rw [h] at superseded'
        refine superseded' ?_
        rw [Option.any_eq_true] at superseded ⊢
        obtain ⟨t, some_, reached⟩ := superseded
        rw [decide_eq_true_iff] at reached
        exact ⟨t, some_, decide_eq_true (reached.trans later)⟩
  · rw [if_neg superseded] at terminal
    rw [if_neg superseded, if_neg superseded]
    split_ifs with superseded'
    · refine iff_of_false (fun h => ?_) fun h => h superseded'
      exact ownState_ne_superseded (congrArg LevelState.state h).symm
    · exact iff_of_true (ownState_final inOrder same later terminal) superseded'

/-- A history keeps its first terminal state. -/
theorem history_cons (supersededAt : Option Instant) (times : List Context) :
    history level daily supersededAt (context :: times) =
      if (evaluateLevel level daily context supersededAt).state = .active then
        history level daily supersededAt times
      else evaluateLevel level daily context supersededAt := by
  have kept : ∀ (times : List Context) (state : LevelState), state.state ≠ .active →
      times.foldl (persistState level daily supersededAt) state = state := by
    intro times state terminal
    induction times with
    | nil => rfl
    | cons time times ih => rw [List.foldl_cons, persistState, if_pos terminal, ih]
  have first : persistState level daily supersededAt { state := .active } context =
      evaluateLevel level daily context supersededAt := if_neg fun h => h rfl
  rw [history, List.foldl_cons, first]
  split_ifs with active
  · rw [evaluateLevel_active active]
    rfl
  · exact kept times _ active

/-- A history comes to the state of its last time, unless the level ended of itself at one of its
times and was superseded later. -/
theorem history_eq_iff (inOrder : InOrder daily) (supersededAt : Option Instant)
    {times : List Context} {last : Context} (increasing : times.Pairwise fun a b => a.asOf ≤ b.asOf)
    (final : times.getLast? = some last) :
    history level daily supersededAt times = evaluateLevel level daily last supersededAt ↔
      ∀ t, supersededAt = some t → t ≤ last.asOf → ∀ time ∈ times, time.asOf < t →
        ¬ Ended level daily time := by
  induction times with
  | nil => cases final
  | cons time times ih =>
    rw [history_cons]
    obtain ⟨above, increasing⟩ := List.pairwise_cons.mp increasing
    have upTo : time.asOf ≤ last.asOf := by
      rcases List.mem_cons.mp (List.mem_of_getLast? final) with rfl | mem
      · exact le_refl _
      · exact above last mem
    by_cases active : (evaluateLevel level daily time supersededAt).state = .active
    · rw [if_pos active]
      -- a level active at a time had not ended by then
      have quiet : ∀ t, supersededAt = some t → time.asOf < t → ¬ Ended level daily time := by
        intro t some_ before ended
        rw [evaluateLevel_eq, if_neg] at active
        · exact ended_iff.mpr ended active
        · rw [some_, Option.any_some, decide_eq_true_iff]
          exact not_le.mpr before
      cases times with
      | nil =>
        rw [List.getLast?_singleton] at final
        obtain rfl := Option.some.inj final
        rw [evaluateLevel_active active]
        refine iff_of_true rfl fun t some_ reached other mem before => ?_
        rw [List.mem_singleton] at mem
        rw [mem] at before
        exact absurd before (not_lt.mpr reached)
      | cons next times =>
        rw [List.getLast?_cons_cons] at final
        rw [ih increasing final]
        constructor
        · intro h t some_ reached other mem before
          rcases List.mem_cons.mp mem with rfl | mem
          · exact quiet t some_ before
          · exact h t some_ reached other mem before
        · exact fun h t some_ reached other mem => h t some_ reached other (List.mem_cons_of_mem _ mem)
    · rw [if_neg active, eq_comm, evaluateLevel_later inOrder rfl upTo active, SameSupersession]
      split_ifs with superseded
      · refine iff_of_true rfl fun t some_ reached other mem before => ?_
        rw [some_, Option.any_some, decide_eq_true_iff] at superseded
        rcases List.mem_cons.mp mem with rfl | mem
        · exact absurd before (not_lt.mpr superseded)
        · exact absurd before (not_lt.mpr (superseded.trans (above other mem)))
      · have ended : Ended level daily time := by
          rw [evaluateLevel_eq, if_neg superseded] at active
          exact ended_iff.mp active
        constructor
        · intro h t some_ reached
          refine absurd ?_ h
          rw [some_, Option.any_some, decide_eq_true_iff]
          exact reached
        · intro h superseded'
          rw [Option.any_eq_true] at superseded'
          obtain ⟨t, some_, reached⟩ := superseded'
          rw [decide_eq_true_iff] at reached
          refine h t some_ reached time List.mem_cons_self ?_ ended
          rw [some_, Option.any_some, decide_eq_true_iff, not_le] at superseded
          exact superseded

end

/-- A terminal state is final, and one evaluation tells what many told, for as long as no
supersession comes behind another end. -/
theorem level_final_iff (level : LevelSpec) :
    (∀ (daily daily' : List Candle) (context context' : Context)
      (supersededAt supersededAt' : Option Instant), InOrder daily' →
      SameBy context.asOf daily daily' → context.asOf ≤ context'.asOf →
      (evaluateLevel level daily context supersededAt).state ≠ .active →
        (evaluateLevel level daily' context' supersededAt' =
            evaluateLevel level daily context supersededAt ↔
          SameSupersession context context' supersededAt supersededAt')) ∧
      ∀ (daily : List Candle) (supersededAt : Option Instant) (times : List Context)
        (last : Context), InOrder daily → times.Pairwise (fun a b => a.asOf ≤ b.asOf) →
        times.getLast? = some last →
          (history level daily supersededAt times = evaluateLevel level daily last supersededAt ↔
            ∀ t, supersededAt = some t → t ≤ last.asOf → ∀ time ∈ times, time.asOf < t →
              ¬ Ended level daily time) :=
  ⟨fun _ _ _ _ _ supersededAt' inOrder same later terminal =>
      evaluateLevel_later inOrder same later terminal supersededAt',
    fun _ supersededAt _ _ inOrder increasing final =>
      history_eq_iff inOrder supersededAt increasing final⟩

/-- A support at 10. -/
def tenLevel : LevelSpec where
  key := "daily-swing:low:0"
  family := "CONFIRMED_DAILY_SWING"
  role := .support
  centralPrice := 10
  zoneLower := 985 / 100
  zoneUpper := 1015 / 100
  atrAtActivation := 2
  activatedAt := 0
  sourceAt := 0

/-- A day's candle with all prices equal. -/
def pricedDay (openedAt : Instant) (price : ℚ) : Candle :=
  ⟨openedAt, openedAt + Civil.day, price, price, price, price, price, price, price, price, true⟩

/-- A close below the support on the second of three days. -/
def brokenDays : List Candle :=
  [pricedDay 0 11, pricedDay Civil.day 9, pricedDay (2 * Civil.day) 11]

theorem brokenDays_inOrder : InOrder brokenDays := by
  unfold InOrder
  decide

theorem brokenDays_completed (context : Context) : completedCandles brokenDays context =
    brokenDays.filter fun c => c.complete && c.completedAt ≤ context.asOf := by
  rw [completedCandles]
  refine List.mergeSort_of_pairwise (List.Pairwise.filter _ ?_)
  decide

/-- The close of the second day flips the level. -/
theorem tenLevel_flips : evaluateLevel tenLevel brokenDays { asOf := 2 * Civil.day }
      (some (3 * Civil.day)) =
    { state := .supersededByFlip, effectiveAt := some (2 * Civil.day) } := by
  rw [evaluateLevel, LevelSpec.sessions, brokenDays_completed]
  decide +kernel

/-- Of the two days behind the close, and superseded on the fourth. -/
theorem level_final_flip :
    (evaluateLevel tenLevel brokenDays { asOf := 3 * Civil.day } (some (4 * Civil.day)) =
        evaluateLevel tenLevel brokenDays { asOf := 2 * Civil.day } (some (4 * Civil.day)) ↔
      SameSupersession { asOf := 2 * Civil.day } { asOf := 3 * Civil.day } (some (4 * Civil.day))
        (some (4 * Civil.day))) ∧
      (history tenLevel brokenDays (some (4 * Civil.day))
          [{ asOf := 2 * Civil.day }, { asOf := 3 * Civil.day }] =
            evaluateLevel tenLevel brokenDays { asOf := 3 * Civil.day } (some (4 * Civil.day)) ↔
        ∀ t, some (4 * Civil.day) = some t → t ≤ 3 * Civil.day →
          ∀ time ∈ [({ asOf := 2 * Civil.day } : Context), { asOf := 3 * Civil.day }],
            time.asOf < t → ¬ Ended tenLevel brokenDays time) :=
  ⟨(level_final_iff tenLevel).1 brokenDays brokenDays { asOf := 2 * Civil.day }
      { asOf := 3 * Civil.day } (some (4 * Civil.day)) (some (4 * Civil.day)) brokenDays_inOrder rfl
      (by decide) (by
        rw [evaluateLevel, LevelSpec.sessions, brokenDays_completed]
        decide +kernel),
    (level_final_iff tenLevel).2 brokenDays (some (4 * Civil.day))
      [{ asOf := 2 * Civil.day }, { asOf := 3 * Civil.day }] { asOf := 3 * Civil.day }
      brokenDays_inOrder (by simp [Civil.day]) rfl⟩

/-- Flipped by a close of the second day, a level is superseded on the third, where it had not been
evaluated before. -/
theorem level_not_final :
    InOrder brokenDays ∧
      evaluateLevel tenLevel brokenDays { asOf := 2 * Civil.day } (some (3 * Civil.day)) =
        { state := .supersededByFlip, effectiveAt := some (2 * Civil.day) } ∧
      evaluateLevel tenLevel brokenDays { asOf := 3 * Civil.day } (some (3 * Civil.day)) =
        { state := .superseded, effectiveAt := some (3 * Civil.day) } ∧
      history tenLevel brokenDays (some (3 * Civil.day))
          [{ asOf := 2 * Civil.day }, { asOf := 3 * Civil.day }] =
        { state := .supersededByFlip, effectiveAt := some (2 * Civil.day) } := by
  refine ⟨brokenDays_inOrder, tenLevel_flips, by decide, ?_⟩
  rw [history_cons, tenLevel_flips]
  exact if_neg (by decide)

end TradeRecommender.Strategy
