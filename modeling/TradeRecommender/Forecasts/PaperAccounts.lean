import Mathlib.Logic.Relation
import TradeRecommender.Forecasts.PaperTrades

/-!
# Paper accounts

What `resolve_paper_trade` can do to what is stored, whatever it finds when it is called.

1. the moves a call is made of;
2. a call is a sequence of moves;
3. what every move keeps: entries are fills of their candles, results are exits of their entries,
   and the lifecycle agrees with both;
4. fills, stops and multiples of the risk.
-/

namespace TradeRecommender.Forecasts.Paper

open Civil (Instant newYork)
open Decimals (divided quantized divided_mono quantized_mono divided_eq_ok quantized_eq_ok)
open Py
open Relation (ReflTransGen)
open Scope (Outcome)

/-! ## Moves -/

/-- The states an open account is in. -/
def Live (a : Account) : Prop := a.state ∈ [LifecycleState.admittedAwaitingEntry, .entered]

/-- An exit that the candles, or the horizon, bring to an entry. -/
def Leaves (rec : Recommendation) (entry : Entry) (exit : Exit) : Prop :=
  exitOn rec exit.candle = some exit ∨
    exitOnEntry rec entry.candle entry.entryAtCandleOpen = some exit ∨ exit.outcome = .expired

/-- A result of an entry, or of none. -/
inductive Closing (rec : Recommendation) : Option Entry → Result → Prop
  | notActivated (result : Result) (outcome : result.outcome = .notActivated)
      (exitPrice : result.exitPrice = none) (rMultiple : result.rMultiple = none) :
      Closing rec none result
  | exits (entry : Entry) (exit : Exit) (result : Result) (leaves : Leaves rec entry exit)
      (made : resultOf rec result.horizonCandle result.resolvedAt entry exit = .ok result) :
      Closing rec (some entry) result

section
variable (s : Sight) (rec : Recommendation)

/-- What a call can do to an account at once. -/
inductive Move : Account → Account → Prop
  | resolves {a : Account} (resolution : TargetResolution) (none_ : a.resolution = none)
      (matured : rec.expiresAt ≤ resolution.resolvedAt) :
      Move a { a with resolution := some resolution }
  | enters {a a' : Account} (entry : Entry) (candle : Candle) (fill : Bool × ℤ)
      (directional : rec.action ≠ .abstain) (live : Live a) (result : a.result = none)
      (none_ : a.entry = none) (filled : entryFill rec candle = some fill)
      (made : newEntry rec s.now candle fill = .ok entry)
      (advanced : advance s rec { a with entry := some entry } .entered = .ok a') : Move a a'
  | closes {a a' : Account} (result : Result) (live : Live a) (none_ : a.result = none)
      (closing : Closing rec a.entry result)
      (advanced : advance s rec { a with result := some result } result.outcome.state = .ok a') :
      Move a a'
  | fails {a a' : Account} (state : LifecycleState) (live : Live a) (result : a.result = none)
      (coverage : state = .missingData ∨ state = .expiredUnobserved ∧ a.entry = none)
      (advanced : advance s rec a state = .ok a') : Move a a'

end

section
variable {s : Sight} {rec : Recommendation} {a a' : Account} {entry : Entry} {exit : Exit}

theorem advance_cases {state : LifecycleState} (h : advance s rec a state = .ok a') :
    a.state = state ∧ a' = a ∨ state ∈ transitions a.state ∧ rec.generatedAt ≤ s.now ∧
      a.since ≤ s.now ∧ a' = { a with state := state, since := s.now } := by
  unfold advance at h
  by_cases same : a.state = state
  · rw [if_pos same] at h
    exact .inl ⟨same, (Except.ok.inj h).symm⟩
  · rw [if_neg same] at h
    by_cases legal : state ∈ transitions a.state ∧ rec.generatedAt ≤ s.now ∧ a.since ≤ s.now
    · rw [if_pos legal] at h
      exact .inr ⟨legal.1, legal.2.1, legal.2.2, (Except.ok.inj h).symm⟩
    · rw [if_neg legal] at h
      exact absurd h raise_ne_ok

theorem newEntry_eq {now : Instant} {candle : Candle} {fill : Bool × ℤ}
    (h : newEntry rec now candle fill = .ok entry) :
    entry.candle = candle ∧ entry.fillPrice = fill.2 ∧ entry.entryAtCandleOpen = fill.1 := by
  unfold newEntry at h
  dsimp only at h
  split_ifs at h
  all_goals first
    | exact absurd h raise_ne_ok
    | exact Except.ok.inj h ▸ ⟨rfl, rfl, rfl⟩

/-- The result of an exit. -/
theorem resultOf_eq {horizon : Option Candle} {now : Instant} {result : Result}
    (h : resultOf rec horizon now entry exit = .ok result) :
    result.outcome = exit.outcome ∧ result.horizonCandle = horizon ∧ result.resolvedAt = now ∧
      result.exitCandle = some exit.candle ∧ result.exitPrice = some exit.price ∧
      ∃ ratio r, divided (price (if rec.action = .buy then exit.price - entry.fillPrice
          else entry.fillPrice - exit.price)) (price (risk rec entry)) = .ok ratio ∧
        quantized (-4) ratio = .ok r ∧ result.rMultiple = some r := by
  unfold resultOf at h
  obtain ⟨_, -, h⟩ := bind_eq_ok.mp h
  obtain ⟨_, -, h⟩ := bind_eq_ok.mp h
  obtain ⟨ratio, divides, h⟩ := bind_eq_ok.mp h
  obtain ⟨r, rounds, h⟩ := bind_eq_ok.mp h
  cases h
  exact ⟨rfl, rfl, rfl, rfl, rfl, ratio, r, divides, rounds, rfl⟩

theorem exitOn_candle {candle : Candle} (h : exitOn rec candle = some exit) :
    exit.candle = candle := by
  unfold exitOn at h
  dsimp only at h
  split_ifs at h <;> exact Option.some.inj h ▸ rfl

theorem findEntry_split {candles after : List Candle} {candle : Candle} {fill : Bool × ℤ}
    (h : findEntry rec candles = some (candle, fill, after)) :
    ∃ before, candles = before ++ candle :: after ∧ entryFill rec candle = some fill := by
  induction candles with
  | nil => cases h
  | cons first candles ih =>
    rw [findEntry] at h
    cases filled : entryFill rec first with
    | none =>
      rw [filled] at h
      obtain ⟨before, rfl, fills⟩ := ih h
      exact ⟨first :: before, rfl, fills⟩
    | some fill' =>
      rw [filled] at h
      cases h
      exact ⟨[], rfl, filled⟩

/-! ## A call is moves -/

theorem storeResult_move {result : Result} (live : Live a) (none_ : a.result = none)
    (closing : Closing rec a.entry result) (h : storeResult s rec a result = .ok a') :
    Move s rec a a' := by
  unfold storeResult at h
  by_cases fits : result.Fits
  · rw [if_neg (not_not.mpr fits)] at h
    by_cases expires : result.outcome = .expired ∨ result.outcome = .notActivated
    · rw [if_pos expires] at h
      obtain ⟨_, -, h⟩ := bind_eq_ok.mp h
      exact .closes result live none_ closing h
    · rw [if_neg expires] at h
      exact .closes result live none_ closing h
  · rw [if_pos fits] at h
    exact absurd h raise_ne_ok

theorem createResult_move (live : Live a) (none_ : a.result = none) (here : a.entry = some entry)
    (leaves : Leaves rec entry exit) (h : createResult s rec a entry exit = .ok a') :
    Move s rec a a' := by
  unfold createResult at h
  obtain ⟨result, made, h⟩ := bind_eq_ok.mp h
  obtain ⟨stored, storing, h⟩ := bind_eq_ok.mp h
  obtain ⟨_, -, h⟩ := bind_eq_ok.mp h
  cases h
  obtain ⟨-, horizon, now, -⟩ := resultOf_eq made
  refine storeResult_move live none_ (here ▸ .exits entry exit result leaves ?_) storing
  rw [horizon, now]
  exact made

theorem recordCoverage_move {state : LifecycleState} {reasonCode : String} {names : Bool}
    (live : Live a) (none_ : a.result = none)
    (coverage : state = .missingData ∨ state = .expiredUnobserved ∧ a.entry = none)
    (h : recordCoverage s rec a state reasonCode names = .ok a') : Move s rec a a' := by
  unfold recordCoverage at h
  obtain ⟨_, -, h⟩ := bind_eq_ok.mp h
  exact .fails state live none_ coverage h

/-- The state of coverage at the maturity. -/
theorem coverage_state (a : Account) :
    (if a.entry.isSome then LifecycleState.missingData else .expiredUnobserved) = .missingData ∨
    (if a.entry.isSome then LifecycleState.missingData else .expiredUnobserved) =
      .expiredUnobserved ∧ a.entry = none := by
  cases a.entry with
  | none => exact .inr ⟨rfl, rfl⟩
  | some entry => exact .inl rfl

/-- A fact of missing daily candles needs the resolution that says so. -/
theorem recordCoverage_unnamed {state : LifecycleState} :
    recordCoverage s rec a state "daily_horizon_unavailable" ≠ .ok a' := by
  intro h
  unfold recordCoverage at h
  obtain ⟨_, valid, -⟩ := bind_eq_ok.mp h
  unfold validateCoverageFact at valid
  dsimp only at valid
  by_cases before : s.now < rec.expiresAt
  · rw [if_pos before] at valid
    exact absurd valid raise_ne_ok
  · rw [if_neg before, if_pos rfl, if_pos (.inr (.inr rfl))] at valid
    exact absurd valid raise_ne_ok

theorem settle_moves {shared : Option TargetResolution} {candles : List Candle} (live : Live a)
    (none_ : a.result = none) (h : settle s rec a shared candles = .ok a') :
    ReflTransGen (Move s rec) a a' := by
  unfold settle at h
  by_cases missing : shared.any TargetResolution.missing = true
  · rw [if_pos missing] at h
    exact .single (recordCoverage_move live none_ (.inl rfl) h)
  rw [if_neg missing] at h
  cases covers : s.horizon.filter fun _ => s.hasCoverage rec rec.expiresAt candles with
  | none =>
    rw [covers] at h
    obtain ⟨same, unnamed, h⟩ := bind_eq_ok.mp h
    obtain rfl : a = same := by
      unfold lapse at unnamed
      by_cases late : s.horizon = none ∧ rec.generatedAt + 14 * Civil.day < s.now
      · rw [if_pos late] at unnamed
        exact absurd unnamed recordCoverage_unnamed
      · rw [if_neg late] at unnamed
        exact Except.ok.inj unnamed
    by_cases expired : rec.expiresAt ≤ s.now
    · rw [if_pos expired] at h
      exact .single (recordCoverage_move live none_ (coverage_state a) h)
    · rw [if_neg expired] at h
      cases h
      exact .refl
  | some horizon =>
    rw [covers] at h
    cases here : a.entry with
    | none =>
      rw [here] at h
      exact .single (storeResult_move live none_ (here ▸ .notActivated _ rfl rfl rfl) h)
    | some entry =>
      rw [here] at h
      exact .single (createResult_move live none_ here (.inr (.inr rfl)) h)

theorem leave_moves {shared : Option TargetResolution} {candles : List Candle}
    {exit : Option Exit} (live : Live a) (none_ : a.result = none) (here : a.entry = some entry)
    (leaves : ∀ e ∈ exit, Leaves rec entry e)
    (h : leave s rec a shared entry exit candles = .ok a') :
    ReflTransGen (Move s rec) a a' := by
  cases exit with
  | none => exact settle_moves live none_ h
  | some exit => exact .single (createResult_move live none_ here (leaves exit rfl) h)

theorem leaves_of_findSome {candles : List Candle} (h : candles.findSome? (exitOn rec) = some exit) :
    Leaves rec entry exit := by
  obtain ⟨candle, -, here⟩ := List.exists_of_findSome?_eq_some h
  exact .inl (exitOn_candle here ▸ here)

theorem scan_moves {shared : Option TargetResolution} {candles : List Candle}
    (directional : rec.action ≠ .abstain) (live : Live a) (none_ : a.result = none)
    (h : scan s rec a shared candles = .ok a') : ReflTransGen (Move s rec) a a' := by
  unfold scan at h
  cases here : a.entry with
  | some entry =>
    rw [here] at h
    exact leave_moves live none_ here (fun _ mem => leaves_of_findSome mem) h
  | none =>
    rw [here] at h
    dsimp only at h
    cases found : findEntry rec candles with
    | none =>
      rw [found] at h
      exact settle_moves live none_ h
    | some fill =>
      obtain ⟨candle, fill, after⟩ := fill
      rw [found] at h
      obtain ⟨entry, made, h⟩ := bind_eq_ok.mp h
      obtain ⟨entered, advanced, h⟩ := bind_eq_ok.mp h
      obtain ⟨-, -, filled⟩ := findEntry_split found
      have move : Move s rec a entered :=
        .enters entry candle fill directional live none_ here filled made advanced
      obtain ⟨state, kept, stored⟩ : entered.state = .entered ∧ entered.result = none ∧
          entered.entry = some entry := by
        rcases advance_cases advanced with ⟨same, rfl⟩ | ⟨-, -, -, rfl⟩
        · exact ⟨same, none_, rfl⟩
        · exact ⟨rfl, none_, rfl⟩
      have live' : Live entered := by
        unfold Live
        rw [state]
        decide
      refine .head move (leave_moves live' kept stored (fun exit mem => ?_) h)
      rcases Option.or_eq_some_iff.mp mem with onEntry | ⟨-, later⟩
      · obtain ⟨candle_eq, -, atOpen⟩ := newEntry_eq made
        exact .inr (.inl (by rw [candle_eq, atOpen]; exact onEntry))
      · exact leaves_of_findSome later

theorem resolveTarget_moves (live : Live a) (none_ : a.result = none) :
    ReflTransGen (Move s rec) a (resolveTarget s rec a).2 ∧ Live (resolveTarget s rec a).2 ∧
      (resolveTarget s rec a).2.result = none := by
  unfold resolveTarget
  cases here : a.resolution with
  | some existing => exact ⟨.refl, live, none_⟩
  | none =>
    dsimp only
    split_ifs with early
    · exact ⟨.refl, live, none_⟩
    · exact ⟨.single (.resolves _ here (Int.not_lt.mp early)), live, none_⟩

/-- **What a call can do**: moves, of an account that is open. -/
theorem resolve_moves (h : resolve s rec a = .ok a') : ReflTransGen (Move s rec) a a' := by
  unfold resolve at h
  by_cases guard : a.result.isSome ∨ rec.action = .abstain ∨ s.admitted = false ∨
      a.state ∉ [LifecycleState.admittedAwaitingEntry, .entered]
  · rw [if_pos guard] at h
    cases h
    exact .refl
  rw [if_neg guard] at h
  push Not at guard
  obtain ⟨unresolved, directional, -, live⟩ := guard
  have none_ : a.result = none := Option.not_isSome_iff_eq_none.mp (by simpa using unresolved)
  obtain ⟨moved, live', kept⟩ := @resolveTarget_moves s rec a live none_
  dsimp only at h
  by_cases uncovered : (s.candles rec).getLast?.any (fun last =>
      decide (s.hasCoverage rec (last.timestamp + Civil.hour) (s.candles rec) = false)) = true
  · rw [if_pos uncovered] at h
    by_cases expired : rec.expiresAt ≤ s.now
    · rw [if_pos expired] at h
      exact moved.tail (recordCoverage_move live' kept (coverage_state _) h)
    · rw [if_neg expired] at h
      cases h
      exact moved
  · rw [if_neg uncovered] at h
    exact moved.trans (scan_moves directional live' kept h)

/-! ## What every move keeps -/

/-- The resolution of a target is not dated before its maturity. -/
def Account.Resolved (rec : Recommendation) (a : Account) : Prop :=
  ∀ resolution ∈ a.resolution, rec.expiresAt ≤ resolution.resolvedAt

/-- The states of an account without a result. -/
def openStates (entry : Option Entry) : List LifecycleState :=
  match entry with
  | none => [.admittedAwaitingEntry, .expiredUnobserved, .missingData]
  | some _ => [.entered, .missingData]

/-- Entries are fills, results are exits, and the lifecycle agrees with both. -/
structure Sound (rec : Recommendation) (a : Account) : Prop where
  entered : ∀ entry ∈ a.entry, rec.action ≠ .abstain ∧
    entryFill rec entry.candle = some (entry.entryAtCandleOpen, entry.fillPrice)
  closed : ∀ result ∈ a.result, Closing rec a.entry result ∧ a.state = result.outcome.state
  open_ : a.result = none → a.state ∈ openStates a.entry
  resolved : a.Resolved rec

/-- A live account is entered where it has an entry. -/
theorem Sound.live (sound : Sound rec a) (live : Live a) (none_ : a.result = none) :
    a.state = if a.entry.isSome then .entered else .admittedAwaitingEntry := by
  have states := sound.open_ none_
  unfold Live at live
  cases here : a.entry with
  | none =>
    rw [here] at states
    generalize a.state = state at *
    revert live states
    cases state <;> decide
  | some entry =>
    have states : a.state ∈ [LifecycleState.entered, .missingData] := by
      rw [here] at states
      exact states
    show a.state = .entered
    generalize a.state = state at *
    revert live states
    cases state <;> decide

theorem outcome_not_open (outcome : Outcome) :
    outcome.state ∉ [LifecycleState.admittedAwaitingEntry, .entered] := by
  cases outcome <;> decide

/-- **A move keeps an account sound.** -/
theorem Move.sound (move : Move s rec a a') (sound : Sound rec a) : Sound rec a' := by
  cases move with
  | resolves resolution none_ matured =>
    refine ⟨sound.entered, sound.closed, sound.open_, fun resolution' mem => ?_⟩
    obtain rfl := Option.some.inj mem
    exact matured
  | enters entry candle fill directional live result none_ filled made advanced =>
    obtain ⟨candle_eq, price_eq, atOpen⟩ := newEntry_eq made
    have filled' : entryFill rec entry.candle = some (entry.entryAtCandleOpen, entry.fillPrice) := by
      rw [candle_eq, price_eq, atOpen]
      exact filled
    have waiting := sound.live live result
    rw [none_] at waiting
    rcases advance_cases advanced with ⟨same, -⟩ | ⟨-, -, -, rfl⟩
    · exact absurd (same.symm.trans waiting) (by decide)
    · refine ⟨fun other mem => ?_, fun other mem => ?_, fun _ => by simp [openStates],
        sound.resolved⟩
      · obtain rfl := Option.some.inj mem
        exact ⟨directional, filled'⟩
      · rw [result] at mem
        cases mem
  | closes result live none_ closing advanced =>
    rcases advance_cases advanced with ⟨same, -⟩ | ⟨-, -, -, rfl⟩
    · have state : a.state = result.outcome.state := same
      unfold Live at live
      rw [state] at live
      exact absurd live (outcome_not_open _)
    · refine ⟨sound.entered, fun other mem => ?_, fun h => (by cases h), sound.resolved⟩
      obtain rfl := Option.some.inj mem
      exact ⟨closing, rfl⟩
  | fails state live result coverage advanced =>
    rcases advance_cases advanced with ⟨-, rfl⟩ | ⟨-, -, -, rfl⟩
    · exact sound
    · refine ⟨sound.entered, fun other mem => ?_, fun _ => ?_, sound.resolved⟩
      · rw [result] at mem
        cases mem
      · show state ∈ openStates a.entry
        rcases coverage with rfl | ⟨rfl, none_⟩
        · cases a.entry <;> simp [openStates]
        · rw [none_]
          simp [openStates]

/-- What has been stored of an entry, of a result and of the target stays. -/
structure Kept (a a' : Account) : Prop where
  entry : ∀ entry ∈ a.entry, a'.entry = some entry
  result : ∀ result ∈ a.result, a'.result = some result
  resolution : ∀ resolution ∈ a.resolution, a'.resolution = some resolution

theorem Kept.refl (a : Account) : Kept a a := ⟨fun _ h => h, fun _ h => h, fun _ h => h⟩

theorem Kept.trans {b c : Account} (first : Kept a b) (second : Kept b c) : Kept a c where
  entry _ mem := second.entry _ (first.entry _ mem)
  result _ mem := second.result _ (first.result _ mem)
  resolution _ mem := second.resolution _ (first.resolution _ mem)

/-- **A move keeps what is stored.** -/
theorem Move.kept (move : Move s rec a a') : Kept a a' := by
  cases move with
  | resolves resolution none_ matured =>
    exact ⟨fun _ h => h, fun _ h => h, fun _ mem => (by rw [none_] at mem; cases mem)⟩
  | enters entry candle fill directional live result none_ filled made advanced =>
    have more : Kept a { a with entry := some entry } :=
      ⟨fun _ mem => (by rw [none_] at mem; cases mem), fun _ h => h, fun _ h => h⟩
    rcases advance_cases advanced with ⟨-, rfl⟩ | ⟨-, -, -, rfl⟩
    · exact more
    · exact ⟨more.entry, more.result, more.resolution⟩
  | closes result live none_ closing advanced =>
    have more : Kept a { a with result := some result } :=
      ⟨fun _ h => h, fun _ mem => (by rw [none_] at mem; cases mem), fun _ h => h⟩
    rcases advance_cases advanced with ⟨-, rfl⟩ | ⟨-, -, -, rfl⟩
    · exact more
    · exact ⟨more.entry, more.result, more.resolution⟩
  | fails state live result coverage advanced =>
    rcases advance_cases advanced with ⟨-, rfl⟩ | ⟨-, -, -, rfl⟩
    · exact Kept.refl _
    · exact ⟨fun _ h => h, fun _ h => h, fun _ h => h⟩

theorem Move.since_le (move : Move s rec a a') (since : a.since ≤ s.now) : a'.since ≤ s.now := by
  have advanced : ∀ {b : Account} {state : LifecycleState}, advance s rec b state = .ok a' →
      b.since = a.since → a'.since ≤ s.now := by
    intro b state h same
    rcases advance_cases h with ⟨-, rfl⟩ | ⟨-, -, -, rfl⟩
    · exact same ▸ since
    · exact Int.le_refl _
  cases move with
  | resolves resolution none_ matured => exact since
  | enters entry candle fill directional live result none_ filled made h => exact advanced h rfl
  | closes result live none_ closing h => exact advanced h rfl
  | fails state live result coverage h => exact advanced h rfl

theorem moves_keep (moves : ReflTransGen (Move s rec) a a') (sound : Sound rec a) :
    Sound rec a' ∧ Kept a a' := by
  induction moves with
  | refl => exact ⟨sound, Kept.refl a⟩
  | tail _ move ih => exact ⟨move.sound ih.1, ih.2.trans move.kept⟩

theorem moves_since (moves : ReflTransGen (Move s rec) a a') (since : a.since ≤ s.now) :
    a'.since ≤ s.now := by
  induction moves with
  | refl => exact since
  | tail _ move ih => exact move.since_le ih

theorem call_keeps (s : Sight) (sound : Sound rec a) :
    Sound rec (call s rec a) ∧ Kept a (call s rec a) := by
  unfold call
  cases resolved : resolve s rec a with
  | ok a' => exact moves_keep (resolve_moves resolved) sound
  | error e => exact ⟨sound, Kept.refl a⟩

/-- **Calls keep an account sound**, and what is stored. -/
theorem calls_keep (sights : List Sight) (sound : Sound rec a) :
    Sound rec (calls rec a sights) ∧ Kept a (calls rec a sights) := by
  induction sights generalizing a with
  | nil => exact ⟨sound, Kept.refl a⟩
  | cons s sights ih =>
    obtain ⟨sound', kept⟩ := call_keeps s sound
    obtain ⟨sound'', kept'⟩ := ih sound'
    exact ⟨sound'', kept.trans kept'⟩

/-- A call changes nothing of an account that is not live. -/
theorem call_done (s : Sight) (done : ¬ Live a) : call s rec a = a := by
  unfold call resolve
  rw [if_pos (.inr (.inr (.inr done)))]

theorem calls_done (sights : List Sight) (done : ¬ Live a) : calls rec a sights = a := by
  induction sights with
  | nil => rfl
  | cons s sights ih =>
    show calls rec (call s rec a) sights = a
    rw [call_done s done]
    exact ih

/-- An admitted recommendation, before any call. -/
def fresh (since : Instant) : Account := { state := .admittedAwaitingEntry, since }

theorem fresh_sound (since : Instant) : Sound rec (fresh since) where
  entered _ mem := by cases mem
  closed _ mem := by cases mem
  open_ _ := List.mem_cons_self
  resolved _ mem := by cases mem

/-- **Paper accounts.** Whatever calls find, an entry is the fill of its candle, a result is an exit
of that entry, or of none, and the lifecycle agrees with both; later calls keep what is stored, and
change nothing of an account that is closed. -/
theorem paper_accounts (rec : Recommendation) (since : Instant) (sights more : List Sight) :
    let a := calls rec (fresh since) sights
    Sound rec a ∧ Kept a (calls rec a more) ∧ (¬ Live a → calls rec a more = a) := by
  intro a
  obtain ⟨sound, -⟩ := calls_keep sights (fresh_sound since : Sound rec (fresh since))
  exact ⟨sound, (calls_keep more sound).2, calls_done more⟩

end

/-! ## Fills, stops and multiples -/

section
variable {s : Sight} {rec : Recommendation} {a : Account} {entry : Entry} {exit : Exit}

/-- A fill is at the level or worse. -/
theorem fill_worse {candle : Candle} {atOpen : Bool} {fill : ℤ}
    (h : entryFill rec candle = some (atOpen, fill)) :
    (rec.action = .buy → rec.entryLevel ≤ fill) ∧ (rec.action ≠ .buy → fill ≤ rec.entryLevel) := by
  unfold entryFill at h
  dsimp only at h
  by_cases buy : rec.action = .buy
  · refine ⟨fun _ => ?_, fun other => absurd buy other⟩
    simp only [if_pos buy] at h
    split_ifs at h
    all_goals
      obtain ⟨-, rfl⟩ := Prod.mk.inj (Option.some.inj h)
      first
        | exact le_rfl
        | exact le_max_left _ _
  · refine ⟨fun other => absurd other buy, fun _ => ?_⟩
    simp only [if_neg buy] at h
    split_ifs at h
    all_goals
      obtain ⟨-, rfl⟩ := Prod.mk.inj (Option.some.inj h)
      first
        | exact le_rfl
        | exact min_le_left _ _

/-- A sound entry is beyond the level of its invalidation, on the side of its target. -/
theorem Sound.beyond (sound : Sound rec a) (here : entry ∈ a.entry) :
    (rec.action = .buy → rec.invalidationLevel < entry.fillPrice) ∧
      (rec.action ≠ .buy → entry.fillPrice < rec.invalidationLevel) := by
  obtain ⟨directional, filled⟩ := sound.entered entry here
  obtain ⟨bought, sold⟩ := fill_worse filled
  have ordered := rec.ordered
  constructor
  · intro buy
    rw [buy] at ordered
    exact lt_of_lt_of_le ordered.1 (bought buy)
  · intro other
    have sell : rec.action = .sell := by
      cases action : rec.action with
      | abstain => exact absurd action directional
      | buy => exact absurd action other
      | sell => rfl
    rw [sell] at ordered
    exact lt_of_le_of_lt (sold other) ordered.2

theorem Sound.risk_pos (sound : Sound rec a) (here : entry ∈ a.entry) : 0 < risk rec entry := by
  obtain ⟨bought, sold⟩ := sound.beyond here
  unfold risk
  rw [abs_pos]
  by_cases buy : rec.action = .buy
  · exact sub_ne_zero.mpr (bought buy).ne'
  · exact sub_ne_zero.mpr (sold buy).ne

/-- The price of a stop is at the level or worse. -/
theorem exit_stops (stops : exit.outcome = .invalidated) (leaves : Leaves rec entry exit) :
    ∃ candle, exit.candle = candle ∧ (exitTouches rec candle).2 = true ∧
      exit.price = stopFill rec candle := by
  rcases leaves with later | onEntry | expired
  · unfold exitOn at later
    dsimp only at later
    split_ifs at later with stop target
    · exact ⟨exit.candle, rfl, stop, by rw [← Option.some.inj later]⟩
    · rw [← Option.some.inj later] at stops
      cases stops
  · unfold exitOnEntry at onEntry
    dsimp only at onEntry
    split_ifs at onEntry with stop target
    · rw [← Option.some.inj onEntry]
      exact ⟨_, rfl, stop, rfl⟩
    · rw [← Option.some.inj onEntry] at stops
      cases stops
  · rw [stops] at expired
    cases expired

/-- A target is taken on a candle that does not touch the stop. -/
theorem exit_targets (hits : exit.outcome = .target) (leaves : Leaves rec entry exit) :
    (exitTouches rec exit.candle).2 = false ∧ (exitTouches rec exit.candle).1 = true ∧
      exit.price = rec.targetLevel := by
  rcases leaves with later | onEntry | expired
  · unfold exitOn at later
    dsimp only at later
    split_ifs at later with stop target
    · rw [← Option.some.inj later] at hits
      cases hits
    · refine ⟨Bool.not_eq_true _ ▸ stop, target, ?_⟩
      rw [← Option.some.inj later]
  · unfold exitOnEntry at onEntry
    dsimp only at onEntry
    split_ifs at onEntry with stop target
    · rw [← Option.some.inj onEntry] at hits
      cases hits
    · rw [← Option.some.inj onEntry]
      exact ⟨Bool.not_eq_true _ ▸ stop, (Bool.and_eq_true_iff.mp target).1, rfl⟩
  · rw [hits] at expired
    cases expired

theorem quantized_unit : quantized (-4) (-1) = .ok (-1) := by
  have grid : (-1 : ℚ) = ((-10000 : ℤ) : ℚ) * 10 ^ (-4 : ℤ) := by norm_num
  rw [quantized_eq_ok, grid]
  refine ⟨?_, Rounding.quantize_of_grid _ _⟩
  unfold Decimals.Context.Holds
  rw [mul_div_cancel_right₀ _ (by norm_num), Rounding.halfEven_intCast]
  decide

/-- **An invalidated trade loses its risk or more.** -/
theorem Sound.invalidated_le (sound : Sound rec a) {result : Result} (here : result ∈ a.result)
    (stops : result.outcome = .invalidated) : ∃ r, result.rMultiple = some r ∧ r ≤ -1 := by
  obtain ⟨closing, -⟩ := sound.closed result here
  cases closes : a.entry with
  | none =>
    rw [closes] at closing
    cases closing with
    | notActivated _ outcome _ _ =>
      rw [stops] at outcome
      cases outcome
  | some entry =>
    rw [closes] at closing
    cases closing with
    | exits _ exit _ leaves made =>
      obtain ⟨outcome, -, -, -, -, ratio, r, divides, rounds, multiple⟩ := resultOf_eq made
      refine ⟨r, multiple, ?_⟩
      obtain ⟨candle, -, -, filled⟩ := exit_stops (outcome.symm.trans stops) leaves
      have positive := sound.risk_pos closes
      obtain ⟨bought, sold⟩ := sound.beyond closes
      have loses : (if rec.action = .buy then exit.price - entry.fillPrice
          else entry.fillPrice - exit.price) ≤ -risk rec entry := by
        rw [filled]
        unfold risk stopFill
        by_cases buy : rec.action = .buy
        · rw [if_pos buy, if_pos buy, abs_of_pos (sub_pos.mpr (bought buy))]
          have := min_le_left rec.invalidationLevel candle.bidOpen
          omega
        · rw [if_neg buy, if_neg buy, abs_of_neg (sub_neg.mpr (sold buy))]
          have := le_max_left rec.invalidationLevel candle.askOpen
          omega
      have risk_pos : (0 : ℚ) < price (risk rec entry) := by
        unfold price
        have : (0 : ℚ) < risk rec entry := by exact_mod_cast positive
        positivity
      have signed : price (if rec.action = .buy then exit.price - entry.fillPrice
          else entry.fillPrice - exit.price) ≤ -price (risk rec entry) := by
        unfold price
        rw [← neg_div]
        exact div_le_div_of_nonneg_right (by exact_mod_cast loses) (by norm_num)
      have whole : divided (-price (risk rec entry)) (price (risk rec entry)) = .ok (-1) := by
        rw [divided_eq_ok]
        refine ⟨risk_pos.ne', ?_⟩
        unfold Rounding.div
        rw [neg_div, div_self risk_pos.ne']
        exact Rounding.fl_of_representable (by decide) ⟨-1, 0, by norm_num, by norm_num⟩
      exact quantized_mono (divided_mono risk_pos.le signed divides whole) rounds quantized_unit

end

end TradeRecommender.Forecasts.Paper
