import Mathlib.Order.Bounds.Basic
import TradeRecommender.Research.SignalCount

/-!
# What the signal-count report conserves

1. completions at the partition's end: a confirmation dated within the lifecycle horizon of a setup
   that is not censored lies in development;
2. every setup of the partition is pending or ended by one global transition;
3. the purge loses no confirmation;
4. the loops over the confirmed setups and over their evaluations;
5. the report: setups, evaluations and counters are conserved, and the peak of the requests is the
   largest number of entries open at one instant.
-/

namespace TradeRecommender.Research.SignalCount

open Py Civil Market

theorem require_eq_ok {condition : Prop} [Decidable condition] {message : String} {u : Unit} :
    require condition message = .ok u ↔ condition := by
  unfold require
  split_ifs with h <;> simp [h]

/-! ## Completions at the partition's end -/

section
variable {m d : ℤ} (contract : Bool)

/-- A completion comes at or after its open. -/
theorem le_candleCompletion (m : ℤ) : m ≤ candleCompletion contract m .h1 := by
  have step : (0 : ℤ) ≤ hour := by decide
  unfold candleCompletion
  split_ifs
  · exact le_add_of_nonneg_right step
  · unfold registeredCandleCompletion newYorkUtc newYorkWall
    have offset := newYorkOffset_eq m
    have back := newYorkWallOffset_eq (m + newYorkOffset m + Granularity.h1.step)
    simp only [Granularity.step, hour] at back ⊢ offset
    unfold Instant at *
    omega

theorem candleCompletion_le (m : ℤ) :
    candleCompletion contract m .h1 ≤ m + 2 * hour := by
  unfold candleCompletion
  split_ifs
  · simp only [hour]
    unfold Instant at *
    omega
  · unfold registeredCandleCompletion newYorkUtc newYorkWall
    have offset := newYorkOffset_eq m
    have back := newYorkWallOffset_eq (m + newYorkOffset m + Granularity.h1.step)
    simp only [Granularity.step, hour] at back ⊢ offset
    unfold Instant at *
    omega

/-- In the two hours before the partition's end no clock changes. -/
theorem candleCompletion_near (low : developmentEnd - 2 * hour ≤ m) (high : m < developmentEnd) :
    candleCompletion contract m .h1 = m + hour := by
  have boundary : developmentEnd = 17897 * day + 5 * hour := by decide
  unfold candleCompletion
  split_ifs
  · rfl
  · have here : newYorkOffset m = -5 * hour := by
      have before : (m - 5 * hour) / day = 17896 := by
        rw [boundary] at low high
        simp only [hour, day] at low high ⊢
        unfold Instant at *
        omega
      have year : (Date.ofDays 17896).year = 2018 := by decide
      have ended : savingEnd 2018 = 17839 := by decide
      unfold newYorkOffset
      dsimp only
      rw [before, year, ended, if_neg]
      rintro ⟨-, early⟩
      rw [boundary] at low
      simp only [hour, day] at low early
      unfold Instant at *
      omega
    have there : newYorkWallOffset (m + -5 * hour + hour) = -5 * hour := by
      have near : (m + -5 * hour + hour) / day = 17896 ∨ (m + -5 * hour + hour) / day = 17897 := by
        rw [boundary] at low high
        simp only [hour, day] at low high ⊢
        unfold Instant at *
        omega
      unfold newYorkWallOffset
      dsimp only
      rcases near with before | after
      · have year : (Date.ofDays 17896).year = 2018 := by decide
        have ended : savingEnd 2018 = 17839 := by decide
        rw [before, year, ended, if_neg]
        rintro ⟨-, early⟩
        rw [boundary] at low
        simp only [hour, day] at low early
        unfold Instant at *
        omega
      · have year : (Date.ofDays 17897).year = 2019 := by decide
        have begun : savingStart 2019 = 17965 := by decide
        rw [after, year, begun, if_neg]
        rintro ⟨late, -⟩
        rw [boundary] at high
        simp only [hour, day] at high late
        unfold Instant at *
        omega
    unfold registeredCandleCompletion newYorkUtc newYorkWall
    rw [here, show Granularity.h1.step = hour from rfl, there]
    unfold Instant at *
    omega

/-- What opens before a candle that completes in the partition completes in it. -/
theorem candleCompletion_lt (before : m < d)
    (completed : candleCompletion contract d .h1 < developmentEnd) :
    candleCompletion contract m .h1 < developmentEnd := by
  have later := le_candleCompletion contract d
  by_cases far : m < developmentEnd - 2 * hour
  · have := candleCompletion_le contract m
    unfold Instant at *
    omega
  · have near : developmentEnd - 2 * hour ≤ m := not_lt.mp far
    have inside : d < developmentEnd := later.trans_lt completed
    have m_near := candleCompletion_near contract near (before.trans inside)
    have d_near := candleCompletion_near contract (near.trans before.le) inside
    unfold Instant at *
    omega

end

/-- A setup that is not censored has a fourth sealed member, which completes in the partition. -/
theorem uncensored {contract : Bool} {stableHash : CensorshipBody → String} {setupId : ℕ}
    {sweep : Instant} {sealedH1 : List Instant}
    (h : partitionBoundaryCensorship contract stableHash setupId sweep sealedH1 = none) :
    ∃ first second third fourth rest,
      sealedSuccessors sweep sealedH1 = first :: second :: third :: fourth :: rest ∧
        candleCompletion contract fourth .h1 < developmentEnd := by
  unfold partitionBoundaryCensorship at h
  dsimp only at h
  split_ifs at h with observed
  unfold lifecycleHorizon at observed
  split at observed
  case h_1 first second third fourth four =>
    refine ⟨first, second, third, fourth, (sealedSuccessors sweep sealedH1).drop 4, ?_, ?_⟩
    · rw [← List.take_append_drop 4 (sealedSuccessors sweep sealedH1), four]
      simp
    · simpa using observed
  case h_2 => simp at observed

/-- Sealed members come in order, none twice. -/
theorem pairwise_sealedSuccessors (sweep : Instant) (sealedH1 : List Instant) :
    (sealedSuccessors sweep sealedH1).Pairwise (· < ·) := by
  have nodup : (sortedOnce sealedH1).Nodup :=
    (perm_sortedBy id _).nodup_iff.mpr (List.nodup_dedup sealedH1)
  have ordered : (sortedOnce sealedH1).Pairwise (· ≤ ·) := pairwise_sortedBy id _
  exact ((ordered.and nodup).imp fun h => lt_of_le_of_ne h.1 h.2).filter _

/-- A confirmation dated at one of the first three members of a setup that is not censored lies in
the partition. -/
theorem confirmation_inDevelopment {contract : Bool} {stableHash : CensorshipBody → String}
    {setupId : ℕ} {sweep m : Instant} {sealedH1 : List Instant} (swept : InDevelopment sweep)
    (open_ : partitionBoundaryCensorship contract stableHash setupId sweep sealedH1 = none)
    (early : m ∈ (sealedSuccessors sweep sealedH1).take 3) :
    InDevelopment (candleCompletion contract m .h1) := by
  obtain ⟨first, second, third, fourth, rest, members, completed⟩ := uncensored open_
  have after : sweep ≤ m := by
    have mem := List.mem_of_mem_take early
    exact of_decide_eq_true (List.mem_filter.mp mem).2
  have before : m < fourth := by
    have ordered := pairwise_sealedSuccessors sweep sealedH1
    rw [members] at early ordered
    simp only [List.pairwise_cons] at ordered
    obtain ⟨one, two, three, -⟩ := ordered
    have places : m = first ∨ m = second ∨ m = third := by simpa using early
    rcases places with rfl | rfl | rfl
    · exact one fourth (by simp)
    · exact two fourth (by simp)
    · exact three fourth (by simp)
  exact ⟨swept.1.trans (after.trans (le_candleCompletion contract m)),
    candleCompletion_lt contract before completed⟩

/-! ## Pending or ended -/

section
variable {env : Env} {ledger : Ledger}

/-- A key names one setup. -/
theorem Ledger.setup_eq (ledger : Ledger) {s s' : SetupEvent} (hs : s ∈ ledger.setups)
    (hs' : s' ∈ ledger.setups) (same : s.pk = s'.pk) : s = s' :=
  List.inj_on_of_nodup_map ledger.setup_pk hs hs' same

/-- A transition of no book leaves the trigger. -/
theorem SetupTransition.global (t : SetupTransition) (h : t.book = "") :
    t.fromState = .triggerPending ∧
      t.toState ∈ [.confirmed, .invalidated, .expired, .cancelledDataQuality] := by
  rcases t.valid with ⟨from_, -, ends⟩ | ⟨-, book, -⟩
  · exact ⟨from_, ends⟩
  · exact absurd h book

theorem mem_developmentSetups {s : SetupEvent} :
    s ∈ developmentSetups env ledger ↔
      s ∈ ledger.setups ∧ env.covers s ∧ InDevelopment s.sweep := by
  simp [developmentSetups]

theorem mem_setupTerminal {t : SetupTransition} :
    t ∈ setupTerminal env ledger ↔
      t ∈ ledger.transitions ∧ env.covers t.setup ∧ t.book = "" ∧ InDevelopment t.setup.sweep := by
  simp [setupTerminal]

theorem hasGlobalTransition_eq {s : SetupEvent} : hasGlobalTransition ledger s = true ↔
    ∃ t ∈ ledger.transitions, t.setup.pk = s.pk ∧ t.book = "" := by
  simp [hasGlobalTransition]

/-- No setup has two global transitions. -/
theorem nodup_terminal_setups : ((setupTerminal env ledger).map SetupTransition.setup).Nodup := by
  have keys : ((setupTerminal env ledger).map fun t => (t.setup, t.fromState, t.book)).Nodup :=
    ledger.transition_once.sublist (List.filter_sublist.map _)
  have same : (setupTerminal env ledger).map (fun t => (t.setup, t.fromState, t.book)) =
      ((setupTerminal env ledger).map SetupTransition.setup).map
        fun s => (s, SetupState.triggerPending, "") := by
    rw [List.map_map]
    refine List.map_congr_left fun t ht => ?_
    have global := (mem_setupTerminal.mp ht).2.2.1
    show (t.setup, t.fromState, t.book) = (t.setup, SetupState.triggerPending, "")
    rw [(t.global global).1, global]
  rw [same] at keys
  exact keys.of_map _

/-- Every setup of the partition is pending or has its one global transition. -/
theorem developmentSetups_length :
    (developmentSetups env ledger).length =
      (pending env ledger).length + (setupTerminal env ledger).length := by
  have nodup : (developmentSetups env ledger).Nodup := ledger.setup_pk.of_map.filter _
  have ended : ((setupTerminal env ledger).map SetupTransition.setup).Perm
      ((developmentSetups env ledger).filter (hasGlobalTransition ledger)) := by
    refine (List.perm_ext_iff_of_nodup nodup_terminal_setups (nodup.filter _)).mpr fun s => ?_
    rw [List.mem_map, List.mem_filter, mem_developmentSetups, hasGlobalTransition_eq]
    constructor
    · rintro ⟨t, ht, rfl⟩
      obtain ⟨mem, covers, global, swept⟩ := mem_setupTerminal.mp ht
      exact ⟨⟨ledger.transition_setup t mem, covers, swept⟩, t, mem, rfl, global⟩
    · rintro ⟨⟨mem, covers, swept⟩, t, ht, same, global⟩
      have setup := ledger.setup_eq (ledger.transition_setup t ht) mem same
      exact ⟨t, mem_setupTerminal.mpr ⟨ht, setup ▸ covers, global, setup ▸ swept⟩, setup⟩
  rw [← List.length_map SetupTransition.setup, ended.length_eq, Nat.add_comm]
  exact List.length_eq_length_filter_add (hasGlobalTransition ledger)

/-- The global transitions by the state they end in. -/
theorem setupTerminal_length :
    (setupTerminal env ledger).length =
      ((setupTerminal env ledger).map SetupTransition.toState).count .confirmed +
        ((setupTerminal env ledger).map SetupTransition.toState).count .invalidated +
        ((setupTerminal env ledger).map SetupTransition.toState).count .expired +
        ((setupTerminal env ledger).map SetupTransition.toState).count .cancelledDataQuality := by
  have four : ∀ state ∈ (setupTerminal env ledger).map SetupTransition.toState,
      state ∈ [SetupState.confirmed, .invalidated, .expired, .cancelledDataQuality] := by
    intro state hstate
    obtain ⟨t, ht, rfl⟩ := List.mem_map.mp hstate
    exact (t.global (mem_setupTerminal.mp ht).2.2.1).2
  rw [← List.length_map SetupTransition.toState]
  generalize (setupTerminal env ledger).map SetupTransition.toState = states at four ⊢
  induction states with
  | nil => rfl
  | cons state states ih =>
    obtain ⟨first, rest⟩ := List.forall_mem_cons.mp four
    have ih := ih rest
    simp only [List.mem_cons, List.not_mem_nil, or_false] at first
    rcases first with rfl | rfl | rfl | rfl
    all_goals
      simp only [List.length_cons, List.count_cons, beq_iff_eq, reduceCtorEq, if_true, if_false]
      omega

end

/-! ## The purge -/

section
variable {env : Env} {ledger : Ledger} {codes : List String} {maximumSetups : ℤ}

/-- Whether the horizon of a confirmation ends in the partition. -/
def kept (env : Env) (confirmation : SetupTransition) : Bool :=
  let code := confirmation.setup.instrument.code
  (confirmationHorizon env (env.inventory code .d, env.inventory code .h1)
    confirmation.effectiveAt).any (· < developmentEnd)

/-- The confirmations the report counts. -/
def keptConfirmations (env : Env) (ledger : Ledger) : List SetupTransition :=
  (confirmationRows env ledger).filter (kept env)

theorem inventoriesByCode_eq_ok {code : String} {inventories : List Instant × List Instant}
    (h : inventoriesByCode env codes code = .ok inventories) :
    inventories = (env.inventory code .d, env.inventory code .h1) := by
  unfold inventoriesByCode at h
  split_ifs at h
  · exact (Except.ok.inj h).symm
  · exact absurd h raise_ne_ok

/-- A confirmation is kept or purged by its horizon alone. -/
theorem purgeStep_eq_ok {acc acc' : List SetupTransition × ℕ} {confirmation : SetupTransition}
    (h : purgeStep env codes maximumSetups acc confirmation = .ok acc') :
    (kept env confirmation = true ∧ acc' = (acc.1 ++ [confirmation], acc.2)) ∨
      (kept env confirmation = false ∧ acc' = (acc.1, acc.2 + 1)) := by
  obtain ⟨inventories, found, h⟩ := bind_eq_ok.mp h
  obtain rfl := inventoriesByCode_eq_ok found
  unfold kept
  dsimp only at h ⊢
  split at h
  case h_1 none_ =>
    rw [none_]
    exact .inr ⟨rfl, (Except.ok.inj h).symm⟩
  case h_2 horizonEnd some_ =>
    rw [some_]
    split_ifs at h with late
    · refine .inr ⟨?_, (Except.ok.inj h).symm⟩
      simpa using late
    · obtain ⟨_, -, h⟩ := bind_eq_ok.mp h
      refine .inl ⟨?_, (Except.ok.inj h).symm⟩
      simpa using not_le.mp late

/-- The purge keeps what it does not count. -/
theorem purge_eq_ok {confirmations : List SetupTransition} {purged : ℕ}
    (h : purge env ledger codes maximumSetups = .ok (confirmations, purged)) :
    confirmations = keptConfirmations env ledger ∧
      confirmations.length + purged = (confirmationRows env ledger).length := by
  refine foldlM_keeps (fun read acc =>
    acc.1 = read.filter (kept env) ∧ acc.1.length + acc.2 = read.length) ⟨rfl, rfl⟩ ?_ h
  rintro read confirmation acc acc' - ⟨same, length⟩ step
  rw [List.filter_append, List.length_append, List.length_singleton]
  rcases purgeStep_eq_ok step with ⟨keep, rfl⟩ | ⟨drop, rfl⟩
  · rw [List.filter_singleton, keep, ← same]
    refine ⟨rfl, ?_⟩
    simp only [List.length_append, List.length_singleton]
    omega
  · rw [List.filter_singleton, drop, ← same]
    refine ⟨(List.append_nil _).symm, ?_⟩
    show acc.1.length + (acc.2 + 1) = read.length + 1
    omega

end

/-! ## The loops -/

section
variable {env : Env} {ledger : Ledger} {ranges : List (String × List RequiredRange)}

/-- The sum of a counter. -/
theorem sumOf_addOne (key : String) (counter : Counter) :
    Tally.sumOf (addOne key counter) = Tally.sumOf counter + 1 := Tally.sumOf_addTo

theorem sumOf_items (counter : Counter) :
    Tally.sumOf counter.items = Tally.sumOf counter :=
  ((perm_sortedBy _ counter).map Prod.snd).sum_eq

/-- Each confirmed setup is counted once under its pair, its year and its direction. -/
theorem sumOf_countSetup (confirmations : List SetupTransition) (acc : SetupCounters) :
    Tally.sumOf (confirmations.foldl (countSetup ledger) acc).byPair =
        Tally.sumOf acc.byPair + confirmations.length ∧
      Tally.sumOf (confirmations.foldl (countSetup ledger) acc).byDirection =
        Tally.sumOf acc.byDirection + confirmations.length ∧
      Tally.sumOf (confirmations.foldl (countSetup ledger) acc).byYear =
        Tally.sumOf acc.byYear + confirmations.length := by
  induction confirmations generalizing acc with
  | nil => exact ⟨rfl, rfl, rfl⟩
  | cons confirmation confirmations ih =>
    obtain ⟨pair, direction, year⟩ := ih (countSetup ledger acc confirmation)
    rw [List.foldl_cons, pair, direction, year, List.length_cons]
    simp only [countSetup, sumOf_addOne]
    omega

/-- The sum of the counts by decision. -/
def DecisionCounts.decided (counts : DecisionCounts) : ℕ :=
  counts.entryEligible + counts.missedFill + counts.blockedSession + counts.blockedSpread +
    counts.noTarget + counts.insufficientReward + counts.cancelledDataQuality

theorem DecisionCounts.add_spec (counts : DecisionCounts) (decision : Decision) :
    (counts.add decision).eligibilityEvaluationsProcessed =
        counts.eligibilityEvaluationsProcessed + 1 ∧
      (counts.add decision).decided = counts.decided + 1 := by
  cases decision
  all_goals
    refine ⟨rfl, ?_⟩
    simp only [DecisionCounts.add, DecisionCounts.decided]
    omega

/-- The eligible entry of an evaluation, under its book. -/
def eligibleEntry (e : Evaluation) : Option (String × Entry) :=
  if e.decision = .entryPending then
    e.entryTimestamp.map fun entry => (e.book, (e.setup.instrument.code, entry))
  else none

/-- What the loop over the evaluations has kept of those it has read. -/
structure Tracks (read : List Evaluation) (acc : Entries) : Prop where
  processed : acc.counts.eligibilityEvaluationsProcessed = acc.counts.decided
  entries : acc.eligibleEntries = (read.filterMap eligibleEntry).map Prod.snd
  byBook : acc.eligibleEntriesByBook =
    Tally.tally (· ++ ·) [] ((read.filterMap eligibleEntry).map fun e => (e.1, [e.2]))

theorem admitEntry_eq_ok {acc acc' : Entries} {e : Evaluation} {entry : Instant}
    (h : admitEntry env ranges acc e entry = .ok acc') :
    acc'.counts = acc.counts ∧
      acc'.eligibleEntries = acc.eligibleEntries ++ [(e.setup.instrument.code, entry)] ∧
      acc'.eligibleEntriesByBook =
        Tally.addTo (· ++ ·) [] e.book [(e.setup.instrument.code, entry)]
          acc.eligibleEntriesByBook := by
  obtain ⟨_, -, h⟩ := bind_eq_ok.mp h
  dsimp only at h
  split_ifs at h
  · cases h
    exact ⟨rfl, rfl, rfl⟩
  · obtain ⟨_, -, h⟩ := bind_eq_ok.mp h
    cases h
    exact ⟨rfl, rfl, rfl⟩

/-- A turn of the loop keeps track. -/
theorem Tracks.step {read : List Evaluation} {acc acc' : Entries} {e : Evaluation}
    (tracks : Tracks read acc) (h : evaluate env ledger ranges acc e = .ok acc') :
    Tracks (read ++ [e]) acc' := by
  obtain ⟨processed, entries, byBook⟩ := tracks
  obtain ⟨count, decided⟩ := acc.counts.add_spec e.decision
  unfold evaluate at h
  split at h
  case h_1 => exact absurd h raise_ne_ok
  case h_2 transition found =>
    dsimp only at h
    by_cases pending : e.decision = .entryPending
    · rw [if_pos pending] at h
      split at h
      case h_1 => exact absurd h raise_ne_ok
      case h_2 entry stamped =>
        obtain ⟨counts', entries', byBook'⟩ := admitEntry_eq_ok h
        have eligible : eligibleEntry e = some (e.book, (e.setup.instrument.code, entry)) := by
          rw [eligibleEntry, if_pos pending, stamped]
          rfl
        have more : (read ++ [e]).filterMap eligibleEntry =
            read.filterMap eligibleEntry ++ [(e.book, (e.setup.instrument.code, entry))] := by
          rw [List.filterMap_append, List.filterMap_cons_some eligible, List.filterMap_nil]
        refine ⟨?_, ?_, ?_⟩
        · rw [counts', count, decided, processed]
        · rw [entries', more, List.map_append, ← entries]
          rfl
        · rw [byBook', more, List.map_append, byBook, Tally.tally, Tally.tally, List.map_singleton,
            Tally.extend_concat]
    · rw [if_neg pending] at h
      cases h
      have same : (read ++ [e]).filterMap eligibleEntry = read.filterMap eligibleEntry := by
        have none_ : eligibleEntry e = none := if_neg pending
        rw [List.filterMap_append, List.filterMap_cons_none none_, List.filterMap_nil,
          List.append_nil]
      exact ⟨by rw [count, decided, processed], same ▸ entries, same ▸ byBook⟩

theorem evaluate_tracks {evaluations : List Evaluation} {entries : Entries}
    (h : evaluations.foldlM (evaluate env ledger ranges) {} = .ok entries) :
    Tracks evaluations entries :=
  foldlM_keeps Tracks ⟨rfl, rfl, rfl⟩ (fun _ _ _ _ _ tracks step => tracks.step step) h

end

/-! ## Concurrency -/

section
variable {env : Env} {codes : List String}

/-- Whether an entry's interval up to its horizon holds an instant. -/
def openAt (env : Env) (t : Instant) (entry : Entry) : Bool :=
  entry.2 ≤ t &&
    (maximumHorizonEnd env.contract entry.2 (env.inventory entry.1 .d)
      (env.inventory entry.1 .h1)).any (t < ·)

/-- A horizon ends after its entry. -/
theorem lt_maximumHorizonEnd {contract : Bool} {entry horizonEnd : Instant}
    {sealedDaily sealedH1 : List Instant}
    (h : maximumHorizonEnd contract entry sealedDaily sealedH1 = some horizonEnd) :
    entry < horizonEnd := by
  unfold maximumHorizonEnd at h
  dsimp only at h
  split at h
  case h_1 => cases h
  case h_2 tenth found =>
    have after := (List.mem_filter.mp (List.mem_of_getElem? found)).2
    have same := List.find?_some h
    exact (of_decide_eq_true after).trans_le (of_decide_eq_true same)

theorem entryInterval_eq_ok {entry : Entry} {interval : Instant × Instant}
    (h : entryInterval env codes entry = .ok interval) :
    interval.1 < interval.2 ∧
      ∀ t, (interval.1 ≤ t ∧ t < interval.2) ↔ openAt env t entry = true := by
  obtain ⟨inventories, found, h⟩ := bind_eq_ok.mp h
  obtain rfl := inventoriesByCode_eq_ok found
  dsimp only at h
  split at h
  case h_1 => exact absurd h raise_ne_ok
  case h_2 horizonEnd horizon =>
    cases h
    refine ⟨lt_maximumHorizonEnd horizon, fun t => ?_⟩
    simp [openAt, horizon]

theorem holding_intervals {entries : List Entry} {intervals : List (Instant × Instant)}
    (h : List.Forall₂ (fun entry interval => entryInterval env codes entry = .ok interval) entries
      intervals) (t : ℤ) : Sweepline.holding t intervals = entries.countP (openAt env t) := by
  induction h with
  | nil => rfl
  | @cons entry interval entries intervals first _ ih =>
    rw [Sweepline.holding] at ih ⊢
    rw [List.countP_cons, List.countP_cons, ih]
    have here := (entryInterval_eq_ok first).2 t
    by_cases open_ : openAt env t entry = true
    · rw [if_pos open_, if_pos (decide_eq_true (here.mpr open_))]
    · rw [if_neg open_, if_neg fun held => open_ (here.mp (of_decide_eq_true held))]

/-- **The peak is the largest number of entries open at one instant.** -/
theorem maximumConcurrency_peak {entries : List Entry} {concurrency : Concurrency}
    (h : maximumConcurrency env codes entries = .ok concurrency) :
    IsGreatest (Set.range fun t => (entries.countP (openAt env t) : ℤ))
      concurrency.peakRequests := by
  obtain ⟨intervals, found, h⟩ := bind_eq_ok.mp h
  have peak : concurrency.peakRequests = Sweepline.peak intervals := by
    rw [← Except.ok.inj h]
    rfl
  have proper : ∀ interval ∈ intervals, interval.1 < interval.2 := by
    intro interval mem
    obtain ⟨entry, -, same⟩ := mem_mapE found mem
    exact (entryInterval_eq_ok same).1
  have same := holding_intervals (mapE_eq_ok_iff.mp found)
  obtain ⟨above, t, reached⟩ := Sweepline.peak_spec proper
  rw [peak]
  refine ⟨⟨t, ?_⟩, ?_⟩
  · show ((entries.countP (openAt env t) : ℕ) : ℤ) = Sweepline.peak intervals
    rw [← same, reached]
  · rintro - ⟨t, rfl⟩
    show ((entries.countP (openAt env t) : ℕ) : ℤ) ≤ Sweepline.peak intervals
    rw [← same]
    exact above t

end

/-! ## The report -/

section
variable {env : Env} {ledger : Ledger} {record : Report → Except Exc Unit} {maximumSetups : ℤ}
  {report : Report}

/-- What a validated detector run says of the censorship. -/
theorem validateDetectorCoverage_eq_ok {job : DetectorJob}
    (h : validateDetectorCoverage env ledger = .ok job) :
    ∀ t ∈ ledger.transitions, t.book = "" → t.setup ∈ developmentSetups env ledger →
      partitionBoundaryCensorship env.contract env.stableHash t.setup.pk t.setup.sweep
        (env.inventory t.setup.instrument.code .h1) = none := by
  unfold validateDetectorCoverage at h
  split at h
  case h_1 => exact absurd h raise_ne_ok
  case h_2 job' _ =>
    obtain ⟨_, -, h⟩ := bind_eq_ok.mp h
    obtain ⟨_, -, h⟩ := bind_eq_ok.mp h
    obtain ⟨_, checked, h⟩ := bind_eq_ok.mp h
    have silent := (require_eq_ok.mp checked).2
    intro t ht global mem
    by_contra some_
    obtain ⟨censored, found⟩ := Option.ne_none_iff_exists'.mp some_
    refine silent ⟨t, ht, List.mem_map.mpr ⟨censored, ?_, ?_⟩, global⟩
    · exact mem_sortedBy.mpr (List.mem_filterMap.mpr ⟨t.setup, mem, found⟩)
    · unfold partitionBoundaryCensorship at found
      dsimp only at found
      split_ifs at found
      cases found
      rfl

/-- The confirmations of the ledger are those of the partition's setups. -/
theorem confirmationRows_length {job : DetectorJob}
    (checked : validateDetectorCoverage env ledger = .ok job)
    (swept : ∀ s ∈ ledger.setups, env.covers s → InDevelopment s.sweep)
    (dated : ∀ t ∈ ledger.transitions, env.covers t.setup → t.book = "" →
      t.toState = .confirmed →
      ∃ m ∈ (sealedSuccessors t.setup.sweep (env.inventory t.setup.instrument.code .h1)).take 3,
        t.effectiveAt = candleCompletion env.contract m .h1) :
    (confirmationRows env ledger).length =
      ((setupTerminal env ledger).map SetupTransition.toState).count .confirmed := by
  rw [confirmationRows, (perm_sortedBy _ _).length_eq, List.count, List.countP_map, setupTerminal,
    List.countP_filter, List.countP_eq_length_filter]
  refine congrArg List.length (List.filter_congr fun t ht => ?_)
  rw [Bool.eq_iff_iff]
  simp only [decide_eq_true_eq, Bool.and_eq_true, Function.comp_apply, beq_iff_eq]
  have mem := ledger.transition_setup t ht
  constructor
  · rintro ⟨covers, global, -, confirmed, -⟩
    exact ⟨confirmed, covers, global, swept _ mem covers⟩
  · rintro ⟨confirmed, covers, global, inside⟩
    obtain ⟨m, early, date⟩ := dated t ht covers global confirmed
    have open_ := validateDetectorCoverage_eq_ok checked t ht global
      (mem_developmentSetups.mpr ⟨mem, covers, inside⟩)
    exact ⟨covers, global, (t.global global).1, confirmed,
      date ▸ confirmation_inDevelopment inside open_ early⟩

/-- What a returned coverage says of the counters and the peaks. -/
theorem coverageOf_eq_ok {codes : List String} {s0 : S0Output}
    {confirmations : List SetupTransition} {evaluations : List Evaluation} {entries : Entries}
    {coverage : Coverage}
    (h : coverageOf env ledger codes s0 confirmations evaluations entries = .ok coverage) :
    Tally.sumOf coverage.byPair = confirmations.length ∧
      Tally.sumOf coverage.byDirection = confirmations.length ∧
      Tally.sumOf coverage.byConfirmationYear = confirmations.length ∧
      maximumConcurrency env codes entries.eligibleEntries =
        .ok coverage.maximumHorizonConcurrency ∧
      ∀ book ∈ coverage.concurrencyByStrategyIdentity,
        ∃ own, (book.1, own) ∈ entries.eligibleEntriesByBook ∧
          maximumConcurrency env codes own = .ok book.2 := by
  obtain ⟨allBooks, all, h⟩ := bind_eq_ok.mp h
  obtain ⟨byBook, each, h⟩ := bind_eq_ok.mp h
  cases h
  obtain ⟨pair, direction, year⟩ := @sumOf_countSetup ledger confirmations {}
  refine ⟨?_, ?_, ?_, all, ?_⟩
  · rw [sumOf_items, pair]
    exact Nat.zero_add _
  · rw [sumOf_items, direction]
    exact Nat.zero_add _
  · rw [sumOf_items, year]
    exact Nat.zero_add _
  · intro book mem
    obtain ⟨own, hown, same⟩ := mem_mapE each mem
    obtain ⟨concurrency, found, same⟩ := bind_eq_ok.mp same
    cases same
    exact ⟨own.2, mem_sortedBy.mp hown, found⟩

/-- The eligible entries of the confirmed setups the report counts, under their books. -/
def eligibleEntries (env : Env) (ledger : Ledger) : List (String × Entry) :=
  (evaluationsOf ledger ((keptConfirmations env ledger).map fun c => c.setup.pk)).filterMap
    eligibleEntry

/-- How many eligible entries of the books are open at an instant. -/
def openEntries (env : Env) (ledger : Ledger) (books : String → Bool) (t : Instant) : ℤ :=
  (eligibleEntries env ledger).countP fun e => books e.1 && openAt env t e.2

/-- **The report conserves setups, evaluations and counters, and its peaks are maxima.** -/
theorem report_conserves (swept : ∀ s ∈ ledger.setups, env.covers s → InDevelopment s.sweep)
    (dated : ∀ t ∈ ledger.transitions, env.covers t.setup → t.book = "" →
      t.toState = .confirmed →
      ∃ m ∈ (sealedSuccessors t.setup.sweep (env.inventory t.setup.instrument.code .h1)).take 3,
        t.effectiveAt = candleCompletion env.contract m .h1)
    (returned : runS1 env ledger record maximumSetups = .ok report) :
    report.counts.sweeps = report.counts.confirmations + report.counts.partitionBoundaryPurged +
        report.counts.setupInvalidated + report.counts.setupExpired +
        report.counts.setupCancelledDataQuality + report.counts.partitionBoundaryCensored ∧
      report.counts.eligibilityEvaluationsProcessed = report.counts.entryEligible +
        report.counts.missedFill + report.counts.blockedSession + report.counts.blockedSpread +
        report.counts.noTarget + report.counts.insufficientReward +
        report.counts.cancelledDataQuality ∧
      Tally.sumOf report.coverage.byPair = report.counts.confirmations ∧
      Tally.sumOf report.coverage.byDirection = report.counts.confirmations ∧
      Tally.sumOf report.coverage.byConfirmationYear = report.counts.confirmations ∧
      IsGreatest (Set.range (openEntries env ledger fun _ => true))
        report.coverage.maximumHorizonConcurrency.peakRequests ∧
      ∀ book ∈ report.coverage.concurrencyByStrategyIdentity,
        IsGreatest (Set.range (openEntries env ledger (· = book.1))) book.2.peakRequests := by
  unfold runS1 at returned
  split_ifs at returned
  · exact absurd returned raise_ne_ok
  obtain ⟨⟨ranges, s0⟩, -, returned⟩ := bind_eq_ok.mp returned
  obtain ⟨_, -, returned⟩ := bind_eq_ok.mp returned
  obtain ⟨_, -, returned⟩ := bind_eq_ok.mp returned
  obtain ⟨job, checked, returned⟩ := bind_eq_ok.mp returned
  obtain ⟨_, complete, returned⟩ := bind_eq_ok.mp returned
  obtain ⟨⟨confirmations, purged⟩, purge_, returned⟩ := bind_eq_ok.mp returned
  obtain ⟨_, -, returned⟩ := bind_eq_ok.mp returned
  obtain ⟨entries, evaluated, returned⟩ := bind_eq_ok.mp returned
  obtain ⟨coverage, covered, returned⟩ := bind_eq_ok.mp returned
  obtain ⟨_, -, returned⟩ := bind_eq_ok.mp returned
  cases returned
  obtain ⟨rfl, whole⟩ := purge_eq_ok purge_
  obtain ⟨processed, all, byBook⟩ := evaluate_tracks evaluated
  obtain ⟨pair, direction, year, peak, peaks⟩ := coverageOf_eq_ok covered
  refine ⟨?_, processed, pair, direction, year, ?_, ?_⟩
  · -- pending setups are the censored ones, the others have one global transition each
    have censored : (pending env ledger).length =
        (job.partitionBoundaryCensored.map fun c => c.setupId).toFinset.card := by
      have nodup : ((pending env ledger).map SetupEvent.pk).Nodup :=
        ledger.setup_pk.sublist ((List.filter_sublist.trans List.filter_sublist).map _)
      rw [← require_eq_ok.mp complete, List.toFinset_card_of_nodup nodup, List.length_map]
    have split : (developmentSetups env ledger).length = _ := developmentSetups_length
    have ends : (setupTerminal env ledger).length = _ := setupTerminal_length
    have rows := confirmationRows_length checked swept dated
    show (developmentSetups env ledger).length = (keptConfirmations env ledger).length + purged +
      ((setupTerminal env ledger).map SetupTransition.toState).count .invalidated +
      ((setupTerminal env ledger).map SetupTransition.toState).count .expired +
      ((setupTerminal env ledger).map SetupTransition.toState).count .cancelledDataQuality +
      (job.partitionBoundaryCensored.map fun c => c.setupId).toFinset.card
    omega
  · have greatest := maximumConcurrency_peak peak
    rw [all] at greatest
    convert greatest using 3 with t
    rw [openEntries, List.countP_map]
    congr 1
  · intro book mem
    obtain ⟨own, hown, found⟩ := peaks book mem
    have greatest := maximumConcurrency_peak found
    rw [byBook] at hown
    rw [Tally.eq_of_mem_collected hown] at greatest
    convert greatest using 3 with t
    rw [openEntries, List.countP_map, List.countP_filter]
    refine congrArg (fun p => ((List.countP p (eligibleEntries env ledger) : ℕ) : ℤ)) ?_
    funext e
    exact Bool.and_comm _ _

end

/-! ## A ledger that is counted -/

/-- Six winter hours, and the one after ten sessions. -/
def sampleH1 : List Instant :=
  ((List.range 6).map fun k => (16440 : ℤ) * day + (k : ℤ) * hour) ++ [16460 * day]

def sampleEnv (job : Option DetectorJob) : Env where
  dataset := 1
  strategy := 1
  detectorVersion := ""
  contract := true
  inventory _ g := if g = .h1 then sampleH1
    else (List.range 11).map fun k => (16440 + (k : ℤ)) * day + 22 * hour
  s1Contract := .ok ([("E", [⟨.h1, 0, 20000 * day⟩])], ⟨0, []⟩)
  instruments := [⟨1, "E", "E", "U"⟩]
  windowUsable _ := .ok ()
  detectorJob := job
  expectedAnalyses := []
  stableHash _ := ""
  readEntryProjection _ _ := .ok ()

def sampleSetup (pk : ℕ) (sweep : Instant) : SetupEvent :=
  ⟨pk, ⟨1, "E", "E", "U"⟩, .long, sweep, 1, 1⟩

/-- One setup is confirmed and has an eligible entry, one expires and one is censored. -/
def sampleLedger : Ledger where
  setups := [sampleSetup 1 (16440 * day), sampleSetup 2 (16440 * day), sampleSetup 3 (16460 * day)]
  transitions :=
    [⟨sampleSetup 1 (16440 * day), "", .triggerPending, .confirmed, 16440 * day + hour, by
        simp [ValidTransition]⟩,
      ⟨sampleSetup 1 (16440 * day), combinedBook, .confirmed, .entryPending, 16440 * day + hour, by
        simp [ValidTransition, combinedBook]⟩,
      ⟨sampleSetup 1 (16440 * day), familyBook .weekly, .confirmed, .noTarget, 16440 * day + hour,
        by simp [ValidTransition, familyBook]⟩,
      ⟨sampleSetup 2 (16440 * day), "", .triggerPending, .expired, 16440 * day + hour, by
        simp [ValidTransition]⟩]
  evaluations :=
    [⟨sampleSetup 1 (16440 * day), combinedBook, .entryPending, some (16440 * day + hour)⟩,
      ⟨sampleSetup 1 (16440 * day), familyBook .weekly, .noTarget, none⟩]
  levels := [⟨1, .weekly, 0, 1, 1⟩]
  attributions := [⟨sampleSetup 1 (16440 * day), ⟨1, .weekly, 0, 1, 1⟩⟩]
  lifecycle := []
  proximity := []
  analyses := []
  setup_pk := by decide
  transition_setup := by decide
  transition_once := by decide
  evaluation_setup := by decide
  evaluation_once := by decide

def sampleJob : DetectorJob :=
  ⟨1, true, expectedCensored (sampleEnv none) sampleLedger⟩

theorem report_conserves_sample : ∃ report,
    runS1 (sampleEnv (some sampleJob)) sampleLedger (fun _ => .ok ()) 5 = .ok report ∧
      report.counts.sweeps = report.counts.confirmations + report.counts.partitionBoundaryPurged +
        report.counts.setupInvalidated + report.counts.setupExpired +
        report.counts.setupCancelledDataQuality + report.counts.partitionBoundaryCensored := by
  have run : (runS1 (sampleEnv (some sampleJob)) sampleLedger (fun _ => .ok ()) 5).toBool = true := by
    decide
  cases returned : runS1 (sampleEnv (some sampleJob)) sampleLedger (fun _ => .ok ()) 5 with
  | error e =>
    rw [returned] at run
    cases run
  | ok report =>
    refine ⟨report, rfl, (report_conserves ?_ ?_ returned).1⟩
    · decide
    · intro t ht _ global confirmed
      simp only [sampleLedger, List.mem_cons, List.not_mem_nil, or_false] at ht
      rcases ht with rfl | rfl | rfl | rfl
      · exact ⟨16440 * day, by decide, by decide⟩
      all_goals cases confirmed

end TradeRecommender.Research.SignalCount
