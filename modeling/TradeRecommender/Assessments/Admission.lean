import TradeRecommender.Assessments.Reordering

/-!
# Admission of a candidate

`build_assessment` fails closed: it is available exactly when it returns a candidate, and it returns
one only where every condition of `Admissible` holds.

1. what open gates say, stage by stage;
2. the parts of an assessment;
3. `Admissible`;
4. `FailsClosed`, and the inputs it holds of.
-/

namespace TradeRecommender.Assessments

open Py Civil Market

/-! ## Open gates -/

section
variable {gates : Gates}

theorem open_setupGates {attributed m15 : List Attributed} :
    Open (setupGates gates attributed m15) ↔
      Open gates ∧ m15.length = attributed.length ∧ m15.length ≤ 1 := by
  simp only [setupGates, open_closeIf, not_not, not_lt, and_assoc]
  tauto

theorem open_successorGate {setup : Option Setup} : Open (successorGate gates setup) ↔
    Open gates ∧ ∀ s, setup = some s → validM15Successor s = true := by
  cases setup with
  | none => simp [successorGate]
  | some s => simp [successorGate, open_closeIf]

theorem open_evidenceGates {required : List String} {evidence : Option Evidence} :
    Open (evidenceGates gates required evidence) ↔ Open gates ∧ required = [] ∧ evidence = none := by
  unfold evidenceGates
  split_ifs with h
  · simp [not_open_close, h]
  · rw [not_not] at h
    simp [open_closeIf, h]

theorem open_eventGates {event : EventReading} : Open (eventGates gates event) ↔
    Open gates ∧ event.known = true ∧ event.active = [] := by
  simp [eventGates, open_closeIf, and_assoc]

theorem open_costGates {cost : Option Cost} {cutoff : Instant} :
    Open (costGates gates cost cutoff) ↔ Open gates ∧ ∃ c components spread, cost = some c ∧
      c.components.complete = some components ∧ c.components.spread = some spread ∧
      cutoff ≤ c.staleAfter := by
  cases cost with
  | none =>
    unfold costGates
    rw [open_closeIf, open_closeIf]
    simp [completeCost]
  | some c =>
    unfold costGates
    rw [open_closeIf, open_closeIf, open_closeIf]
    simp only [completeCost, spreadOf, Option.bind_some, not_lt]
    cases complete : c.components.complete <;> cases spread : c.components.spread <;>
      simp [complete, spread]

/-- Gates left open by the reward: several setups, or figures within the limits. -/
theorem open_rewardGates {n : ℕ} {figures : Option (Option Reward)} {after : Gates}
    {texts : Option RewardTexts} (h : rewardGates gates n figures = .ok (after, texts)) :
    Open after ↔ Open gates ∧ (figures = none ∧ 1 < n ∨
      ∃ r, figures = some (some r) ∧ r.spreadRatio ≤ 1 / 10 ∧ 0 < r.net) := by
  match figures, h with
  | none, h =>
    obtain ⟨rfl, -⟩ := Prod.mk.inj (Except.ok.inj h)
    simp [open_closeIf]
  | some none, h =>
    obtain ⟨rfl, -⟩ := Prod.mk.inj (Except.ok.inj h)
    simp [not_open_close]
  | some (some r), h =>
    obtain ⟨gross, -, h⟩ := bind_eq_ok.mp h
    obtain ⟨net, -, h⟩ := bind_eq_ok.mp h
    obtain ⟨rfl, -⟩ := Prod.mk.inj (Except.ok.inj h)
    simp [open_closeIf, and_assoc]

theorem open_capacityGates {setup : Option Setup} {capacity : Option Capacity} :
    Open (capacityGates gates setup capacity) ↔ Open gates ∧ ∃ c, capacity = some c ∧
      c.aggregate = .available ∧ (∀ leg ∈ c.currencyLegs, leg.disposition = .available) ∧
      ∀ s, setup = some s → c.currencyLegs.map (·.direction) = s.direction.legs := by
  cases capacity with
  | none => simp [capacityGates, not_open_close]
  | some c =>
    cases setup <;> simp [capacityGates, open_closeIf, and_assoc]

end

/-- The gates before the reward, of the triaged evaluations. -/
theorem open_envelopeGates {i : Inputs} {attributed : List Attributed} {market : MarketFields}
    {event : EventReading} {gates : Gates} :
    Open (envelopeGates i attributed market event gates) ↔
      Open gates ∧ market.missing = [] ∧ ((m15Setups attributed).length = attributed.length ∧
        (m15Setups attributed).length ≤ 1) ∧
      (∀ s, onlySetup (m15Setups attributed) = some s → validM15Successor s = true) ∧
      (requiredIds attributed = [] ∧ i.evidence = none) ∧ (event.known = true ∧ event.active = []) ∧
      ∃ c components spread, i.cost = some c ∧ c.components.complete = some components ∧
        c.components.spread = some spread ∧ i.snapshot.informationCutoff ≤ c.staleAfter := by
  unfold envelopeGates
  rw [open_costGates, open_eventGates, open_evidenceGates, open_successorGate, open_setupGates,
    open_closeIf]
  simp only [and_assoc, ne_eq, not_not]

theorem open_evaluationGates {i : Inputs} : Open (evaluationGates i).gates ↔
    i.eligibility.entries ≠ [] ∧ (∀ item ∈ i.evaluations,
      closing i.eligibility.entries item = none) ∧ missing i = [] := by
  rw [evaluationGates_eq, open_closeIf, loopGates, open_closeAll, entryGates, open_closeIf,
    closings, List.filterMap_eq_nil_iff, not_not]
  simp [open_newGates, and_assoc]

/-! ## The assessment and its parts -/

/-- The gates at the end of `build_assessment`. -/
def lastGates (i : Inputs) (t : Triage) (rewarded : Gates) : Gates :=
  closeIf (i.duplicate = true)
    (capacityGates rewarded (onlySetup (m15Setups t.attributed)) i.capacity)
    .unchangedDuplicateIntent

/-- The parts of an assessment. -/
theorem conclude_eq_ok {digests : Digests} {i : Inputs} {t : Triage} {output : Output}
    {result : Option Candidate} (h : conclude digests i t = .ok (output, result)) :
    ∃ market event rewarded figures, marketFields i.snapshot = .ok market ∧
      readEvent market.event = .ok event ∧
      rewardGates (envelopeGates i t.attributed market event t.gates)
        (m15Setups t.attributed).length (rewardOf (onlySetup (m15Setups t.attributed)) i.cost) =
          .ok (rewarded, figures) ∧
      output = assessmentOutput i t market (lastGates i t rewarded) figures ∧
      result = candidate digests i (m15Setups t.attributed) (lastGates i t rewarded) := by
  obtain ⟨market, hmarket, h⟩ := bind_eq_ok.mp h
  obtain ⟨event, hevent, h⟩ := bind_eq_ok.mp h
  obtain ⟨⟨rewarded, figures⟩, hreward, h⟩ := bind_eq_ok.mp h
  obtain ⟨rfl, rfl⟩ := Prod.mk.inj (Except.ok.inj h)
  exact ⟨market, event, rewarded, figures, hmarket, hevent, hreward, rfl, rfl⟩

/-! ## Admissible inputs -/

/-- `value.get(key) == text` -/
def StateIs (value : Val) (key text : String) : Prop :=
  ∃ found, value.get key = .ok found ∧ found.isStr text = true

/-- The snapshot has every timeframe and a complete event state without an active window. -/
structure MarketReady (payload : Val) : Prop where
  timeframes : ∃ granularities, payload.get "granularities" (.dict []) = .ok granularities ∧
    ∀ timeframe ∈ ["W", "D", "H4", "H1", "M15"], ∃ block,
      granularities.get timeframe (.dict []) = .ok block ∧ StateIs block "state" "available"
  monthly : ∃ monthly, payload.get "monthly_context" (.dict []) = .ok monthly ∧
    StateIs monthly "state" "available"
  event : ∃ event, payload.get "event_state" (.dict []) = .ok event ∧
    StateIs event "state" "available" ∧ StateIs event "coverage" "attested_complete" ∧
    ∃ vintages, event.get "active_window_vintages" (.list []) = .ok vintages ∧
      vintageTexts vintages = .ok []

/-- The cost is complete, current and within the limits, and the capacity takes both legs. -/
structure Affordable (i : Inputs) (setup : Setup) : Prop where
  cost : ∃ c components spread r, i.cost = some c ∧ c.components.complete = some components ∧
    c.components.spread = some spread ∧ i.snapshot.informationCutoff ≤ c.staleAfter ∧
    reward setup components spread.value = some r ∧ r.spreadRatio ≤ 1 / 10 ∧ 0 < r.net
  capacity : ∃ c, i.capacity = some c ∧ c.aggregate = .available ∧
    (∀ leg ∈ c.currencyLegs, leg.disposition = .available) ∧
    c.currencyLegs.map (·.direction) = setup.direction.legs

/-- What a candidate requires. -/
structure Admissible (i : Inputs) : Prop where
  eligible : i.eligibility.entries ≠ []
  evaluated : ∀ entry ∈ i.eligibility.entries, ∃ item ∈ i.evaluations,
    item.strategy = entry.strategy
  admitted : ∀ item ∈ i.evaluations, item.strategy.role = .setup ∧
    ∃ entry ∈ i.eligibility.entries, entry.strategy = item.strategy ∧
      entry.definitionSha256 = item.definitionSha256 ∧ entry.role = .setup
  setup : ∃ setup, i.evaluations.filterMap Evaluation.setup = [setup] ∧
    setup.granularity = .m15 ∧ validM15Successor setup = true ∧ Affordable i setup
  market : MarketReady i.snapshot.payload
  evidence : i.evidence = none
  fresh : i.duplicate = false

/-- A snapshot whose missing list is empty and whose event gates stay open. -/
theorem marketReady_of_reading {snapshot : Snapshot} {market : MarketFields} {event : EventReading}
    (hmarket : marketFields snapshot = .ok market) (hmissing : market.missing = [])
    (hevent : readEvent market.event = .ok event) (known : event.known = true)
    (active : event.active = []) : MarketReady snapshot.payload := by
  obtain ⟨granularities, hg, hmarket⟩ := bind_eq_ok.mp hmarket
  obtain ⟨monthly, hmonthly, hmarket⟩ := bind_eq_ok.mp hmarket
  obtain ⟨absent, habsent, hmarket⟩ := bind_eq_ok.mp hmarket
  obtain ⟨state, hstate, hmarket⟩ := bind_eq_ok.mp hmarket
  obtain ⟨trends, -, hmarket⟩ := bind_eq_ok.mp hmarket
  obtain ⟨block, hblock, hmarket⟩ := bind_eq_ok.mp hmarket
  obtain ⟨regime, -, hmarket⟩ := bind_eq_ok.mp hmarket
  obtain ⟨zones, -, hmarket⟩ := bind_eq_ok.mp hmarket
  cases hmarket
  have hmonth : state.isStr "available" = true := by
    by_contra h
    simp [h] at hmissing
  have hnil : absent = [] := by simpa [hmonth] using hmissing
  subst hnil
  obtain ⟨eventState, hs, hevent⟩ := bind_eq_ok.mp hevent
  obtain ⟨coverage, hc, hevent⟩ := bind_eq_ok.mp hevent
  obtain ⟨covered, -, hevent⟩ := bind_eq_ok.mp hevent
  obtain ⟨code, -, hevent⟩ := bind_eq_ok.mp hevent
  obtain ⟨detail, -, hevent⟩ := bind_eq_ok.mp hevent
  obtain ⟨vintages, hv, hevent⟩ := bind_eq_ok.mp hevent
  obtain ⟨texts, ht, hevent⟩ := bind_eq_ok.mp hevent
  cases hevent
  have hknown := Bool.and_eq_true_iff.mp known
  have hempty : texts = [] := by
    have := (perm_sortedBy id texts).length_eq
    rw [show sortedBy id texts = [] from active] at this
    exact List.length_eq_zero_iff.mp this.symm
  subst hempty
  refine ⟨⟨granularities, hg, fun timeframe hmem => ?_⟩, ⟨monthly, hmonthly, state, hstate, hmonth⟩,
    ⟨block, hblock, ⟨eventState, hs, hknown.1⟩, ⟨coverage, hc, hknown.2⟩, vintages, hv, ht⟩⟩
  have skipped := eq_none_of_filterMapE habsent hmem
  obtain ⟨available, havailable, hskip⟩ := bind_eq_ok.mp skipped
  have hyes : available = true := by
    cases available
    · cases hskip
    · rfl
  subst hyes
  obtain ⟨found, hfound, hrest⟩ := bind_eq_ok.mp havailable
  obtain ⟨state', hstate', hrest⟩ := bind_eq_ok.mp hrest
  exact ⟨found, hfound, state', hstate', Except.ok.inj hrest⟩

/-! ## Failing closed -/

theorem candidate_isSome {digests : Digests} {i : Inputs} {m15 : List Attributed} {gates : Gates} :
    (candidate digests i m15 gates).isSome = true ↔ Open gates ∧ ∃ source, m15 = [source] := by
  rw [← primary_eq_none]
  unfold candidate
  cases hp : primary gates with
  | some reason => simp
  | none => rcases m15 with _ | ⟨x, _ | ⟨y, m15⟩⟩ <;> simp

/-- The setups the evaluations have, when each closes nothing. -/
theorem setups_of_closing {entries : List Entry} {evaluations : List Evaluation}
    (none : ∀ item ∈ evaluations, closing entries item = none) :
    evaluations.filterMap Evaluation.setup =
      (evaluations.filterMap (attributedOf entries)).map (·.setup) := by
  rw [List.map_filterMap]
  refine List.filterMap_congr fun item hitem => ?_
  obtain ⟨entry, setup, -, -, hs, ha⟩ := closing_eq_none.mp (none item hitem)
  rw [hs, ha]
  rfl

theorem evaluated_of_missing {i : Inputs} (none : missing i = []) :
    ∀ entry ∈ i.eligibility.entries, ∃ item ∈ i.evaluations, item.strategy = entry.strategy := by
  intro entry hentry
  have hfilter := List.filter_eq_nil_iff.mp (sortedOnce_eq_nil.mp none)
  have hname := hfilter entry.strategy.name (List.mem_map_of_mem hentry)
  simp only [decide_not, Bool.not_eq_true, Bool.not_eq_false', decide_eq_true_eq] at hname
  obtain ⟨item, hitem, same⟩ := List.mem_map.mp hname
  exact ⟨item, hitem, Strategy.name_inj same⟩

theorem admitted_of_closing {i : Inputs} {item : Evaluation}
    (h : closing i.eligibility.entries item = none) : item.strategy.role = .setup ∧
      ∃ entry ∈ i.eligibility.entries, entry.strategy = item.strategy ∧
        entry.definitionSha256 = item.definitionSha256 ∧ entry.role = .setup := by
  obtain ⟨entry, setup, found, role, -, -⟩ := closing_eq_none.mp h
  have hmem := List.mem_reverse.mp (List.mem_of_find?_eq_some found)
  have key := List.find?_some found
  simp only [decide_eq_true_eq] at key
  exact ⟨role, entry, hmem, key.1, key.2.1, key.2.2.trans role⟩

section
variable {digests : Digests} {i : Inputs} {output : Output} {result : Option Candidate}

/-- **Open gates admit.** When no gate is closed at the end, every condition holds and there is one
M15 setup. -/
theorem admissible_of_open {market : MarketFields} {event : EventReading} {rewarded : Gates}
    {figures : Option RewardTexts} (hmarket : marketFields i.snapshot = .ok market)
    (hevent : readEvent market.event = .ok event)
    (hreward : rewardGates (envelopeGates i (attributed i) market event (evaluationGates i).gates)
      (m15Setups (attributed i)).length (rewardOf (onlySetup (m15Setups (attributed i))) i.cost) =
        .ok (rewarded, figures))
    (open_ : Open (lastGates i (evaluationGates i) rewarded)) :
    Admissible i ∧ ∃ source, m15Setups (attributed i) = [source] := by
  have hattr : (evaluationGates i).attributed = attributed i := by rw [evaluationGates_eq]
  rw [lastGates, open_closeIf, open_capacityGates, open_rewardGates hreward, open_envelopeGates,
    open_evaluationGates, hattr] at open_
  obtain ⟨⟨⟨⟨⟨entries, none, evaluated⟩, hmissing, ⟨hall, hone⟩, successor, ⟨-, hevidence⟩,
    ⟨known, active⟩, c, components, spread, hc, hcomponents, hspread, stale⟩, hfigures⟩,
    k, hk, aggregate, legs, directions⟩, fresh⟩ := open_
  obtain ⟨r, hr, ratio, net⟩ : ∃ r, rewardOf (onlySetup (m15Setups (attributed i))) i.cost =
      some (some r) ∧ r.spreadRatio ≤ 1 / 10 ∧ 0 < r.net := by
    rcases hfigures with ⟨-, two⟩ | h
    · omega
    · exact h
  obtain ⟨source, hsource⟩ : ∃ source, m15Setups (attributed i) = [source] := by
    rcases h : m15Setups (attributed i) with _ | ⟨x, _ | ⟨y, rest⟩⟩
    · simp [h, onlySetup, rewardOf] at hr
    · exact ⟨x, rfl⟩
    · simp [h] at hone
  have honly : onlySetup (m15Setups (attributed i)) = some source.setup := by rw [hsource]; rfl
  have hsingle : attributed i = [source] := by
    have hfilter : m15Setups (attributed i) = attributed i :=
      List.filter_eq_self.mpr (List.length_filter_eq_length_iff.mp hall)
    rw [← hfilter, hsource]
  have hm15 : source.setup.granularity = .m15 := by
    have hmem : source ∈ m15Setups (attributed i) := by rw [hsource]; exact List.mem_singleton_self _
    simpa using (List.mem_filter.mp hmem).2
  have hreward' : reward source.setup components spread.value = some r := by
    simpa [rewardOf, honly, completeCost, spreadOf, hc, hcomponents, hspread] using hr
  have affordable : Affordable i source.setup :=
    { cost := ⟨c, components, spread, r, hc, hcomponents, hspread, stale, hreward', ratio, net⟩
      capacity := ⟨k, hk, aggregate, legs, directions _ honly⟩ }
  refine ⟨?_, source, hsource⟩
  exact
    { eligible := entries
      evaluated := evaluated_of_missing evaluated
      admitted := fun item hitem => admitted_of_closing (none item hitem)
      setup := ⟨source.setup, by
        rw [setups_of_closing none]
        show (attributed i).map (·.setup) = _
        rw [hsingle]
        rfl, hm15, successor _ honly, affordable⟩
      market := marketReady_of_reading hmarket hmissing hevent known active
      evidence := hevidence
      fresh := by simpa using fresh }

/-- The status says whether there is a candidate, and a candidate is admissible. -/
theorem status_iff_candidate (h : buildAssessment digests i = .ok (output, result)) :
    (output.status = .available ↔ result.isSome = true) ∧
      (result.isSome = true → Admissible i) := by
  unfold buildAssessment at h
  split_ifs at h
  swap
  · simp at h
  obtain ⟨market, event, rewarded, figures, hmarket, hevent, hreward, rfl, rfl⟩ := conclude_eq_ok h
  have hattr : (evaluationGates i).attributed = attributed i := by rw [evaluationGates_eq]
  rw [hattr] at hreward ⊢
  have admits := admissible_of_open hmarket hevent hreward
  have hstatus : (assessmentOutput i (evaluationGates i) market
      (lastGates i (evaluationGates i) rewarded) figures).status = .available ↔
        Open (lastGates i (evaluationGates i) rewarded) := by
    rw [← primary_eq_none]
    show (if _ then State.available else State.closed) = _ ↔ _
    split_ifs with hp <;> simp [hp]
  rw [hstatus, candidate_isSome]
  exact ⟨⟨fun o => ⟨o, (admits o).2⟩, fun o => o.1⟩, fun o => (admits o.1).1⟩

/-! ## Refusals -/

/-- Six places write the number within the digits of the context. -/
def Writable (value : ℚ) : Prop := (Rounding.halfEven (value * 10 ^ 6)).natAbs < 10 ^ prec

/-- The call raises: the method is not a registered one, the snapshot cannot be read, or a figure
of the reward is too large to write. -/
def Refused (digests : Digests) (i : Inputs) : Prop :=
  ¬ (i.methodDigest = digests.method ∨ i.methodDigest = methodV11Digest) ∨
    (∀ market event, ¬ (marketFields i.snapshot = .ok market ∧
      readEvent market.event = .ok event)) ∨
    ∃ r, rewardOf (onlySetup (m15Setups (attributed i))) i.cost = some (some r) ∧
      ¬ (Writable r.gross ∧ Writable r.net)

theorem formatDecimal_cases (value : ℚ) :
    (Writable value ∧ ∃ text, formatDecimal value = .ok text) ∨
      (¬ Writable value ∧ ∀ text, formatDecimal value ≠ .ok text) := by
  unfold formatDecimal
  by_cases h : Writable value
  · exact Or.inl ⟨h, _, if_pos h⟩
  · refine Or.inr ⟨h, fun text => ?_⟩
    rw [if_neg (show ¬ (Rounding.halfEven (value * 10 ^ 6)).natAbs < 10 ^ prec from h)]
    exact raise_ne_ok

/-- The gates play no part in what the reward raises. -/
theorem rewardGates_error {gates gates' : Gates} {n : ℕ} {figures : Option (Option Reward)}
    {e : Exc} (h : rewardGates gates n figures = .error e) :
    rewardGates gates' n figures = .error e := by
  match figures, h with
  | none, h => cases h
  | some none, h => cases h
  | some (some r), h =>
    rcases bind_eq_error.mp h with hgross | ⟨gross, hgross, h⟩
    · exact bind_eq_error.mpr (Or.inl hgross)
    rcases bind_eq_error.mp h with hnet | ⟨net, -, h⟩
    · exact bind_eq_error.mpr (Or.inr ⟨gross, hgross, bind_eq_error.mpr (Or.inl hnet)⟩)
    · cases h

theorem rewardGates_ok_iff {gates : Gates} {n : ℕ} {figures : Option (Option Reward)} :
    (∃ result, rewardGates gates n figures = .ok result) ↔
      ∀ r, figures = some (some r) → Writable r.gross ∧ Writable r.net := by
  match figures with
  | none => simp [rewardGates]
  | some none => simp [rewardGates]
  | some (some r) =>
    simp only [Option.some.injEq, forall_eq']
    constructor
    · rintro ⟨result, h⟩
      obtain ⟨gross, hgross, h⟩ := bind_eq_ok.mp h
      obtain ⟨net, hnet, -⟩ := bind_eq_ok.mp h
      constructor
      · exact ((formatDecimal_cases r.gross).resolve_right fun no => no.2 gross hgross).1
      · exact ((formatDecimal_cases r.net).resolve_right fun no => no.2 net hnet).1
    · rintro ⟨gross, net⟩
      obtain ⟨-, text, htext⟩ := (formatDecimal_cases r.gross).resolve_right fun no => no.1 gross
      obtain ⟨-, text', htext'⟩ := (formatDecimal_cases r.net).resolve_right fun no => no.1 net
      exact ⟨_, bind_eq_ok.mpr ⟨text, htext, bind_eq_ok.mpr ⟨text', htext', rfl⟩⟩⟩

/-- A call that is not refused returns. -/
theorem ok_of_not_refused (h : ¬ Refused digests i) :
    ∃ output result, buildAssessment digests i = .ok (output, result) := by
  unfold Refused at h
  push Not at h
  obtain ⟨hmethod, ⟨market, event, hmarket, hevent⟩, hwrite⟩ := h
  have hattr : (evaluationGates i).attributed = attributed i := by rw [evaluationGates_eq]
  obtain ⟨⟨rewarded, figures⟩, hreward⟩ := (@rewardGates_ok_iff
    (envelopeGates i (attributed i) market event (evaluationGates i).gates)
    (m15Setups (attributed i)).length _).mpr hwrite
  refine ⟨assessmentOutput i (evaluationGates i) market (lastGates i (evaluationGates i) rewarded)
    figures, candidate digests i (m15Setups (evaluationGates i).attributed)
      (lastGates i (evaluationGates i) rewarded), ?_⟩
  unfold buildAssessment
  rw [if_pos hmethod]
  rw [← hattr] at hreward
  exact bind_eq_ok.mpr ⟨market, hmarket, bind_eq_ok.mpr ⟨event, hevent, bind_eq_ok.mpr
    ⟨(rewarded, figures), hreward, rfl⟩⟩⟩

/-- What an assessment raises does not depend on the order of what was collected. -/
theorem conclude_error {t t' : Triage} {e : Exc} (setups : t.attributed.Perm t'.attributed)
    (h : conclude digests i t = .error e) : conclude digests i t' = .error e := by
  have m15 : (m15Setups t.attributed).Perm (m15Setups t'.attributed) := setups.filter _
  have only := onlySetup_perm m15
  rcases bind_eq_error.mp h with hmarket | ⟨market, hmarket, h⟩
  · exact bind_eq_error.mpr (Or.inl hmarket)
  rcases bind_eq_error.mp h with hevent | ⟨event, hevent, h⟩
  · exact bind_eq_error.mpr (Or.inr ⟨market, hmarket, bind_eq_error.mpr (Or.inl hevent)⟩)
  rcases bind_eq_error.mp h with hreward | ⟨result, -, h⟩
  · rw [only, m15.length_eq] at hreward
    exact bind_eq_error.mpr (Or.inr ⟨market, hmarket, bind_eq_error.mpr (Or.inr ⟨event, hevent,
      bind_eq_error.mpr (Or.inl (rewardGates_error hreward))⟩)⟩)
  · cases h

/-- A refused call does not return. -/
theorem error_of_refused (h : Refused digests i) : ∃ e, buildAssessment digests i = .error e := by
  cases hb : buildAssessment digests i with
  | error e => exact ⟨e, rfl⟩
  | ok outcome =>
    exfalso
    unfold buildAssessment at hb
    split_ifs at hb with hmethod
    swap
    · simp at hb
    obtain ⟨market, event, rewarded, figures, hmarket, hevent, hreward, -, -⟩ := conclude_eq_ok hb
    have hattr : (evaluationGates i).attributed = attributed i := by rw [evaluationGates_eq]
    rw [hattr] at hreward
    rcases h with h | h | ⟨r, hr, h⟩
    · exact h hmethod
    · exact h market event ⟨hmarket, hevent⟩
    · exact h (rewardGates_ok_iff.mp ⟨_, hreward⟩ r hr)

/-- A refused call raises the same in every order of the evaluations. -/
theorem refused_reordered {evaluations : List Evaluation} (perm : evaluations.Perm i.evaluations)
    (h : Refused digests i) :
    buildAssessment digests (i.reordered evaluations) = buildAssessment digests i := by
  obtain ⟨e, he⟩ := error_of_refused h
  rw [he]
  unfold buildAssessment at he ⊢
  by_cases hmethod : i.methodDigest = digests.method ∨ i.methodDigest = methodV11Digest
  · rw [if_pos hmethod] at he
    refine (if_pos hmethod).trans (conclude_error (i := i) ?_ he)
    rw [evaluationGates_eq, evaluationGates_eq]
    exact (perm.filterMap _).symm
  · rw [if_neg hmethod] at he
    exact (if_neg hmethod).trans he

/-! ## Every order of the evaluations -/

/-- The call fails closed: available exactly with a candidate, a candidate only where it is
admissible, and the same in every order of the evaluations. -/
structure FailsClosed (digests : Digests) (i : Inputs) : Prop where
  available : ∀ output result, buildAssessment digests i = .ok (output, result) →
    (output.status = .available ↔ result.isSome = true)
  admissible : ∀ output result, buildAssessment digests i = .ok (output, result) →
    result.isSome = true → Admissible i
  ordered : ∀ evaluations : List Evaluation, evaluations.Perm i.evaluations →
    buildAssessment digests (i.reordered evaluations) = buildAssessment digests i

/-- The envelopes do not touch the catch-all gate. -/
theorem absent_envelopeGates {attributed : List Attributed} {market : MarketFields}
    {event : EventReading} {gates : Gates} :
    envelopeGates i attributed market event gates .technicalSetupAbsent =
      gates .technicalSetupAbsent := by
  have hcost : ∀ (g : Gates) cost, costGates g cost i.snapshot.informationCutoff
      .technicalSetupAbsent = g .technicalSetupAbsent := by
    intro g cost
    cases cost with
    | none => simp (disch := decide) only [costGates, closeIf_of_ne]
    | some c => simp (disch := decide) only [costGates, closeIf_of_ne]
  have hevidence : ∀ (g : Gates) required, evidenceGates g required i.evidence .technicalSetupAbsent =
      g .technicalSetupAbsent := by
    intro g required
    unfold evidenceGates
    split_ifs
    · exact close_of_ne (by decide)
    · exact closeIf_of_ne (by decide)
  have hsuccessor : ∀ (g : Gates) setup, successorGate g setup .technicalSetupAbsent =
      g .technicalSetupAbsent := by
    intro g setup
    cases setup with
    | none => rfl
    | some s => exact closeIf_of_ne (by decide)
  unfold envelopeGates
  rw [hcost, eventGates, closeIf_of_ne (by decide), closeIf_of_ne (by decide), hevidence,
    hsuccessor, setupGates, closeIf_of_ne (by decide), closeIf_of_ne (by decide),
    closeIf_of_ne (by decide), closeIf_of_ne (by decide)]

/-- Neither do the reward, the capacity and the duplicate flag. -/
theorem absent_lastGates {rewarded gates : Gates} {figures : Option RewardTexts} {t : Triage}
    {n : ℕ} {values : Option (Option Reward)}
    (h : rewardGates gates n values = .ok (rewarded, figures)) :
    lastGates i t rewarded .technicalSetupAbsent = gates .technicalSetupAbsent := by
  have hreward : rewarded .technicalSetupAbsent = gates .technicalSetupAbsent := by
    match values, h with
    | none, h =>
      obtain ⟨rfl, -⟩ := Prod.mk.inj (Except.ok.inj h)
      exact closeIf_of_ne (by decide)
    | some none, h =>
      obtain ⟨rfl, -⟩ := Prod.mk.inj (Except.ok.inj h)
      exact close_of_ne (by decide)
    | some (some r), h =>
      obtain ⟨gross, -, h⟩ := bind_eq_ok.mp h
      obtain ⟨net, -, h⟩ := bind_eq_ok.mp h
      obtain ⟨rfl, -⟩ := Prod.mk.inj (Except.ok.inj h)
      rw [closeIf_of_ne (by decide), closeIf_of_ne (by decide)]
  rw [lastGates, closeIf_of_ne (by decide), ← hreward]
  cases i.capacity with
  | none => simp (disch := decide) only [capacityGates, close_of_ne]
  | some c => simp (disch := decide) only [capacityGates, closeIf_of_ne]

/-- The output tells the detail of the catch-all gate. -/
theorem absent_of_output {i' : Inputs} {output : Output} {result result' : Option Candidate}
    (h : buildAssessment digests i = .ok (output, result))
    (h' : buildAssessment digests i' = .ok (output, result')) :
    (evaluationGates i).gates .technicalSetupAbsent =
      (evaluationGates i').gates .technicalSetupAbsent := by
  have told : ∀ {j : Inputs} {output : Output} {result : Option Candidate},
      buildAssessment digests j = .ok (output, result) →
        (.technicalSetupAbsent, (evaluationGates j).gates .technicalSetupAbsent) ∈
          output.decision.gates ∧ ∀ g, (Reason.technicalSetupAbsent, g) ∈ output.decision.gates →
            g = (evaluationGates j).gates .technicalSetupAbsent := by
    intro j output result h
    unfold buildAssessment at h
    split_ifs at h
    swap
    · simp at h
    obtain ⟨market, event, rewarded, figures, -, -, hreward, rfl, -⟩ := conclude_eq_ok h
    have hlast := (absent_lastGates (i := j) (t := evaluationGates j) hreward).trans
      absent_envelopeGates
    constructor
    · refine List.mem_map.mpr ⟨.technicalSetupAbsent, mem_reasons _, ?_⟩
      rw [hlast]
    · intro g hg
      obtain ⟨reason, -, hr⟩ := List.mem_map.mp hg
      obtain ⟨rfl, rfl⟩ := Prod.mk.inj hr
      exact hlast
  exact (told h').2 _ (told h).1

/-- Any evaluation of the catch-all gate can come last. -/
theorem exists_last {detail : String} (none : missing i = []) (h : detail ∈ absentDetails i) :
    ∃ evaluations : List Evaluation, evaluations.Perm i.evaluations ∧
      ((evaluationGates (i.reordered evaluations)).gates .technicalSetupAbsent).detail =
        lastDetail (absentDetails i) detail := by
  obtain ⟨item, hitem, closes⟩ := List.mem_filterMap.mp (mem_detailsAt.mp h)
  have perm : (i.evaluations.erase item ++ [item]).Perm i.evaluations :=
    (List.perm_append_singleton item _).trans (List.perm_cons_erase hitem).symm
  refine ⟨_, perm, ?_⟩
  have hperm := detailsAt_perm perm .technicalSetupAbsent
  have split : absentDetails (i.reordered (i.evaluations.erase item ++ [item])) =
      detailsAt .technicalSetupAbsent
        ((i.evaluations.erase item).filterMap (closing i.eligibility.entries)) ++ [detail] := by
    show detailsAt _ ((i.evaluations.erase item ++ [item]).filterMap
      (closing i.eligibility.entries)) = _
    rw [filterMap_concat, closes]
    simp [detailsAt]
  rw [absent_detail ((missing_perm perm).trans none), split]
  exact addDetails_eq_lastDetail (split ▸ hperm) (full_of_mem_closings h)

/-- **Failing closed.** A call fails closed exactly when it is refused or the details of the
catch-all gate have one reading. -/
theorem buildAssessment_failsClosed_iff (digests : Digests) (i : Inputs) :
    FailsClosed digests i ↔ Refused digests i ∨ OneReading i := by
  constructor
  · intro closed
    by_contra h
    push Not at h
    obtain ⟨accepted, two⟩ := h
    unfold OneReading at two
    push Not at two
    obtain ⟨evaluated, x, hx, y, hy, ne⟩ := two
    obtain ⟨output, result, ok⟩ := ok_of_not_refused accepted
    -- two orders that differ in the evaluation that comes last have the same output
    obtain ⟨xs, hxs, readsX⟩ := exists_last evaluated hx
    obtain ⟨ys, hys, readsY⟩ := exists_last evaluated hy
    have same := absent_of_output ((closed.ordered xs hxs).trans ok) ((closed.ordered ys hys).trans ok)
    exact ne (by rw [← readsX, ← readsY, same])
  · intro h
    refine ⟨fun output result ok => (status_iff_candidate ok).1,
      fun output result ok => (status_iff_candidate ok).2, fun evaluations perm => ?_⟩
    rcases h with refused | one
    · exact refused_reordered perm refused
    · have hgates : (evaluationGates (i.reordered evaluations)).gates = (evaluationGates i).gates := by
        funext reason
        by_cases ne : reason = .technicalSetupAbsent
        · subst ne
          exact absent_of_oneReading perm one
        · exact evaluationGates_of_ne perm ne
      unfold buildAssessment
      have same : conclude digests i (evaluationGates (i.reordered evaluations)) =
          conclude digests i (evaluationGates i) := by
        refine conclude_perm hgates ?_ ?_
        · rw [evaluationGates_eq, evaluationGates_eq]
          exact perm.filterMap _
        · rw [evaluationGates_eq, evaluationGates_eq]
          exact perm.filterMap _
      show (if _ then conclude digests i _ else _) = _
      rw [same]
      rfl

end

/-! ## Two readings -/

/-- Two admitted strategies without a setup, one of whose reasons holds the separator. -/
def twoReadings : Inputs :=
  let block : Val := .dict [("state", .str "available")]
  let unavailable (session : Session) (reason : String) : Evaluation :=
    ⟨session.name, .orb .confirmed session, "d", "e", "o", [.unavailable reason]⟩
  { methodDigest := methodV11Digest
    snapshot :=
      { informationCutoff := 1789129800000000
        payload := .dict [("granularities", .dict (["W", "D", "H4", "H1", "M15"].map (·, block))),
          ("monthly_context", block), ("macro_regime", unavailableState),
          ("event_state", .dict [("state", .str "available"), ("coverage", .str "unattested"),
            ("active_window_vintages", .list [])])] }
    eligibility :=
      { identity := "b"
        entries := [⟨.orb .confirmed .london, "d", .setup, []⟩,
          ⟨.orb .confirmed .newYork, "d", .setup, []⟩] }
    evaluations := [unavailable .london "range; not tested", unavailable .newYork "no range"] }

/-- The detail of the catch-all gate depends on the order of the two evaluations. -/
theorem not_failsClosed_twoReadings : ¬ FailsClosed ⟨"m", fun _ => ""⟩ twoReadings := by
  intro closed
  have same := closed.ordered twoReadings.evaluations.reverse (List.reverse_perm _)
  have gates := congrArg (fun r => r.toOption.map fun o => o.1.decision.gates) same
  revert gates
  decide

end TradeRecommender.Assessments
