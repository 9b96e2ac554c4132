import TradeRecommender.Lib.Civil
import TradeRecommender.Lib.Components
import TradeRecommender.Lib.NewYork
import TradeRecommender.Lib.Scaled

/-!
# Outcome summaries

`summarize_outcomes` of `market/strategy/reports.py` adds up the outcomes of one strategy and counts
how many of them are independent: two outcomes that are open in a common ISO week depend on each
other.

1. the populations, the rows and the loop over them;
2. what a turn and a run of the loop give;
3. the groups of weeks are components;
4. the summary, in any order of the rows.
-/

namespace TradeRecommender.MarketStrategy

open Py Civil Components Decimals

/-! ## Populations -/

/-- `STRATEGIES` -/
def strategies : List String :=
  ["ewmac-d-v1", "breakout-d-v1", "fast-mr-h1-v1", "pullback-m15-v1", "pullback-h1-v1",
    "range-m15-v1", "phase5-sweep-reversal-v1", "phase5-acceptance-continuation-v1",
    "carry-readiness-v1", "macro-risk-v1", "fixed-risk-v1", "ewma-risk-v1", "garch-t-risk-v1"] ++
  ["orb-m15-wick-v1", "orb-m15-confirmed-v1", "orb-m15-fvg-v1"].flatMap fun variant =>
    ["london", "new_york"].map fun session => variant ++ ":" ++ session

/-- `population_definition()["era"]` -/
def registeredEra : String := "phase5-prospective-2026-09-11-v1"

/-- `population_definition()["development"][0]` -/
def developmentStart : Instant := (Date.mk 2026 9 11).toDays * day

/-- `population_definition()["holdout"]` -/
def holdout : Instant × Instant := ((Date.mk 2027 1 1).toDays * day, (Date.mk 2028 1 1).toDays * day)

/-- `population` -/
def population (cutoff : Instant) : String :=
  if holdout.1 ≤ cutoff ∧ cutoff < holdout.2 then "untouched_holdout"
  else if developmentStart ≤ cutoff ∧ cutoff < holdout.1 then "development"
  else "exploratory_outside_registered_population"

/-! ## Rows -/

/-- The fields of a row that are read; a time is `none` where it has no zone. -/
structure OutcomeRow where
  identity : String
  strategySha256 : String
  era : String
  population : String
  enteredAt : Option Instant
  exitedAt : Option Instant
  grossR : Option Scaled
  netR : Option Scaled
  deriving DecidableEq

/-- `isocalendar()[:2]` of a day: the ISO year and week, those of its Thursday. -/
def isocalendar (days : ℤ) : ℤ × ℤ :=
  let thursday := days - weekday days + 3
  let year := (Date.ofDays thursday).year
  (year, (thursday - (Date.mk year 1 1).toDays) / 7 + 1)

/-- `while day <= last`: the weeks of each day from the entry to the last microsecond. -/
def openWeeks (start finish : Instant) : List (ℤ × ℤ) :=
  let last := (finish - 1) / day
  (List.range (last + 1 - start / day).toNat).map fun (k : ℕ) => isocalendar (start / day + k)

/-- The groups after one more set of weeks: those it meets are removed and become part of it. -/
def addWeeks (groups : List (List (ℤ × ℤ))) (weeks : List (ℤ × ℤ)) : List (List (ℤ × ℤ)) :=
  let overlapping := groups.filter (meets weeks ·)
  let (groups, weeks) := overlapping.foldl
    (fun (groups, weeks) group => (groups.erase group, weeks ++ group)) (groups, weeks)
  groups ++ [weeks]

/-- The context of `arithmetic`. -/
def arithmetic : Context where
  prec := 34
  emax := 999999
  emin := -999999

/-- What the loop has collected. -/
structure Tally where
  seen : List String := []
  groups : List (List (ℤ × ℤ)) := []
  gross : Scaled := ⟨0, 0⟩
  net : Scaled := ⟨0, 0⟩

/-- `for row in rows` -/
def turn (digest era : String) (tally : Tally) (row : OutcomeRow) : Except Exc Tally :=
  if row.strategySha256 ≠ digest ∨ row.era ≠ era ∨ row.population ≠ "untouched_holdout" then
    raise .valueError "mixed_strategy_era_or_population"
  else if row.identity ∈ tally.seen then raise .valueError "duplicate_outcome"
  else match row.enteredAt, row.exitedAt with
    | some start, some finish =>
      if finish ≤ start ∨ population start ≠ "untouched_holdout" ∨
          population (finish - 1) ≠ "untouched_holdout" then
        raise .valueError "holdout_boundary"
      else match row.netR, row.grossR with
        | some netR, some grossR => do
          let gross ← arithmetic.plus tally.gross grossR
          let net ← arithmetic.plus tally.net netR
          return {
            seen := row.identity :: tally.seen
            groups := addWeeks tally.groups (openWeeks start finish)
            gross, net }
        | _, _ => raise .valueError "net_evidence_unavailable"
    | _, _ => raise .valueError "holdout_boundary"

structure OutcomeSummary where
  strategy : String
  era : String
  rows : ℕ
  independentUnits : ℕ
  grossR : String
  netR : String
  acceptance : String
  pooling : String
  deriving DecidableEq

/-- `summarize_outcomes`, with the digest of each strategy's definition. -/
def summarizeOutcomes (definitionDigest : String → String) (rows : List OutcomeRow)
    (strategy era : String) : Except Exc OutcomeSummary :=
  if strategy ∉ strategies ∨ era ≠ registeredEra then raise .valueError "unsupported_attribution"
  else if 10000 < rows.length then raise .valueError "report_bound"
  else do
    let tally ← rows.foldlM (turn (definitionDigest strategy) era) {}
    return {
      strategy, era
      rows := rows.length
      independentUnits := tally.groups.length
      grossR := tally.gross.str
      netR := tally.net.str
      acceptance := "not_evaluated_owner_review_required"
      pooling := "forbidden" }

/-! ## The loop -/

namespace OutcomeRow

/-- The row passes the checks of its own fields. -/
structure Admissible (digest era : String) (row : OutcomeRow) (start finish : Instant)
    (gross net : Scaled) : Prop where
  strategySha256 : row.strategySha256 = digest
  era : row.era = era
  population : row.population = "untouched_holdout"
  enteredAt : row.enteredAt = some start
  exitedAt : row.exitedAt = some finish
  later : start < finish
  entry : MarketStrategy.population start = "untouched_holdout"
  exit : MarketStrategy.population (finish - 1) = "untouched_holdout"
  grossR : row.grossR = some gross
  netR : row.netR = some net

/-- The weeks in which the row is open. -/
def weeks (row : OutcomeRow) : List (ℤ × ℤ) :=
  match row.enteredAt, row.exitedAt with
  | some start, some finish => openWeeks start finish
  | _, _ => []

def gross (row : OutcomeRow) : Scaled := row.grossR.getD ⟨0, 0⟩

def net (row : OutcomeRow) : Scaled := row.netR.getD ⟨0, 0⟩

/-- The outcome is open at some time of the week. -/
def OpenIn (row : OutcomeRow) (week : ℤ × ℤ) : Prop :=
  ∃ start finish at_, row.enteredAt = some start ∧ row.exitedAt = some finish ∧
    start ≤ at_ ∧ at_ < finish ∧ isocalendar (at_ / day) = week

end OutcomeRow

section
variable {digest era : String}

/-- What a turn does with an admissible row whose identity is new. -/
theorem turn_of_admissible {tally : Tally} {row : OutcomeRow}
    (own : ∃ start finish grossR netR, row.Admissible digest era start finish grossR netR)
    (fresh : row.identity ∉ tally.seen) :
    turn digest era tally row = (do
      let gross ← arithmetic.plus tally.gross row.gross
      let net ← arithmetic.plus tally.net row.net
      return ⟨row.identity :: tally.seen, addWeeks tally.groups row.weeks, gross, net⟩) := by
  obtain ⟨start, finish, grossR, netR, own⟩ := own
  unfold turn OutcomeRow.gross OutcomeRow.net OutcomeRow.weeks
  rw [if_neg (by simp [own.strategySha256, own.era, own.population]), if_neg fresh]
  simp only [own.enteredAt, own.exitedAt, own.grossR, own.netR]
  rw [if_neg (by simp [own.later, own.entry, own.exit])]
  rfl

/-- **A turn** takes an admissible row whose identity is new, unless a sum overflows. -/
theorem turn_eq_ok {tally tally' : Tally} {row : OutcomeRow} :
    turn digest era tally row = .ok tally' ↔
      (∃ start finish grossR netR, row.Admissible digest era start finish grossR netR) ∧
      row.identity ∉ tally.seen ∧
      ∃ gross net, arithmetic.plus tally.gross row.gross = .ok gross ∧
        arithmetic.plus tally.net row.net = .ok net ∧
        tally' = ⟨row.identity :: tally.seen, addWeeks tally.groups row.weeks, gross, net⟩ := by
  constructor
  · intro h
    have taken : (∃ start finish grossR netR, row.Admissible digest era start finish grossR netR) ∧
        row.identity ∉ tally.seen := by
      unfold turn at h
      split at h
      case isTrue => cases h
      case isFalse own =>
      push Not at own
      split at h
      case isTrue => cases h
      case isFalse fresh =>
      split at h
      case h_2 => cases h
      case h_1 start finish entered exited =>
      split at h
      case isTrue => cases h
      case isFalse bounds =>
      push Not at bounds
      split at h
      case h_2 => cases h
      case h_1 netR grossR net_ gross_ =>
      exact ⟨⟨start, finish, grossR, netR, own.1, own.2.1, own.2.2, entered, exited, bounds.1,
        bounds.2.1, bounds.2.2, gross_, net_⟩, fresh⟩
    obtain ⟨own, fresh⟩ := taken
    rw [turn_of_admissible own fresh] at h
    obtain ⟨gross, added, h⟩ := bind_eq_ok.mp h
    obtain ⟨net, added', h⟩ := bind_eq_ok.mp h
    cases h
    exact ⟨own, fresh, gross, net, added, added', rfl⟩
  · rintro ⟨own, fresh, gross, net, added, added', rfl⟩
    rw [turn_of_admissible own fresh]
    exact bind_eq_ok.mpr ⟨gross, added, bind_eq_ok.mpr ⟨net, added', rfl⟩⟩

/-- A turn of an admissible row whose identity is new returns or overflows. -/
theorem turn_or_overflow {tally : Tally} {row : OutcomeRow}
    (own : ∃ start finish grossR netR, row.Admissible digest era start finish grossR netR)
    (fresh : row.identity ∉ tally.seen) :
    (∃ tally', turn digest era tally row = .ok tally') ∨
      turn digest era tally row = raise (.other "Overflow") := by
  rw [turn_of_admissible own fresh]
  rcases arithmetic.plus_or_overflow tally.gross row.gross with ⟨gross, added⟩ | overflow
  · rcases arithmetic.plus_or_overflow tally.net row.net with ⟨net, added'⟩ | overflow
    · exact .inl ⟨_, bind_eq_ok.mpr ⟨gross, added, bind_eq_ok.mpr ⟨net, added', rfl⟩⟩⟩
    · right
      rw [added, overflow]
      rfl
  · right
    rw [overflow]
    rfl

/-- **A run of the loop** takes admissible rows of different identities, unless a sum overflows. -/
theorem turns_eq_ok {rows : List OutcomeRow} {tally tally' : Tally} :
    rows.foldlM (turn digest era) tally = .ok tally' ↔
      (∀ row ∈ rows, ∃ start finish grossR netR,
        row.Admissible digest era start finish grossR netR) ∧
      (rows.map OutcomeRow.identity).Nodup ∧ (∀ row ∈ rows, row.identity ∉ tally.seen) ∧
      ∃ gross net, (rows.map OutcomeRow.gross).foldlM arithmetic.plus tally.gross = .ok gross ∧
        (rows.map OutcomeRow.net).foldlM arithmetic.plus tally.net = .ok net ∧
        tally' = ⟨(rows.map OutcomeRow.identity).reverse ++ tally.seen,
          (rows.map OutcomeRow.weeks).foldl addWeeks tally.groups, gross, net⟩ := by
  induction rows generalizing tally with
  | nil =>
    constructor
    · intro h
      cases h
      exact ⟨by simp, List.nodup_nil, by simp, _, _, rfl, rfl, rfl⟩
    · rintro ⟨-, -, -, gross, net, added, added', rfl⟩
      cases added
      cases added'
      rfl
  | cons row rows ih =>
    rw [List.foldlM_cons, bind_eq_ok]
    simp only [turn_eq_ok, ih, List.map_cons, List.nodup_cons, List.foldlM_cons, bind_eq_ok,
      List.forall_mem_cons, List.foldl_cons, List.reverse_cons, List.append_assoc]
    constructor
    · rintro ⟨_, ⟨own, fresh, gross, net, added, added', rfl⟩, admissible, distinct, fresh', gross',
        net', all, all', rfl⟩
      refine ⟨⟨own, admissible⟩, ⟨?_, distinct⟩, ⟨fresh, ?_⟩, gross', net', ⟨gross, added, all⟩,
        ⟨net, added', all'⟩, rfl⟩
      · intro mem
        obtain ⟨other, there, same⟩ := List.mem_map.mp mem
        exact fresh' other there (same ▸ List.mem_cons_self)
      · exact fun other there seen => fresh' other there (List.mem_cons_of_mem _ seen)
    · rintro ⟨⟨own, admissible⟩, ⟨alone, distinct⟩, ⟨fresh, fresh'⟩, gross', net', ⟨gross, added, all⟩,
        ⟨net, added', all'⟩, rfl⟩
      refine ⟨_, ⟨own, fresh, gross, net, added, added', rfl⟩, admissible, distinct, ?_, gross', net',
        all, all', rfl⟩
      intro other there seen
      rcases List.mem_cons.mp seen with same | seen
      · exact alone (List.mem_map.mpr ⟨other, there, same⟩)
      · exact fresh' other there seen

/-- A run over admissible rows of different identities returns or overflows. -/
theorem turns_or_overflow {rows : List OutcomeRow} {tally : Tally}
    (admissible : ∀ row ∈ rows, ∃ start finish grossR netR,
      row.Admissible digest era start finish grossR netR)
    (distinct : (rows.map OutcomeRow.identity).Nodup)
    (fresh : ∀ row ∈ rows, row.identity ∉ tally.seen) :
    (∃ tally', rows.foldlM (turn digest era) tally = .ok tally') ∨
      rows.foldlM (turn digest era) tally = raise (.other "Overflow") := by
  induction rows generalizing tally with
  | nil => exact .inl ⟨tally, rfl⟩
  | cons row rows ih =>
    obtain ⟨own, admissible⟩ := List.forall_mem_cons.mp admissible
    obtain ⟨fresh, fresh'⟩ := List.forall_mem_cons.mp fresh
    obtain ⟨alone, distinct⟩ := List.nodup_cons.mp distinct
    rw [List.foldlM_cons]
    rcases turn_or_overflow own fresh with ⟨tally', turned⟩ | overflow
    · rw [turned]
      obtain ⟨-, -, gross, net, -, -, rfl⟩ := turn_eq_ok.mp turned
      refine ih admissible distinct fun other there seen => ?_
      rcases List.mem_cons.mp seen with same | seen
      · exact alone (List.mem_map.mpr ⟨other, there, same⟩)
      · exact fresh' other there seen
    · right
      rw [overflow]
      rfl

end

/-! ## The groups -/

theorem foldl_erase (overlapping groups : List (List (ℤ × ℤ))) (weeks : List (ℤ × ℤ)) :
    overlapping.foldl (fun (groups, weeks) group => (groups.erase group, weeks ++ group))
      (groups, weeks) = (groups.diff overlapping, weeks ++ overlapping.flatten) := by
  induction overlapping generalizing groups weeks with
  | nil => simp only [List.foldl_nil, List.diff_nil, List.flatten_nil, List.append_nil]
  | cons group overlapping ih =>
    rw [List.foldl_cons]
    simp only [ih, List.diff_cons, List.flatten_cons, List.append_assoc]

/-- Groups that are components grow as the components do. -/
theorem addWeeks_eq {sets groups : List (List (ℤ × ℤ))}
    (components : IsComponents (Named sets) (Joined sets) groups) (weeks : List (ℤ × ℤ)) :
    addWeeks groups weeks = mergeInto groups weeks := by
  have kept : groups.diff (groups.filter (meets weeks ·)) = groups.filter (! meets weeks ·) := by
    rw [components.nodup.sdiff_eq_filter]
    refine List.filter_congr fun group mem => ?_
    rw [Bool.eq_iff_iff]
    simp [List.mem_filter, mem]
  unfold addWeeks mergeInto
  rw [absorb_eq components.apart]
  simp only [foldl_erase, kept]

/-- **The groups of a run** are the components of all weeks. -/
theorem isComponents_addWeeks {sets more groups : List (List (ℤ × ℤ))}
    (components : IsComponents (Named sets) (Joined sets) groups)
    (some_ : ∀ weeks ∈ more, weeks ≠ []) :
    IsComponents (Named (sets ++ more)) (Joined (sets ++ more)) (more.foldl addWeeks groups) := by
  induction more generalizing sets groups with
  | nil =>
    rw [List.append_nil]
    exact components
  | cons weeks more ih =>
    rw [List.foldl_cons, List.append_cons, addWeeks_eq components]
    exact ih (components.merge (some_ weeks List.mem_cons_self))
      fun weeks' mem => some_ weeks' (List.mem_cons_of_mem _ mem)

section
variable {start finish : Instant}

theorem mem_openWeeks_iff (later : start < finish) {week : ℤ × ℤ} :
    week ∈ openWeeks start finish ↔
      ∃ at_, start ≤ at_ ∧ at_ < finish ∧ isocalendar (at_ / day) = week := by
  have positive : 0 < day := by decide
  unfold openWeeks
  simp only [List.mem_map, List.mem_range]
  constructor
  · rintro ⟨k, bound, rfl⟩
    -- the entry itself, or the midnight of a later day
    refine ⟨max start ((start / day + k) * day), le_max_left _ _, ?_, ?_⟩
    · have last : start / day + k ≤ (finish - 1) / day := by
        unfold Instant at *
        omega
      have inside := (Int.le_ediv_iff_mul_le positive).mp last
      unfold Instant at *
      omega
    · have here : max start ((start / day + k) * day) / day = start / day + k := by
        rcases Nat.eq_zero_or_pos k with rfl | some_
        · have first : start / day * day ≤ start := Int.ediv_mul_le start positive.ne'
          rw [Nat.cast_zero, add_zero, max_eq_left first]
        · have first : start < (start / day + k) * day := by
            have next := Int.lt_ediv_add_one_mul_self start positive
            have more : (start / day + 1) * day ≤ (start / day + k) * day :=
              Int.mul_le_mul_of_nonneg_right (by omega) positive.le
            exact lt_of_lt_of_le next more
          rw [max_eq_right first.le, Int.mul_ediv_cancel _ positive.ne']
      rw [here]
  · rintro ⟨at_, after, before, rfl⟩
    have first : start / day ≤ at_ / day := Int.ediv_le_ediv positive after
    have last : at_ / day ≤ (finish - 1) / day :=
      Int.ediv_le_ediv positive (Int.le_sub_one_of_lt before)
    have here : start / day + ((at_ / day - start / day).toNat : ℤ) = at_ / day := by
      rw [Int.toNat_of_nonneg (Int.sub_nonneg.mpr first)]
      exact add_sub_cancel _ _
    refine ⟨(at_ / day - start / day).toNat, ?_, by rw [here]⟩
    unfold Instant at *
    omega

end

namespace OutcomeRow

variable {digest era : String} {row : OutcomeRow} {start finish : Instant} {grossR netR : Scaled}

theorem Admissible.mem_weeks (admissible : row.Admissible digest era start finish grossR netR)
    {week : ℤ × ℤ} : week ∈ row.weeks ↔ row.OpenIn week := by
  simp only [weeks, OpenIn, admissible.enteredAt, admissible.exitedAt]
  rw [mem_openWeeks_iff admissible.later]
  constructor
  · rintro ⟨at_, after, before, rfl⟩
    exact ⟨start, finish, at_, rfl, rfl, after, before, rfl⟩
  · rintro ⟨_, _, at_, ⟨⟩, ⟨⟩, after, before, rfl⟩
    exact ⟨at_, after, before, rfl⟩

theorem Admissible.weeks_ne_nil (admissible : row.Admissible digest era start finish grossR netR) :
    row.weeks ≠ [] := by
  have first : isocalendar (start / day) ∈ row.weeks := admissible.mem_weeks.mpr
    ⟨start, finish, start, admissible.enteredAt, admissible.exitedAt, Int.le_refl _,
      admissible.later, rfl⟩
  exact List.ne_nil_of_mem first

end OutcomeRow

/-! ## The summary -/

/-- Two rows that are open in a common week. -/
def Overlap (rows : List OutcomeRow) (row row' : OutcomeRow) : Prop :=
  row ∈ rows ∧ row' ∈ rows ∧ ∃ week, row.OpenIn week ∧ row'.OpenIn week

/-- The number of components of the rows, linked where they overlap. -/
noncomputable def dependenceGroups (rows : List OutcomeRow) : ℕ := count (· ∈ rows) (Overlap rows)

/-- No partial sum of the rows has to be rounded. -/
def SumsExactly (rows : List OutcomeRow) : Prop :=
  arithmetic.Exact ⟨0, 0⟩ (rows.map OutcomeRow.gross) ∧
    arithmetic.Exact ⟨0, 0⟩ (rows.map OutcomeRow.net)

section
variable {definitionDigest : String → String} {rows : List OutcomeRow} {strategy era : String}

/-- The rows are admissible, and none of them is there twice. -/
def Accepted (digest era : String) (rows : List OutcomeRow) : Prop :=
  (∀ row ∈ rows, ∃ start finish grossR netR,
    row.Admissible digest era start finish grossR netR) ∧ (rows.map OutcomeRow.identity).Nodup

theorem Accepted.perm {digest : String} {rows' : List OutcomeRow} (perm : rows.Perm rows')
    (accepted : Accepted digest era rows) : Accepted digest era rows' :=
  ⟨fun row mem => accepted.1 row (perm.mem_iff.mpr mem), (perm.map _).nodup_iff.mp accepted.2⟩

/-- **The groups are as many as the components of the rows.** -/
theorem Accepted.length_groups {digest : String} (accepted : Accepted digest era rows) :
    ((rows.map OutcomeRow.weeks).foldl addWeeks []).length = dependenceGroups rows := by
  have some_ : ∀ row ∈ rows, row.weeks ≠ [] := by
    intro row mem
    obtain ⟨start, finish, grossR, netR, own⟩ := accepted.1 row mem
    exact own.weeks_ne_nil
  have components := isComponents_addWeeks isComponents_nil (List.forall_mem_map.mpr some_)
  rw [List.nil_append] at components
  have linked : Sharing OutcomeRow.weeks rows = Overlap rows := by
    funext row row'
    refine propext (and_congr_right fun mem => and_congr_right fun mem' => ?_)
    obtain ⟨start, finish, grossR, netR, own⟩ := accepted.1 row mem
    obtain ⟨start', finish', grossR', netR', own'⟩ := accepted.1 row' mem'
    simp only [own.mem_weeks, own'.mem_weeks]
  rw [components.length_eq (joined_symm _), ← count_sharing some_, linked]
  rfl

theorem dependenceGroups_perm {rows' : List OutcomeRow} (perm : rows.Perm rows') :
    dependenceGroups rows' = dependenceGroups rows := by
  unfold dependenceGroups Overlap
  simp only [perm.mem_iff]

/-- **What a summary says** of the rows it accepts. -/
theorem summarizeOutcomes_eq_ok {summary : OutcomeSummary} :
    summarizeOutcomes definitionDigest rows strategy era = .ok summary ↔
      strategy ∈ strategies ∧ era = registeredEra ∧ rows.length ≤ 10000 ∧
      Accepted (definitionDigest strategy) era rows ∧
      ∃ gross net, (rows.map OutcomeRow.gross).foldlM arithmetic.plus ⟨0, 0⟩ = .ok gross ∧
        (rows.map OutcomeRow.net).foldlM arithmetic.plus ⟨0, 0⟩ = .ok net ∧
        summary = ⟨strategy, era, rows.length, dependenceGroups rows, gross.str, net.str,
          "not_evaluated_owner_review_required", "forbidden"⟩ := by
  unfold summarizeOutcomes
  by_cases supported : strategy ∉ strategies ∨ era ≠ registeredEra
  · rw [if_pos supported]
    constructor
    · intro h
      cases h
    · rintro ⟨known, registered, -⟩
      exact absurd supported (by simp [known, registered])
  have supported' := supported
  push Not at supported'
  by_cases long : 10000 < rows.length
  · rw [if_neg supported, if_pos long]
    constructor
    · intro h
      cases h
    · rintro ⟨-, -, short, -⟩
      omega
  rw [if_neg supported, if_neg long, bind_eq_ok]
  simp only [turns_eq_ok]
  constructor
  · rintro ⟨_, ⟨admissible, distinct, -, gross, net, added, added', rfl⟩, h⟩
    cases h
    have accepted : Accepted (definitionDigest strategy) era rows := ⟨admissible, distinct⟩
    refine ⟨supported'.1, supported'.2, by omega, accepted, gross, net, added, added', ?_⟩
    rw [← accepted.length_groups]
  · rintro ⟨-, -, -, accepted, gross, net, added, added', rfl⟩
    refine ⟨_, ⟨accepted.1, accepted.2, by simp, gross, net, added, added', rfl⟩, ?_⟩
    rw [← accepted.length_groups]
    rfl

/-- Accepted rows are summarized, or a sum of theirs overflows. -/
theorem summarizeOutcomes_or_overflow (known : strategy ∈ strategies) (registered : era = registeredEra)
    (short : rows.length ≤ 10000) (accepted : Accepted (definitionDigest strategy) era rows) :
    (∃ summary, summarizeOutcomes definitionDigest rows strategy era = .ok summary) ∨
      summarizeOutcomes definitionDigest rows strategy era = raise (.other "Overflow") := by
  unfold summarizeOutcomes
  rw [if_neg (by simp [known, registered]), if_neg (by omega)]
  have fresh : ∀ row ∈ rows, row.identity ∉ ({} : Tally).seen := fun _ _ => List.not_mem_nil
  rcases turns_or_overflow accepted.1 accepted.2 fresh with ⟨tally, turned⟩ | overflow
  · exact .inl ⟨_, bind_eq_ok.mpr ⟨tally, turned, rfl⟩⟩
  · right
    rw [overflow]
    rfl

/-- Sums that are not rounded give the exact sums of the rows. -/
theorem summarizeOutcomes_of_sumsExactly (known : strategy ∈ strategies)
    (registered : era = registeredEra) (short : rows.length ≤ 10000)
    (accepted : Accepted (definitionDigest strategy) era rows) (exact_ : SumsExactly rows) :
    summarizeOutcomes definitionDigest rows strategy era =
      .ok ⟨strategy, era, rows.length, dependenceGroups rows,
        (Scaled.total ⟨0, 0⟩ (rows.map OutcomeRow.gross)).str,
        (Scaled.total ⟨0, 0⟩ (rows.map OutcomeRow.net)).str,
        "not_evaluated_owner_review_required", "forbidden"⟩ :=
  summarizeOutcomes_eq_ok.mpr ⟨known, registered, short, accepted, _, _,
    Context.plus_of_exact exact_.1, Context.plus_of_exact exact_.2, rfl⟩

/-- **Outcome summaries**: the independent units are the components of the rows, linked where they
are open in a common week. In another order of the rows only the two sums can differ, or overflow,
and they do not where neither order rounds a partial sum: they are the exact sums then. -/
theorem summarizeOutcomes_spec {summary : OutcomeSummary}
    (h : summarizeOutcomes definitionDigest rows strategy era = .ok summary) :
    summary.independentUnits = dependenceGroups rows ∧
    (SumsExactly rows → ∃ gross net : Scaled, summary.grossR = gross.str ∧ summary.netR = net.str ∧
      gross.value = (rows.map fun row => row.gross.value).sum ∧
      net.value = (rows.map fun row => row.net.value).sum) ∧
    ∀ rows', rows.Perm rows' →
      ((∃ summary', summarizeOutcomes definitionDigest rows' strategy era = .ok summary' ∧
          { summary' with grossR := summary.grossR, netR := summary.netR } = summary) ∨
        summarizeOutcomes definitionDigest rows' strategy era = raise (.other "Overflow")) ∧
      (SumsExactly rows → SumsExactly rows' →
        summarizeOutcomes definitionDigest rows' strategy era = .ok summary) := by
  obtain ⟨known, registered, short, accepted, gross, net, -, -, same⟩ :=
    summarizeOutcomes_eq_ok.mp h
  refine ⟨by rw [same], fun exact_ => ?_, fun rows' perm => ⟨?_, fun exact_ exact' => ?_⟩⟩
  · have exactly := summarizeOutcomes_of_sumsExactly known registered short accepted exact_
    rw [← Except.ok.inj (exactly.symm.trans h)]
    refine ⟨_, _, rfl, rfl, ?_, ?_⟩ <;>
    · rw [Scaled.value_total, List.map_map]
      simp only [Scaled.value, Int.cast_zero, zero_mul, zero_add]
      rfl
  · have short' : rows'.length ≤ 10000 := perm.length_eq ▸ short
    rcases summarizeOutcomes_or_overflow known registered short' (accepted.perm perm) with
      ⟨summary', summarized⟩ | overflow
    · refine .inl ⟨summary', summarized, ?_⟩
      obtain ⟨-, -, -, -, gross', net', -, -, same'⟩ := summarizeOutcomes_eq_ok.mp summarized
      rw [same, same']
      simp only [dependenceGroups_perm perm, perm.length_eq]
    · exact .inr overflow
  · have short' : rows'.length ≤ 10000 := perm.length_eq ▸ short
    rw [← h, summarizeOutcomes_of_sumsExactly known registered short' (accepted.perm perm) exact',
      summarizeOutcomes_of_sumsExactly known registered short accepted exact_,
      dependenceGroups_perm perm, Scaled.total_perm (perm.map OutcomeRow.gross),
      Scaled.total_perm (perm.map OutcomeRow.net), perm.length_eq]

end

/-! ## Two lists of rows -/

/-- The digest of the registered definition of `ewmac-d-v1`. -/
def ewmacDigest : String := "60fb6331e52a4b5355778575012e4de2cc92f14f0369e918c15f811a9f847cd6"

/-- An outcome of `ewmac-d-v1` from the start of a day to that of another. -/
def outcome (identity : String) (start finish : ℤ) (result : Scaled) : OutcomeRow :=
  ⟨identity, ewmacDigest, registeredEra, "untouched_holdout", some (start * day),
    some (finish * day), some result, some result⟩

/-- An outcome over three weeks and another that lies in the middle one. -/
def threeWeeks : List OutcomeRow :=
  [outcome "a" 20822 20839 ⟨2, 0⟩, outcome "b" 20830 20831 ⟨15, -1⟩]

/-- Outcomes of `-4`, of `-6 / 11` and of `-11 / 3` to 34 digits. -/
def fractions : List OutcomeRow :=
  [outcome "a" 20822 20823 ⟨-4, 0⟩,
    outcome "b" 20830 20831 ⟨-5454545454545454545454545454545455, -34⟩,
    outcome "c" 20838 20839 ⟨-3666666666666666666666666666666667, -33⟩]

theorem admissible_outcome {identity : String} {start finish : ℤ} {result : Scaled}
    (later : start < finish) (low : 20819 ≤ start) (high : finish ≤ 21184) :
    (outcome identity start finish result).Admissible ewmacDigest registeredEra (start * day)
      (finish * day) result result := by
  have inside : ∀ at_ : ℤ, start * day ≤ at_ → at_ < finish * day →
      population at_ = "untouched_holdout" := by
    intro at_ after before
    refine if_pos ⟨?_, ?_⟩
    · have first : holdout.1 = 20819 * day := by decide
      rw [first]
      exact (Int.mul_le_mul_of_nonneg_right low (by decide)).trans after
    · have last : holdout.2 = 21184 * day := by decide
      rw [last]
      exact before.trans_le (Int.mul_le_mul_of_nonneg_right high (by decide))
  have later' : start * day < finish * day := Int.mul_lt_mul_of_pos_right later (by decide)
  exact ⟨rfl, rfl, rfl, rfl, rfl, later', inside _ le_rfl later',
    inside _ (Int.le_sub_one_of_lt later') (Int.sub_one_lt_of_le le_rfl), rfl, rfl⟩

theorem accepted_threeWeeks : Accepted ewmacDigest registeredEra threeWeeks := by
  refine ⟨?_, by decide⟩
  rw [threeWeeks, List.forall_mem_cons, List.forall_mem_singleton]
  exact ⟨⟨_, _, _, _, admissible_outcome (by decide) (by decide) (by decide)⟩,
    ⟨_, _, _, _, admissible_outcome (by decide) (by decide) (by decide)⟩⟩

theorem accepted_fractions : Accepted ewmacDigest registeredEra fractions := by
  refine ⟨?_, by decide⟩
  rw [fractions, List.forall_mem_cons, List.forall_mem_cons, List.forall_mem_singleton]
  exact ⟨⟨_, _, _, _, admissible_outcome (by decide) (by decide) (by decide)⟩,
    ⟨_, _, _, _, admissible_outcome (by decide) (by decide) (by decide)⟩,
    ⟨_, _, _, _, admissible_outcome (by decide) (by decide) (by decide)⟩⟩

theorem sumsExactly_threeWeeks : SumsExactly threeWeeks ∧ SumsExactly threeWeeks.reverse := by
  unfold SumsExactly threeWeeks outcome
  simp only [List.reverse_cons, List.reverse_nil, List.nil_append, List.cons_append, List.map_cons,
    List.map_nil, OutcomeRow.gross, OutcomeRow.net, Option.getD_some, Context.Exact, Context.Writes,
    and_true]
  decide

/-- Two outcomes of one group, in both orders. -/
theorem summarizeOutcomes_spec_threeWeeks : ∃ summary,
    summarizeOutcomes (fun _ => ewmacDigest) threeWeeks "ewmac-d-v1" registeredEra = .ok summary ∧
    summary.independentUnits = dependenceGroups threeWeeks ∧
    summarizeOutcomes (fun _ => ewmacDigest) threeWeeks.reverse "ewmac-d-v1" registeredEra =
      .ok summary := by
  have known : "ewmac-d-v1" ∈ strategies := by simp [strategies]
  have h : summarizeOutcomes (fun _ => ewmacDigest) threeWeeks "ewmac-d-v1" registeredEra = .ok _ :=
    summarizeOutcomes_of_sumsExactly known rfl (by decide) accepted_threeWeeks
      sumsExactly_threeWeeks.1
  have spec := summarizeOutcomes_spec h
  exact ⟨_, h, spec.1, (spec.2.2 _ threeWeeks.reverse_perm.symm).2 sumsExactly_threeWeeks.1
    sumsExactly_threeWeeks.2⟩

/-- Two rows with a week in common among those of their entries and exits. -/
def MeetAtEnds (rows : List OutcomeRow) (row row' : OutcomeRow) : Prop :=
  row ∈ rows ∧ row' ∈ rows ∧ ∃ at_ at', (row.enteredAt = some at_ ∨ row.exitedAt = some at_) ∧
    (row'.enteredAt = some at' ∨ row'.exitedAt = some at') ∧
    isocalendar (at_ / day) = isocalendar (at' / day)

theorem outcome_end {identity : String} {start finish : ℤ} {result : Scaled} {at_ : Instant}
    (ends : (outcome identity start finish result).enteredAt = some at_ ∨
      (outcome identity start finish result).exitedAt = some at_) :
    at_ / day = start ∨ at_ / day = finish := by
  rcases ends with same | same
  · exact .inl (Option.some.inj same ▸ Int.mul_ediv_cancel start (by decide))
  · exact .inr (Option.some.inj same ▸ Int.mul_ediv_cancel finish (by decide))

theorem meetAtEnds_threeWeeks {row row' : OutcomeRow} (meet : MeetAtEnds threeWeeks row row') :
    row = row' := by
  have apart : ∀ days ∈ [20822, 20839], ∀ days' ∈ [20830, 20831],
      isocalendar days ≠ isocalendar days' := by decide
  obtain ⟨mem, mem', at_, at', ends, ends', same⟩ := meet
  simp only [threeWeeks, List.mem_cons, List.not_mem_nil, or_false] at mem mem'
  rcases mem with rfl | rfl <;> rcases mem' with rfl | rfl
  · rfl
  · exact absurd same (apart _ (by simpa using outcome_end ends) _ (by simpa using outcome_end ends'))
  · exact absurd same.symm
      (apart _ (by simpa using outcome_end ends') _ (by simpa using outcome_end ends))
  · rfl

/-- Rows that do not meet are components of their own. -/
theorem count_meetAtEnds_threeWeeks : count (· ∈ threeWeeks) (MeetAtEnds threeWeeks) = 2 := by
  have symmetric : ∀ row row', MeetAtEnds threeWeeks row row' → MeetAtEnds threeWeeks row' row :=
    fun row row' meet => meetAtEnds_threeWeeks meet ▸ meet
  have labels : ∀ row ∈ threeWeeks, ∀ row' ∈ threeWeeks, row.identity = row'.identity ↔
      Relation.ReflTransGen (MeetAtEnds threeWeeks) row row' := by
    intro row mem row' mem'
    constructor
    · intro same
      rw [List.inj_on_of_nodup_map accepted_threeWeeks.2 mem mem' same]
    · intro reach
      induction reach with
      | refl => rfl
      | tail _ last ih =>
        have same := meetAtEnds_threeWeeks last
        rw [← same]
        exact ih last.1
  rw [← count_eq_labels symmetric (fun _ => Iff.rfl) labels]
  decide

/-- The two rows meet at no end, yet are one unit; and the order of three rows shows in the last
digit of their sum. -/
theorem one_unit_and_a_last_digit :
    (∃ summary,
      summarizeOutcomes (fun _ => ewmacDigest) threeWeeks "ewmac-d-v1" registeredEra = .ok summary ∧
      summary.independentUnits = 1 ∧ count (· ∈ threeWeeks) (MeetAtEnds threeWeeks) = 2) ∧
    ∃ summary summary',
      summarizeOutcomes (fun _ => ewmacDigest) fractions "ewmac-d-v1" registeredEra = .ok summary ∧
      summarizeOutcomes (fun _ => ewmacDigest) fractions.reverse "ewmac-d-v1" registeredEra =
        .ok summary' ∧
      summary.grossR = "-8.212121212121212121212121212121213" ∧
      summary'.grossR = "-8.212121212121212121212121212121212" := by
  have known : "ewmac-d-v1" ∈ strategies := by simp [strategies]
  constructor
  · refine ⟨_, summarizeOutcomes_of_sumsExactly known rfl (by decide) accepted_threeWeeks
      sumsExactly_threeWeeks.1, ?_, ?_⟩
    · rw [← accepted_threeWeeks.length_groups]
      decide
    · exact count_meetAtEnds_threeWeeks
  · have sums : (fractions.map OutcomeRow.gross).foldlM arithmetic.plus ⟨0, 0⟩ =
        .ok ⟨-8212121212121212121212121212121213, -33⟩ := by
      decide +kernel
    have sums' : (fractions.reverse.map OutcomeRow.gross).foldlM arithmetic.plus ⟨0, 0⟩ =
        .ok ⟨-8212121212121212121212121212121212, -33⟩ := by
      decide +kernel
    refine ⟨_, _, summarizeOutcomes_eq_ok.mpr ⟨known, rfl, by decide, accepted_fractions, _, _, sums,
      sums, rfl⟩, summarizeOutcomes_eq_ok.mpr ⟨known, rfl, by decide,
      accepted_fractions.perm fractions.reverse_perm.symm, _, _, sums', sums', rfl⟩, ?_, ?_⟩
    · decide
    · decide

end TradeRecommender.MarketStrategy
