import TradeRecommender.Forecasts.PaperAccounts

/-!
# Paper trades by increments

Successive calls of `resolve_paper_trade`, each of which sees more of one sequence of hourly candles,
against one call on the whole sequence, before the target matures.

1. the maturity of a target, and what is not settled before it;
2. one pass over candles, and the account it leaves;
3. a call resumes the pass where the last one stopped;
4. calls one after another.
-/

namespace TradeRecommender.Forecasts.Paper

open Civil
open Coverage (MarketHour nextMarketHour nextMarketHour_spec hasCoverage_iff manifestCoversRange)
open Market (candleCompletion candleSuccessor isAligned isAligned_d isAligned_h1 marketIsOpen_iff
  regular_of_isAligned startAfter successorWall successorWall_spec)
open Decimals (divided quantized)
open Py

section
variable {c : SundayClock} {g : Market.Granularity}

/-- The readings of successive starts. -/
theorem wall_startAfter (n : ℕ) {t : Instant} (aligned : isAligned g (c.wall t) = true) :
    isAligned g (c.wall (startAfter c g n t)) = true ∧
      c.wall (startAfter c g n t) = (successorWall g)^[n] (c.wall t) := by
  induction n generalizing t with
  | zero => exact ⟨aligned, rfl⟩
  | succ n ih =>
    obtain ⟨next, -⟩ := successorWall_spec aligned
    have read : c.wall (candleSuccessor c g t) = successorWall g (c.wall t) :=
      SundayClock.wall_utc (regular_of_isAligned next).unskipped
    rw [startAfter, Function.iterate_succ_apply, ← read]
    exact ih (read ▸ next)

theorem successor_d (w : ℤ) : ∃ n : ℤ, successorWall .d w = w + n * day ∧
    (w + n * day) / day = w / day + n ∧ n = if weekday (w / day) = 3 then 3 else 1 := by
  have days : ∀ n : ℤ, (w + n * day) / day = w / day + n := fun n =>
    Int.add_mul_ediv_right w n (by decide)
  by_cases thursday : weekday (w / day) = 3
  · exact ⟨3, by rw [successorWall, if_pos thursday], days 3, by rw [if_pos thursday]⟩
  · exact ⟨1, by rw [successorWall, if_neg thursday], days 1, by rw [if_neg thursday]⟩

theorem weekday_add (days n : ℤ) : weekday (days + n) = (weekday days + n) % 7 := by
  unfold weekday
  omega

/-- Five sessions are a week. -/
theorem five_sessions {w : ℤ} (aligned : isAligned .d w = true) :
    (successorWall .d)^[5] w = w + 7 * day := by
  obtain ⟨a, ha, da, sa⟩ := successor_d w
  obtain ⟨b, hb, db, sb⟩ := successor_d (w + a * day)
  obtain ⟨c, hc, dc, sc⟩ := successor_d (w + a * day + b * day)
  obtain ⟨d, hd, dd, sd⟩ := successor_d (w + a * day + b * day + c * day)
  obtain ⟨e, he, -, se⟩ := successor_d (w + a * day + b * day + c * day + d * day)
  rw [isAligned_d] at aligned
  have week : a + b + c + d + e = 7 := by
    have weekdays := aligned.1
    rw [dd, weekday_add, dc, weekday_add, db, weekday_add, da, weekday_add] at se
    rw [dc, weekday_add, db, weekday_add, da, weekday_add] at sd
    rw [db, weekday_add, da, weekday_add] at sc
    rw [da, weekday_add] at sb
    clear ha hb hc hd he da db dc dd aligned
    simp only [List.mem_cons, List.not_mem_nil, or_false] at weekdays
    generalize weekday (w / day) = start at *
    subst se sd sc sb sa
    rcases weekdays with rfl | rfl | rfl | rfl | rfl <;> decide
  show successorWall .d (successorWall .d (successorWall .d (successorWall .d
    (successorWall .d w)))) = _
  rw [ha, hb, hc, hd, he, ← week]
  ring

end

namespace TargetOccurrence

variable (target : TargetOccurrence)

theorem wall_endpoint : isAligned .d (newYork.wall target.endpoint) = true ∧
    newYork.wall target.endpoint = newYork.wall target.reference + 7 * day := by
  obtain ⟨aligned, read⟩ := wall_startAfter (c := newYork) 5 target.aligned
  exact ⟨aligned, read.trans (five_sessions target.aligned)⟩

/-- A target matures within two weeks of the completion of its reference. -/
theorem maturity_lt :
    (target.maturity : ℤ) < candleCompletion newYork .d target.reference + 14 * day := by
  have read := target.wall_endpoint.2
  unfold maturity candleCompletion
  rw [read]
  have late := SundayClock.utc_cases (c := newYork)
    (newYork.wall target.reference + 7 * day + Market.Granularity.step .d)
  have early := SundayClock.utc_cases (c := newYork)
    (newYork.wall target.reference + Market.Granularity.step .d)
  generalize newYork.wall target.reference = w at *
  simp only [hour, day] at *
  unfold Instant at *
  omega

/-- The last hour before a maturity is one of the market. -/
theorem lastHour : MarketHour newYork (target.maturity - hour) := by
  obtain ⟨aligned, -⟩ := target.wall_endpoint
  set w := newYork.wall target.endpoint with hw
  have last : isAligned .h1 (w + day - hour) = true := by
    rw [isAligned_h1, marketIsOpen_iff]
    rw [isAligned_d] at aligned
    simp only [List.mem_cons, List.not_mem_nil, or_false] at aligned
    simp only [weekday, hour, day] at aligned ⊢
    omega
  have regular := regular_of_isAligned last
  have here : MarketHour newYork (newYork.utc (w + day - hour)) := by
    unfold MarketHour
    rw [SundayClock.wall_utc regular.unskipped]
    exact last
  have ends : newYork.wall (newYork.utc (w + day - hour) + hour) = w + day := by
    rw [here.wall_add, SundayClock.wall_utc regular.unskipped]
    ring
  have regular' : SundayClock.Regular (w + day) := (successorWall_spec aligned).2.1
  have same : newYork.utc (w + day - hour) + hour = target.maturity := by
    have back := SundayClock.utc_wall (c := newYork) (ends.symm ▸ regular')
    rw [ends] at back
    exact back.symm
  rw [← same]
  simpa using here

end TargetOccurrence

/-! ## Before the target matures -/

section
variable {s : Sight} {rec : Recommendation} {a : Account}

theorem mem_candles {candle : Candle} (mem : candle ∈ s.candles rec) :
    rec.generatedAt ≤ candle.timestamp ∧ candle.timestamp ≤ min s.now rec.expiresAt - hour := by
  unfold Sight.candles Sight.candlesBy at mem
  obtain ⟨-, kept⟩ := List.mem_filter.mp mem
  simp only [Bool.and_eq_true, decide_eq_true_eq] at kept
  exact ⟨kept.1.2, kept.2⟩

/-- A period of two weeks from its generation outlasts a recommendation. -/
theorem expiresAt_lt (rec : Recommendation) :
    (rec.expiresAt : ℤ) < rec.generatedAt + 14 * day := by
  have late := rec.target.maturity_lt
  have known := rec.known
  unfold Recommendation.expiresAt
  unfold Instant at *
  omega

/-- The candles of a target that has not matured do not cover the time to its maturity. -/
theorem uncovered (before : s.now < rec.expiresAt) :
    s.hasCoverage rec rec.expiresAt (s.candles rec) = false := by
  rw [← Bool.not_eq_true]
  intro covers
  unfold Sight.hasCoverage at covers
  by_cases manifest : manifestCoversRange s.runs s.now rec.covered rec.expiresAt none = true
  · obtain ⟨first, rest, same, -, reaches, -⟩ := (hasCoverage_iff manifest).mp covers
    have last : (first :: rest).getLast (List.cons_ne_nil _ _) ∈
        (s.candles rec).map Candle.timestamp := by
      rw [same]
      exact List.getLast_mem _
    obtain ⟨candle, mem, here⟩ := List.mem_map.mp last
    have early := (mem_candles mem).2
    rw [← here] at reaches
    have next := (nextMarketHour_spec (c := newYork) candle.timestamp).2.2 _ rec.target.lastHour
    have positive : (0 : ℤ) < hour := by decide
    unfold Recommendation.expiresAt at *
    unfold Instant at *
    rw [min_eq_left before.le] at early
    have := next (by omega)
    omega
  · unfold Coverage.hasCoverage at covers
    rw [Bool.not_eq_true] at manifest
    rw [manifest] at covers
    cases covers

theorem resolveTarget_early (before : s.now < rec.expiresAt) (resolved : a.Resolved rec) :
    resolveTarget s rec a = (none, a) := by
  unfold resolveTarget
  cases here : a.resolution with
  | none =>
    dsimp only
    rw [if_pos before]
  | some existing =>
    dsimp only
    rw [if_neg (Int.not_le.mpr (Int.lt_of_lt_of_le before (resolved existing here)))]

/-- Without an exit nothing is settled yet. -/
theorem settle_early (before : s.now < rec.expiresAt) :
    settle s rec a none (s.candles rec) = .ok a := by
  have none_ : (s.horizon.filter fun _ => s.hasCoverage rec rec.expiresAt (s.candles rec)) =
      none := by
    rw [uncovered before]
    cases s.horizon <;> rfl
  have recent : ¬ (s.horizon = none ∧ rec.generatedAt + 14 * day < s.now) := by
    rintro ⟨-, late⟩
    exact Int.lt_asymm late (Int.lt_trans before (expiresAt_lt rec))
  unfold settle
  rw [none_]
  dsimp only
  have waits : lapse s rec a = .ok a := if_neg recent
  rw [if_neg (by decide), waits]
  show (if rec.expiresAt ≤ s.now then _ else _) = _
  rw [if_neg (Int.not_le.mpr before)]

end

/-! ## One pass -/

/-- An entry without its time. -/
def Entry.unstamped (entry : Entry) : Entry := { entry with enteredAt := 0 }

/-- A result without its time and its horizon. -/
def Result.unstamped (result : Result) : Result :=
  { result with horizonCandle := none, resolvedAt := 0 }

/-- An account without the times of the calls. -/
def Account.unstamped (a : Account) : Account :=
  { a with
    entry := a.entry.map Entry.unstamped
    result := a.result.map Result.unstamped
    since := 0 }

section
variable (rec : Recommendation)

/-- The account of an exit. -/
def close (entry : Entry) (exit : Exit) : Except Exc Account := do
  let result ← resultOf rec none 0 entry exit
  if ¬ result.Fits then raise .validationError
  else do
    let _ ← Costs.createCostAssessment (result.costed rec entry)
    return { entry := some entry, result := some result, state := exit.outcome.state, since := 0 }

/-- The account of an entry and the exit after it. -/
def follow (entry : Entry) : Option Exit → Except Exc Account
  | some exit => close rec entry exit
  | none => .ok { entry := some entry, state := .entered, since := 0 }

/-- The account of one pass over the candles. -/
def trace (candles : List Candle) : Except Exc Account :=
  if rec.action = .abstain then .ok (fresh 0)
  else
    match findEntry rec candles with
    | none => .ok (fresh 0)
    | some (candle, fill, after) => do
      let entry ← newEntry rec 0 candle fill
      follow rec entry ((exitOnEntry rec candle fill.1).or (after.findSome? (exitOn rec)))

end

section
variable {s : Sight} {rec : Recommendation} {a : Account} {entry : Entry} {exit : Exit}

theorem newEntry_unstamped (now : Instant) (candle : Candle) (fill : Bool × ℤ) :
    (newEntry rec now candle fill).map Entry.unstamped = newEntry rec 0 candle fill := by
  unfold newEntry
  dsimp only
  split_ifs <;> rfl

theorem resultOf_unstamped (horizon : Option Candle) (now : Instant) :
    (resultOf rec horizon now entry exit).map Result.unstamped =
      resultOf rec none 0 entry.unstamped exit := by
  unfold resultOf
  dsimp only [Entry.unstamped, risk]
  cases divided (price (if rec.action = .buy then exit.price - entry.fillPrice
    else entry.fillPrice - exit.price)) Costs.pipSize with
  | error e => rfl
  | ok pips =>
    dsimp only [bind, Except.bind]
    cases quantized (-3) pips with
    | error e => rfl
    | ok grossPips =>
      dsimp only
      cases divided (price (if rec.action = .buy then exit.price - entry.fillPrice
        else entry.fillPrice - exit.price)) (price |entry.fillPrice - rec.invalidationLevel|) with
      | error e => rfl
      | ok r =>
        dsimp only
        cases quantized (-4) r <;> rfl

/-- Costs of an exit on a candle do not depend on the horizon. -/
theorem costs_unstamped {result : Result} (onCandle : result.outcome ≠ .expired) :
    Costs.createCostAssessment (result.costed rec entry) =
      Costs.createCostAssessment (result.unstamped.costed rec entry.unstamped) := by
  have outcome : costedOutcome result.outcome ≠ .expired := by
    cases h : result.outcome with
    | expired => exact absurd h onCandle
    | target | invalidated | notActivated => decide
  have hours : Costs.exitHour (result.costed rec entry) =
      Costs.exitHour (result.unstamped.costed rec entry.unstamped) := by
    unfold Costs.exitHour
    rw [if_neg (show (result.costed rec entry).outcome ≠ .expired from outcome),
      if_neg (show (result.unstamped.costed rec entry.unstamped).outcome ≠ .expired from outcome)]
    rfl
  have values : Costs.assessmentValues entry.costed (result.costed rec entry) =
      Costs.assessmentValues entry.costed (result.unstamped.costed rec entry.unstamped) := by
    unfold Costs.assessmentValues Costs.financingDayRange
    rw [hours]
    rfl
  show (if _ then _ else (Costs.assessmentValues entry.costed (result.costed rec entry) >>= _)) =
    (if _ then _ else (Costs.assessmentValues entry.costed
      (result.unstamped.costed rec entry.unstamped) >>= _))
  rw [values]
  rfl

/-- An exit on a candle. -/
def Exit.OnCandle (exit : Exit) : Prop := exit.outcome = .invalidated ∨ exit.outcome = .target

theorem exitOn_onCandle {candle : Candle} (h : exitOn rec candle = some exit) : exit.OnCandle := by
  unfold exitOn at h
  dsimp only at h
  split_ifs at h
  · exact .inl (Option.some.inj h ▸ rfl)
  · exact .inr (Option.some.inj h ▸ rfl)

theorem exitOnEntry_onCandle {candle : Candle} {atOpen : Bool}
    (h : exitOnEntry rec candle atOpen = some exit) : exit.OnCandle := by
  unfold exitOnEntry at h
  dsimp only at h
  split_ifs at h
  · exact .inl (Option.some.inj h ▸ rfl)
  · exact .inr (Option.some.inj h ▸ rfl)

/-- An account that is entered, when the clock has not gone back. -/
structure Open (s : Sight) (rec : Recommendation) (a : Account) (entry : Entry) : Prop where
  state : a.state = .entered
  entry : a.entry = some entry
  result : a.result = none
  resolution : a.resolution = none
  since : a.since ≤ s.now
  generated : rec.generatedAt ≤ s.now

theorem advance_exit (open_ : Open s rec a entry) (onCandle : exit.OnCandle) (result : Result) :
    advance s rec { a with result := some result } exit.outcome.state =
      .ok { a with result := some result, state := exit.outcome.state, since := s.now } := by
  have other : LifecycleState.entered ≠ exit.outcome.state ∧
      exit.outcome.state ∈ transitions .entered := by
    rcases onCandle with h | h <;> rw [h] <;> decide
  unfold advance
  dsimp only
  rw [open_.state, if_neg other.1, if_pos ⟨other.2, open_.generated, open_.since⟩]

theorem storeResult_exit (open_ : Open s rec a entry) {result : Result}
    (onCandle : exit.OnCandle) (same : result.outcome = exit.outcome) :
    storeResult s rec a result = if ¬ result.Fits then raise .validationError
      else .ok { a with result := some result, state := exit.outcome.state, since := s.now } := by
  have scan : ¬ (result.outcome = .expired ∨ result.outcome = .notActivated) := by
    rw [same]
    rcases onCandle with h | h <;> rw [h] <;> decide
  unfold storeResult
  rw [if_neg scan, same, advance_exit open_ onCandle]

theorem createResult_unstamped (open_ : Open s rec a entry) (onCandle : exit.OnCandle) :
    (createResult s rec a entry exit).map Account.unstamped =
      close rec entry.unstamped exit := by
  unfold createResult close
  rw [← resultOf_unstamped s.horizon s.now]
  cases made : resultOf rec s.horizon s.now entry exit with
  | error e => rfl
  | ok result =>
    have same := (resultOf_eq made).1
    have costs : Costs.createCostAssessment (result.costed rec entry) =
        Costs.createCostAssessment (result.unstamped.costed rec entry.unstamped) := by
      refine costs_unstamped ?_
      rw [same]
      rcases onCandle with h | h <;> rw [h] <;> decide
    dsimp only [bind, Except.bind, Except.map]
    rw [storeResult_exit open_ onCandle same, costs]
    by_cases fits : result.Fits
    · have fits' : result.unstamped.Fits := fits
      rw [if_neg (not_not.mpr fits), if_neg (not_not.mpr fits')]
      dsimp only
      cases Costs.createCostAssessment (result.unstamped.costed rec entry.unstamped) with
      | error e => rfl
      | ok _ =>
        dsimp only [Account.unstamped, pure, Except.pure]
        rw [open_.entry, open_.resolution]
        rfl
    · have fits' : ¬ result.unstamped.Fits := fits
      rw [if_pos fits, if_pos fits']
      rfl

theorem follow_unstamped (open_ : Open s rec a entry) (before : s.now < rec.expiresAt)
    {exit : Option Exit} (onCandle : ∀ e ∈ exit, e.OnCandle) :
    (leave s rec a none entry exit (s.candles rec)).map Account.unstamped =
      follow rec entry.unstamped exit := by
  cases exit with
  | some exit => exact createResult_unstamped open_ (onCandle exit rfl)
  | none =>
    show (settle s rec a none (s.candles rec)).map Account.unstamped = _
    rw [settle_early before]
    unfold follow Account.unstamped
    dsimp only [Except.map]
    rw [open_.entry, open_.result, open_.resolution, open_.state]
    rfl

/-! ## Prefixes -/

theorem findEntry_append (p q : List Candle) : findEntry rec (p ++ q) =
    match findEntry rec p with
    | some (candle, fill, after) => some (candle, fill, after ++ q)
    | none => findEntry rec q := by
  induction p with
  | nil => rfl
  | cons candle p ih =>
    rw [List.cons_append, findEntry, findEntry]
    cases entryFill rec candle with
    | none => exact ih
    | some fill => rfl

theorem remaining_eq {before after : List Candle} {candle : Candle}
    (distinct : ((before ++ candle :: after).map Candle.id).Nodup)
    (entered : entry.candle = candle) :
    remaining entry (before ++ candle :: after) = after := by
  have others : ∀ other ∈ before, other.id ≠ candle.id := by
    intro other mem same
    rw [List.map_append, List.map_cons] at distinct
    have apart := (List.nodup_append.mp distinct).2.2
    exact apart _ (List.mem_map_of_mem mem) _ List.mem_cons_self same
  have index : (before ++ candle :: after).findIdx? (fun other => other.id = entry.candle.id) =
      some before.length := by
    rw [entered]
    clear distinct
    induction before with
    | nil => simp [List.findIdx?_cons]
    | cons first before ih =>
      have apart := others first List.mem_cons_self
      rw [List.cons_append, List.findIdx?_cons, if_neg (by simpa using apart),
        ih fun other mem => others other (List.mem_cons_of_mem _ mem)]
      rfl
  unfold remaining
  rw [index]
  simp

/-! ## Calls one after another -/

/-- A call before the target matures, of an admitted recommendation whose hours are covered. -/
structure Early (s : Sight) (rec : Recommendation) : Prop where
  admitted : s.admitted = true
  before : s.now < rec.expiresAt
  covers : ∀ last ∈ (s.candles rec).getLast?,
    s.hasCoverage rec (last.timestamp + hour) (s.candles rec) = true

theorem resolve_early (early : Early s rec) (directional : rec.action ≠ .abstain)
    (result : a.result = none) (resolution : a.resolution = none)
    (live : a.state ∈ [LifecycleState.admittedAwaitingEntry, .entered]) :
    resolve s rec a = scan s rec a none (s.candles rec) := by
  have guard : ¬ (a.result.isSome ∨ rec.action = .abstain ∨ s.admitted = false ∨
      a.state ∉ [LifecycleState.admittedAwaitingEntry, .entered]) := by
    rw [result, early.admitted]
    rintro (h | h | h | h)
    · cases h
    · exact directional h
    · cases h
    · exact h live
  have covered : ¬ (s.candles rec).getLast?.any (fun last =>
      decide (s.hasCoverage rec (last.timestamp + hour) (s.candles rec) = false)) = true := by
    intro uncovered
    obtain ⟨last, here, h⟩ := (Option.any_eq_true _ _).mp uncovered
    rw [early.covers last here] at h
    cases h
  have resolved : a.Resolved rec := by
    intro resolution' mem
    rw [resolution] at mem
    cases mem
  unfold resolve
  rw [if_neg guard, resolveTarget_early early.before resolved]
  dsimp only
  rw [if_neg covered]

theorem generated_le {before after : List Candle} {candle : Candle}
    (split : s.candles rec = before ++ candle :: after) : rec.generatedAt ≤ s.now := by
  have inside := @mem_candles s rec candle (by rw [split]; simp)
  have positive : (0 : ℤ) < hour := by decide
  have least := min_le_left s.now rec.expiresAt
  unfold Instant at *
  omega

theorem distinct_candles (s : Sight) (rec : Recommendation) :
    ((s.candles rec).map Candle.id).Nodup :=
  s.distinct.sublist (List.filter_sublist.map _)

/-- **A call resumes the pass**: where an account is that of one pass over a prefix, the call leaves
that of one pass over all it sees, or raises what the pass raises. -/
theorem resolve_resumes (early : Early s rec) (since : a.since ≤ s.now) {p : List Candle}
    (traced : trace rec p = .ok a.unstamped) (more : p <+: s.candles rec) :
    (resolve s rec a).map Account.unstamped = trace rec (s.candles rec) := by
  by_cases abstains : rec.action = .abstain
  · have done : resolve s rec a = .ok a := by
      unfold resolve
      rw [if_pos (.inr (.inl abstains))]
    unfold trace at traced ⊢
    rw [if_pos abstains] at traced ⊢
    rw [done, traced]
    rfl
  obtain ⟨q, split⟩ := more
  have whole := @findEntry_append rec p q
  rw [split] at whole
  unfold trace at traced
  rw [if_neg abstains] at traced
  cases found : findEntry rec p with
  | none =>
    rw [found] at traced whole
    have same : fresh 0 = a.unstamped := Except.ok.inj traced
    have entry : a.entry = none := Option.map_eq_none_iff.mp (congrArg Account.entry same).symm
    have result : a.result = none := Option.map_eq_none_iff.mp (congrArg Account.result same).symm
    have resolution : a.resolution = none := (congrArg Account.resolution same).symm
    have state : a.state = .admittedAwaitingEntry := (congrArg Account.state same).symm
    rw [resolve_early early abstains result resolution (by rw [state]; decide)]
    unfold scan trace
    rw [if_neg abstains, entry]
    dsimp only
    cases found' : findEntry rec (s.candles rec) with
    | none =>
      dsimp only
      rw [settle_early early.before, same]
      rfl
    | some here =>
      obtain ⟨candle, fill, after⟩ := here
      obtain ⟨before, split', -⟩ := findEntry_split found'
      dsimp only
      rw [← newEntry_unstamped s.now]
      cases made : newEntry rec s.now candle fill with
      | error e => rfl
      | ok entry =>
        have generated := generated_le split'
        have entered : advance s rec { a with entry := some entry } .entered =
            .ok { a with entry := some entry, state := .entered, since := s.now } := by
          unfold advance
          dsimp only
          rw [state, if_neg (by decide), if_pos ⟨by decide, generated, since⟩]
        dsimp only [bind, Except.bind, Except.map]
        rw [entered]
        dsimp only
        refine follow_unstamped (a := { a with
          entry := some entry, state := .entered, since := s.now })
          ⟨rfl, rfl, result, resolution, Int.le_refl _, generated⟩ early.before ?_
        intro exit mem
        rcases Option.or_eq_some_iff.mp mem with here | ⟨-, later⟩
        · exact exitOnEntry_onCandle here
        · obtain ⟨_, -, here⟩ := List.exists_of_findSome?_eq_some later
          exact exitOn_onCandle here
  | some here =>
    obtain ⟨candle, fill, after⟩ := here
    rw [found] at traced whole
    dsimp only at traced whole
    obtain ⟨entry, made, traced⟩ := bind_eq_ok.mp traced
    have passed : trace rec (s.candles rec) = follow rec entry
        ((exitOnEntry rec candle fill.1).or ((after ++ q).findSome? (exitOn rec))) := by
      unfold trace
      rw [if_neg abstains, whole]
      dsimp only
      rw [made]
      rfl
    rw [passed]
    cases exits : (exitOnEntry rec candle fill.1).or (after.findSome? (exitOn rec)) with
    | some exit =>
      rw [exits] at traced
      have exits' : (exitOnEntry rec candle fill.1).or ((after ++ q).findSome? (exitOn rec)) =
          some exit := by
        rw [List.findSome?_append, ← Option.or_assoc, exits]
        rfl
      have closed : ∃ result, a.result = some result := by
        unfold follow close at traced
        obtain ⟨result, -, traced⟩ := bind_eq_ok.mp traced
        by_cases fits : result.Fits
        · rw [if_neg (not_not.mpr fits)] at traced
          obtain ⟨_, -, traced⟩ := bind_eq_ok.mp traced
          have same := congrArg Account.result (Except.ok.inj traced)
          obtain ⟨result', here, -⟩ := Option.map_eq_some_iff.mp same.symm
          exact ⟨result', here⟩
        · rw [if_pos fits] at traced
          exact absurd traced raise_ne_ok
      obtain ⟨result, closed⟩ := closed
      have done : resolve s rec a = .ok a := by
        unfold resolve
        rw [closed, if_pos (.inl rfl)]
      rw [exits', done, traced]
      rfl
    | none =>
      rw [exits] at traced
      obtain ⟨atEntry, later⟩ := Option.or_eq_none_iff.mp exits
      have same := Except.ok.inj traced
      obtain ⟨entry', mine, rfl⟩ := Option.map_eq_some_iff.mp (congrArg Account.entry same).symm
      have result : a.result = none :=
        Option.map_eq_none_iff.mp (congrArg Account.result same).symm
      have resolution : a.resolution = none := (congrArg Account.resolution same).symm
      have state : a.state = .entered := (congrArg Account.state same).symm
      rw [resolve_early early abstains result resolution (by rw [state]; decide)]
      unfold scan
      rw [mine]
      dsimp only
      obtain ⟨before, split', -⟩ := findEntry_split whole
      have rest : remaining entry' (s.candles rec) = after ++ q := by
        have distinct := distinct_candles s rec
        rw [split'] at distinct ⊢
        exact remaining_eq distinct (newEntry_eq made).1
      rw [rest, atEntry, Option.none_or]
      refine follow_unstamped ⟨state, mine, result, resolution, since, generated_le split'⟩
        early.before fun exit mem => ?_
      obtain ⟨_, -, here⟩ := List.exists_of_findSome?_eq_some mem
      exact exitOn_onCandle here

/-- The next call sees more. -/
def Grows (rec : Recommendation) (s s' : Sight) : Prop :=
  s.candles rec <+: s'.candles rec ∧ s.now ≤ s'.now

/-- **Calls resume one pass**: the last of them leaves, or raises, what one pass over all it sees
does. -/
theorem calls_resume {sights : List Sight} {last : Sight} {p : List Candle}
    (early : ∀ s ∈ sights ++ [last], Early s rec)
    (grows : List.IsChain (Grows rec) (sights ++ [last]))
    (first : ∀ s ∈ (sights ++ [last]).head?, p <+: s.candles rec ∧ a.since ≤ s.now)
    (traced : trace rec p = .ok a.unstamped) :
    (resolve last rec (calls rec a sights)).map Account.unstamped =
      trace rec (last.candles rec) := by
  induction sights generalizing a p with
  | nil =>
    obtain ⟨more, since⟩ := first last rfl
    exact resolve_resumes (early last (by simp)) since traced more
  | cons s sights ih =>
    obtain ⟨more, since⟩ := first s rfl
    have here := resolve_resumes (early s (by simp)) since traced more
    have next : ∀ s' ∈ (sights ++ [last]).head?, Grows rec s s' := by
      intro s' head
      cases split : sights ++ [last] with
      | nil => simp at split
      | cons s'' rest =>
        rw [List.cons_append, split] at grows
        rw [split] at head
        obtain rfl := Option.some.inj head
        exact (List.isChain_cons_cons.mp grows).1
    have rest : calls rec a (s :: sights) = calls rec (call s rec a) sights := rfl
    have early' : ∀ s' ∈ sights ++ [last], Early s' rec :=
      fun s' mem => early s' (List.mem_cons_of_mem _ mem)
    cases resolved : resolve s rec a with
    | ok a' =>
      have left : call s rec a = a' := by
        unfold call
        rw [resolved]
      rw [resolved] at here
      rw [rest, left]
      refine ih early' grows.tail (fun s' head => ?_) here.symm
      obtain ⟨longer, later⟩ := next s' head
      exact ⟨longer, Int.le_trans (moves_since (resolve_moves resolved) since) later⟩
    | error e =>
      have left : call s rec a = a := by
        unfold call
        rw [resolved]
      rw [rest, left]
      refine ih early' grows.tail (fun s' head => ?_) traced
      obtain ⟨longer, later⟩ := next s' head
      exact ⟨more.trans longer, Int.le_trans since later⟩

/-! ## Adverse prices -/

/-- `risk_pips` of `create_cost_assessment` -/
def riskPips (rec : Recommendation) (entry : Entry) : ℚ :=
  Rounding.div 28 (Rounding.abs 28 (Rounding.sub 28 (price entry.fillPrice)
    (price rec.invalidationLevel))) Costs.pipSize

/-- What the prices of an account come to, among the candles of its last call. -/
structure Adverse (rec : Recommendation) (candles : List Candle) (a : Account) : Prop where
  fill : ∀ entry ∈ a.entry, (rec.action = .buy → rec.entryLevel ≤ entry.fillPrice) ∧
    (rec.action = .sell → entry.fillPrice ≤ rec.entryLevel)
  divides : ∀ entry ∈ a.entry, 0 < risk rec entry ∧ riskPips rec entry ≠ 0
  passed : ∀ entry ∈ a.entry, a.result = none → ∀ candle ∈ entry.candle :: remaining entry candles,
    (exitTouches rec candle).2 = false
  stops : ∀ result ∈ a.result, ∃ candle, result.exitCandle = some candle ∧
    ((exitTouches rec candle).2 = true → result.outcome = .invalidated)
  loses : ∀ result ∈ a.result, result.outcome = .invalidated →
    ∃ r, result.rMultiple = some r ∧ r ≤ -1

theorem riskPips_ne_zero (sound : Sound rec a) (here : entry ∈ a.entry) :
    riskPips rec entry ≠ 0 := by
  have apart : price entry.fillPrice - price rec.invalidationLevel ≠ 0 := by
    have positive := sound.risk_pos here
    unfold risk at positive
    have ne := abs_pos.mp positive
    unfold price
    rw [← sub_div]
    exact div_ne_zero (by exact_mod_cast ne) (by norm_num)
  have pip : Costs.pipSize ≠ 0 := by
    unfold Costs.pipSize
    norm_num
  unfold riskPips Rounding.div Rounding.abs Rounding.sub
  refine Rounding.fl_ne_zero (by decide) (div_ne_zero (Rounding.fl_ne_zero (by decide) ?_) pip)
  exact abs_ne_zero.mpr (Rounding.fl_ne_zero (by decide) apart)

theorem exitOn_none {candle : Candle} (h : exitOn rec candle = none) :
    (exitTouches rec candle).2 = false := by
  unfold exitOn at h
  dsimp only at h
  split_ifs at h with stop target
  exact Bool.not_eq_true _ ▸ stop

theorem exitOnEntry_none {candle : Candle} {atOpen : Bool}
    (h : exitOnEntry rec candle atOpen = none) : (exitTouches rec candle).2 = false := by
  unfold exitOnEntry at h
  dsimp only at h
  split_ifs at h with stop target
  exact Bool.not_eq_true _ ▸ stop

/-- The candles that one pass leaves without an exit do not touch the stop. -/
theorem trace_passed {candles : List Candle} (distinct : (candles.map Candle.id).Nodup)
    (traced : trace rec candles = .ok a.unstamped) (here : entry ∈ a.entry)
    (none_ : a.result = none) :
    ∀ candle ∈ entry.candle :: remaining entry candles, (exitTouches rec candle).2 = false := by
  have entered : a.unstamped.entry = some entry.unstamped := by
    show a.entry.map Entry.unstamped = _
    rw [Option.mem_def.mp here]
    rfl
  unfold trace at traced
  split_ifs at traced with abstains
  · rw [← Except.ok.inj traced] at entered
    cases entered
  cases found : findEntry rec candles with
  | none =>
    rw [found] at traced
    rw [← Except.ok.inj traced] at entered
    cases entered
  | some fill =>
    obtain ⟨candle, fill, after⟩ := fill
    rw [found] at traced
    obtain ⟨made, making, traced⟩ := bind_eq_ok.mp traced
    obtain ⟨before, rfl, -⟩ := findEntry_split found
    cases exits : (exitOnEntry rec candle fill.1).or (after.findSome? (exitOn rec)) with
    | some exit =>
      rw [exits] at traced
      unfold follow close at traced
      obtain ⟨result, -, traced⟩ := bind_eq_ok.mp traced
      by_cases fits : result.Fits
      · rw [if_neg (not_not.mpr fits)] at traced
        obtain ⟨_, -, traced⟩ := bind_eq_ok.mp traced
        have same := congrArg Account.result (Except.ok.inj traced)
        unfold Account.unstamped at same
        rw [none_] at same
        cases same
      · rw [if_pos fits] at traced
        exact absurd traced raise_ne_ok
    | none =>
      rw [exits] at traced
      obtain ⟨atEntry, later⟩ := Option.or_eq_none_iff.mp exits
      rw [← Except.ok.inj traced] at entered
      have candle_eq : entry.candle = candle := by
        have same : made = entry.unstamped := Option.some.inj entered
        have candle_eq : made.candle = entry.candle := by rw [same]; rfl
        exact candle_eq.symm.trans (newEntry_eq making).1
      rw [remaining_eq distinct candle_eq, candle_eq]
      intro other mem
      rcases List.mem_cons.mp mem with rfl | mem
      · exact exitOnEntry_none atEntry
      · exact exitOn_none (List.findSome?_eq_none_iff.mp later other mem)

/-- The exit of a traced result is on a candle. -/
theorem trace_closed {candles : List Candle} {result : Result}
    (traced : trace rec candles = .ok a.unstamped) (here : result ∈ a.result) :
    result.outcome = .invalidated ∨ result.outcome = .target := by
  have closed : a.unstamped.result = some result.unstamped := by
    show a.result.map Result.unstamped = _
    rw [Option.mem_def.mp here]
    rfl
  unfold trace at traced
  split_ifs at traced with abstains
  · rw [← Except.ok.inj traced] at closed
    cases closed
  cases found : findEntry rec candles with
  | none =>
    rw [found] at traced
    rw [← Except.ok.inj traced] at closed
    cases closed
  | some fill =>
    obtain ⟨candle, fill, after⟩ := fill
    rw [found] at traced
    obtain ⟨made, making, traced⟩ := bind_eq_ok.mp traced
    cases exits : (exitOnEntry rec candle fill.1).or (after.findSome? (exitOn rec)) with
    | none =>
      rw [exits] at traced
      rw [← Except.ok.inj traced] at closed
      cases closed
    | some exit =>
      have onCandle : exit.OnCandle := by
        rcases Option.or_eq_some_iff.mp exits with onEntry | ⟨-, later⟩
        · exact exitOnEntry_onCandle onEntry
        · obtain ⟨_, -, on⟩ := List.exists_of_findSome?_eq_some later
          exact exitOn_onCandle on
      rw [exits] at traced
      unfold follow close at traced
      obtain ⟨result', leaves, traced⟩ := bind_eq_ok.mp traced
      by_cases fits : result'.Fits
      · rw [if_neg (not_not.mpr fits)] at traced
        obtain ⟨_, -, traced⟩ := bind_eq_ok.mp traced
        rw [← Except.ok.inj traced] at closed
        have same : result' = result.unstamped := Option.some.inj closed
        have outcome : result'.outcome = result.outcome := by rw [same]; rfl
        rw [← outcome, (resultOf_eq leaves).1]
        exact onCandle
      · rw [if_pos fits] at traced
        exact absurd traced raise_ne_ok

theorem adverse_of_trace {candles : List Candle} (distinct : (candles.map Candle.id).Nodup)
    (sound : Sound rec a) (traced : trace rec candles = .ok a.unstamped) :
    Adverse rec candles a where
  fill entry here := by
    obtain ⟨-, filled⟩ := sound.entered entry here
    obtain ⟨bought, sold⟩ := fill_worse filled
    exact ⟨bought, fun sell => sold (by rw [sell]; decide)⟩
  divides entry here := ⟨sound.risk_pos here, riskPips_ne_zero sound here⟩
  passed entry here none_ := trace_passed distinct traced here none_
  stops result here := by
    obtain ⟨closing, -⟩ := sound.closed result here
    have onCandle := trace_closed traced here
    generalize a.entry = stored at closing
    cases closing with
    | notActivated result outcome exitPrice rMultiple =>
      rw [outcome] at onCandle
      rcases onCandle with h | h <;> cases h
    | exits entry exit result leaves made =>
      obtain ⟨outcome, -, -, exitCandle, -⟩ := resultOf_eq made
      refine ⟨exit.candle, exitCandle, fun touches => ?_⟩
      rcases onCandle with stop | target
      · exact stop
      · have safe := (exit_targets (outcome.symm.trans target) leaves).1
        rw [touches] at safe
        cases safe
  loses result here stops := sound.invalidated_le here stops

/-! ## Errors -/

/-- The class of the error of a division by zero. -/
def DividesByZero (e : Exc) : Prop := e.cls = .other "DivisionByZero"

theorem raised_safe {α : Type} {text : String} {e : Exc}
    (h : (raise .validationError text : Except Exc α) = .error e) : ¬ DividesByZero e := by
  cases h
  intro zero
  cases zero

theorem divided_safe {x y : ℚ} {e : Exc} (ne : y ≠ 0) : divided x y ≠ .error e := by
  unfold divided
  rw [if_neg ne]
  intro h
  cases h

theorem quantized_safe {n : ℤ} {x : ℚ} {e : Exc} (h : quantized n x = .error e) :
    ¬ DividesByZero e := by
  unfold quantized at h
  split_ifs at h
  cases h
  intro zero
  cases zero

theorem scenarioCosts_safe {fill pips : ℚ} {gross : Option ℚ} {terms : Costs.CostScenario} {n : ℤ}
    {e : Exc} (ne : pips ≠ 0) (h : Costs.scenarioCosts fill pips gross terms n = .error e) :
    ¬ DividesByZero e := by
  unfold Costs.scenarioCosts at h
  rcases bind_eq_error.mp h with missing | ⟨_, -, h⟩
  · cases gross with
    | none =>
      cases missing
      intro zero
      cases zero
    | some gross => cases missing
  rcases bind_eq_error.mp h with net | ⟨_, -, h⟩
  · exact quantized_safe net
  rcases bind_eq_error.mp h with ratio | ⟨_, -, h⟩
  · exact absurd ratio (divided_safe ne)
  rcases bind_eq_error.mp h with rounds | ⟨_, -, h⟩
  · exact quantized_safe rounds
  rcases bind_eq_error.mp h with rounds | ⟨_, -, h⟩
  · exact quantized_safe rounds
  rcases bind_eq_error.mp h with rounds | ⟨_, -, h⟩
  · exact quantized_safe rounds
  · cases h

theorem financingDayRange_safe {result : Result} {e : Exc}
    (h : Costs.financingDayRange entry.costed (result.costed rec entry) = .error e) :
    ¬ DividesByZero e := by
  have missing : ∀ {α : Type} {value : Option α} {e : Exc},
      Costs.present .attributeError value = .error e → ¬ DividesByZero e := by
    intro α value e h
    cases value with
    | none =>
      cases h
      intro zero
      cases zero
    | some _ => cases h
  unfold Costs.financingDayRange at h
  rcases bind_eq_error.mp h with hours | ⟨_, -, h⟩
  · unfold Costs.entryHour at hours
    rcases bind_eq_error.mp hours with got | ⟨_, -, hours⟩
    · cases got
    · cases hours
  rcases bind_eq_error.mp h with hours | ⟨_, -, h⟩
  · unfold Costs.exitHour at hours
    split_ifs at hours
    all_goals
      rcases bind_eq_error.mp hours with candle | ⟨_, -, hours⟩
      · exact missing candle
      · cases hours
  · cases h

theorem costs_safe {result : Result} {e : Exc} (ne : riskPips rec entry ≠ 0)
    (h : Costs.createCostAssessment (result.costed rec entry) = .error e) : ¬ DividesByZero e := by
  have unfolded : Costs.createCostAssessment (result.costed rec entry) =
      if (result.costed rec entry).outcome = .notActivated then .ok none
      else do
        let assessment ← Costs.assessmentValues entry.costed (result.costed rec entry)
        assessment.fullClean
        return some assessment := rfl
  rw [unfolded] at h
  split_ifs at h
  rcases bind_eq_error.mp h with values | ⟨assessment, -, h⟩
  · unfold Costs.assessmentValues at values
    rcases bind_eq_error.mp values with days | ⟨_, -, values⟩
    · exact financingDayRange_safe days
    rcases bind_eq_error.mp values with level | ⟨level, present, values⟩
    · cases level
    cases present
    rcases bind_eq_error.mp values with costs | ⟨_, -, values⟩
    · exact scenarioCosts_safe ne costs
    rcases bind_eq_error.mp values with costs | ⟨_, -, values⟩
    · exact scenarioCosts_safe ne costs
    rcases bind_eq_error.mp values with costs | ⟨_, -, values⟩
    · exact scenarioCosts_safe ne costs
    · cases values
  rcases bind_eq_error.mp h with cleans | ⟨_, -, h⟩
  · unfold Costs.CostAssessment.fullClean at cleans
    split_ifs at cleans
    all_goals exact raised_safe cleans
  · cases h

theorem advance_safe {state : LifecycleState} {e : Exc} (h : advance s rec a state = .error e) :
    ¬ DividesByZero e := by
  unfold advance at h
  split_ifs at h
  exact raised_safe h

theorem newEntry_safe {now : Instant} {candle : Candle} {fill : Bool × ℤ} {e : Exc}
    (h : newEntry rec now candle fill = .error e) : ¬ DividesByZero e := by
  unfold newEntry at h
  dsimp only at h
  split_ifs at h
  all_goals first
    | exact raised_safe h
    | (cases h
       intro zero
       cases zero)

theorem recordCoverage_safe {state : LifecycleState} {reasonCode : String} {names : Bool} {e : Exc}
    (h : recordCoverage s rec a state reasonCode names = .error e) : ¬ DividesByZero e := by
  unfold recordCoverage at h
  rcases bind_eq_error.mp h with invalid | ⟨_, -, h⟩
  · unfold validateCoverageFact at invalid
    dsimp only at invalid
    split_ifs at invalid
    all_goals exact raised_safe invalid
  · exact advance_safe h

theorem storeResult_safe {result : Result} {e : Exc} (h : storeResult s rec a result = .error e) :
    ¬ DividesByZero e := by
  unfold storeResult at h
  by_cases fits : result.Fits
  · rw [if_neg (not_not.mpr fits)] at h
    by_cases expires : result.outcome = .expired ∨ result.outcome = .notActivated
    · rw [if_pos expires] at h
      rcases bind_eq_error.mp h with invalid | ⟨_, -, h⟩
      · unfold validateExpiryResult at invalid
        dsimp only at invalid
        split_ifs at invalid
        all_goals exact raised_safe invalid
      · exact advance_safe h
    · rw [if_neg expires] at h
      exact advance_safe h
  · rw [if_pos fits] at h
    exact raised_safe h

/-- The divisors of an entry. -/
def Divides (rec : Recommendation) (entry : Entry) : Prop :=
  0 < risk rec entry ∧ riskPips rec entry ≠ 0

theorem createResult_safe {e : Exc} (divides : Divides rec entry)
    (h : createResult s rec a entry exit = .error e) : ¬ DividesByZero e := by
  have pip : Costs.pipSize ≠ 0 := by
    unfold Costs.pipSize
    norm_num
  have positive : price (risk rec entry) ≠ 0 := by
    unfold price
    exact div_ne_zero (by exact_mod_cast divides.1.ne') (by norm_num)
  unfold createResult at h
  rcases bind_eq_error.mp h with makes | ⟨_, -, h⟩
  · unfold resultOf at makes
    rcases bind_eq_error.mp makes with pips | ⟨_, -, makes⟩
    · exact absurd pips (divided_safe pip)
    rcases bind_eq_error.mp makes with rounds | ⟨_, -, makes⟩
    · exact quantized_safe rounds
    rcases bind_eq_error.mp makes with ratio | ⟨_, -, makes⟩
    · exact absurd ratio (divided_safe positive)
    rcases bind_eq_error.mp makes with rounds | ⟨_, -, makes⟩
    · exact quantized_safe rounds
    · cases makes
  rcases bind_eq_error.mp h with stores | ⟨_, -, h⟩
  · exact storeResult_safe stores
  rcases bind_eq_error.mp h with costs | ⟨_, -, h⟩
  · exact costs_safe divides.2 costs
  · cases h

theorem settle_safe {shared : Option TargetResolution} {candles : List Candle} {e : Exc}
    (divides : ∀ entry ∈ a.entry, Divides rec entry)
    (h : settle s rec a shared candles = .error e) : ¬ DividesByZero e := by
  unfold settle at h
  by_cases missing : shared.any TargetResolution.missing = true
  · rw [if_pos missing] at h
    exact recordCoverage_safe h
  rw [if_neg missing] at h
  cases covers : s.horizon.filter fun _ => s.hasCoverage rec rec.expiresAt candles with
  | none =>
    rw [covers] at h
    rcases bind_eq_error.mp h with lapses | ⟨_, -, h⟩
    · unfold lapse at lapses
      split_ifs at lapses
      exact recordCoverage_safe lapses
    · by_cases expired : rec.expiresAt ≤ s.now
      · rw [if_pos expired] at h
        exact recordCoverage_safe h
      · rw [if_neg expired] at h
        cases h
  | some horizon =>
    rw [covers] at h
    cases here : a.entry with
    | none =>
      rw [here] at h
      exact storeResult_safe h
    | some entry =>
      rw [here] at h
      exact createResult_safe (divides entry here) h

theorem leave_safe {shared : Option TargetResolution} {candles : List Candle}
    {exit : Option Exit} {e : Exc} (here : a.entry = some entry) (divides : Divides rec entry)
    (h : leave s rec a shared entry exit candles = .error e) : ¬ DividesByZero e := by
  cases exit with
  | some exit => exact createResult_safe divides h
  | none =>
    refine settle_safe (fun other mem => ?_) h
    rw [here] at mem
    obtain rfl := Option.some.inj mem
    exact divides

theorem Sound.divides (sound : Sound rec a) (here : entry ∈ a.entry) : Divides rec entry :=
  ⟨sound.risk_pos here, riskPips_ne_zero sound here⟩

/-- **No call divides by zero.** -/
theorem resolve_safe {e : Exc} (sound : Sound rec a) (h : resolve s rec a = .error e) :
    ¬ DividesByZero e := by
  unfold resolve at h
  by_cases guard : a.result.isSome ∨ rec.action = .abstain ∨ s.admitted = false ∨
      a.state ∉ [LifecycleState.admittedAwaitingEntry, .entered]
  · rw [if_pos guard] at h
    cases h
  rw [if_neg guard] at h
  push Not at guard
  obtain ⟨unresolved, directional, -, live⟩ := guard
  have none_ : a.result = none := Option.not_isSome_iff_eq_none.mp (by simpa using unresolved)
  obtain ⟨moved, live', none_'⟩ := @resolveTarget_moves s rec a live none_
  have sound' := (moves_keep moved sound).1
  clear moved
  generalize resolveTarget s rec a = target at h sound' live' none_'
  obtain ⟨shared, found⟩ := target
  dsimp only at h sound' live' none_'
  by_cases uncovered : (s.candles rec).getLast?.any (fun last =>
      decide (s.hasCoverage rec (last.timestamp + hour) (s.candles rec) = false)) = true
  · rw [if_pos uncovered] at h
    by_cases expired : rec.expiresAt ≤ s.now
    · rw [if_pos expired] at h
      exact recordCoverage_safe h
    · rw [if_neg expired] at h
      cases h
  rw [if_neg uncovered] at h
  unfold scan at h
  cases here : found.entry with
  | some entry =>
    rw [here] at h
    exact leave_safe here (sound'.divides here) h
  | none =>
    rw [here] at h
    dsimp only at h
    cases fills : findEntry rec (s.candles rec) with
    | none =>
      rw [fills] at h
      exact settle_safe (fun _ mem => sound'.divides mem) h
    | some fill =>
      obtain ⟨candle, fill, after⟩ := fill
      obtain ⟨-, -, filled⟩ := findEntry_split fills
      rw [fills] at h
      rcases bind_eq_error.mp h with makes | ⟨entry, made, h⟩
      · exact newEntry_safe makes
      rcases bind_eq_error.mp h with advances | ⟨entered, advanced, h⟩
      · exact advance_safe advances
      have move : Move s rec found entered :=
        .enters entry candle fill directional live' none_' here filled made advanced
      have stored : entered.entry = some entry := by
        rcases advance_cases advanced with ⟨-, rfl⟩ | ⟨-, -, -, rfl⟩ <;> rfl
      exact leave_safe stored ((move.sound sound').divides stored) h

end

/-! ## Two hours -/

/-- A buy at 1.000000, generated on a Monday, with a target a hundred and ninety-nine away. -/
def buyAtOne (invalidationLevel : ℤ) (below : invalidationLevel < 1000000) : Recommendation where
  instrument := "EUR_USD"
  generatedAt := 19730 * day + 22 * hour + 1
  action := .buy
  entryCondition := .atOrBelow
  entryLevel := 1000000
  targetLevel := 200000000
  invalidationLevel := invalidationLevel
  target := { reference := 19729 * day + 22 * hour, aligned := by decide }
  ordered := ⟨below, by decide⟩
  known := by decide

/-- An hour without a spread. -/
def hourOf (id : ℕ) (timestamp : Instant) (low high : ℤ) : Candle where
  id := id
  timestamp := timestamp
  complete := true
  runStatus := .succeeded
  finishedAt := some (timestamp + hour)
  bidOpen := low
  bidHigh := high
  bidLow := low
  bidClose := high
  askOpen := low
  askHigh := high
  askLow := low
  askClose := high

/-- The hour of the entry and that of the target. -/
def twoHours : List Candle :=
  [hourOf 1 (19730 * day + 23 * hour) 1000000 1000001, hourOf 2 (19731 * day) 1000000 200000000]

/-- A call that finds the first of them, or both. -/
def seenAt (now : Instant) (n : ℕ) : Sight where
  now := now
  admitted := true
  runs := [{
    instrument := "EUR_USD"
    granularity := "H1"
    status := .succeeded
    requestedFrom := 19730 * day
    requestedTo := 19731 * day + hour
    finishedAt := some (19731 * day) }]
  hourly := twoHours.take n
  daily := none
  distinct := ((List.take_sublist n twoHours).map _).nodup (by decide)

def firstHour : Sight := seenAt (19731 * day + 1) 1

def bothHours : Sight := seenAt (19731 * day + hour + 1) 2

-- evaluated once: apart, each of these waits for the others
theorem hours_evaluated :
    firstHour.now < (buyAtOne 0 (by decide)).expiresAt ∧
    (∀ last ∈ (firstHour.candles (buyAtOne 0 (by decide))).getLast?,
      firstHour.hasCoverage (buyAtOne 0 (by decide)) (last.timestamp + hour)
        (firstHour.candles (buyAtOne 0 (by decide))) = true) ∧
    bothHours.now < (buyAtOne 0 (by decide)).expiresAt ∧
    (∀ last ∈ (bothHours.candles (buyAtOne 0 (by decide))).getLast?,
      bothHours.hasCoverage (buyAtOne 0 (by decide)) (last.timestamp + hour)
        (bothHours.candles (buyAtOne 0 (by decide))) = true) ∧
    firstHour.candles (buyAtOne 0 (by decide)) <+: bothHours.candles (buyAtOne 0 (by decide)) := by
  decide +kernel

theorem firstHour_early (level : ℤ) (below : level < 1000000) :
    Early firstHour (buyAtOne level below) :=
  ⟨rfl, hours_evaluated.1, hours_evaluated.2.1⟩

theorem bothHours_early (level : ℤ) (below : level < 1000000) :
    Early bothHours (buyAtOne level below) :=
  ⟨rfl, hours_evaluated.2.2.1, hours_evaluated.2.2.2.1⟩

theorem hours_grow (level : ℤ) (below : level < 1000000) :
    List.IsChain (Grows (buyAtOne level below)) [firstHour, bothHours] :=
  .cons_cons ⟨hours_evaluated.2.2.2.2, by decide⟩ (.singleton _)

end TradeRecommender.Forecasts.Paper
