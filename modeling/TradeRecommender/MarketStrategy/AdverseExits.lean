import TradeRecommender.MarketStrategy.Simulation

/-!
# Adverse exits

What an executed simulation says of its exit, over valid bars.

1. the exit of one bar;
2. settlements and turns that execute;
3. the walk: the first bar that ends the position, and bars behind it;
4. the simulation.
-/

namespace TradeRecommender.MarketStrategy

open Py Civil Market MarketState

/-- A bar whose edges hold its prices. -/
structure ValidOhlc (bar : Bar) : Prop where
  low_open : bar.low ≤ bar.open_
  low_close : bar.low ≤ bar.close
  open_high : bar.open_ ≤ bar.high
  close_high : bar.close ≤ bar.high

/-! ## What ends a position -/

namespace SetupCandidate

variable (s : SetupCandidate) (bar : Bar)

/-- A bar reaches the stop. -/
def TouchesStop : Prop := s.direction * ((if s.direction = 1 then bar.low else bar.high) - s.stop) ≤ 0

/-- A bar reaches the target. -/
def TouchesTarget : Prop :=
  0 ≤ s.direction * ((if s.direction = 1 then bar.high else bar.low) - s.target)

/-- A bar ends at the time limit or behind it. -/
def ReachesLimit : Prop := ∃ finish, bar.finish = some finish ∧ s.exitAt ≤ finish

/-- A bar ends the position. -/
def Ends : Prop := s.TouchesStop bar ∨ s.TouchesTarget bar ∨ s.ReachesLimit bar

end SetupCandidate

/-- What holds of the price and the reason of an exit at a bar. -/
structure ExitsAt (s : SetupCandidate) (bar : Bar) (price : ℚ) (reason : String) : Prop where
  ends : s.Ends bar
  stopWins : s.TouchesStop bar → reason = "stop_gap" ∨ reason = "stop_adverse_path"
  gap : reason = "stop_gap" → price = bar.open_ ∧ s.direction * (price - s.stop) ≤ 0
  path : reason = "stop_adverse_path" → price = s.stop
  capped : s.direction * (price - s.target) ≤ 0

namespace Scenario

variable {x : Scenario} {bar : Bar} {finish : Instant}

/-- An open beyond the stop is a touch. -/
theorem touchesStop_of_gap (valid : ValidOhlc bar)
    (gap : x.setup.direction * (bar.open_ - x.setup.stop) ≤ 0) : x.setup.TouchesStop bar := by
  unfold SetupCandidate.TouchesStop
  have low := valid.low_open
  have high := valid.open_high
  rcases x.setup.directed.1 with down | up
  · rw [down] at gap ⊢
    rw [if_neg (by decide)]
    push_cast at gap ⊢
    linarith
  · rw [up] at gap ⊢
    rw [if_pos rfl]
    push_cast at gap ⊢
    linarith

/-- A bar short of the target closes short of it. -/
theorem close_capped (valid : ValidOhlc bar)
    (short : ¬ x.setup.TouchesTarget bar) :
    x.setup.direction * (bar.close - x.setup.target) ≤ 0 := by
  unfold SetupCandidate.TouchesTarget at short
  have low := valid.low_close
  have high := valid.close_high
  have short := (not_le.mp short).le
  rcases x.setup.directed.1 with down | up
  · rw [down] at short ⊢
    rw [if_neg (by decide)] at short
    push_cast at short ⊢
    linarith
  · rw [up] at short ⊢
    rw [if_pos rfl] at short
    push_cast at short ⊢
    linarith

/-- The exit of a bar that ends the position. -/
theorem exitOf_eq_some (valid : ValidOhlc bar) (finished : bar.finish = some finish) {price : ℚ}
    {reason : String} (h : x.exitOf bar finish = some (price, reason)) :
    ExitsAt x.setup bar price reason := by
  have unit := x.setup.directed.1
  have behind := x.setup.stop_behind
  have capped_of_stop {p : ℚ} (h : x.setup.direction * (p - x.setup.stop) ≤ 0) :
      x.setup.direction * (p - x.setup.target) ≤ 0 := by
    have sum : x.setup.direction * (p - x.setup.target) =
        x.setup.direction * (p - x.setup.stop) +
          x.setup.direction * (x.setup.stop - x.setup.target) := by ring
    linarith
  unfold exitOf at h
  split_ifs at h with gap path target limit
  · cases h
    have gap := (ahead_nonpos unit).mp gap
    refine ⟨.inl (touchesStop_of_gap valid gap), fun _ => .inl rfl, fun _ => ⟨rfl, gap⟩, ?_,
      capped_of_stop gap⟩
    exact fun h => absurd h (by decide)
  · cases h
    have touched : x.setup.TouchesStop bar := (ahead_nonpos unit).mp path
    refine ⟨.inl touched, fun _ => .inr rfl, ?_, fun _ => rfl, behind.le⟩
    exact fun h => absurd h (by decide)
  · cases h
    have touched : x.setup.TouchesTarget bar := (ahead_nonneg unit).mp target
    refine ⟨.inr (.inl touched), fun stop => absurd ((ahead_nonpos unit).mpr stop) path, ?_, ?_, ?_⟩
    · exact fun h => absurd h (by decide)
    · exact fun h => absurd h (by decide)
    · rw [sub_self, mul_zero]
  · cases h
    have short : ¬ x.setup.TouchesTarget bar := fun touched =>
      target ((ahead_nonneg unit).mpr touched)
    refine ⟨.inr (.inr ⟨finish, finished, limit⟩), fun stop =>
      absurd ((ahead_nonpos unit).mpr stop) path, ?_, ?_, close_capped valid short⟩
    · exact fun h => absurd h (by decide)
    · exact fun h => absurd h (by decide)

/-- A bar without an exit does not end the position. -/
theorem exitOf_eq_none (finished : bar.finish = some finish) (h : x.exitOf bar finish = none) :
    ¬ x.setup.Ends bar := by
  have unit := x.setup.directed.1
  unfold exitOf at h
  split_ifs at h with gap path target limit
  rintro (stop | touched | ⟨other, same, late⟩)
  · exact path ((ahead_nonpos unit).mpr stop)
  · exact target ((ahead_nonneg unit).mpr touched)
  · rw [finished] at same
    cases same
    exact limit late

/-! ## Settlements -/

/-- What an executed result takes from its exit. -/
structure Settled (x : Scenario) (e : Exit) (r : ExecutionResult) : Prop where
  enteredAt : r.enteredAt = e.enteredAt
  exitedAt : r.exitedAt = e.exitedAt
  exit : r.exit = x.backward e.price x.entryCost
  gross : r.grossQuote = ahead x.setup.direction e.price e.entry
  reason : r.reason = e.reason

theorem settle_eq_ok {e : Exit} {r : ExecutionResult} (h : x.settle e = .ok (.executed r)) :
    Settled x e r := by
  unfold settle at h
  split at h
  case h_1 => cases h
  case h_2 t _ =>
    by_cases converted : t.accountCurrency = t.quoteCurrency ∧ t.conversionRate ≠ 1
    · rw [if_pos converted] at h
      cases h
    rw [if_neg converted] at h
    by_cases missing : ¬ (t.rollovers.map Prod.fst).Nodup ∨
        ¬ ∀ at_ ∈ requiredRollovers e.enteredAt e.exitedAt, at_ ∈ t.rollovers.map Prod.fst
    · rw [if_pos missing] at h
      cases h
    rw [if_neg missing] at h
    obtain ⟨intent, -, h⟩ := bind_eq_ok.mp h
    cases h
    exact ⟨rfl, rfl, rfl, rfl, rfl⟩

/-- What an executed result says of the bar its position ended at. -/
structure Ended (x : Scenario) (enteredAt : Instant) (entry : ℚ) (bar : Bar) (r : ExecutionResult) :
    Prop where
  enteredAt : r.enteredAt = enteredAt
  finished : bar.finish = some r.exitedAt
  priced : ∃ price, ExitsAt x.setup bar price r.reason ∧
    r.exit = x.backward price x.entryCost ∧
    r.grossQuote = ahead x.setup.direction price entry

/-- A turn of an open position either ends it at its bar or goes on from a bar that does not. -/
theorem hold_eq_ok {w : Walk} {enteredAt : Instant} {result : Turn} (valid : ValidOhlc bar)
    (finished : bar.finish = some finish) (h : x.hold w enteredAt bar finish = .ok result) :
    (∀ r, result = .done (.executed r) → Ended x enteredAt w.entry bar r) ∧
      (∀ w', result = .next w' → ¬ x.setup.Ends bar ∧ w'.entry = w.entry ∧
        w'.enteredAt = w.enteredAt) := by
  unfold hold at h
  split at h
  case h_1 none_ =>
    cases h
    refine ⟨fun r h => (by cases h), fun w' h => ?_⟩
    cases h
    exact ⟨exitOf_eq_none finished none_, rfl, rfl⟩
  case h_2 price reason some_ =>
    obtain ⟨settled, found, h⟩ := bind_eq_ok.mp h
    cases h
    refine ⟨fun r h => ?_, fun w' h => (by cases h)⟩
    cases h
    obtain ⟨entered, exited, exit_, gross, same⟩ := settle_eq_ok found
    exact ⟨entered, finished.trans (congrArg some exited.symm), price,
      same ▸ exitOf_eq_some valid finished some_, exit_, gross⟩

/-- A turn reads the bar's end. -/
theorem turn_eq_ok {w : Walk} {result : Turn} (h : x.turn w bar = .ok result)
    (open_ : ∀ strategy reason, result ≠ .done (.unavailable strategy reason)) :
    ∃ finish, bar.finish = some finish ∧
      x.advance { w with consumed := w.consumed ++ [bar.contentSha256] } bar finish = .ok result := by
  unfold turn at h
  split_ifs at h
  · cases h
    exact absurd rfl (open_ _ _)
  · split at h
    case h_1 =>
      cases h
      exact absurd rfl (open_ _ _)
    case h_2 finish found =>
      obtain ⟨readiness, -, h⟩ := bind_eq_ok.mp h
      split_ifs at h
      · cases h
        exact absurd rfl (open_ _ _)
      · exact ⟨finish, (Option.filter_eq_some_iff.mp found).1, h⟩

theorem advance_open {w : Walk} {enteredAt : Instant} (opened : w.enteredAt = some enteredAt) :
    x.advance w bar finish = x.hold w enteredAt bar finish := by
  unfold advance
  split
  case h_1 other same =>
    rw [opened] at same
    cases same
    rfl
  case h_2 none_ =>
    rw [opened] at none_
    cases none_

/-- The turn of an order not yet filled either fills it at its bar or waits. -/
theorem advance_waiting {w : Walk} {result : Turn} (pending : w.enteredAt = none)
    (h : x.advance w bar finish = .ok result)
    (open_ : ∀ strategy reason, result ≠ .done (.unavailable strategy reason)) :
    x.hold (x.fillAt w bar) bar.timestamp bar finish = .ok result ∨
      ∃ expected, result = .next { w with expected := expected } := by
  unfold advance at h
  split at h
  case h_1 opened =>
    rw [pending] at opened
    cases opened
  case h_2 =>
    split at h
    case h_1 =>
      cases h
      exact absurd rfl (open_ _ _)
    case h_2 expected _ =>
      cases h
      exact .inr ⟨expected, rfl⟩
    case h_3 => exact .inl h

/-! ## Walks -/

/-- A walk that executes does so at its first bar or behind a turn that goes on. -/
theorem walk_cons {w : Walk} {bars : List Bar} {r : ExecutionResult}
    (h : x.walk w (bar :: bars) = .ok (.executed r)) :
    ∃ result, x.turn w bar = .ok result ∧ (result = .done (.executed r) ∨
      ∃ w', result = .next w' ∧ x.walk w' bars = .ok (.executed r)) := by
  unfold walk at h
  obtain ⟨result, turned, h⟩ := bind_eq_ok.mp h
  refine ⟨result, turned, ?_⟩
  cases result with
  | done result =>
    cases h
    exact .inl rfl
  | next w' => exact .inr ⟨w', rfl, h⟩

/-- Bars behind those of a walk that executes do not change it. -/
theorem walk_append {bars : List Bar} (more : List Bar) {r : ExecutionResult} :
    ∀ {w : Walk}, x.walk w bars = .ok (.executed r) →
      x.walk w (bars ++ more) = .ok (.executed r) := by
  induction bars with
  | nil =>
    intro w h
    cases h
  | cons bar bars ih =>
    intro w h
    obtain ⟨result, turned, rfl | ⟨w', rfl, h⟩⟩ := walk_cons h
    · rw [List.cons_append, walk, turned]
      rfl
    · rw [List.cons_append, walk, turned]
      exact ih h

/-- What an executed result says of the bars from its entry on: `bar` is the first to end it. -/
structure Position (x : Scenario) (bars : List Bar) (enteredAt : Instant) (entry : ℚ)
    (r : ExecutionResult) : Prop where
  split : ∃ path bar post, bars = path ++ bar :: post ∧ (∀ b ∈ path, ¬ x.setup.Ends b) ∧
    Ended x enteredAt entry bar r

theorem Position.cons {bars : List Bar} {enteredAt : Instant} {entry : ℚ} {r : ExecutionResult}
    (stays : ¬ x.setup.Ends bar) (h : Position x bars enteredAt entry r) :
    Position x (bar :: bars) enteredAt entry r := by
  obtain ⟨path, last, post, rfl, none_, ended⟩ := h.split
  refine ⟨bar :: path, last, post, rfl, fun b mem => ?_, ended⟩
  rcases List.mem_cons.mp mem with rfl | mem
  · exact stays
  · exact none_ b mem

/-- An open position whose walk executes. -/
theorem walk_open {bars : List Bar} {enteredAt : Instant} {entry : ℚ} {r : ExecutionResult} :
    ∀ {w : Walk}, w.enteredAt = some enteredAt → w.entry = entry → (∀ b ∈ bars, ValidOhlc b) →
      x.walk w bars = .ok (.executed r) → Position x bars enteredAt entry r := by
  induction bars with
  | nil =>
    intro w _ _ _ h
    cases h
  | cons bar bars ih =>
    intro w opened same valid h
    obtain ⟨result, turned, cases_⟩ := walk_cons h
    have runs : ∀ strategy reason, result ≠ .done (.unavailable strategy reason) := by
      rcases cases_ with rfl | ⟨w', rfl, -⟩ <;> exact fun _ _ h => (by cases h)
    obtain ⟨finish, finished, advanced⟩ := turn_eq_ok turned runs
    rw [advance_open (by exact opened)] at advanced
    obtain ⟨done, next⟩ := hold_eq_ok (valid bar List.mem_cons_self) finished advanced
    rcases cases_ with executed | ⟨w', going, h⟩
    · exact ⟨[], bar, bars, rfl, fun b mem => absurd mem List.not_mem_nil,
        same ▸ done r executed⟩
    · obtain ⟨stays, entry', opened'⟩ := next w' going
      exact .cons stays (ih (opened'.trans opened) (entry'.trans same)
        (fun b mem => valid b (List.mem_cons_of_mem _ mem)) h)

/-- The raw entry of a limit order: its level less the half of the spread it pays. -/
def limitEntry (x : Scenario) : ℚ :=
  Rounding.sub prec x.setup.reference
    (Rounding.div prec (Rounding.mul prec x.setup.direction x.figures.spread) 2)

/-- An order whose walk executes is filled at the first bar of a position. -/
theorem walk_waiting {bars : List Bar} {r : ExecutionResult} :
    ∀ {w : Walk}, w.enteredAt = none → (∀ b ∈ bars, ValidOhlc b) →
      x.walk w bars = .ok (.executed r) → ∃ skipped first rest, bars = skipped ++ first :: rest ∧
        Position x (first :: rest) first.timestamp x.limitEntry r := by
  induction bars with
  | nil =>
    intro w _ _ h
    cases h
  | cons bar bars ih =>
    intro w pending valid h
    obtain ⟨result, turned, cases_⟩ := walk_cons h
    have runs : ∀ strategy reason, result ≠ .done (.unavailable strategy reason) := by
      rcases cases_ with rfl | ⟨w', rfl, -⟩ <;> exact fun _ _ h => (by cases h)
    have later : ∀ b ∈ bars, ValidOhlc b := fun b mem => valid b (List.mem_cons_of_mem _ mem)
    obtain ⟨finish, finished, advanced⟩ := turn_eq_ok turned runs
    rcases advance_waiting (by exact pending) advanced runs with filled | ⟨expected, waits⟩
    · obtain ⟨done, next⟩ := hold_eq_ok (valid bar List.mem_cons_self) finished filled
      refine ⟨[], bar, bars, rfl, ?_⟩
      rcases cases_ with executed | ⟨w', going, h⟩
      · exact ⟨[], bar, bars, rfl, fun b mem => absurd mem List.not_mem_nil, done r executed⟩
      · obtain ⟨stays, entry', opened'⟩ := next w' going
        exact .cons stays (walk_open opened' entry' later h)
    · subst waits
      rcases cases_ with executed | ⟨w', going, h⟩
      · cases executed
      · cases going
        obtain ⟨skipped, first, rest, rfl, position⟩ := ih (by exact pending) later h
        exact ⟨bar :: skipped, first, rest, rfl, position⟩

/-! ## The simulation -/

/-- The price of a position before costs. -/
def rawEntry (x : Scenario) (first : Bar) : ℚ := if x.limit then x.limitEntry else first.open_

/-- What an executed simulation says of its bars: a position opened at `first`, ended at the first
bar from there on that reaches stop, target or time limit, and priced against it. -/
structure AdverseExit (x : Scenario) (bars : List Bar) (r : ExecutionResult) : Prop where
  split : ∃ skipped path bar post first, x.selected bars = skipped ++ path ++ bar :: post ∧
    (path ++ [bar]).head? = some first ∧ r.enteredAt = first.timestamp ∧
    bar.finish = some r.exitedAt ∧ (∀ b ∈ path, ¬ x.setup.Ends b) ∧
    ∃ price, ExitsAt x.setup bar price r.reason ∧
      r.exit = x.backward price x.entryCost ∧
      r.grossQuote = ahead x.setup.direction price (x.rawEntry first) ∧
      r.grossQuote ≤ ahead x.setup.direction x.setup.target (x.rawEntry first)

/-- A position opened at its first bar is an adverse exit. -/
theorem Position.adverseExit {bars skipped rest : List Bar} {first : Bar} {r : ExecutionResult}
    (selected : x.selected bars = skipped ++ first :: rest)
    (h : Position x (first :: rest) first.timestamp (x.rawEntry first) r) :
    AdverseExit x bars r := by
  obtain ⟨path, last, post, same, stays, entered, finished, price, exits, exit_, gross⟩ := h.split
  have head : (path ++ [last]).head? = some first := by
    cases path with
    | nil =>
      cases same
      rfl
    | cons b path =>
      cases same
      rfl
  refine ⟨skipped, path, last, post, first, ?_, head, entered, finished, stays, price, exits, exit_,
    gross, ?_⟩
  · rw [selected, same, List.append_assoc]
  · rw [gross]
    refine ahead_le_ahead x.setup.directed.1 ?_
    have sum : x.setup.direction * (price - x.rawEntry first) =
        x.setup.direction * (price - x.setup.target) +
          x.setup.direction * (x.setup.target - x.rawEntry first) := by ring
    have capped := exits.capped
    linarith

/-- The walk behind an executed simulation. -/
theorem enter_eq_ok {bars : List Bar} {r : ExecutionResult}
    (h : x.enter bars = .ok (.executed r)) :
    ∃ first rest, bars = first :: rest ∧ first.timestamp = x.setup.entryAt ∧
      ¬ (x.limit = false ∧ x.outside (x.against first.open_ x.entryCost) = true) ∧
      x.walk (x.placed first) (first :: rest) = .ok (.executed r) := by
  unfold enter at h
  split at h
  case h_1 => cases h
  case h_2 first rest =>
    by_cases start : first.timestamp = x.setup.entryAt
    · rw [if_neg (not_not.mpr start)] at h
      by_cases gap : x.limit = false ∧ x.outside (x.against first.open_ x.entryCost) = true
      · rw [if_pos gap] at h
        cases h
      · rw [if_neg gap] at h
        exact ⟨first, rest, rfl, start, gap, h⟩
    · rw [if_pos start] at h
      cases h

theorem adverse_of_enter {bars : List Bar} {r : ExecutionResult} (valid : ∀ b ∈ bars, ValidOhlc b)
    (h : x.enter (x.selected bars) = .ok (.executed r)) : AdverseExit x bars r := by
  obtain ⟨first, rest, same, start, -, walked⟩ := enter_eq_ok h
  have valid : ∀ b ∈ first :: rest, ValidOhlc b := fun b mem =>
    valid b (List.mem_of_mem_filter (same ▸ mem))
  by_cases limit : x.limit = true
  · have pending : (x.placed first).enteredAt = none := if_pos limit
    obtain ⟨skipped, filled, later, split, position⟩ := walk_waiting pending valid walked
    refine Position.adverseExit (same.trans split) ?_
    rwa [rawEntry, if_pos limit]
  · have opened : (x.placed first).enteredAt = some x.setup.entryAt := if_neg limit
    have split : x.selected bars = [] ++ first :: rest := same
    refine Position.adverseExit split ?_
    rw [start, rawEntry, if_neg limit]
    exact walk_open opened rfl valid walked

/-- Bars behind all others leave the intervals before the entry as they are. -/
theorem prerequisites_append {bars more : List Bar}
    (later : ∀ b ∈ more, x.setup.entryAt ≤ b.timestamp) :
    x.prerequisites (bars ++ more) = x.prerequisites bars := by
  unfold prerequisites
  dsimp only
  rw [List.filter_append, (List.filter_eq_nil_iff (l := more)).mpr fun b mem => ?_, List.append_nil]
  have after := later b mem
  simp only [decide_eq_true_eq, not_and, not_lt]
  exact fun _ => after

theorem resolve_append {bars more : List Bar} {r : ExecutionResult}
    (later : ∀ a ∈ bars, ∀ b ∈ more, a.timestamp ≤ b.timestamp)
    (h : x.resolve bars = .ok (.executed r)) : x.resolve (bars ++ more) = .ok (.executed r) := by
  unfold resolve at h ⊢
  obtain ⟨complete, found, h⟩ := bind_eq_ok.mp h
  by_cases gap : complete = false
  · rw [if_pos gap] at h
    cases h
  rw [if_neg gap] at h
  obtain ⟨first, rest, same, start, inside, walked⟩ := enter_eq_ok h
  have entry : ∀ b ∈ more, x.setup.entryAt ≤ b.timestamp := fun b mem =>
    start ▸ later first (List.mem_of_mem_filter (same ▸ List.mem_cons_self)) b mem
  rw [prerequisites_append entry, found]
  show (if complete = false then _ else x.enter (x.selected (bars ++ more))) = _
  have selected : x.selected (bars ++ more) = first :: (rest ++ x.selected more) := by
    unfold selected at same ⊢
    rw [List.filter_append, same, List.cons_append]
  rw [if_neg gap, selected, enter, if_neg (not_not.mpr start), if_neg inside]
  exact walk_append _ walked

/-- The figures of cost evidence are not negative. -/
theorem figures_nonneg {cost : CostEvidence} {figures : CostFigures}
    (known : cost.figures = some figures) : 0 ≤ figures.spread ∧ 0 ≤ figures.slippagePerSide := by
  have nonneg := cost.nonneg
  unfold CostEvidence.figures at known
  split at known
  case h_1 spread commission slippage reserve latency hs hc hl hr _ =>
    cases known
    refine ⟨nonneg cost.spread (by simp) _ hs, nonneg cost.slippagePerSide (by simp) _ hl⟩
  case h_2 => cases known

/-- A price beyond a bound is no better than the bound once costs are paid. -/
theorem backward_le (known : x.cost.figures = some x.figures) {price bound : ℚ}
    (h : x.setup.direction * (price - bound) ≤ 0) :
    x.setup.direction * (x.backward price x.entryCost - Rounding.fl prec bound) ≤ 0 := by
  obtain ⟨spread, slippage⟩ := figures_nonneg known
  have cost : 0 ≤ x.entryCost :=
    Rounding.fl_nonneg _ (add_nonneg (Rounding.fl_nonneg _ (by positivity)) slippage)
  unfold backward Rounding.sub Rounding.mul
  rcases x.setup.directed.1 with down | up
  · rw [down] at h ⊢
    push_cast at h ⊢
    have paid := Rounding.fl_nonneg prec cost
    have worse : Rounding.fl prec bound ≤ Rounding.fl prec (price - Rounding.fl prec (-1 * x.entryCost)) := by
      refine Rounding.fl_mono (by decide) ?_
      rw [neg_one_mul, Rounding.fl_neg]
      linarith
    linarith
  · rw [up] at h ⊢
    push_cast at h ⊢
    have paid := Rounding.fl_nonneg prec cost
    have worse : Rounding.fl prec (price - Rounding.fl prec (1 * x.entryCost)) ≤ Rounding.fl prec bound := by
      refine Rounding.fl_mono (by decide) ?_
      rw [one_mul]
      linarith
    linarith

end Scenario

section
variable
  {intentSha256 : SetupCandidate → CostEvidence → Option CalendarAttestation → Except Exc String}
  {setup : SetupCandidate} {bars : List Bar} {cost : Option CostEvidence}
  {calendar : Option CalendarAttestation} {profile : String} {terms : Option OutcomeTerms}
  {r : ExecutionResult}

/-- A scenario of the arguments of a simulation. -/
structure Models (x : Scenario) (limit : Bool)
    (intentSha256 : SetupCandidate → CostEvidence → Option CalendarAttestation → Except Exc String)
    (setup : SetupCandidate) (cost : Option CostEvidence) (calendar : Option CalendarAttestation)
    (profile : String) (terms : Option OutcomeTerms) : Prop where
  setup : x.setup = setup
  cost : cost = some x.cost
  figures : x.cost.figures = some x.figures
  calendar : x.calendar = calendar
  profile : x.profile = profile
  terms : x.terms = terms
  limit : x.limit = limit
  intent : x.intentSha256 = intentSha256

/-- A simulation that executes resolves the scenario of its arguments, on any bars. -/
theorem simulateWith_eq_ok {limit : Bool}
    (h : simulateWith limit intentSha256 setup bars cost calendar profile terms =
      .ok (.executed r)) :
    ∃ x : Scenario, Models x limit intentSha256 setup cost calendar profile terms ∧
      x.resolve bars = .ok (.executed r) ∧
      ∀ bars, simulateWith limit intentSha256 setup bars cost calendar profile terms =
        x.resolve bars := by
  unfold simulateWith at h
  split at h
  case h_1 => cases h
  case h_2 cost =>
    split at h
    case h_1 => cases h
    case h_2 ready =>
      split at h
      case h_1 => cases h
      case h_2 figures known =>
        obtain ⟨earliest, shifted, h⟩ := bind_eq_ok.mp h
        by_cases late : setup.entryAt < earliest
        · rw [if_pos late] at h
          cases h
        rw [if_neg late] at h
        refine ⟨_, ⟨rfl, rfl, known, rfl, rfl, rfl, rfl, rfl⟩, h, fun bars => ?_⟩
        unfold simulateWith
        simp only [ready, known, shifted]
        exact if_neg late

/-- Whether the setup enters by a limit order. -/
def entersByLimit (setup : SetupCandidate) : Bool := setup.strategy = "fast-mr-h1-v1"

theorem simulate_eq_ok
    (h : simulate intentSha256 setup bars cost calendar profile terms = .ok (.executed r)) :
    ∃ x : Scenario, Models x (entersByLimit setup) intentSha256 setup cost calendar profile terms ∧
      x.resolve bars = .ok (.executed r) ∧
      ∀ bars, simulate intentSha256 setup bars cost calendar profile terms = x.resolve bars := by
  unfold simulate at h ⊢
  unfold entersByLimit
  by_cases limit : setup.strategy = "fast-mr-h1-v1"
  · rw [if_pos limit] at h
    by_cases slow : setup.granularity ≠ .h1
    · rw [if_pos slow] at h
      exact absurd h raise_ne_ok
    rw [if_neg slow] at h
    simp only [if_neg slow, limit, decide_true]
    exact simulateWith_eq_ok h
  · rw [if_neg limit] at h
    simp only [limit, decide_false]
    exact simulateWith_eq_ok h

end

/-! ## A setup that is resolved -/

/-- A Tuesday's level bought at ten, with a stop ten below and a target ten above. -/
def sampleFields : SetupFields where
  strategy := "s"
  direction := 1
  availableAt := 16441 * day + 10 * hour
  signalStart := 16441 * day + 9 * hour
  granularity := .h1
  reference := 110
  stop := 100
  target := 120
  entryAt := 16441 * day + 10 * hour
  expiresAt := 16441 * day + 11 * hour
  exitAt := 16441 * day + 13 * hour
  evidence := []

def sampleCandidate : SetupCandidate :=
  ⟨sampleFields, by decide, by decide, by decide +kernel, by decide +kernel⟩

def sampleSha : String := String.ofList (List.replicate 64 'a')

def sampleCost : CostEvidence where
  component := "s"
  source := "b"
  version := "1"
  contentSha256 := sampleSha
  quoteCurrency := "USD"
  knownAt := 16441 * day
  validFrom := 16441 * day
  validThrough := 16442 * day
  spread := some 2
  commissionPerSide := some 0
  slippagePerSide := some 0
  financingReserve := some 0
  latencySeconds := some 0
  period := by decide
  nonneg := by decide

def sampleCalendar : CalendarAttestation where
  version := "1"
  sourceUrl := "https://a"
  profile := "p"
  knownAt := 16441 * day
  openIntervals := [(16441 * day, 16442 * day)]
  closedIntervals := []

def sampleTerms : OutcomeTerms where
  sourceSha256 := sampleSha
  quoteCurrency := "USD"
  accountCurrency := "CAD"
  fromAt := 16441 * day
  throughAt := 16441 * day + 12 * hour
  knownAt := 16441 * day
  conversionAt := 16441 * day + 12 * hour
  conversionRate := 2
  rollovers := []
  baseCurrency := "EUR"
  provenance := "b"
  costUnit := "quote_per_base"
  conversionUnit := "account_per_quote"

def sampleBar (open_ high low close : ℚ) (n : ℤ) : Bar where
  timestamp := 16441 * day + n * hour
  open_ := open_
  high := high
  low := low
  close := close
  finish := some (16441 * day + (n + 1) * hour)
  granularity := .interval .h1

/-- The bar of the entry, and one that reaches both the stop and the target. -/
def sampleBars : List Bar := [sampleBar 110 112 108 111 10, sampleBar 111 125 95 111 11]

def sampleResult : ExecutionResult where
  intentSha256 := ""
  enteredAt := 16441 * day + 10 * hour
  exitedAt := 16441 * day + 12 * hour
  entry := 111
  exit := 99
  grossQuote := -10
  costsQuote := 2
  netQuote := -12
  netAccount := -24
  outcomeEvidence := ["", "", sampleSha]
  reason := "stop_adverse_path"

end TradeRecommender.MarketStrategy
