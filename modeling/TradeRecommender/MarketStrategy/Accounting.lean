import TradeRecommender.Lib.RoundingError
import TradeRecommender.Lib.Tally
import TradeRecommender.MarketStrategy.AdverseExits
import TradeRecommender.Strategy.RolloverCalendars

/-!
# Simulation accounting

What an executed simulation charges, on the market and on the limit path, over any bars.

1. the settlement behind a result, and the prices its walk hands it;
2. the rollovers of a position, each charged once;
3. the net amount, up to the roundings of 34 digits, and exactly where they round nothing.
-/

namespace TradeRecommender.MarketStrategy

open Py Civil Market MarketState

namespace Scenario

/-! ## The settlement behind a result -/

section
variable {x : Scenario} {bar : Bar} {finish : Instant}

/-- The prices of an entry: `level` is the open of the entry's bar, or the reference of a limit
order. -/
structure Entered (x : Scenario) (level modeledEntry entry : ℚ) : Prop where
  market : x.limit = false → modeledEntry = x.against level x.entryCost ∧ entry = level
  order : x.limit = true → level = x.setup.reference ∧ modeledEntry = level ∧ entry = x.limitEntry

/-- An exit that a walk settles: at the end of one of its bars, with the prices of its entry. -/
structure ExitOf (x : Scenario) (level : ℚ) (bar : Bar) (e : Exit) : Prop where
  entered : Entered x level e.modeledEntry e.entry
  started : e.barAt = bar.timestamp
  finished : bar.finish = some e.exitedAt
  priced : x.exitOf bar e.exitedAt = some (e.price, e.reason)

/-- A turn of an open position that executes settles its exit, and one that goes on keeps its
prices. -/
theorem hold_settles {w : Walk} {enteredAt : Instant} {result : Turn}
    (h : x.hold w enteredAt bar finish = .ok result) :
    (∀ r, result = .done (.executed r) → ∃ e : Exit, x.settle e = .ok (.executed r) ∧
      e.modeledEntry = w.modeledEntry ∧ e.entry = w.entry ∧ e.barAt = bar.timestamp ∧
      e.exitedAt = finish ∧ x.exitOf bar finish = some (e.price, e.reason)) ∧
    (∀ w', result = .next w' → w'.enteredAt = w.enteredAt ∧ w'.modeledEntry = w.modeledEntry ∧
      w'.entry = w.entry) := by
  unfold hold at h
  split at h
  case h_1 =>
    cases h
    refine ⟨fun r h => (by cases h), fun w' h => ?_⟩
    cases h
    exact ⟨rfl, rfl, rfl⟩
  case h_2 price reason exits =>
    obtain ⟨settled, found, h⟩ := bind_eq_ok.mp h
    cases h
    refine ⟨fun r h => ?_, fun w' h => (by cases h)⟩
    cases h
    exact ⟨_, found, rfl, rfl, rfl, rfl, exits⟩

/-- What the walk keeps: an order that is not filled is a limit order, and a position has the
prices of its entry. -/
structure Keeps (x : Scenario) (level : ℚ) (w : Walk) : Prop where
  pending : w.enteredAt = none → x.limit = true ∧ level = x.setup.reference
  opened : w.enteredAt ≠ none → Entered x level w.modeledEntry w.entry

/-- The turn of a walk that executes settles an exit, or keeps the prices. -/
theorem turn_settles {level : ℚ} {w : Walk} {result : Turn} (keeps : Keeps x level w)
    (h : x.turn w bar = .ok result) :
    (∀ r, result = .done (.executed r) → ∃ e, ExitOf x level bar e ∧
      x.settle e = .ok (.executed r)) ∧
    (∀ w', result = .next w' → Keeps x level w') := by
  by_cases stops : ∃ strategy reason, result = .done (.unavailable strategy reason)
  · obtain ⟨strategy, reason, rfl⟩ := stops
    exact ⟨fun r h => (by cases h), fun w' h => (by cases h)⟩
  have runs : ∀ strategy reason, result ≠ .done (.unavailable strategy reason) :=
    fun strategy reason same => stops ⟨strategy, reason, same⟩
  obtain ⟨finish, finished, advanced⟩ := turn_eq_ok h runs
  have holds : ∀ (w' : Walk) (enteredAt : Instant), w'.enteredAt = some enteredAt →
      Entered x level w'.modeledEntry w'.entry → x.hold w' enteredAt bar finish = .ok result →
      (∀ r, result = .done (.executed r) → ∃ e, ExitOf x level bar e ∧
        x.settle e = .ok (.executed r)) ∧
      (∀ w', result = .next w' → Keeps x level w') := by
    intro w' enteredAt opened entered held
    obtain ⟨done, next⟩ := hold_settles held
    refine ⟨fun r executed => ?_, fun w'' going => ?_⟩
    · obtain ⟨e, settled, modeled, entry, started, exited, exits⟩ := done r executed
      refine ⟨e, ⟨?_, started, ?_, ?_⟩, settled⟩
      · rw [modeled, entry]
        exact entered
      · rw [exited]
        exact finished
      · rw [exited]
        exact exits
    · obtain ⟨same, modeled, entry⟩ := next w'' going
      refine ⟨fun pending => ?_, fun _ => ?_⟩
      · rw [same, opened] at pending
        cases pending
      · rw [modeled, entry]
        exact entered
  cases opened : w.enteredAt with
  | some enteredAt =>
    rw [advance_open (by exact opened)] at advanced
    have entered := keeps.opened (by
      rw [opened]
      exact fun h => (by cases h))
    exact holds { w with consumed := w.consumed ++ [bar.contentSha256] } enteredAt opened entered
      advanced
  | none =>
    obtain ⟨limit, reference⟩ := keeps.pending opened
    rcases advance_waiting (by exact opened) advanced runs with filled | ⟨expected, rfl⟩
    · refine holds _ bar.timestamp rfl ⟨fun market => ?_, fun _ => ?_⟩ filled
      · rw [limit] at market
        cases market
      · exact ⟨reference, reference.symm, rfl⟩
    · refine ⟨fun r h => (by cases h), fun w' h => ?_⟩
      cases h
      exact ⟨fun _ => ⟨limit, reference⟩, fun some_ => absurd opened some_⟩

/-- **A walk that executes** settles an exit at one of its bars. -/
theorem walk_settles {level : ℚ} {bars : List Bar} {r : ExecutionResult} :
    ∀ {w : Walk}, Keeps x level w → x.walk w bars = .ok (.executed r) →
      ∃ bar ∈ bars, ∃ e, ExitOf x level bar e ∧ x.settle e = .ok (.executed r) := by
  induction bars with
  | nil =>
    intro w _ h
    cases h
  | cons bar bars ih =>
    intro w keeps h
    obtain ⟨result, turned, cases_⟩ := walk_cons h
    obtain ⟨done, next⟩ := turn_settles keeps turned
    rcases cases_ with executed | ⟨w', going, h⟩
    · exact ⟨bar, List.mem_cons_self, done r executed⟩
    · obtain ⟨last, mem, settled⟩ := ih (next w' going) h
      exact ⟨last, List.mem_cons_of_mem bar mem, settled⟩

/-- The level that a simulation enters at. -/
def EntersAt (x : Scenario) (bars : List Bar) (level : ℚ) : Prop :=
  (x.limit = true ∧ level = x.setup.reference) ∨
    (x.limit = false ∧ ∃ first ∈ bars, first.timestamp = x.setup.entryAt ∧ level = first.open_)

theorem resolve_settles {bars : List Bar} {r : ExecutionResult}
    (h : x.resolve bars = .ok (.executed r)) :
    ∃ level, EntersAt x bars level ∧ ∃ bar ∈ bars, ∃ e, ExitOf x level bar e ∧
      x.settle e = .ok (.executed r) := by
  obtain ⟨complete, -, h⟩ := bind_eq_ok.mp h
  by_cases gap : complete = false
  · rw [if_pos gap] at h
    cases h
  rw [if_neg gap] at h
  obtain ⟨first, rest, same, start, -, walked⟩ := enter_eq_ok h
  have within : ∀ b ∈ first :: rest, b ∈ bars := fun b mem => List.mem_of_mem_filter (same ▸ mem)
  have settles : ∀ level, EntersAt x bars level → Keeps x level (x.placed first) →
      ∃ level, EntersAt x bars level ∧ ∃ bar ∈ bars, ∃ e, ExitOf x level bar e ∧
        x.settle e = .ok (.executed r) := by
    intro level enters keeps
    obtain ⟨bar, mem, settled⟩ := walk_settles keeps walked
    exact ⟨level, enters, bar, within bar mem, settled⟩
  cases limit : x.limit with
  | true =>
    refine settles x.setup.reference (.inl ⟨limit, rfl⟩) ⟨fun _ => ⟨limit, rfl⟩, fun some_ => ?_⟩
    exact absurd (if_pos limit) some_
  | false =>
    refine settles first.open_
      (.inr ⟨limit, first, within first List.mem_cons_self, start, rfl⟩)
      ⟨fun none_ => ?_, fun _ => ⟨fun _ => ⟨rfl, rfl⟩, fun market => ?_⟩⟩
    · unfold placed at none_
      rw [limit] at none_
      cases none_
    · rw [limit] at market
      cases market

end

/-! ## Rollovers -/

section
variable {enteredAt exitedAt barAt : Instant}

/-- The rollovers of a position come in order, each once. -/
theorem pairwise_requiredRollovers :
    (requiredRollovers enteredAt exitedAt).Pairwise (· < ·) := by
  have readings : ∀ n : ℕ, newYorkUtc (atFive (newYorkWall enteredAt) + n * day) =
      fiveAt (newYorkWall enteredAt / day + n) := by
    intro n
    unfold fiveAt
    refine congrArg newYorkUtc ?_
    simp only [atFive, five]
    ring
  have same : requiredRollovers enteredAt exitedAt = ((List.range ((newYorkWall exitedAt -
      atFive (newYorkWall enteredAt)) / day + 1).toNat).map fun n : ℕ =>
        fiveAt (newYorkWall enteredAt / day + n)).filter
          fun at_ => enteredAt ≤ at_ ∧ at_ ≤ exitedAt := by
    unfold requiredRollovers
    simp only [List.bind_eq_flatMap, List.pure_def]
    rw [← List.map_eq_flatMap, List.map_map]
    exact congrArg _ (List.map_congr_left fun n _ => readings n)
  rw [same]
  refine List.Pairwise.filter _ (List.pairwise_map.mpr (List.pairwise_lt_range.imp ?_))
  intro n m less
  refine fiveAt_lt ?_
  omega

variable {t : OutcomeTerms}

/-- The rollovers of a position with the rates of the terms. -/
def charged (t : OutcomeTerms) (enteredAt exitedAt : Instant) : List (Instant × ℚ) :=
  (requiredRollovers enteredAt exitedAt).map fun at_ => (at_, (t.rollovers.lookup at_).getD 0)

/-- What a rollover costs: its rate, where a credit counts between the entry and the start of the
exit's bar only. -/
def charge (enteredAt barAt : Instant) (rollover : Instant × ℚ) : ℚ :=
  if rollover.2 < 0 ∧ ¬ (enteredAt < rollover.1 ∧ rollover.1 < barAt) then 0 else rollover.2

theorem financing_eq : financing t enteredAt barAt exitedAt =
    Rounding.sum prec ((charged t enteredAt exitedAt).map (charge enteredAt barAt)) := by
  unfold financing charged
  rw [List.map_map]
  refine congrArg _ (List.map_congr_left fun at_ _ => ?_)
  show (if enteredAt < at_ ∧ at_ < barAt then (t.rollovers.lookup at_).getD 0
    else max 0 ((t.rollovers.lookup at_).getD 0)) = charge enteredAt barAt (at_, _)
  unfold charge
  dsimp only
  generalize (t.rollovers.lookup at_).getD 0 = rate
  by_cases inside : enteredAt < at_ ∧ at_ < barAt
  · rw [if_pos inside, if_neg fun h => h.2 inside]
  · rw [if_neg inside]
    by_cases credit : rate < 0
    · rw [if_pos ⟨credit, inside⟩, max_eq_left credit.le]
    · rw [if_neg fun h => credit h.1, max_eq_right (not_lt.mp credit)]

/-- The rollovers charged are all of the position, each once, at the rate of the terms. -/
structure Charges (t : OutcomeTerms) (enteredAt exitedAt : Instant)
    (charged : List (Instant × ℚ)) : Prop where
  once : charged.Pairwise fun c c' => c.1 < c'.1
  every : ∀ at_, at_ ∈ charged.map Prod.fst ↔
    (∃ date, newYorkWall at_ = five date) ∧ enteredAt ≤ at_ ∧ at_ ≤ exitedAt
  rated : ∀ c ∈ charged, ∀ rate, (c.1, rate) ∈ t.rollovers ↔ rate = c.2

theorem map_fst_charged : (charged t enteredAt exitedAt).map Prod.fst =
    requiredRollovers enteredAt exitedAt := by
  unfold charged
  rw [List.map_map]
  exact List.map_id _

theorem charges_charged (distinct : (t.rollovers.map Prod.fst).Nodup)
    (present : ∀ at_ ∈ requiredRollovers enteredAt exitedAt, at_ ∈ t.rollovers.map Prod.fst) :
    Charges t enteredAt exitedAt (charged t enteredAt exitedAt) where
  once := List.pairwise_map.mpr pairwise_requiredRollovers
  every at_ := by
    rw [map_fst_charged, Strategy.Returns.mem_requiredRollovers]
    constructor
    · rintro ⟨date, rfl, inside⟩
      exact ⟨⟨date, wall_fiveAt date⟩, inside⟩
    · rintro ⟨⟨date, read⟩, inside⟩
      obtain rfl := eq_fiveAt_iff.mpr read
      exact ⟨date, rfl, inside⟩
  rated c mem rate := by
    obtain ⟨at_, required, rfl⟩ := List.mem_map.mp mem
    obtain ⟨⟨_, found⟩, within, rfl⟩ := List.mem_map.mp (present at_ required)
    dsimp only
    rw [Tally.lookup_of_mem distinct within, Option.getD_some]
    constructor
    · intro other
      have same := Tally.lookup_of_mem distinct other
      rw [Tally.lookup_of_mem distinct within] at same
      exact (Option.some.inj same).symm
    · rintro rfl
      exact within

end

/-! ## The net amount -/

section
variable {x : Scenario} {level price : ℚ} {charges : List ℚ} {g : ℤ}

/-- The amounts that a net amount is made of. -/
def amounts (x : Scenario) (level price : ℚ) (charges : List ℚ) : List ℚ :=
  [price, level, x.figures.spread / 2, x.figures.slippagePerSide, x.figures.commissionPerSide] ++
    charges

/-- The total of the amounts, each as often as it is read. -/
def scale (x : Scenario) (level price : ℚ) (charges : List ℚ) : ℚ :=
  |price| + |level| + 2 * |x.figures.spread| + 2 * |x.figures.slippagePerSide| +
    2 * |x.figures.commissionPerSide| + (charges.map (|·|)).sum

/-- All amounts are multiples of a power of ten. -/
def Fine (x : Scenario) (level price : ℚ) (charges : List ℚ) (g : ℤ) : Prop :=
  ∀ amount ∈ x.amounts level price charges, Rounding.OnGrid g amount

/-- A computed amount stands for an exact one. -/
abbrev Stands (x : Scenario) (level price : ℚ) (charges : List ℚ) (g : ℤ) :
    ℕ → ℚ → ℚ → ℚ → Prop :=
  Rounding.Tracks prec g (Fine x level price charges g)

/-- What the net amount is without roundings: the way between the modelled prices, less the
commissions and the rollovers. -/
def exactNet (x : Scenario) (level price : ℚ) (charges : List ℚ) : ℚ :=
  x.setup.direction * (price - level) -
      (if x.limit then 1 else 2) * (x.figures.spread / 2 + x.figures.slippagePerSide) -
    2 * x.figures.commissionPerSide - charges.sum

theorem direction_sq (x : Scenario) : (x.setup.direction : ℚ) * x.setup.direction = 1 := by
  rcases x.setup.directed.1 with down | up
  · rw [down]
    norm_num
  · rw [up]
    norm_num

theorem Fine.spread (fine : Fine x level price charges g) :
    Rounding.OnGrid g x.figures.spread := by
  have half := fine (x.figures.spread / 2) (by simp [amounts])
  have whole := half.add half
  rwa [add_halves] at whole

theorem tracks_entryCost : x.Stands level price charges g 2
    (|x.figures.spread| + |x.figures.slippagePerSide|) x.entryCost
    (x.figures.spread / 2 + x.figures.slippagePerSide) := by
  have half : x.Stands level price charges g 1 |x.figures.spread|
      (Rounding.div prec x.figures.spread 2) (x.figures.spread / 2) := by
    refine ((Rounding.Tracks.input fun fine => ?_).mono (Nat.le_refl 0) ?_).round (by decide)
    · exact fine _ (by simp [amounts])
    · rw [abs_div, abs_of_pos (zero_lt_two' ℚ)]
      exact half_le_self (abs_nonneg _)
  have slippage : x.Stands level price charges g 1
      |x.figures.slippagePerSide| x.figures.slippagePerSide x.figures.slippagePerSide :=
    (Rounding.Tracks.input fun fine => fine _ (by simp [amounts])).mono (Nat.zero_le 1)
      (le_refl _)
  exact (half.add slippage).round (by decide)

/-- A price that the entry cost is taken from. -/
theorem tracks_backward {value : ℚ} (grid : Fine x level price charges g → Rounding.OnGrid g value) :
    x.Stands level price charges g 4
      (|value| + (|x.figures.spread| + |x.figures.slippagePerSide|))
      (x.backward value x.entryCost)
      (value - x.setup.direction * (x.figures.spread / 2 + x.figures.slippagePerSide)) :=
  (((Rounding.Tracks.input grid).mono (Nat.zero_le 3) (le_refl _)).sub
    ((tracks_entryCost.directed x.setup.directed.1).round (by decide))).round (by decide)

/-- A price that the entry cost is added to. -/
theorem tracks_against {value : ℚ} (grid : Fine x level price charges g → Rounding.OnGrid g value) :
    x.Stands level price charges g 4
      (|value| + (|x.figures.spread| + |x.figures.slippagePerSide|))
      (x.against value x.entryCost)
      (value + x.setup.direction * (x.figures.spread / 2 + x.figures.slippagePerSide)) :=
  (((Rounding.Tracks.input grid).mono (Nat.zero_le 3) (le_refl _)).add
    ((tracks_entryCost.directed x.setup.directed.1).round (by decide))).round (by decide)

/-- The raw entry of a limit order. -/
theorem tracks_limitEntry (reference : level = x.setup.reference) :
    x.Stands level price charges g 3 (|level| + |x.figures.spread|)
      x.limitEntry (level - x.setup.direction * x.figures.spread / 2) := by
  have spread : x.Stands level price charges g 0 |x.figures.spread|
      x.figures.spread x.figures.spread := .input Fine.spread
  have halved := ((spread.directed x.setup.directed.1).round (by decide)).half fun fine => by
    have half := fine (x.figures.spread / 2) (by simp [amounts])
    rcases x.setup.directed.1 with down | up
    · rw [down]
      push_cast
      rw [neg_one_mul, neg_div]
      exact half.neg
    · rw [up]
      push_cast
      rw [one_mul]
      exact half
  have start : x.Stands level price charges g 2 |level| level level :=
    (Rounding.Tracks.input fun fine => fine _ (by simp [amounts])).mono (Nat.zero_le 2) (le_refl _)
  unfold limitEntry
  rw [← reference]
  exact (start.sub (halved.round (by decide))).round (by decide)

/-- The gross amount. -/
theorem tracks_gross {n : ℕ} {s entry exact_ : ℚ}
    (entered : x.Stands level price charges g n s entry exact_) :
    x.Stands level price charges g (n + 1) (|price| + s)
      (ahead x.setup.direction price entry) (x.setup.direction * (price - exact_)) := by
  have exit_ : x.Stands level price charges g n |price| price price :=
    (Rounding.Tracks.input fun fine => fine _ (by simp [amounts])).mono (Nat.zero_le n) (le_refl _)
  rw [ahead_eq x.setup.directed.1]
  exact ((exit_.sub entered).directed x.setup.directed.1).round (by decide)

/-- The costs. -/
theorem tracks_costs : x.Stands level price charges g (charges.length + 4)
    (|x.figures.spread| + 2 * |x.figures.slippagePerSide| + 2 * |x.figures.commissionPerSide| +
      (charges.map (|·|)).sum)
    (Rounding.add prec (Rounding.add prec (Rounding.add prec x.figures.spread
        (Rounding.mul prec (if x.limit then 1 else 2) x.figures.slippagePerSide))
      (Rounding.mul prec 2 x.figures.commissionPerSide)) (Rounding.sum prec charges))
    (x.figures.spread + (if x.limit then 1 else 2) * x.figures.slippagePerSide +
      2 * x.figures.commissionPerSide + charges.sum) := by
  have spread : x.Stands level price charges g 1 |x.figures.spread|
      x.figures.spread x.figures.spread :=
    (Rounding.Tracks.input Fine.spread).mono (Nat.zero_le 1) (le_refl _)
  have slippage : x.Stands level price charges g 0
      (2 * |x.figures.slippagePerSide|) ((if x.limit then 1 else 2) * x.figures.slippagePerSide)
      ((if x.limit then 1 else 2) * x.figures.slippagePerSide) := by
    have one : x.Stands level price charges g 0
        |x.figures.slippagePerSide| x.figures.slippagePerSide x.figures.slippagePerSide :=
      .input fun fine => fine _ (by simp [amounts])
    split
    · rw [one_mul]
      exact one.mono (Nat.le_refl 0) (le_mul_of_one_le_left (abs_nonneg _) one_le_two)
    · exact one.twice
  have commission : x.Stands level price charges g 0
      |x.figures.commissionPerSide| x.figures.commissionPerSide x.figures.commissionPerSide :=
    .input fun fine => fine _ (by simp [amounts])
  have rollovers := Rounding.Tracks.sum (p := prec) (e := g)
    (show 0 < prec by decide) charges
    (fun fine : Fine x level price charges g => fun c mem => fine c (List.mem_append_right _ mem))
  have fixed := ((spread.add (slippage.round (by decide))).round (by decide)).add
    ((commission.twice.round (by decide)).mono (by decide) (le_refl _)) |>.round (by decide)
  exact ((fixed.mono (show 3 ≤ charges.length + 3 by omega) (le_refl _)).add
    (rollovers.mono (show charges.length ≤ charges.length + 3 by omega) (le_refl _))).round
      (by decide)

variable {modeledEntry entry : ℚ}

/-- The net amount stands for the exact one. -/
theorem tracks_net (entered : Entered x level modeledEntry entry) :
    x.Stands level price charges g (charges.length + 5)
      (x.scale level price charges)
      (Rounding.sub prec (ahead x.setup.direction price entry)
        (Rounding.add prec (Rounding.add prec (Rounding.add prec x.figures.spread
            (Rounding.mul prec (if x.limit then 1 else 2) x.figures.slippagePerSide))
          (Rounding.mul prec 2 x.figures.commissionPerSide)) (Rounding.sum prec charges)))
      (x.exactNet level price charges) := by
  have spread := abs_nonneg x.figures.spread
  have open_ : x.Stands level price charges g 0 |level| level level :=
    .input fun fine => fine _ (by simp [amounts])
  have costs : x.Stands level price charges g (charges.length + 4) _ _ _ := tracks_costs
  cases limit : x.limit with
  | false =>
    obtain ⟨-, rfl⟩ := entered.market limit
    have gross := (tracks_gross open_).mono
      (show 0 + 1 ≤ charges.length + 4 by omega) (le_refl _)
    have net := (gross.sub costs).round (by decide)
    rw [limit] at net
    refine (net.mono (Nat.le_refl _) (by unfold scale; linarith)).congr rfl ?_
    unfold exactNet
    rw [limit, if_neg (by decide)]
    ring
  | true =>
    obtain ⟨reference, -, rfl⟩ := entered.order limit
    have raw : x.Stands level price charges g 3 _ _ _ := tracks_limitEntry reference
    have gross := (tracks_gross raw).mono (show 3 + 1 ≤ charges.length + 4 by omega) (le_refl _)
    have net := (gross.sub costs).round (by decide)
    rw [limit] at net
    refine (net.mono (Nat.le_refl _) (by unfold scale; linarith)).congr rfl ?_
    unfold exactNet
    rw [limit, if_pos rfl]
    linear_combination (x.figures.spread / 2) * x.direction_sq

/-- The way between the modelled prices, less commissions and rollovers, stands for it too. -/
theorem tracks_modelled (entered : Entered x level modeledEntry entry) :
    x.Stands level price charges g (charges.length + 5)
      (x.scale level price charges)
      (x.setup.direction * (x.backward price x.entryCost - modeledEntry) -
        2 * x.figures.commissionPerSide - charges.sum)
      (x.exactNet level price charges) := by
  have spread := abs_nonneg x.figures.spread
  have slippage := abs_nonneg x.figures.slippagePerSide
  have exit_ : x.Stands level price charges g 4 _ (x.backward price x.entryCost) _ :=
    tracks_backward fun fine => fine _ (by simp [amounts])
  have commission : x.Stands level price charges g 4
      (2 * |x.figures.commissionPerSide|) (2 * x.figures.commissionPerSide)
      (2 * x.figures.commissionPerSide) :=
    (Rounding.Tracks.input fun fine => fine _ (by simp [amounts])).twice.mono (Nat.zero_le 4)
      (le_refl _)
  have rollovers : x.Stands level price charges g 4
      (charges.map (|·|)).sum charges.sum charges.sum :=
    (Rounding.Tracks.exact_sum charges fun fine c mem =>
      fine c (List.mem_append_right _ mem)).mono (Nat.zero_le 4) (le_refl _)
  cases limit : x.limit with
  | false =>
    obtain ⟨rfl, rfl⟩ := entered.market limit
    have entry_ : x.Stands entry price charges g 4 _ (x.against entry x.entryCost) _ :=
      tracks_against fun fine => fine _ (by simp [amounts])
    have net := (((exit_.sub entry_).directed x.setup.directed.1).sub commission).sub rollovers
    refine (net.mono (by omega) (by unfold scale; linarith)).congr rfl ?_
    unfold exactNet
    rw [limit, if_neg (by decide)]
    linear_combination
      (-2 * (x.figures.spread / 2 + x.figures.slippagePerSide)) * x.direction_sq
  | true =>
    obtain ⟨-, rfl, -⟩ := entered.order limit
    have entry_ : x.Stands modeledEntry price charges g 4 |modeledEntry|
        modeledEntry modeledEntry :=
      (Rounding.Tracks.input fun fine => fine _ (by simp [amounts])).mono (Nat.zero_le 4)
        (le_refl _)
    have net := (((exit_.sub entry_).directed x.setup.directed.1).sub commission).sub rollovers
    refine (net.mono (by omega) (by unfold scale; linarith)).congr rfl ?_
    unfold exactNet
    rw [limit, if_pos rfl]
    linear_combination
      (-(x.figures.spread / 2 + x.figures.slippagePerSide)) * x.direction_sq

end

/-! ## What a result accounts for -/

/-- The accounts of a result: its exit bar and prices, its rollovers, and the net amount, within the
roundings of the context and exact where they round nothing. -/
structure Accounts (x : Scenario) (t : OutcomeTerms) (bar : Bar) (level price : ℚ)
    (charged : List (Instant × ℚ)) (r : ExecutionResult) : Prop where
  finished : bar.finish = some r.exitedAt
  priced : x.exitOf bar r.exitedAt = some (price, r.reason)
  entry : r.entry = if x.limit then level else x.against level x.entryCost
  exit : r.exit = x.backward price x.entryCost
  charges : Charges t r.enteredAt r.exitedAt charged
  near : |r.netQuote - (x.setup.direction * (r.exit - r.entry) - 2 * x.figures.commissionPerSide -
      (charged.map (charge r.enteredAt bar.timestamp)).sum)| ≤
    2 * Rounding.growth prec (charged.length + 5) *
      x.scale level price (charged.map (charge r.enteredAt bar.timestamp))
  exact : ∀ g, x.Fine level price (charged.map (charge r.enteredAt bar.timestamp)) g →
    x.scale level price (charged.map (charge r.enteredAt bar.timestamp)) ≤ 10 ^ prec * 10 ^ g →
    r.netQuote = x.setup.direction * (r.exit - r.entry) - 2 * x.figures.commissionPerSide -
      (charged.map (charge r.enteredAt bar.timestamp)).sum

/-- The terms and the net amount of a settlement that executes. -/
theorem settle_net {x : Scenario} {e : Exit} {r : ExecutionResult}
    (h : x.settle e = .ok (.executed r)) :
    ∃ t, x.terms = some t ∧ (t.rollovers.map Prod.fst).Nodup ∧
      (∀ at_ ∈ requiredRollovers e.enteredAt e.exitedAt, at_ ∈ t.rollovers.map Prod.fst) ∧
      r.entry = e.modeledEntry ∧
      r.netQuote = Rounding.sub prec (ahead x.setup.direction e.price e.entry)
        (Rounding.add prec (Rounding.add prec (Rounding.add prec x.figures.spread
            (Rounding.mul prec (if x.limit then 1 else 2) x.figures.slippagePerSide))
          (Rounding.mul prec 2 x.figures.commissionPerSide))
          (financing t e.enteredAt e.barAt e.exitedAt)) := by
  unfold settle at h
  split at h
  case h_1 => cases h
  case h_2 t known =>
    by_cases converted : t.accountCurrency = t.quoteCurrency ∧ t.conversionRate ≠ 1
    · rw [if_pos converted] at h
      cases h
    rw [if_neg converted] at h
    by_cases missing : ¬ (t.rollovers.map Prod.fst).Nodup ∨
        ¬ ∀ at_ ∈ requiredRollovers e.enteredAt e.exitedAt, at_ ∈ t.rollovers.map Prod.fst
    · rw [if_pos missing] at h
      cases h
    rw [if_neg missing] at h
    obtain ⟨intent, -, h⟩ := bind_eq_ok.mp h
    cases h
    rw [not_or, not_not, not_not] at missing
    exact ⟨t, (Option.filter_eq_some_iff.mp known).1, missing.1, missing.2, rfl, rfl⟩

/-- **Settlements account** for what they charge. -/
theorem ExitOf.accounts {x : Scenario} {level : ℚ} {bar : Bar} {e : Exit} {r : ExecutionResult}
    (exit_ : ExitOf x level bar e) (h : x.settle e = .ok (.executed r)) :
    ∃ t charged, x.terms = some t ∧ Accounts x t bar level e.price charged r := by
  obtain ⟨entered, started, finished, priced⟩ := exit_
  obtain ⟨enteredAt, exitedAt, exit_, -, reason⟩ := settle_eq_ok h
  obtain ⟨t, known, distinct, present, entry, net⟩ := settle_net h
  rw [← exitedAt] at finished priced present net
  rw [← enteredAt] at present net
  rw [← reason] at priced
  rw [financing_eq, started] at net
  have stands : ∀ charges g, r.netQuote = Rounding.sub prec
      (ahead x.setup.direction e.price e.entry)
      (Rounding.add prec (Rounding.add prec (Rounding.add prec x.figures.spread
          (Rounding.mul prec (if x.limit then 1 else 2) x.figures.slippagePerSide))
        (Rounding.mul prec 2 x.figures.commissionPerSide)) (Rounding.sum prec charges)) →
      x.Stands level e.price charges g (charges.length + 5) (x.scale level e.price charges)
        r.netQuote (x.exactNet level e.price charges) :=
    fun charges g net => net ▸ tracks_net entered
  have modelled : ∀ charges g, x.Stands level e.price charges g (charges.length + 5)
      (x.scale level e.price charges)
      (x.setup.direction * (r.exit - r.entry) - 2 * x.figures.commissionPerSide - charges.sum)
      (x.exactNet level e.price charges) := by
    intro charges g
    rw [exit_, entry]
    exact tracks_modelled entered
  have close := (stands _ 0 net).abs_sub_le (modelled _ 0)
  rw [List.length_map] at close
  refine ⟨t, charged t r.enteredAt r.exitedAt, known, finished, priced, ?_, exit_,
    charges_charged distinct present, close,
    fun g fine reach => (stands _ g net).eq (modelled _ g) fine reach⟩
  rw [entry]
  split
  · next limit => exact (entered.order limit).2.1
  · next market => exact (entered.market (Bool.eq_false_of_not_eq_true market)).1

end Scenario

section
variable
  {intentSha256 : SetupCandidate → CostEvidence → Option CalendarAttestation → Except Exc String}
  {setup : SetupCandidate} {bars : List Bar} {cost : Option CostEvidence}
  {calendar : Option CalendarAttestation} {profile : String} {terms : Option OutcomeTerms}
  {r : ExecutionResult}

/-- **Simulation accounting**: on both paths a result's net amount is the way between its modelled
prices less two commissions and the rollovers, up to the roundings of the context; every 17:00 of
New York within the position is charged once, at the one rate of the terms, and a credit counts
strictly between the entry and the start of the exit's bar only. -/
theorem simulate_accounting
    (executed : simulate intentSha256 setup bars cost calendar profile terms =
      .ok (.executed r)) :
    ∃ (x : Scenario) (t : OutcomeTerms) (level price : ℚ) (charged : List (Instant × ℚ)),
      Models x (entersByLimit setup) intentSha256 setup cost calendar profile terms ∧
      terms = some t ∧ x.EntersAt bars level ∧
      ∃ bar ∈ bars, x.Accounts t bar level price charged r := by
  obtain ⟨x, models, resolved, -⟩ := simulate_eq_ok executed
  obtain ⟨level, enters, bar, mem, e, exit_, settled⟩ := Scenario.resolve_settles resolved
  obtain ⟨t, charged, known, accounts⟩ := exit_.accounts settled
  exact ⟨x, t, level, e.price, charged, models, models.terms.symm.trans known, enters, bar, mem,
    accounts⟩

end

/-- The sample's costs with a commission that 34 digits do not hold beside the spread. -/
def commissionedCost : CostEvidence :=
  { sampleCost with
    commissionPerSide := some (1 / 10 ^ 40)
    nonneg := by decide +kernel }

theorem commissioned_run :
    simulate (fun _ _ _ => .ok "") sampleCandidate sampleBars (some commissionedCost)
      (some sampleCalendar) "p" (some sampleTerms) = .ok (.executed sampleResult) := by
  decide +kernel

theorem simulate_accounting_sample :
    ∃ (x : Scenario) (t : OutcomeTerms) (level price : ℚ) (charged : List (Instant × ℚ)),
      Models x (entersByLimit sampleCandidate) (fun _ _ _ => .ok "") sampleCandidate
        (some commissionedCost) (some sampleCalendar) "p" (some sampleTerms) ∧
      some sampleTerms = some t ∧ x.EntersAt sampleBars level ∧
      ∃ bar ∈ sampleBars, x.Accounts t bar level price charged sampleResult :=
  simulate_accounting commissioned_run

/-- The net amount there is not the way between the modelled prices less two commissions. -/
theorem commission_rounded :
    simulate (fun _ _ _ => .ok "") sampleCandidate sampleBars (some commissionedCost)
        (some sampleCalendar) "p" (some sampleTerms) = .ok (.executed sampleResult) ∧
      Scenario.requiredRollovers sampleResult.enteredAt sampleResult.exitedAt = [] ∧
      sampleResult.netQuote ≠ sampleCandidate.direction *
        (sampleResult.exit - sampleResult.entry) - 2 * (1 / 10 ^ 40) - 0 := by
  refine ⟨commissioned_run, by decide, ?_⟩
  norm_num [sampleResult, sampleCandidate, sampleFields]

end TradeRecommender.MarketStrategy
