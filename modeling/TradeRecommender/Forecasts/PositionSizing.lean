import TradeRecommender.Lib.BreadthFirst
import TradeRecommender.Lib.Civil
import TradeRecommender.Lib.Decimals
import TradeRecommender.Lib.RoundingError
import TradeRecommender.Lib.Sorted

/-!
# Position sizing

`forecasts/sizing.py` converts a quote currency to CAD over the pairs that are quoted, in both
directions, and sizes a position to a risk cap.

1. the candles and the table of rates;
2. the search for a conversion;
3. chains of rates, and the shortest that is found;
4. the size of a position.
-/

namespace TradeRecommender.Forecasts.Sizing

open BreadthFirst Civil Decimals Py

/-! ## Rates -/

/-- A price column: twelve digits, six of them decimals. -/
structure Price where
  value : ℚ
  grid : Rounding.OnGrid (-6) value
  small : |value| < 10 ^ 6

/-- The fields of an hourly candle that are read. -/
structure Candle where
  id : ℕ
  timestamp : Instant
  finishedAt : Option Instant
  bidClose : Price
  askClose : Price

/-- `midpoint_close` -/
def Candle.midpointClose (candle : Candle) : ℚ :=
  Rounding.div 28 (Rounding.add 28 candle.bidClose.value candle.askClose.value) 2

/-- The fields of an instrument that are read, with its hourly candles. -/
structure Instrument where
  code : String
  baseCurrency : String
  quoteCurrency : String
  displayOrder : ℕ
  active : Bool
  candles : List Candle

/-- The last candle there was, by its timestamp and its id. -/
def Instrument.candleAt (instrument : Instrument) (asOf : Instant) : Option Candle :=
  (sortedBy (fun candle => toLex (-candle.timestamp, -(candle.id : ℤ)))
    (instrument.candles.filter fun candle =>
      candle.timestamp ≤ asOf ∧ candle.finishedAt.any (· ≤ asOf))).head?

/-- An instrument with the candle that prices it. -/
structure Rate where
  instrument : String
  baseCurrency : String
  quoteCurrency : String
  candle : Candle
  priced : candle.midpointClose ≠ 0

/-- The turn of the loop over the instruments; a reciprocal of zero raises. -/
def rateAt (asOf : Instant) (instrument : Instrument) : Except Exc (Option Rate) :=
  match instrument.candleAt asOf with
  | none => .ok none
  | some candle =>
    if priced : candle.midpointClose = 0 then raise (.other "DivisionByZero")
    else .ok (some ⟨instrument.code, instrument.baseCurrency, instrument.quoteCurrency, candle,
      priced⟩)

/-- The rates of the active instruments, in their order. -/
def rateTable (instruments : List Instrument) (asOf : Instant) : Except Exc (List Rate) :=
  filterMapE (rateAt asOf)
    (sortedBy (fun instrument => toLex (instrument.displayOrder, instrument.code))
      (instruments.filter Instrument.active))

/-! ## Conversion -/

inductive Orientation
  | direct | inverse
  deriving DecidableEq

/-- The rate of an edge: the midpoint, or its reciprocal. -/
def edgeRate : Rate × Orientation → ℚ
  | (rate, .direct) => rate.candle.midpointClose
  | (rate, .inverse) => Rounding.div 28 1 rate.candle.midpointClose

/-- `graph`: each rate leads from its base to its quote currency, and back. -/
def conversionGraph (table : List Rate) : BreadthFirst.Graph String (Rate × Orientation) where
  nodes := table.flatMap fun rate => [rate.baseCurrency, rate.quoteCurrency]
  edges currency := table.flatMap fun rate =>
    (if rate.baseCurrency = currency then [(rate.quoteCurrency, rate, .direct)] else []) ++
      if rate.quoteCurrency = currency then [(rate.baseCurrency, rate, .inverse)] else []
  closed currency e mem := by
    obtain ⟨rate, there, mem⟩ := List.mem_flatMap.mp mem
    refine List.mem_flatMap.mpr ⟨rate, there, ?_⟩
    rcases List.mem_append.mp mem with mem | mem <;>
    · split_ifs at mem
      · rw [List.mem_singleton.mp mem]
        simp
      · cases mem

/-- A leg of a conversion path. -/
structure PathLeg where
  instrument : String
  candleId : ℕ
  candleTimestamp : String
  ingestionFinishedAt : Option String
  orientation : Orientation
  fromCurrency : String
  toCurrency : String
  edgeRate : ℚ

/-- The path of the account currency itself, or the legs to it. -/
inductive ConversionPath
  | account
  | legs (path : List PathLeg)

/-- `next_path` is one leg longer; its rate is written with eight decimals. -/
def pathLeg (current : String) (e : String × Rate × Orientation) : PathLeg where
  instrument := e.2.1.instrument
  candleId := e.2.1.candle.id
  candleTimestamp := isoformat e.2.1.candle.timestamp
  ingestionFinishedAt := e.2.1.candle.finishedAt.map isoformat
  orientation := e.2.2
  fromCurrency := current
  toCurrency := e.1
  edgeRate := Rounding.quantize Rounding.halfEven (-8) (edgeRate e.2)

/-- The accumulated rate and the path, one leg later. -/
def addLeg (value : ℚ × List PathLeg) (current : String) (e : String × Rate × Orientation) :
    ℚ × List PathLeg :=
  (Rounding.mul 28 value.1 (edgeRate e.2), value.2 ++ [pathLeg current e])

/-- `quote_to_cad` -/
def quoteToCad (instruments : List Instrument) (quoteCurrency : String) (asOf : Instant) :
    Except Exc (ℚ × ConversionPath) :=
  if quoteCurrency = "CAD" then .ok (1, .account)
  else do
    let table ← rateTable instruments asOf
    match search (conversionGraph table) addLeg "CAD" [(quoteCurrency, 1, [])] [quoteCurrency] with
    | some (rate, path) =>
      let rate ← quantized (-8) rate
      return (rate, .legs path)
    | none =>
      raise .validationError ("No point-in-time " ++ quoteCurrency ++ "/CAD conversion path exists")

/-! ## Chains of rates -/

/-- One unit of the source currency is worth so many of the target. -/
structure Leg where
  source : String
  target : String
  rate : ℚ

/-- The table quotes the leg, in its own direction or in the other. -/
def Leg.QuotedBy (table : List Rate) (leg : Leg) : Prop :=
  ∃ rate ∈ table,
    (leg.source = rate.baseCurrency ∧ leg.target = rate.quoteCurrency ∧
      leg.rate = rate.candle.midpointClose) ∨
    (leg.source = rate.quoteCurrency ∧ leg.target = rate.baseCurrency ∧
      leg.rate = Rounding.div 28 1 rate.candle.midpointClose)

/-- The legs lead from the one currency to the other. -/
def Chain (table : List Rate) : String → List Leg → String → Prop
  | source, [], target => source = target
  | source, leg :: legs, target =>
    leg.source = source ∧ leg.QuotedBy table ∧ Chain table leg.target legs target

/-- The product of the rates of the legs, to 28 digits. -/
def product (legs : List Leg) : ℚ := legs.foldl (fun rate leg => Rounding.mul 28 rate leg.rate) 1

/-- The path names the currencies of the legs, and their rates to eight decimals. -/
def Describes (path : List PathLeg) (legs : List Leg) : Prop :=
  (path.map fun leg => (leg.fromCurrency, leg.toCurrency, leg.edgeRate)) =
    legs.map fun leg => (leg.source, leg.target, Rounding.quantize Rounding.halfEven (-8) leg.rate)

/-- The legs along a walk. -/
def legsOf : String → List (String × Rate × Orientation) → List Leg
  | _, [] => []
  | current, e :: walk => ⟨current, e.1, edgeRate e.2⟩ :: legsOf e.1 walk

section
variable {table : List Rate} {source target : String} {legs : List Leg}
  {walk : List (String × Rate × Orientation)}

theorem mem_edges {e : String × Rate × Orientation} :
    e ∈ (conversionGraph table).edges source ↔ ∃ rate ∈ table,
      (source = rate.baseCurrency ∧ e = (rate.quoteCurrency, rate, .direct)) ∨
      (source = rate.quoteCurrency ∧ e = (rate.baseCurrency, rate, .inverse)) := by
  show e ∈ table.flatMap _ ↔ _
  rw [List.mem_flatMap]
  refine exists_congr fun rate => and_congr_right fun _ => ?_
  rw [List.mem_append]
  refine or_congr ?_ ?_ <;>
  · split_ifs with same
    · rw [List.mem_singleton, same]
      exact (and_iff_right rfl).symm
    · exact ⟨fun h => (by cases h), fun h => absurd h.1.symm same⟩

/-- A walk through the graph is a chain of legs. -/
theorem chain_of_walk (leads : (conversionGraph table).Walk source walk target) :
    Chain table source (legsOf source walk) target := by
  induction walk generalizing source with
  | nil => exact leads
  | cons e walk ih =>
    obtain ⟨edge, rest⟩ := leads
    refine ⟨rfl, ?_, ih rest⟩
    obtain ⟨rate, mem, ⟨from_, rfl⟩ | ⟨from_, rfl⟩⟩ := mem_edges.mp edge
    · exact ⟨rate, mem, .inl ⟨from_, rfl, rfl⟩⟩
    · exact ⟨rate, mem, .inr ⟨from_, rfl, rfl⟩⟩

/-- A chain of legs is walked through the graph. -/
theorem walk_of_chain (chain : Chain table source legs target) :
    ∃ walk, (conversionGraph table).Walk source walk target ∧ legsOf source walk = legs := by
  induction legs generalizing source with
  | nil => exact ⟨[], chain, rfl⟩
  | cons leg legs ih =>
    obtain ⟨rfl, ⟨rate, mem, quoted⟩, rest⟩ := chain
    obtain ⟨walk, leads, rfl⟩ := ih rest
    rcases quoted with ⟨from_, to_, value⟩ | ⟨from_, to_, value⟩
    · refine ⟨(leg.target, rate, .direct) :: walk, ⟨mem_edges.mpr ⟨rate, mem, .inl ⟨from_, ?_⟩⟩,
        leads⟩, ?_⟩
      · rw [to_]
      · rw [legsOf, edgeRate, ← value]
    · refine ⟨(leg.target, rate, .inverse) :: walk, ⟨mem_edges.mpr ⟨rate, mem, .inr ⟨from_, ?_⟩⟩,
        leads⟩, ?_⟩
      · rw [to_]
      · rw [legsOf, edgeRate, ← value]

theorem length_legsOf (source : String) (walk : List (String × Rate × Orientation)) :
    (legsOf source walk).length = walk.length := by
  induction walk generalizing source with
  | nil => rfl
  | cons e walk ih => rw [legsOf, List.length_cons, List.length_cons, ih]

/-- What is collected on a walk is the product of its legs, and a path that describes them. -/
theorem collect_addLeg {value : ℚ × List PathLeg} {before : List Leg}
    (described : Describes value.2 before) :
    (collect addLeg value source walk).1 =
      (legsOf source walk).foldl (fun rate leg => Rounding.mul 28 rate leg.rate) value.1 ∧
    Describes (collect addLeg value source walk).2 (before ++ legsOf source walk) := by
  induction walk generalizing value source before with
  | nil =>
    rw [legsOf, List.append_nil]
    exact ⟨rfl, described⟩
  | cons e walk ih =>
    have next : Describes (addLeg value source e).2
        (before ++ [⟨source, e.1, edgeRate e.2⟩]) := by
      unfold Describes addLeg
      rw [List.map_append, List.map_append, described]
      rfl
    obtain ⟨rate, path⟩ := ih next
    rw [List.append_assoc] at path
    exact ⟨rate, path⟩

variable {instruments : List Instrument} {quoteCurrency : String} {asOf : Instant}

/-- **The conversion** takes a shortest chain of legs to CAD and the product of their rates, or there
is no chain. -/
theorem quoteToCad_spec (apart : quoteCurrency ≠ "CAD")
    (priced : rateTable instruments asOf = .ok table) :
    ((∀ legs, ¬ Chain table quoteCurrency legs "CAD") ∧
      quoteToCad instruments quoteCurrency asOf = raise .validationError
        ("No point-in-time " ++ quoteCurrency ++ "/CAD conversion path exists")) ∨
    ∃ legs path, Chain table quoteCurrency legs "CAD" ∧
      (∀ legs', Chain table quoteCurrency legs' "CAD" → legs.length ≤ legs'.length) ∧
      Describes path legs ∧
      quoteToCad instruments quoteCurrency asOf =
        (quantized (-8) (product legs)).map fun rate => (rate, .legs path) := by
  unfold quoteToCad
  rw [if_neg apart, priced]
  obtain ⟨finds, misses⟩ := @search_spec _ _ _ (conversionGraph table) addLeg "CAD" quoteCurrency
    ((1 : ℚ), []) _ apart
  cases found : search (conversionGraph table) addLeg "CAD" [(quoteCurrency, 1, [])]
      [quoteCurrency] with
  | none =>
    refine .inl ⟨fun legs chain => ?_, ?_⟩
    · obtain ⟨walk, leads, -⟩ := walk_of_chain chain
      exact misses found walk leads
    · simp only [bind, Except.bind, found]
  | some value =>
    obtain ⟨n, walk, leads, collected, rfl, shortest⟩ := finds value found
    have start : Describes ((1 : ℚ), ([] : List PathLeg)).2 [] := rfl
    obtain ⟨rate, path⟩ := @collect_addLeg quoteCurrency walk _ _ start
    rw [collected] at rate path
    refine .inr ⟨legsOf quoteCurrency walk, value.2, chain_of_walk leads, fun legs' chain => ?_, path,
      ?_⟩
    · obtain ⟨walk', leads', rfl⟩ := walk_of_chain chain
      rw [length_legsOf, length_legsOf]
      exact shortest walk' leads'
    · have whole : value.1 = product (legsOf quoteCurrency walk) := rate
      simp only [bind, Except.bind, found]
      rw [← whole]
      cases quantized (-8) value.1 <;> rfl

end

/-! ## Rates of eight decimals -/

theorem abs_halfEven_lt {q : ℚ} {n : ℤ} (small : |q| ≤ n) : |Rounding.halfEven q| ≤ n := by
  obtain ⟨low, high⟩ := abs_le.mp small
  have below := Rounding.halfEven_mono low
  have above := Rounding.halfEven_mono high
  rw [← Int.cast_neg, Rounding.halfEven_intCast] at below
  rw [Rounding.halfEven_intCast] at above
  exact abs_le.mpr ⟨below, above⟩

/-- A midpoint is exact. -/
theorem midpointClose_eq (candle : Candle) :
    candle.midpointClose = (candle.bidClose.value + candle.askClose.value) / 2 ∧
      |candle.midpointClose| ≤ 10 ^ 6 ∧ Rounding.OnGrid (-7) candle.midpointClose := by
  have grid := candle.bidClose.grid.add candle.askClose.grid
  have sum : |candle.bidClose.value + candle.askClose.value| ≤ 2 * 10 ^ 6 :=
    (abs_add_le _ _).trans (by linarith [candle.bidClose.small, candle.askClose.small])
  have half : Rounding.OnGrid (-7) ((candle.bidClose.value + candle.askClose.value) / 2) := by
    obtain ⟨n, same⟩ := grid
    refine ⟨5 * n, ?_⟩
    rw [same]
    push_cast
    norm_num
    ring
  have size : |(candle.bidClose.value + candle.askClose.value) / 2| ≤ 10 ^ 6 := by
    rw [abs_div, abs_two]
    linarith
  have exact_ : Rounding.add 28 candle.bidClose.value candle.askClose.value =
      candle.bidClose.value + candle.askClose.value :=
    Rounding.fl_of_onGrid (by decide) grid (sum.trans (by norm_num))
  have midpoint : candle.midpointClose =
      (candle.bidClose.value + candle.askClose.value) / 2 := by
    unfold Candle.midpointClose
    rw [exact_]
    exact Rounding.fl_of_onGrid (by decide) half (size.trans (by norm_num))
  rw [midpoint]
  exact ⟨rfl, size, half⟩

/-- A midpoint that is not zero is not smaller than a unit of the seventh decimal. -/
theorem le_midpointClose (rate : Rate) : 1 / 10 ^ 7 ≤ |rate.candle.midpointClose| := by
  obtain ⟨n, same⟩ := (midpointClose_eq rate.candle).2.2
  have some_ : n ≠ 0 := by
    rintro rfl
    exact rate.priced (by rw [same, Int.cast_zero, zero_mul])
  have one : (1 : ℚ) ≤ |(n : ℚ)| := by exact_mod_cast Int.one_le_abs some_
  rw [same, abs_mul, abs_of_pos (Rounding.ten_zpow_pos _)]
  calc (1 : ℚ) / 10 ^ 7 = 1 * 10 ^ (-7 : ℤ) := by norm_num
    _ ≤ |(n : ℚ)| * 10 ^ (-7 : ℤ) := mul_le_mul_of_nonneg_right one (by norm_num)

/-- The rate of an edge can be written with eight decimals. -/
theorem holds_edgeRate (e : Rate × Orientation) : standard.Holds (-8) (edgeRate e) := by
  have large := (midpointClose_eq e.1.candle).2.1
  have small := le_midpointClose e.1
  have bound : |edgeRate e| ≤ 10 ^ 7 := by
    obtain ⟨rate, orientation⟩ := e
    cases orientation with
    | direct => exact large.trans (by norm_num)
    | inverse =>
      have reciprocal : |1 / rate.candle.midpointClose| ≤ 10 ^ 7 := by
        rw [abs_div, abs_one, div_le_iff₀ (lt_of_lt_of_le (by norm_num) small)]
        linarith
      obtain ⟨low, high⟩ := abs_le.mp reciprocal
      have power : Rounding.fl 28 (10 ^ 7) = 10 ^ 7 :=
        Rounding.fl_of_representable (by decide) ⟨10 ^ 7, 0, by norm_num, by norm_num⟩
      have below := Rounding.fl_mono (show 0 < (28 : ℕ) by decide) low
      have above := Rounding.fl_mono (show 0 < (28 : ℕ) by decide) high
      rw [Rounding.fl_neg, power] at below
      rw [power] at above
      exact abs_le.mpr ⟨below, above⟩
  have scaled : |edgeRate e / 10 ^ (-8 : ℤ)| ≤ ((10 ^ 15 : ℤ) : ℚ) := by
    rw [abs_div, abs_of_pos (Rounding.ten_zpow_pos _), div_le_iff₀ (Rounding.ten_zpow_pos _)]
    exact bound.trans (by norm_num)
  exact (abs_halfEven_lt scaled).trans_lt (by norm_num [standard])

/-! ## Sizes -/

/-- `SETUP_RISK_CAP_CAD` -/
def setupRiskCapCad : ℚ := 125

/-- The integer nearest to `q`; a tie goes away from zero. -/
def halfUp (q : ℚ) : ℤ := if 0 ≤ q then ⌊q + 1 / 2⌋ else -⌊-q + 1 / 2⌋

/-- `unit_risk_cad` -/
def unitRiskCad (entryLevel invalidationLevel quoteToCadRate : ℚ) : ℚ :=
  Rounding.mul 28 (Rounding.abs 28 (Rounding.sub 28 entryLevel invalidationLevel)) quoteToCadRate

/-- `calculate_size` -/
def calculateSize (entryLevel invalidationLevel quoteToCadRate : ℚ) : Except Exc (ℚ × ℤ × ℚ) :=
  let stopDistance := Rounding.abs 28 (Rounding.sub 28 entryLevel invalidationLevel)
  if stopDistance ≤ 0 then
    raise .validationError "Position sizing requires a positive stop distance"
  else if quoteToCadRate ≤ 0 then
    raise .validationError "Position sizing requires a positive CAD conversion rate"
  else
    let unitRisk := unitRiskCad entryLevel invalidationLevel quoteToCadRate
    let units := ⌊Rounding.div 28 setupRiskCapCad unitRisk⌋
    if units < 1 then raise .validationError "The declared risk cap cannot fund one unit"
    else
      let risk := Rounding.mul 28 units unitRisk
      if |halfUp (risk / 10 ^ (-2 : ℤ))| < 10 ^ 28 then
        .ok (stopDistance, units, min (Rounding.quantize halfUp (-2) risk) setupRiskCapCad)
      else raise .invalidOperation

section
variable {u : ℚ}

/-- **A quotient of the cap is not rounded past an integer** where the unit risk has fourteen
decimals. -/
theorem floor_div_cap (positive : 0 < u) (grid : Rounding.OnGrid (-14) u) :
    ⌊Rounding.div 28 setupRiskCapCad u⌋ = ⌊setupRiskCapCad / u⌋ := by
  obtain ⟨k, same⟩ := grid
  have pos : (0 : ℚ) < 10 ^ (-14 : ℤ) := Rounding.ten_zpow_pos _
  have k_pos : (0 : ℚ) < k := by
    rw [same] at positive
    exact pos_of_mul_pos_left positive pos.le
  have k_one : (1 : ℚ) ≤ k := by exact_mod_cast (Int.cast_pos.mp k_pos : 0 < k)
  have quotient : setupRiskCapCad / u = 125 * 10 ^ 14 / k := by
    rw [same, setupRiskCapCad]
    field_simp
  set q := setupRiskCapCad / u
  have q_nonneg : 0 ≤ q := by
    rw [quotient]
    positivity
  have q_le : q ≤ 125 * 10 ^ 14 := by
    rw [quotient]
    exact div_le_self (by norm_num) k_one
  have integers : ∀ n : ℤ, |n| ≤ 10 ^ 28 → Rounding.fl 28 n = n := fun n small =>
    Rounding.fl_of_representable (by decide) ⟨n, 0, small, by norm_num⟩
  have floor_nonneg : 0 ≤ ⌊q⌋ := Int.floor_nonneg.mpr q_nonneg
  have floor_le : ⌊q⌋ ≤ 10 ^ 17 := by
    have : (⌊q⌋ : ℚ) ≤ 10 ^ 17 := (Int.floor_le q).trans (q_le.trans (by norm_num))
    exact_mod_cast this
  rw [Int.floor_eq_iff]
  constructor
  · -- the integer below is not passed
    have below := Rounding.fl_mono (show 0 < (28 : ℕ) by decide) (Int.floor_le q)
    rwa [integers _ (by rw [abs_of_nonneg floor_nonneg]; omega)] at below
  · -- the integer above is at least a unit of the denominator away
    have error := (abs_le.mp (Rounding.abs_fl_sub_le_mul 28 q)).2
    rw [abs_of_nonneg q_nonneg] at error
    have gap : 1 / (k : ℚ) ≤ (⌊q⌋ : ℚ) + 1 - q := by
      have above := Int.lt_floor_add_one q
      rw [quotient, div_lt_iff₀ k_pos] at above
      have integral : (125 * 10 ^ 14 : ℤ) + 1 ≤ (⌊(125 * 10 ^ 14 / k : ℚ)⌋ + 1) * k := by
        have : (125 * 10 ^ 14 : ℤ) < (⌊(125 * 10 ^ 14 / k : ℚ)⌋ + 1) * k := by exact_mod_cast above
        omega
      have cast : (125 * 10 ^ 14 : ℚ) + 1 ≤ ((⌊q⌋ : ℚ) + 1) * k := by
        rw [quotient]
        exact_mod_cast integral
      rw [div_le_iff₀ k_pos, quotient, sub_mul, div_mul_cancel₀ _ k_pos.ne', ← quotient]
      linarith
    have small : Rounding.unitRoundoff 28 * q < 1 / k := by
      rw [quotient, Rounding.unitRoundoff, lt_div_iff₀ k_pos, mul_assoc, div_mul_cancel₀ _ k_pos.ne']
      norm_num
    show Rounding.fl 28 q < ⌊q⌋ + 1
    linarith

/-- Amounts up to the cap have room for two decimals. -/
theorem halfUp_lt {risk : ℚ} (nonneg : 0 ≤ risk) (small : risk ≤ setupRiskCapCad) :
    |halfUp (risk / 10 ^ (-2 : ℤ))| < 10 ^ 28 := by
  have low : 0 ≤ risk / 10 ^ (-2 : ℤ) := div_nonneg nonneg (Rounding.ten_zpow_pos _).le
  have high : risk / 10 ^ (-2 : ℤ) + 1 / 2 ≤ 12501 := by
    rw [setupRiskCapCad] at small
    norm_num
    linarith
  unfold halfUp
  rw [if_pos low, abs_of_nonneg (Int.floor_nonneg.mpr (by linarith))]
  have floor : (⌊risk / 10 ^ (-2 : ℤ) + 1 / 2⌋ : ℚ) ≤ 12501 := (Int.floor_le _).trans high
  have floor' : ⌊risk / 10 ^ (-2 : ℤ) + 1 / 2⌋ ≤ 12501 := by exact_mod_cast floor
  omega

end

section
variable {entryLevel invalidationLevel quoteToCadRate : ℚ}

/-- Levels of six decimals and a rate of eight give a unit risk of fourteen. -/
theorem onGrid_unitRiskCad (entry : Rounding.OnGrid (-6) entryLevel)
    (invalidation : Rounding.OnGrid (-6) invalidationLevel)
    (rate : Rounding.OnGrid (-8) quoteToCadRate) :
    Rounding.OnGrid (-14) (unitRiskCad entryLevel invalidationLevel quoteToCadRate) := by
  have difference : Rounding.OnGrid (-6) (entryLevel - invalidationLevel) := by
    rw [sub_eq_add_neg]
    exact entry.add invalidation.neg
  exact (difference.fl.abs.fl.mul rate).fl

theorem unitRiskCad_pos
    (stop : 0 < Rounding.abs 28 (Rounding.sub 28 entryLevel invalidationLevel))
    (rate : 0 < quoteToCadRate) : 0 < unitRiskCad entryLevel invalidationLevel quoteToCadRate :=
  Rounding.fl_pos (by decide) (mul_pos stop rate)

/-- The risk of the units that are funded is not rounded past the cap. -/
theorem risk_le_cap {u : ℚ} {units : ℤ} (funded : units * u ≤ setupRiskCapCad) :
    Rounding.mul 28 units u ≤ setupRiskCapCad := by
  have cap : Rounding.fl 28 setupRiskCapCad = setupRiskCapCad :=
    Rounding.fl_of_representable (by decide) ⟨125, 0, by norm_num, by norm_num [setupRiskCapCad]⟩
  have below := Rounding.fl_mono (show 0 < (28 : ℕ) by decide) funded
  rwa [cap] at below

theorem isGreatest_floor {u : ℚ} (positive : 0 < u) :
    IsGreatest {n : ℤ | (n : ℚ) * u ≤ setupRiskCapCad} ⌊setupRiskCapCad / u⌋ := by
  constructor
  · exact (le_div_iff₀ positive).mp (Int.floor_le _)
  · exact fun n funded => Int.le_floor.mpr ((le_div_iff₀ positive).mpr funded)

/-- **The size** is the largest number of units whose risk is within the cap, and there is one
wherever the cap funds a unit. -/
theorem calculateSize_spec (entry : Rounding.OnGrid (-6) entryLevel)
    (invalidation : Rounding.OnGrid (-6) invalidationLevel)
    (rate : Rounding.OnGrid (-8) quoteToCadRate) :
    (∀ size, calculateSize entryLevel invalidationLevel quoteToCadRate = .ok size →
      IsGreatest {n : ℤ | (n : ℚ) * unitRiskCad entryLevel invalidationLevel quoteToCadRate ≤
        setupRiskCapCad} size.2.1 ∧ 1 ≤ size.2.1 ∧ size.2.2 ≤ setupRiskCapCad) ∧
    (entryLevel ≠ invalidationLevel → 0 < quoteToCadRate →
      unitRiskCad entryLevel invalidationLevel quoteToCadRate ≤ setupRiskCapCad →
      ∃ size, calculateSize entryLevel invalidationLevel quoteToCadRate = .ok size) := by
  have grid := onGrid_unitRiskCad entry invalidation rate
  unfold calculateSize
  simp only
  constructor
  · intro size h
    split_ifs at h with stop rate_ units room
    · cases h
    · cases h
    · cases h
    · cases h
      have positive := unitRiskCad_pos (not_le.mp stop) (not_le.mp rate_)
      rw [floor_div_cap positive grid] at units ⊢
      exact ⟨isGreatest_floor positive, not_lt.mp units, min_le_right _ _⟩
    · cases h
  · intro apart rate_ funded
    have stop : 0 < Rounding.abs 28 (Rounding.sub 28 entryLevel invalidationLevel) := by
      have difference := Rounding.fl_ne_zero (show 0 < (28 : ℕ) by decide) (sub_ne_zero.mpr apart)
      exact Rounding.fl_pos (by decide) (abs_pos.mpr difference)
    have positive := unitRiskCad_pos stop rate_
    have one : (1 : ℤ) ≤ ⌊setupRiskCapCad /
        unitRiskCad entryLevel invalidationLevel quoteToCadRate⌋ := by
      rw [Int.le_floor, Int.cast_one]
      exact (one_le_div positive).mpr funded
    rw [if_neg (not_le.mpr stop), if_neg (not_le.mpr rate_), floor_div_cap positive grid,
      if_neg (not_lt.mpr one)]
    refine ⟨_, if_pos ?_⟩
    have risk := risk_le_cap (isGreatest_floor positive).1
    set units := ⌊setupRiskCapCad / unitRiskCad entryLevel invalidationLevel quoteToCadRate⌋
    have nonneg : 0 ≤ Rounding.mul 28 units
        (unitRiskCad entryLevel invalidationLevel quoteToCadRate) :=
      Rounding.fl_nonneg 28 (mul_nonneg (by exact_mod_cast zero_le_one.trans one) positive.le)
    exact halfUp_lt nonneg risk

end

/-- **Conversion and size**: the conversion takes a shortest chain of rates and their product, where
there is a chain, and the rate of each leg can be written; the size is the largest within the cap. -/
theorem position_sizing :
    (∀ instruments quoteCurrency asOf table, quoteCurrency ≠ "CAD" →
      rateTable instruments asOf = .ok table →
      ((∀ legs, ¬ Chain table quoteCurrency legs "CAD") ∧
        quoteToCad instruments quoteCurrency asOf = raise .validationError
          ("No point-in-time " ++ quoteCurrency ++ "/CAD conversion path exists")) ∨
      ∃ legs path, Chain table quoteCurrency legs "CAD" ∧
        (∀ legs', Chain table quoteCurrency legs' "CAD" → legs.length ≤ legs'.length) ∧
        Describes path legs ∧
        quoteToCad instruments quoteCurrency asOf =
          (quantized (-8) (product legs)).map fun rate => (rate, .legs path)) ∧
    (∀ e, standard.Holds (-8) (edgeRate e)) ∧
    ∀ entryLevel invalidationLevel quoteToCadRate : ℚ, Rounding.OnGrid (-6) entryLevel →
      Rounding.OnGrid (-6) invalidationLevel → Rounding.OnGrid (-8) quoteToCadRate →
      (∀ size, calculateSize entryLevel invalidationLevel quoteToCadRate = .ok size →
        IsGreatest {n : ℤ | (n : ℚ) * unitRiskCad entryLevel invalidationLevel quoteToCadRate ≤
          setupRiskCapCad} size.2.1 ∧ 1 ≤ size.2.1 ∧ size.2.2 ≤ setupRiskCapCad) ∧
      (entryLevel ≠ invalidationLevel → 0 < quoteToCadRate →
        unitRiskCad entryLevel invalidationLevel quoteToCadRate ≤ setupRiskCapCad →
        ∃ size, calculateSize entryLevel invalidationLevel quoteToCadRate = .ok size) :=
  ⟨fun _ _ _ _ apart priced => quoteToCad_spec apart priced, holds_edgeRate,
    fun _ _ _ => calculateSize_spec⟩

/-! ## Sample rates -/

/-- A price of so many millionths. -/
def millionths (n : ℤ) (small : |n| < 10 ^ 12) : Price where
  value := n * 10 ^ (-6 : ℤ)
  grid := ⟨n, rfl⟩
  small := by
    rw [abs_mul, abs_of_pos (Rounding.ten_zpow_pos _)]
    have : |(n : ℚ)| < 10 ^ 12 := by exact_mod_cast small
    calc |(n : ℚ)| * 10 ^ (-6 : ℤ) < 10 ^ 12 * 10 ^ (-6 : ℤ) :=
          mul_lt_mul_of_pos_right this (Rounding.ten_zpow_pos _)
      _ = 10 ^ 6 := by norm_num

/-- An instrument with one candle, closed at one price. -/
def closedAt (base quote : String) (order : ℕ) (price : Price) : Instrument :=
  ⟨base ++ "_" ++ quote, base, quote, order, true, [⟨order, 0, some 0, price, price⟩]⟩

theorem midpointClose_closedAt (order : ℕ) (price : Price) :
    (Candle.mk order 0 (some 0) price price).midpointClose = price.value := by
  rw [(midpointClose_eq _).1]
  show (price.value + price.value) / 2 = price.value
  ring

/-- The rate of an instrument with one candle. -/
def rated (base quote : String) (order : ℕ) (price : Price) (nonzero : price.value ≠ 0) : Rate :=
  ⟨base ++ "_" ++ quote, base, quote, ⟨order, 0, some 0, price, price⟩,
    (midpointClose_closedAt order price).symm ▸ nonzero⟩

theorem rateAt_closedAt {base quote : String} {order : ℕ} {price : Price}
    (nonzero : price.value ≠ 0) :
    rateAt 0 (closedAt base quote order price) = .ok (some (rated base quote order price nonzero)) := by
  have priced : (Candle.mk order 0 (some 0) price price).midpointClose ≠ 0 := by
    rw [midpointClose_closedAt]
    exact nonzero
  show (if _ : (Candle.mk order 0 (some 0) price price).midpointClose = 0 then _ else _) = _
  rw [dif_neg priced]
  rfl

theorem millionths_ne_zero {n : ℤ} (small : |n| < 10 ^ 12) (nonzero : n ≠ 0) :
    (millionths n small).value ≠ 0 :=
  mul_ne_zero (by exact_mod_cast nonzero) (Rounding.ten_zpow_pos _).ne'

/-- Four pairs between JPY and CAD, each of a rate of 100000. -/
def largeRates : List Instrument :=
  [closedAt "EUR" "JPY" 1 (millionths 10 (by decide)),
    closedAt "EUR" "GBP" 2 (millionths 100000000000 (by decide)),
    closedAt "GBP" "USD" 3 (millionths 100000000000 (by decide)),
    closedAt "USD" "CAD" 4 (millionths 100000000000 (by decide))]

def largeTable : List Rate :=
  [rated "EUR" "JPY" 1 (millionths 10 (by decide)) (millionths_ne_zero _ (by decide)),
    rated "EUR" "GBP" 2 (millionths 100000000000 (by decide)) (millionths_ne_zero _ (by decide)),
    rated "GBP" "USD" 3 (millionths 100000000000 (by decide)) (millionths_ne_zero _ (by decide)),
    rated "USD" "CAD" 4 (millionths 100000000000 (by decide)) (millionths_ne_zero _ (by decide))]

theorem rateTable_largeRates : rateTable largeRates 0 = .ok largeTable := by
  have ordered : sortedBy (fun instrument => toLex (instrument.displayOrder, instrument.code))
      (largeRates.filter Instrument.active) = largeRates := rfl
  have small := millionths_ne_zero (n := 10) (by decide) (by decide)
  have large := millionths_ne_zero (n := 100000000000) (by decide) (by decide)
  unfold rateTable
  rw [ordered, largeRates]
  simp only [filterMapE, rateAt_closedAt small, rateAt_closedAt large]
  rfl

-- evaluated once: apart, one of these waits for the other
theorem sizes_evaluated :
    unitRiskCad (11 / 10) 1 (135 / 100) ≤ setupRiskCapCad ∧
    calculateSize (4166666666666666666666666667 / 10 ^ 26) 0 1 =
      .ok (4166666666666666666666666667 / 10 ^ 26, 3, 125) ∧
    unitRiskCad (4166666666666666666666666667 / 10 ^ 26) 0 1 * 3 > setupRiskCapCad := by
  decide +kernel

/-- A dollar is converted at the price of its pair, and a stop of a tenth of a dollar sized by it. -/
theorem position_sizing_dollar :
    (∃ table legs path, rateTable [closedAt "USD" "CAD" 4 (millionths 1350000 (by decide))] 0 =
        .ok table ∧ Chain table "USD" legs "CAD" ∧
      quoteToCad [closedAt "USD" "CAD" 4 (millionths 1350000 (by decide))] "USD" 0 =
        (quantized (-8) (product legs)).map fun rate => (rate, .legs path)) ∧
    ∃ size, calculateSize (11 / 10) 1 (135 / 100) = .ok size ∧
      IsGreatest {n : ℤ | (n : ℚ) * unitRiskCad (11 / 10) 1 (135 / 100) ≤ setupRiskCapCad}
        size.2.1 := by
  constructor
  · have nonzero := millionths_ne_zero (n := 1350000) (by decide) (by decide)
    have table : rateTable [closedAt "USD" "CAD" 4 (millionths 1350000 (by decide))] 0 =
        .ok [rated "USD" "CAD" 4 (millionths 1350000 (by decide)) nonzero] := by
      have ordered : sortedBy (fun instrument => toLex (instrument.displayOrder, instrument.code))
          (List.filter Instrument.active [closedAt "USD" "CAD" 4 (millionths 1350000 (by decide))]) =
          [closedAt "USD" "CAD" 4 (millionths 1350000 (by decide))] := rfl
      unfold rateTable
      rw [ordered]
      simp only [filterMapE, rateAt_closedAt nonzero]
      rfl
    rcases position_sizing.1 _ "USD" 0 _ (by decide) table with ⟨none, -⟩ | ⟨legs, path, found⟩
    · exact absurd ⟨rfl, ⟨_, List.mem_singleton.mpr rfl, .inl ⟨rfl, rfl, rfl⟩⟩, rfl⟩
        (none [⟨"USD", "CAD", _⟩])
    · exact ⟨_, legs, path, table, found.1, found.2.2.2⟩
  · obtain ⟨greatest, funded⟩ := position_sizing.2.2 (11 / 10) 1 (135 / 100)
      ⟨1100000, by norm_num⟩ ⟨1000000, by norm_num⟩ ⟨135000000, by norm_num⟩
    obtain ⟨size, sized⟩ := funded (by norm_num) (by norm_num) sizes_evaluated.1
    exact ⟨size, sized, (greatest size sized).1⟩

/-- The search finds the four legs. -/
theorem search_largeTable : ∃ value,
    search (conversionGraph largeTable) addLeg "CAD" [("JPY", 1, [])] ["JPY"] = some value ∧
      value.1 = 10 ^ 20 := by
  have power : ∀ i j : ℕ, Rounding.mul 28 (10 ^ i) (10 ^ j) = 10 ^ (i + j) := by
    intro i j
    rw [Rounding.mul, ← pow_add]
    refine Rounding.fl_of_representable (by decide) ⟨1, (i + j : ℕ), by norm_num, ?_⟩
    rw [Int.cast_one, one_mul, zpow_natCast]
  have inverse : Rounding.div 28 1 (10 ^ (-5 : ℤ)) = 10 ^ 5 := by
    have exact_ : (1 : ℚ) / 10 ^ (-5 : ℤ) = 10 ^ 5 := by norm_num
    rw [Rounding.div, exact_]
    exact Rounding.fl_of_representable (by decide) ⟨1, 5, by norm_num, by norm_num⟩
  have small : (millionths 10 (by decide)).value = 10 ^ (-5 : ℤ) := by norm_num [millionths]
  have large : (millionths 100000000000 (by decide)).value = 10 ^ 5 := by norm_num [millionths]
  rw [search_step (by simp [conversionGraph, largeTable, rated, visit]; exact ⟨rfl, rfl⟩),
    search_step (by simp [conversionGraph, largeTable, rated, visit]; exact ⟨rfl, rfl⟩),
    search_step (by simp [conversionGraph, largeTable, rated, visit]; exact ⟨rfl, rfl⟩),
    search_found (by simp [conversionGraph, largeTable, rated, visit]; rfl)]
  refine ⟨_, rfl, ?_⟩
  simp only [addLeg, edgeRate, midpointClose_closedAt, small, large, inverse]
  rw [← pow_zero 10, power, power, power, power]

/-- The product of the four legs has no room for eight decimals, and a unit risk of 26 decimals is
rounded to a third unit. -/
theorem largeRates_and_third_unit :
    (∃ table, rateTable largeRates 0 = .ok table ∧ (∃ legs, Chain table "JPY" legs "CAD") ∧
      quoteToCad largeRates "JPY" 0 = raise .invalidOperation) ∧
    calculateSize (4166666666666666666666666667 / 10 ^ 26) 0 1 =
      .ok (4166666666666666666666666667 / 10 ^ 26, 3, 125) ∧
    unitRiskCad (4166666666666666666666666667 / 10 ^ 26) 0 1 * 3 > setupRiskCapCad := by
  obtain ⟨value, found, rate⟩ := search_largeTable
  refine ⟨⟨largeTable, rateTable_largeRates, ?_, ?_⟩, sizes_evaluated.2⟩
  · obtain ⟨-, walk, leads, -⟩ := (search_spec (by decide)).1 value found
    exact ⟨_, chain_of_walk leads⟩
  · have full : (10 : ℚ) ^ 20 / 10 ^ (-8 : ℤ) = ((10 ^ 28 : ℤ) : ℚ) := by norm_num
    have room : ¬ standard.Holds (-8) (10 ^ 20) := by
      rw [Context.Holds, full, Rounding.halfEven_intCast]
      norm_num [standard]
    unfold quoteToCad
    rw [if_neg (by decide), rateTable_largeRates]
    simp only [bind, Except.bind, found, rate, quantized]
    rw [if_neg room]
    rfl

end TradeRecommender.Forecasts.Sizing
