import Mathlib.Data.Prod.Lex
import Mathlib.Data.Rat.Floor
import TradeRecommender.Lib.Civil
import TradeRecommender.Lib.Rounding
import TradeRecommender.Lib.Runs
import TradeRecommender.Lib.Sorted
import TradeRecommender.Lib.Tables

/-!
# Provider budgets

The reservations of a provider's budget in `operations/services.py`, and the accounts of
`operations/accounting.py` that report on them.

1. rows, with the amounts of a column in units of its last place;
2. `reserve_provider_budget` and what a reservation becomes;
3. the estimates of its callers;
4. `provider_accounts`;
5. what one call does;
6. every run: the caps hold, keys are unique, money statuses stay and the accounts show the sums of
   the gate.
-/

namespace TradeRecommender.Operations

open Py Civil Runs

/-! ## Rows -/

/-- `ProviderBudget`: caps in ten-thousandths of a dollar. -/
structure ProviderBudget where
  id : ℕ
  provider : String
  purpose : String
  dailyCap : ℤ
  monthlyCap : ℤ
  deriving DecidableEq

/-- `ProviderBudgetReservation.Status` -/
inductive MoneyStatus
  | reserved | settled | released | uncertain
  deriving DecidableEq

/-- `ProviderBudgetReservation.Outcome`, or blank. -/
inductive ReservationOutcome
  | blank | pending | validated | rejected | capExceeded | providerFailed
  deriving DecidableEq

/-- `ProviderBudgetReservation`: amounts in millionths of a dollar. -/
structure Reservation where
  id : ℕ
  budget : ℕ
  idempotencyKey : String
  estimatedUsd : ℤ
  actualUsd : Option ℤ
  status : MoneyStatus
  outcome : ReservationOutcome
  requestedModel : String
  returnedModel : String
  pricingVersion : String
  usageIdentity : String
  budgetAt : Instant
  deriving DecidableEq

/-- The tables of the budgets. -/
structure Budgets where
  budgets : List ProviderBudget
  reservations : List Reservation

/-- The nearest integer, a tie away from zero, as a numeric column rounds. -/
def halfAway (q : ℚ) : ℤ := if 0 ≤ q then ⌊q + 1 / 2⌋ else -⌊-q + 1 / 2⌋

/-- An amount as the column of twelve digits, six of them decimals, stores it. -/
def storeUsd (usd : ℚ) : Except Exc ℤ :=
  if |halfAway (usd * 1000000)| < 1000000000000 then .ok (halfAway (usd * 1000000))
  else raise .databaseError "numeric field overflow"

/-- `text[:length]` -/
def clip (length : ℕ) (text : String) : String := String.ofList (text.toList.take length)

/-! ## Operations -/

/-- `_reservation_amount`, as an addend of a sum. -/
def reservationAmount (row : Reservation) : Except Exc ℤ :=
  match row.status with
  | .settled =>
    match row.actualUsd with
    | some actual => .ok actual
    | none => raise .typeError "unsupported operand type(s) for +: 'Decimal' and 'NoneType'"
  | .uncertain => .ok (row.actualUsd.getD row.estimatedUsd)
  | .reserved => .ok row.estimatedUsd
  | .released => .ok 0

/-- `sum(_reservation_amount(row) for row in rows)` -/
def spent (rows : List Reservation) : Except Exc ℤ := do
  let amounts ← mapE reservationAmount rows
  return amounts.sum

/-- `budget_at__date=now.date()` -/
def onDay (days : ℤ) (row : Reservation) : Bool := row.budgetAt / day = days

/-- `budget_at__year=now.year, budget_at__month=now.month` -/
def inMonth (year month : ℤ) (row : Reservation) : Bool :=
  (Date.ofDays (row.budgetAt / day)).year = year && (Date.ofDays (row.budgetAt / day)).month = month

namespace Budgets

variable (s : Budgets)

/-- `ProviderBudget.objects.get(provider=provider, purpose=purpose)` -/
def getBudget (provider purpose : String) : Except Exc ProviderBudget :=
  match s.budgets.find? fun b => b.provider = provider && b.purpose = purpose with
  | some budget => .ok budget
  | none => raise (.other "DoesNotExist") "ProviderBudget matching query does not exist."

/-- `ProviderBudgetReservation.objects.get(pk=pk)` -/
def get (id : ℕ) : Except Exc Reservation :=
  match s.reservations.find? fun row => row.id = id with
  | some row => .ok row
  | none => raise (.other "DoesNotExist") "ProviderBudgetReservation matching query does not exist."

/-- `row.save()` -/
def save (row : Reservation) : Budgets :=
  { s with reservations := Tables.put Reservation.id s.reservations row }

/-- The sums of a day and of a month that `reserve_provider_budget` compares with the caps. -/
def gateSums (budget : ProviderBudget) (now : Instant) : Except Exc (ℤ × ℤ) := do
  let rows := s.reservations.filter fun row => row.budget = budget.id && row.status ≠ .released
  let date := Date.ofDays (now / day)
  let daily ← spent (rows.filter (onDay (now / day)))
  let monthly ← spent (rows.filter (inMonth date.year date.month))
  return (daily, monthly)

/-- `reserve_provider_budget` -/
def reserve (provider purpose idempotencyKey : String) (estimatedUsd : ℚ) (now : Instant)
    (requestedModel pricingVersion : String) : Except Exc (Option Reservation × Budgets) :=
  match s.reservations.find? fun row => row.idempotencyKey = idempotencyKey with
  | some existing => .ok (some existing, s)
  | none => do
    let budget ← s.getBudget provider purpose
    let (daily, monthly) ← s.gateSums budget now
    if (budget.dailyCap * 100 : ℚ) < daily + estimatedUsd * 1000000 ∨
        (budget.monthlyCap * 100 : ℚ) < monthly + estimatedUsd * 1000000 then
      return (none, s)
    else do
      let stored ← storeUsd estimatedUsd
      let row : Reservation :=
        { id := s.reservations.length + 1
          budget := budget.id
          idempotencyKey := idempotencyKey
          estimatedUsd := stored
          actualUsd := none
          status := .reserved
          outcome := .pending
          requestedModel := clip 120 requestedModel
          returnedModel := ""
          pricingVersion := clip 80 pricingVersion
          usageIdentity := ""
          budgetAt := now }
      return (some row, { s with reservations := s.reservations ++ [row] })

/-- The reported identities of a settled reservation. -/
def reported (row : Reservation) (returnedModel usageIdentity pricingVersion : Option String) :
    Reservation :=
  { row with
    returnedModel := (returnedModel.map (clip 120)).getD row.returnedModel
    usageIdentity := (usageIdentity.map (clip 160)).getD row.usageIdentity
    pricingVersion := if row.pricingVersion = "" then
        (pricingVersion.map (clip 80)).getD row.pricingVersion
      else row.pricingVersion }

/-- `settle_provider_budget` -/
def settle (id : ℕ) (actualUsd : ℚ) (returnedModel usageIdentity pricingVersion : Option String) :
    Except Exc (Bool × Budgets) := do
  let row ← s.get id
  if row.status ≠ .reserved then return (false, s)
  else do
    let stored ← storeUsd actualUsd
    let row := reported { row with status := .settled, actualUsd := some stored } returnedModel
      usageIdentity pricingVersion
    return (true, s.save row)

/-- `record_reservation_outcome` -/
def recordOutcome (id : ℕ) (outcome : ReservationOutcome) : Except Exc (Bool × Budgets) := do
  let row ← s.get id
  -- a blank outcome is left blank, a recorded one is never rewritten
  if row.outcome ≠ .pending then return (false, s)
  else return (true, s.save { row with outcome := outcome })

/-- `release_provider_budget` -/
def release (id : ℕ) : Except Exc (Bool × Budgets) := do
  let row ← s.get id
  if row.status ≠ .reserved then return (false, s)
  else return (true, s.save { row with status := .released })

/-- `mark_provider_budget_uncertain` -/
def markUncertain (id : ℕ) (actualUsd : Option ℚ) : Except Exc (Bool × Budgets) := do
  let row ← s.get id
  if row.status ≠ .reserved then return (false, s)
  else match actualUsd with
    | none => return (true, s.save { row with status := .uncertain, actualUsd := none })
    | some usd => do
      let stored ← storeUsd usd
      return (true, s.save { row with status := .uncertain, actualUsd := some stored })

end Budgets

/-! ## Estimates -/

/-- `_cost` of `forecasts/recommendations.py`, at prices of a million tokens. -/
def recommendationCost (inputTokens outputTokens : ℕ) (inputUsd outputUsd : ℚ) : ℚ :=
  Rounding.quantize Rounding.halfEven (-6) (inputTokens * inputUsd + outputTokens * outputUsd) /
    1000000

/-- `_cost` of `forecasts/interpretations.py`, at prices of a million tokens. -/
def interpretationCost (inputTokens outputTokens : ℕ) (inputUsd outputUsd : ℚ) : ℚ :=
  Rounding.quantize Rounding.halfEven (-6)
    ((inputTokens * inputUsd + outputTokens * outputUsd) / 1000000)

/-- What the callers reserve is no negative amount. -/
theorem cost_nonneg {inputUsd outputUsd : ℚ} (input : 0 ≤ inputUsd) (output : 0 ≤ outputUsd)
    (inputTokens outputTokens : ℕ) :
    0 ≤ recommendationCost inputTokens outputTokens inputUsd outputUsd ∧
      0 ≤ interpretationCost inputTokens outputTokens inputUsd outputUsd := by
  have rounds {q : ℚ} (h : 0 ≤ q) : 0 ≤ Rounding.quantize Rounding.halfEven (-6) q := by
    have zero : Rounding.quantize Rounding.halfEven (-6) 0 = 0 := by simp [Rounding.quantize]
    rw [← zero]
    exact Rounding.quantize_mono Rounding.halfEven_monotone (-6) h
  have price : 0 ≤ inputTokens * inputUsd + outputTokens * outputUsd := by positivity
  exact ⟨div_nonneg (rounds price) (by norm_num), rounds (div_nonneg price (by norm_num))⟩

/-! ## Accounts -/

/-- `ProviderAccount` -/
structure ProviderAccount where
  budget : ProviderBudget
  period : String
  cap : ℤ
  reservedEstimateUsd : ℤ := 0
  reservedCount : ℕ := 0
  settledCostUsd : ℤ := 0
  settledCount : ℕ := 0
  uncertainCount : ℕ := 0
  uncertainUsd : ℤ := 0
  releasedCount : ℕ := 0
  validatedCount : ℕ := 0
  rejectedCount : ℕ := 0
  failedPaidCount : ℕ := 0
  failedPaidUsd : ℤ := 0
  outcomeNotRecordedCount : ℕ := 0
  reconciledRecommendations : ℕ := 0
  settledWithoutRecommendation : ℕ := 0
  committedUsd : ℤ := 0
  rows : List Reservation := []

/-- `_committed` -/
def committed (row : Reservation) : ℤ :=
  match row.status with
  | .settled => row.actualUsd.getD 0
  | .uncertain => row.actualUsd.getD row.estimatedUsd
  | .reserved => row.estimatedUsd
  | .released => 0

namespace ProviderAccount

variable (account : ProviderAccount) (row : Reservation)

/-- What a row adds under its money status. -/
def addStatus : ProviderAccount :=
  match row.status with
  | .reserved =>
    { account with
      reservedCount := account.reservedCount + 1
      reservedEstimateUsd := account.reservedEstimateUsd + row.estimatedUsd }
  | .settled =>
    { account with
      settledCount := account.settledCount + 1
      settledCostUsd := account.settledCostUsd + row.actualUsd.getD 0 }
  | .uncertain =>
    { account with
      uncertainCount := account.uncertainCount + 1
      uncertainUsd := account.uncertainUsd + committed row }
  | .released => { account with releasedCount := account.releasedCount + 1 }

/-- What a row adds under its outcome. -/
def addOutcome : ProviderAccount :=
  match row.outcome with
  | .validated => { account with validatedCount := account.validatedCount + 1 }
  | .rejected => { account with rejectedCount := account.rejectedCount + 1 }
  | .blank => { account with outcomeNotRecordedCount := account.outcomeNotRecordedCount + 1 }
  | .capExceeded | .providerFailed | .pending => account

/-- A response that was paid for and refused. -/
def addFailedPaid : ProviderAccount :=
  if row.status = .settled ∧ (row.outcome = .rejected ∨ row.outcome = .capExceeded) then
    { account with
      failedPaidCount := account.failedPaidCount + 1
      failedPaidUsd := account.failedPaidUsd + row.actualUsd.getD 0 }
  else account

/-- `RECOMMENDATION_KEY_PREFIX` -/
def recommendationKeyPrefix : String := "recommendation:"

/-- The reconciliation of a row with the recommendations. -/
def reconcile (recommendationKeys : List String) : ProviderAccount :=
  if recommendationKeyPrefix.toList.isPrefixOf row.idempotencyKey.toList then
    if row.idempotencyKey ∈ recommendationKeys then
      { account with reconciledRecommendations := account.reconciledRecommendations + 1 }
    else if row.status = .settled then
      { account with settledWithoutRecommendation := account.settledWithoutRecommendation + 1 }
    else account
  else account

/-- The turn of the loop over the rows of a period. -/
def add (recommendationKeys : List String) : ProviderAccount :=
  let account :=
    { account with
      rows := account.rows ++ [row]
      committedUsd := account.committedUsd + committed row }
  (((account.addStatus row).addOutcome row).addFailedPaid row).reconcile row recommendationKeys

end ProviderAccount

namespace Budgets

variable (s : Budgets)

/-- The accounts of a budget, of the day and of the month. -/
def accountsOf (recommendationKeys : List String) (now : Instant) (budget : ProviderBudget) :
    List ProviderAccount :=
  let rows := sortedBy (fun row : Reservation => toLex (-row.budgetAt, -(row.id : ℤ)))
    (s.reservations.filter fun row => row.budget = budget.id)
  let date := Date.ofDays (now / day)
  [("today", budget.dailyCap, onDay (now / day)),
    ("month", budget.monthlyCap, inMonth date.year date.month)].map
    fun (period, cap, selector) =>
      (rows.filter selector).foldl (fun account row => account.add row recommendationKeys)
        { budget := budget, period := period, cap := cap }

/-- `provider_accounts` -/
def providerAccounts (recommendations : List String) (now : Instant) : List ProviderAccount :=
  (sortedBy (fun b : ProviderBudget => toLex (b.provider, b.purpose)) s.budgets).flatMap
    (s.accountsOf (recommendations.map (ProviderAccount.recommendationKeyPrefix ++ ·)) now)

/-! ## Events -/

/-- A call of an operation. -/
inductive Event
  | reserve (provider purpose idempotencyKey : String) (estimatedUsd : ℚ) (now : Instant)
      (requestedModel pricingVersion : String)
  | settle (id : ℕ) (actualUsd : ℚ) (returnedModel usageIdentity pricingVersion : Option String)
  | recordOutcome (id : ℕ) (outcome : ReservationOutcome)
  | release (id : ℕ)
  | markUncertain (id : ℕ) (actualUsd : Option ℚ)

/-- What a call leaves; a call that raises leaves everything as it was. -/
def kept {α : Type} (result : Except Exc (α × Budgets)) : Budgets :=
  match result with
  | .ok (_, s') => s'
  | .error _ => s

/-- One call. -/
def step : Event → Budgets
  | .reserve provider purpose key usd now model pricing =>
    s.kept (s.reserve provider purpose key usd now model pricing)
  | .settle id usd model usage pricing => s.kept (s.settle id usd model usage pricing)
  | .recordOutcome id outcome => s.kept (s.recordOutcome id outcome)
  | .release id => s.kept (s.release id)
  | .markUncertain id usd => s.kept (s.markUncertain id usd)

/-- An actual cost that would be recorded is at most the estimate of its reservation. -/
def WithinEstimate (id : ℕ) (actualUsd : ℚ) : Prop :=
  ∀ row ∈ s.reservations, row.id = id → row.status = .reserved →
    ∀ stored, storeUsd actualUsd = .ok stored → stored ≤ row.estimatedUsd

/-- The calls of a run: an estimate is the price of some tokens, and no recorded actual cost is
above its estimate. -/
def Allowed : Event → Prop
  | .reserve _ _ _ usd _ _ _ => 0 ≤ usd
  | .settle id usd _ _ _ => s.WithinEstimate id usd
  | .markUncertain id usd => ∀ actual, usd = some actual → s.WithinEstimate id actual
  | .recordOutcome _ _ | .release _ => True

/-- Budgets before any reservation. -/
structure Fresh : Prop where
  ids : (s.budgets.map ProviderBudget.id).Nodup
  empty : s.reservations = []

end Budgets

/-! ## What one call does -/

theorem halfAway_le {q : ℚ} {k : ℤ} (h : q ≤ k) : halfAway q ≤ k := by
  unfold halfAway
  split_ifs with sign
  · have floor := Int.floor_le (q + 1 / 2)
    have below : (⌊q + 1 / 2⌋ : ℚ) < k + 1 := by linarith
    have below : ⌊q + 1 / 2⌋ < k + 1 := by exact_mod_cast below
    omega
  · have above : -k ≤ ⌊-q + 1 / 2⌋ := by
      rw [Int.le_floor]
      push_cast
      linarith
    omega

theorem halfAway_nonneg {q : ℚ} (h : 0 ≤ q) : 0 ≤ halfAway q := by
  unfold halfAway
  rw [if_pos h, Int.floor_nonneg]
  linarith

theorem storeUsd_eq_ok {usd : ℚ} {stored : ℤ} (h : storeUsd usd = .ok stored) :
    stored = halfAway (usd * 1000000) := by
  unfold storeUsd at h
  split_ifs at h
  · exact (Except.ok.inj h).symm
  · exact absurd h raise_ne_ok

/-- An amount that fits under a bound in whole millionths still fits when it is stored. -/
theorem storeUsd_le {usd : ℚ} {stored spent cap : ℤ} (h : storeUsd usd = .ok stored)
    (fits : ¬ (cap * 100 : ℚ) < spent + usd * 1000000) : spent + stored ≤ cap * 100 := by
  have bound : usd * 1000000 ≤ ((cap * 100 - spent : ℤ) : ℚ) := by
    push_cast
    linarith [not_lt.mp fits]
  have := halfAway_le bound
  rw [← storeUsd_eq_ok h] at this
  omega

namespace Budgets

variable {s s' : Budgets}

/-- The committed amounts of the rows a predicate picks. -/
def sumOf (s : Budgets) (p : Reservation → Bool) : ℤ :=
  ((s.reservations.filter p).map committed).sum

/-- The rows of a budget on a day. -/
def daily (budget : ℕ) (days : ℤ) (row : Reservation) : Bool :=
  row.budget = budget && onDay days row

/-- The rows of a budget in a month. -/
def monthly (budget : ℕ) (year month : ℤ) (row : Reservation) : Bool :=
  row.budget = budget && inMonth year month row

/-- A reservation was added that keeps to the caps. -/
structure Adds (s s' : Budgets) (budget : ProviderBudget) (row : Reservation) : Prop where
  budgets : s'.budgets = s.budgets
  rows : s'.reservations = s.reservations ++ [row]
  mem : budget ∈ s.budgets
  of : row.budget = budget.id
  id : row.id = s.reservations.length + 1
  fresh : ∀ other ∈ s.reservations, other.idempotencyKey ≠ row.idempotencyKey
  reserved : row.status = .reserved
  nonneg : 0 ≤ row.estimatedUsd
  withinDay : s.sumOf (daily budget.id (row.budgetAt / day)) + row.estimatedUsd ≤
    budget.dailyCap * 100
  withinMonth : s.sumOf (monthly budget.id (Date.ofDays (row.budgetAt / day)).year
    (Date.ofDays (row.budgetAt / day)).month) + row.estimatedUsd ≤ budget.monthlyCap * 100

/-- A reservation was rewritten: only a reserved one takes another money status, and commits no
more than before. -/
structure Rewrites (s s' : Budgets) (row row' : Reservation) : Prop where
  budgets : s'.budgets = s.budgets
  rows : s'.reservations = Tables.put Reservation.id s.reservations row'
  mem : row ∈ s.reservations
  id : row'.id = row.id
  same : row'.budget = row.budget ∧ row'.idempotencyKey = row.idempotencyKey ∧
    row'.budgetAt = row.budgetAt ∧ row'.estimatedUsd = row.estimatedUsd
  money : row.status = .reserved ∨ (row'.status = row.status ∧ row'.actualUsd = row.actualUsd)
  less : committed row' ≤ committed row
  settled : (row.status = .settled → row.actualUsd.isSome) →
    row'.status = .settled → row'.actualUsd.isSome

/-- The three things a call does. -/
def Moves (s s' : Budgets) : Prop :=
  s' = s ∨ (∃ budget row, Adds s s' budget row) ∨ ∃ row row', Rewrites s s' row row'

/-- The invariant of the budgets. -/
structure Invariant (s : Budgets) : Prop where
  budgetIds : (s.budgets.map ProviderBudget.id).Nodup
  ids : (s.reservations.map Reservation.id).Nodup
  bounded : ∀ row ∈ s.reservations, row.id ≤ s.reservations.length
  keys : (s.reservations.map Reservation.idempotencyKey).Nodup
  nonneg : ∀ row ∈ s.reservations, 0 ≤ row.estimatedUsd
  settled : ∀ row ∈ s.reservations, row.status = .settled → row.actualUsd.isSome
  withinDay : ∀ b ∈ s.budgets, 0 ≤ b.dailyCap → ∀ days,
    s.sumOf (daily b.id days) ≤ b.dailyCap * 100
  withinMonth : ∀ b ∈ s.budgets, 0 ≤ b.monthlyCap → ∀ year month,
    s.sumOf (monthly b.id year month) ≤ b.monthlyCap * 100

/-! ### The gate -/

theorem reservationAmount_eq_ok {row : Reservation}
    (settled : row.status = .settled → row.actualUsd.isSome) :
    reservationAmount row = .ok (committed row) := by
  unfold reservationAmount committed
  cases status : row.status with
  | settled =>
    obtain ⟨actual, found⟩ := Option.isSome_iff_exists.mp (settled status)
    rw [found]
    rfl
  | reserved | released | uncertain => rfl

theorem spent_eq_ok {rows : List Reservation}
    (settled : ∀ row ∈ rows, row.status = .settled → row.actualUsd.isSome) :
    spent rows = .ok (rows.map committed).sum := by
  have amounts : mapE reservationAmount rows = .ok (rows.map committed) := by
    rw [mapE_eq_ok_iff, List.forall₂_map_right_iff, List.forall₂_same]
    exact fun row mem => reservationAmount_eq_ok (settled row mem)
  rw [spent, amounts]
  rfl

/-- Released rows commit nothing. -/
theorem sum_committed (rows : List Reservation) :
    ((rows.filter fun row => row.status ≠ .released).map committed).sum =
      (rows.map committed).sum := by
  induction rows with
  | nil => rfl
  | cons row rows ih =>
    by_cases released : row.status = .released
    · have none_ : committed row = 0 := by rw [committed, released]
      rw [List.filter_cons_of_neg (by simpa using released), ih, List.map_cons, List.sum_cons,
        none_, zero_add]
    · rw [List.filter_cons_of_pos (by simpa using released), List.map_cons, List.map_cons,
        List.sum_cons, List.sum_cons, ih]

/-- The gate sums what the rows commit, those released or not. -/
theorem spent_of_budget
    (settled : ∀ row ∈ s.reservations, row.status = .settled → row.actualUsd.isSome)
    (budget : ProviderBudget) (p : Reservation → Bool) :
    spent ((s.reservations.filter fun row => row.budget = budget.id && row.status ≠ .released).filter
      p) = .ok (s.sumOf fun row => row.budget = budget.id && p row) := by
  have same : (s.reservations.filter fun row =>
      row.budget = budget.id && row.status ≠ .released).filter p =
      (s.reservations.filter fun row => row.budget = budget.id && p row).filter
        fun row => row.status ≠ .released := by
    rw [List.filter_filter, List.filter_filter]
    refine List.filter_congr fun row _ => ?_
    cases p row <;> cases decide (row.budget = budget.id) <;> simp
  rw [same, spent_eq_ok, sum_committed, sumOf]
  intro row mem
  exact settled row (List.mem_of_mem_filter (List.mem_of_mem_filter mem))

/-- **The gate compares the committed amounts of the day and of the month.** -/
theorem gateSums_eq_ok
    (settled : ∀ row ∈ s.reservations, row.status = .settled → row.actualUsd.isSome)
    (budget : ProviderBudget) (now : Instant) :
    s.gateSums budget now = .ok (s.sumOf (daily budget.id (now / day)),
      s.sumOf (monthly budget.id (Date.ofDays (now / day)).year
        (Date.ofDays (now / day)).month)) := by
  unfold gateSums
  dsimp only
  rw [spent_of_budget settled, spent_of_budget settled]
  rfl

/-! ### The calls -/

theorem getBudget_mem {provider purpose : String} {budget : ProviderBudget}
    (h : s.getBudget provider purpose = .ok budget) : budget ∈ s.budgets := by
  unfold getBudget at h
  split at h
  case h_1 found =>
    cases h
    exact List.mem_of_find?_eq_some found
  case h_2 => exact absurd h raise_ne_ok

theorem get_mem {id : ℕ} {row : Reservation} (h : s.get id = .ok row) :
    row ∈ s.reservations ∧ row.id = id := by
  unfold get at h
  split at h
  case h_1 found =>
    cases h
    have same := List.find?_some found
    exact ⟨List.mem_of_find?_eq_some found, of_decide_eq_true same⟩
  case h_2 => exact absurd h raise_ne_ok

theorem reserve_moves (invariant : Invariant s) {provider purpose key model pricing : String}
    {usd : ℚ} {now : Instant} {made : Option Reservation} (nonneg : 0 ≤ usd)
    (h : s.reserve provider purpose key usd now model pricing = .ok (made, s')) : Moves s s' := by
  unfold reserve at h
  split at h
  case h_1 =>
    cases h
    exact .inl rfl
  case h_2 absent =>
    obtain ⟨budget, found, h⟩ := bind_eq_ok.mp h
    rw [gateSums_eq_ok invariant.settled] at h
    obtain ⟨_, sums, h⟩ := bind_eq_ok.mp h
    cases sums
    dsimp only at h
    split_ifs at h with fits
    · cases h
      exact .inl rfl
    · obtain ⟨stored, store, h⟩ := bind_eq_ok.mp h
      cases h
      obtain ⟨day_, month_⟩ := not_or.mp fits
      refine .inr (.inl ⟨budget, _, rfl, rfl, getBudget_mem found, rfl, rfl, ?_, rfl, ?_,
        storeUsd_le store day_, storeUsd_le store month_⟩)
      · intro other mem same
        have := List.find?_eq_none.mp absent other mem
        simp [same] at this
      · rw [storeUsd_eq_ok store]
        exact halfAway_nonneg (by linarith)

/-- A reservation that is written with another money status was reserved. -/
theorem rewrites_of {row row' : Reservation} {id : ℕ} (found : s.get id = .ok row)
    (same : row'.id = row.id ∧ row'.budget = row.budget ∧
      row'.idempotencyKey = row.idempotencyKey ∧ row'.budgetAt = row.budgetAt ∧
      row'.estimatedUsd = row.estimatedUsd)
    (money : row.status = .reserved) (less : committed row' ≤ row.estimatedUsd)
    (settled : row'.status = .settled → row'.actualUsd.isSome) : Moves s (s.save row') := by
  have before : committed row = row.estimatedUsd := by rw [committed, money]
  exact .inr (.inr ⟨row, row', rfl, rfl, (get_mem found).1, same.1, same.2, .inl money,
    before.symm ▸ less, fun _ => settled⟩)

theorem settle_moves {id : ℕ} {usd : ℚ} {model usage pricing : Option String} {done : Bool}
    (within : s.WithinEstimate id usd)
    (h : s.settle id usd model usage pricing = .ok (done, s')) : Moves s s' := by
  obtain ⟨row, found, h⟩ := bind_eq_ok.mp h
  split_ifs at h with status
  · cases h
    exact .inl rfl
  · obtain ⟨stored, store, h⟩ := bind_eq_ok.mp h
    cases h
    have reserved : row.status = .reserved := not_not.mp status
    obtain ⟨mem, same⟩ := get_mem found
    exact rewrites_of found ⟨rfl, rfl, rfl, rfl, rfl⟩ reserved
      (within row mem same reserved stored store) fun _ => rfl

theorem recordOutcome_moves (invariant : Invariant s) {id : ℕ} {outcome : ReservationOutcome}
    {done : Bool} (h : s.recordOutcome id outcome = .ok (done, s')) : Moves s s' := by
  obtain ⟨row, found, h⟩ := bind_eq_ok.mp h
  split_ifs at h
  · cases h
    exact .inl rfl
  · cases h
    have mem := (get_mem found).1
    exact .inr (.inr ⟨row, _, rfl, rfl, mem, rfl, ⟨rfl, rfl, rfl, rfl⟩, .inr ⟨rfl, rfl⟩, le_rfl,
      fun _ => invariant.settled row mem⟩)

theorem release_moves (invariant : Invariant s) {id : ℕ} {done : Bool}
    (h : s.release id = .ok (done, s')) : Moves s s' := by
  obtain ⟨row, found, h⟩ := bind_eq_ok.mp h
  split_ifs at h with status
  · cases h
    exact .inl rfl
  · cases h
    exact rewrites_of found ⟨rfl, rfl, rfl, rfl, rfl⟩ (not_not.mp status)
      (invariant.nonneg row (get_mem found).1) fun h => by cases h

theorem markUncertain_moves {id : ℕ} {usd : Option ℚ} {done : Bool}
    (within : ∀ actual, usd = some actual → s.WithinEstimate id actual)
    (h : s.markUncertain id usd = .ok (done, s')) : Moves s s' := by
  obtain ⟨row, found, h⟩ := bind_eq_ok.mp h
  split_ifs at h with status
  · cases h
    exact .inl rfl
  · have reserved : row.status = .reserved := not_not.mp status
    cases usd with
    | none =>
      cases h
      exact rewrites_of found ⟨rfl, rfl, rfl, rfl, rfl⟩ reserved le_rfl fun h => by cases h
    | some usd =>
      obtain ⟨stored, store, h⟩ := bind_eq_ok.mp h
      cases h
      obtain ⟨mem, same⟩ := get_mem found
      exact rewrites_of found ⟨rfl, rfl, rfl, rfl, rfl⟩ reserved
        (within usd rfl row mem same reserved stored store) fun h => by cases h

theorem kept_moves {α : Type} {result : Except Exc (α × Budgets)}
    (h : ∀ a s', result = .ok (a, s') → Moves s s') : Moves s (s.kept result) := by
  unfold kept
  split
  case h_1 a s' => exact h a s' rfl
  case h_2 => exact .inl rfl

/-- **A call adds a reservation within the caps, rewrites one, or does nothing.** -/
theorem step_moves (invariant : Invariant s) {e : Event} (allowed : s.Allowed e) :
    Moves s (s.step e) := by
  cases e with
  | reserve => exact kept_moves fun _ _ h => reserve_moves invariant allowed h
  | settle => exact kept_moves fun _ _ h => settle_moves allowed h
  | recordOutcome => exact kept_moves fun _ _ h => recordOutcome_moves invariant h
  | release => exact kept_moves fun _ _ h => release_moves invariant h
  | markUncertain => exact kept_moves fun _ _ h => markUncertain_moves allowed h

/-! ### What a call keeps -/

/-- A row rewritten to commit no more adds to no sum. -/
theorem sumOf_rewrites {row row' : Reservation} (ids : (s.reservations.map Reservation.id).Nodup)
    (rewrites : Rewrites s s' row row') (p : Reservation → Bool) (same : p row' = p row) :
    s'.sumOf p ≤ s.sumOf p := by
  have rows : ∀ r ∈ s.reservations, r.id = row'.id → r = row := fun r mem h =>
    Tables.eq_of_key ids mem rewrites.mem (h.trans rewrites.id)
  have less := rewrites.less
  rw [sumOf, sumOf, rewrites.rows, Tables.put]
  generalize s.reservations = rest at rows
  induction rest with
  | nil => exact le_rfl
  | cons r rest ih =>
    obtain ⟨first, later⟩ := List.forall_mem_cons.mp rows
    have tail_ := ih later
    rw [List.map_cons]
    by_cases here : r.id = row'.id
    · rw [if_pos here]
      obtain rfl := first here
      by_cases picked : p r = true
      · rw [List.filter_cons_of_pos (same.trans picked), List.filter_cons_of_pos picked,
          List.map_cons, List.map_cons, List.sum_cons, List.sum_cons]
        omega
      · rw [List.filter_cons_of_neg (by rwa [same]), List.filter_cons_of_neg picked]
        exact tail_
    · rw [if_neg here]
      by_cases picked : p r = true
      · rw [List.filter_cons_of_pos picked, List.filter_cons_of_pos picked,
          List.map_cons, List.map_cons, List.sum_cons, List.sum_cons]
        omega
      · rw [List.filter_cons_of_neg picked, List.filter_cons_of_neg picked]
        exact tail_

/-- A new row adds its estimate to the sums that pick it. -/
theorem sumOf_adds {budget : ProviderBudget} {row : Reservation} (adds : Adds s s' budget row)
    (p : Reservation → Bool) :
    s'.sumOf p = s.sumOf p + if p row = true then row.estimatedUsd else 0 := by
  have estimate : committed row = row.estimatedUsd := by rw [committed, adds.reserved]
  rw [sumOf, sumOf, adds.rows, List.filter_append, List.map_append, List.sum_append]
  by_cases picked : p row = true
  · rw [if_pos picked, List.filter_singleton, picked]
    simp [estimate]
  · rw [if_neg picked, List.filter_singleton, Bool.not_eq_true _ |>.mp picked]
    rfl

theorem Invariant.adds (invariant : Invariant s) {budget : ProviderBudget} {row : Reservation}
    (adds : Adds s s' budget row) : Invariant s' := by
  have one (b : ProviderBudget) (mem : b ∈ s.budgets) (same : row.budget = b.id) : b = budget :=
    List.inj_on_of_nodup_map invariant.budgetIds mem adds.mem (same.symm.trans adds.of)
  constructor
  · rw [adds.budgets]
    exact invariant.budgetIds
  · rw [adds.rows, List.map_append, List.map_singleton, List.nodup_append]
    refine ⟨invariant.ids, List.nodup_singleton _, ?_⟩
    rintro id mem _ new rfl
    obtain ⟨other, hother, rfl⟩ := List.mem_map.mp mem
    have := invariant.bounded other hother
    rw [List.mem_singleton.mp new, adds.id] at this
    omega
  · intro other mem
    rw [adds.rows, List.length_append, List.length_singleton]
    rcases List.mem_append.mp (adds.rows ▸ mem) with mem | mem
    · exact (invariant.bounded other mem).trans (Nat.le_succ _)
    · rw [List.mem_singleton.mp mem, adds.id]
  · rw [adds.rows, List.map_append, List.map_singleton, List.nodup_append]
    refine ⟨invariant.keys, List.nodup_singleton _, ?_⟩
    rintro key mem _ new rfl
    obtain ⟨other, hother, rfl⟩ := List.mem_map.mp mem
    exact adds.fresh other hother (List.mem_singleton.mp new)
  · intro other mem
    rcases List.mem_append.mp (adds.rows ▸ mem) with mem | mem
    · exact invariant.nonneg other mem
    · rw [List.mem_singleton.mp mem]
      exact adds.nonneg
  · intro other mem
    rcases List.mem_append.mp (adds.rows ▸ mem) with mem | mem
    · exact invariant.settled other mem
    · rw [List.mem_singleton.mp mem, adds.reserved]
      exact fun h => by cases h
  · intro b mem cap days
    rw [adds.budgets] at mem
    rw [sumOf_adds adds]
    split_ifs with picked
    · rw [daily, Bool.and_eq_true, decide_eq_true_eq] at picked
      obtain ⟨own, here⟩ := picked
      obtain rfl := one b mem own
      obtain rfl : row.budgetAt / day = days := of_decide_eq_true here
      exact adds.withinDay
    · rw [add_zero]
      exact invariant.withinDay b mem cap days
  · intro b mem cap year month
    rw [adds.budgets] at mem
    rw [sumOf_adds adds]
    split_ifs with picked
    · rw [monthly, Bool.and_eq_true, decide_eq_true_eq, inMonth, Bool.and_eq_true,
        decide_eq_true_eq, decide_eq_true_eq] at picked
      obtain ⟨own, rfl, rfl⟩ := picked
      obtain rfl := one b mem own
      exact adds.withinMonth
    · rw [add_zero]
      exact invariant.withinMonth b mem cap year month

theorem Invariant.rewrites (invariant : Invariant s) {row row' : Reservation}
    (rewrites : Rewrites s s' row row') : Invariant s' := by
  obtain ⟨budget, key, at_, estimate⟩ := rewrites.same
  have place {p : Reservation → Prop} (new : p row') (old : ∀ r ∈ s.reservations, p r) :
      ∀ r ∈ s'.reservations, p r := by
    intro r mem
    rw [rewrites.rows] at mem
    rcases Tables.of_mem_put mem with rfl | ⟨mem, -⟩
    · exact new
    · exact old r mem
  have length : s'.reservations.length = s.reservations.length := by
    rw [rewrites.rows, Tables.put, List.length_map]
  constructor
  · rw [rewrites.budgets]
    exact invariant.budgetIds
  · rw [rewrites.rows, Tables.map_key_put]
    exact invariant.ids
  · rw [length]
    exact place (rewrites.id ▸ invariant.bounded row rewrites.mem) invariant.bounded
  · have same : s'.reservations.map Reservation.idempotencyKey =
        s.reservations.map Reservation.idempotencyKey := by
      rw [rewrites.rows, Tables.put, List.map_map]
      refine List.map_congr_left fun r mem => ?_
      show Reservation.idempotencyKey (if r.id = row'.id then row' else r) = _
      split_ifs with here
      · rw [Tables.eq_of_key invariant.ids mem rewrites.mem (here.trans rewrites.id), key]
      · rfl
    rw [same]
    exact invariant.keys
  · exact place (estimate ▸ invariant.nonneg row rewrites.mem) invariant.nonneg
  · exact place (rewrites.settled (invariant.settled row rewrites.mem)) invariant.settled
  · intro b mem cap days
    rw [rewrites.budgets] at mem
    refine (sumOf_rewrites invariant.ids rewrites _ ?_).trans (invariant.withinDay b mem cap days)
    rw [daily, daily, onDay, onDay, budget, at_]
  · intro b mem cap year month
    rw [rewrites.budgets] at mem
    refine (sumOf_rewrites invariant.ids rewrites _ ?_).trans
      (invariant.withinMonth b mem cap year month)
    rw [monthly, monthly, inMonth, inMonth, budget, at_]

/-- **What the budgets keep, every call keeps.** -/
theorem Invariant.step (invariant : Invariant s) {e : Event} (allowed : s.Allowed e) :
    Invariant (s.step e) := by
  rcases step_moves invariant allowed with same | ⟨budget, row, adds⟩ | ⟨row, row', rewrites⟩
  · rw [same]
    exact invariant
  · exact invariant.adds adds
  · exact invariant.rewrites rewrites

/-- A reservation with its money status, once it is no longer reserved. -/
def Closed (s : Budgets) (row : Reservation) : Prop :=
  row.status ≠ .reserved ∧ ∃ r ∈ s.reservations, r.id = row.id ∧ r.status = row.status ∧
    r.actualUsd = row.actualUsd ∧ r.estimatedUsd = row.estimatedUsd

/-- A money status that is no longer reserved stays. -/
theorem Closed.step (invariant : Invariant s) {row : Reservation} (closed : Closed s row)
    {e : Event} (allowed : s.Allowed e) : Closed (s.step e) row := by
  obtain ⟨left_, r, mem, id, status, actual, estimate⟩ := closed
  refine ⟨left_, ?_⟩
  rcases step_moves invariant allowed with same | ⟨budget, new, adds⟩ | ⟨old, new, rewrites⟩
  · rw [same]
    exact ⟨r, mem, id, status, actual, estimate⟩
  · rw [adds.rows]
    exact ⟨r, List.mem_append_left _ mem, id, status, actual, estimate⟩
  · rw [rewrites.rows]
    by_cases here : r.id = old.id
    · obtain rfl := Tables.eq_of_key invariant.ids mem rewrites.mem here
      rcases rewrites.money with reserved | ⟨status', actual'⟩
      · exact absurd (status.symm.trans reserved) left_
      · exact ⟨new, Tables.mem_put mem rewrites.id, rewrites.id.trans id, status'.trans status,
          actual'.trans actual, rewrites.same.2.2.2.trans estimate⟩
    · exact ⟨r, Tables.mem_put_of_ne mem (by rwa [rewrites.id]), id, status, actual, estimate⟩

end Budgets

/-! ## Accounts and the gate -/

/-- A row adds what it commits. -/
theorem ProviderAccount.add_spec (account : ProviderAccount) (row : Reservation)
    (keys : List String) : (account.add row keys).budget = account.budget ∧
      (account.add row keys).period = account.period ∧
      (account.add row keys).committedUsd = account.committedUsd + committed row := by
  have status (a : ProviderAccount) : (a.addStatus row).budget = a.budget ∧
      (a.addStatus row).period = a.period ∧ (a.addStatus row).committedUsd = a.committedUsd := by
    unfold ProviderAccount.addStatus
    split <;> exact ⟨rfl, rfl, rfl⟩
  have outcome (a : ProviderAccount) : (a.addOutcome row).budget = a.budget ∧
      (a.addOutcome row).period = a.period ∧ (a.addOutcome row).committedUsd = a.committedUsd := by
    unfold ProviderAccount.addOutcome
    split <;> exact ⟨rfl, rfl, rfl⟩
  have failed (a : ProviderAccount) : (a.addFailedPaid row).budget = a.budget ∧
      (a.addFailedPaid row).period = a.period ∧
      (a.addFailedPaid row).committedUsd = a.committedUsd := by
    unfold ProviderAccount.addFailedPaid
    split_ifs <;> exact ⟨rfl, rfl, rfl⟩
  have reconciled (a : ProviderAccount) : (a.reconcile row keys).budget = a.budget ∧
      (a.reconcile row keys).period = a.period ∧
      (a.reconcile row keys).committedUsd = a.committedUsd := by
    unfold ProviderAccount.reconcile
    split_ifs <;> exact ⟨rfl, rfl, rfl⟩
  rw [ProviderAccount.add]
  obtain ⟨budget, period, usd⟩ := reconciled ((((
    { account with rows := account.rows ++ [row], committedUsd := account.committedUsd + committed row } :
      ProviderAccount).addStatus row).addOutcome row).addFailedPaid row)
  rw [budget, period, usd, (failed _).1, (failed _).2.1, (failed _).2.2, (outcome _).1,
    (outcome _).2.1, (outcome _).2.2, (status _).1, (status _).2.1, (status _).2.2]
  exact ⟨rfl, rfl, rfl⟩

/-- An account commits what its rows do. -/
theorem ProviderAccount.foldl_spec (rows : List Reservation) (keys : List String)
    (account : ProviderAccount) :
    (rows.foldl (fun account row => account.add row keys) account).budget = account.budget ∧
      (rows.foldl (fun account row => account.add row keys) account).period = account.period ∧
      (rows.foldl (fun account row => account.add row keys) account).committedUsd =
        account.committedUsd + (rows.map committed).sum := by
  induction rows generalizing account with
  | nil => exact ⟨rfl, rfl, (add_zero _).symm⟩
  | cons row rows ih =>
    obtain ⟨budget, period, usd⟩ := ih (account.add row keys)
    obtain ⟨budget', period', usd'⟩ := account.add_spec row keys
    rw [List.foldl_cons, budget, period, usd, budget', period', usd', List.map_cons, List.sum_cons,
      add_assoc]
    exact ⟨rfl, rfl, rfl⟩

namespace Budgets

variable {s s' : Budgets}

/-- The rows a period of an account sums are those the gate's window picks. -/
theorem committed_sorted (s : Budgets) (budget : ProviderBudget) (p : Reservation → Bool) :
    (((sortedBy (fun row : Reservation => toLex (-row.budgetAt, -(row.id : ℤ)))
      (s.reservations.filter fun row => row.budget = budget.id)).filter p).map committed).sum =
      s.sumOf fun row => row.budget = budget.id && p row := by
  have perm := ((perm_sortedBy (fun row : Reservation => toLex (-row.budgetAt, -(row.id : ℤ)))
    (s.reservations.filter fun row => row.budget = budget.id)).filter p).map committed
  rw [perm.sum_eq, List.filter_filter, sumOf]
  congr 3
  funext row
  exact Bool.and_comm _ _

/-- The accounts of a budget commit what the gate compares. -/
theorem accountsOf_committed (s : Budgets) (keys : List String) (now : Instant)
    (budget : ProviderBudget) :
    (s.accountsOf keys now budget).map (fun a => (a.budget.id, a.period, a.committedUsd)) =
      [(budget.id, "today", s.sumOf (daily budget.id (now / day))),
        (budget.id, "month", s.sumOf (monthly budget.id (Date.ofDays (now / day)).year
          (Date.ofDays (now / day)).month))] := by
  have period (rows : List Reservation) (account : ProviderAccount) :=
    ProviderAccount.foldl_spec rows keys account
  unfold accountsOf
  simp only [List.map_cons, List.map_nil, period, committed_sorted, zero_add]
  rfl

/-- What `provider_accounts` shows as committed, by budget and period. -/
def shown (s : Budgets) (recommendations : List String) (now : Instant) : List (ℕ × String × ℤ) :=
  (s.providerAccounts recommendations now).map fun a => (a.budget.id, a.period, a.committedUsd)

/-! ## Every run -/

/-- The states of every run of calls from budgets without reservations. -/
abbrev Reachable (start : Budgets) : Budgets → Prop :=
  Reached step Allowed fun s => s = start ∧ Fresh s

theorem Fresh.invariant {s : Budgets} (fresh : Fresh s) : Invariant s := by
  have none_ (p : Reservation → Bool) : s.sumOf p = 0 := by
    rw [sumOf, fresh.empty]
    rfl
  refine ⟨fresh.ids, ?_, ?_, ?_, ?_, ?_, ?_, ?_⟩
  · rw [fresh.empty]
    exact List.nodup_nil
  · rw [fresh.empty]
    exact fun _ h => by cases h
  · rw [fresh.empty]
    exact List.nodup_nil
  · rw [fresh.empty]
    exact fun _ h => by cases h
  · rw [fresh.empty]
    exact fun _ h => by cases h
  · intro b _ cap _
    rw [none_]
    omega
  · intro b _ cap _ _
    rw [none_]
    omega

theorem reachable_invariant {start s : Budgets} (reached : Reachable start s) : Invariant s :=
  reached.invariant (fun _ h => h.2.invariant) fun _ _ invariant allowed => invariant.step allowed

/-- **The caps hold in every run, a key has one reservation, a money status that is no longer
reserved stays, and the accounts show what the gate compares.** -/
theorem budgets_safe {start s : Budgets} (reached : Reachable start s) :
    (∀ b ∈ s.budgets, 0 ≤ b.dailyCap → ∀ days, s.sumOf (daily b.id days) ≤ b.dailyCap * 100) ∧
      (∀ b ∈ s.budgets, 0 ≤ b.monthlyCap → ∀ year month,
        s.sumOf (monthly b.id year month) ≤ b.monthlyCap * 100) ∧
      (s.reservations.map Reservation.idempotencyKey).Nodup ∧
      (∀ row ∈ s.reservations, row.status ≠ .reserved →
        ∀ later, Reached step Allowed (· = s) later → Closed later row) ∧
      ∀ b ∈ s.budgets, ∀ recommendations now, ∃ today month,
        s.gateSums b now = .ok (today, month) ∧
          (b.id, "today", today) ∈ s.shown recommendations now ∧
          (b.id, "month", month) ∈ s.shown recommendations now := by
  have invariant := reachable_invariant reached
  refine ⟨invariant.withinDay, invariant.withinMonth, invariant.keys, ?_, ?_⟩
  · intro row mem left_ later run
    have here : Invariant s ∧ Closed s row := ⟨invariant, left_, row, mem, rfl, rfl, rfl, rfl⟩
    have there : Invariant later ∧ Closed later row := by
      refine Reached.invariant (I := fun s => Invariant s ∧ Closed s row) ?_ ?_ run
      · rintro _ rfl
        exact here
      · rintro s e ⟨invariant, closed⟩ allowed
        exact ⟨invariant.step allowed, closed.step invariant allowed⟩
    exact there.2
  · intro b mem recommendations now
    refine ⟨_, _, gateSums_eq_ok invariant.settled b now, ?_⟩
    have accounts := s.accountsOf_committed
      (recommendations.map (ProviderAccount.recommendationKeyPrefix ++ ·)) now b
    have listed (amount : ℕ × String × ℤ) (there : amount ∈ (s.accountsOf
        (recommendations.map (ProviderAccount.recommendationKeyPrefix ++ ·)) now b).map
          fun a => (a.budget.id, a.period, a.committedUsd)) :
        amount ∈ s.shown recommendations now := by
      obtain ⟨account, own, rfl⟩ := List.mem_map.mp there
      exact List.mem_map.mpr
        ⟨account, List.mem_flatMap.mpr ⟨b, mem_sortedBy.mpr mem, own⟩, rfl⟩
    constructor
    · exact listed _ (accounts ▸ List.mem_cons_self)
    · exact listed _ (accounts ▸ List.mem_cons_of_mem _ List.mem_cons_self)

/-! ### A run -/

def sampleBudgets : Budgets where
  budgets := [⟨1, "a", "r", 20000, 400000⟩]
  reservations := []

def sampleReserve : Event := .reserve "a" "r" "k" (1 / 2) (20000 * day) "" ""

def sampleSettle : Event := .settle 1 (1 / 4) none none none

theorem sample_reserved : (sampleBudgets.step sampleReserve).reservations =
    [⟨1, 1, "k", 500000, none, .reserved, .pending, "", "", "", "", 20000 * day⟩] := by
  decide +kernel

theorem budgets_safe_settled :
    ((sampleBudgets.step sampleReserve).step sampleSettle).sumOf (daily 1 20000) ≤ 20000 * 100 := by
  have first : Reachable sampleBudgets (sampleBudgets.step sampleReserve) := by
    refine .step (.start ⟨rfl, by decide, rfl⟩) ?_
    show (0 : ℚ) ≤ 1 / 2
    norm_num
  have within : (sampleBudgets.step sampleReserve).WithinEstimate 1 (1 / 4) := by
    intro row mem _ _ stored store
    rw [sample_reserved, List.mem_singleton] at mem
    have amount : halfAway (1 / 4 * 1000000) = 250000 := by decide +kernel
    rw [mem, storeUsd_eq_ok store, amount]
    show (250000 : ℤ) ≤ 500000
    norm_num
  have budget : (⟨1, "a", "r", 20000, 400000⟩ : ProviderBudget) ∈
      ((sampleBudgets.step sampleReserve).step sampleSettle).budgets := by decide +kernel
  have second : Reachable sampleBudgets ((sampleBudgets.step sampleReserve).step sampleSettle) :=
    .step first within
  exact (budgets_safe second).1 _ budget (by decide) 20000

end Budgets

end TradeRecommender.Operations
