import TradeRecommender.Lib.Calls
import TradeRecommender.Lib.Rounding
import TradeRecommender.Market.Quality

/-!
# Setups, costs and calendars

The records of `market/strategy/contracts.py` and `market/strategy/costs.py`, and the calendar
attestation of `market/calendar_policy.py`, each with what its constructor checks.
-/

namespace TradeRecommender.MarketStrategy

open Py Civil Market

/-- The digits of `arithmetic`. -/
abbrev prec : ℕ := 34

/-! ## Directed distances -/

/-- `direction * (a - b)` -/
def ahead (direction : ℤ) (a b : ℚ) : ℚ := Rounding.mul prec direction (Rounding.sub prec a b)

section
variable {direction : ℤ} {a b c d : ℚ}

/-- A directed distance is the exact one, rounded once. -/
theorem ahead_eq (unit : direction = -1 ∨ direction = 1) :
    ahead direction a b = Rounding.fl prec (direction * (a - b)) := by
  unfold ahead Rounding.mul Rounding.sub
  rcases unit with rfl | rfl
  · push_cast
    rw [neg_one_mul, neg_one_mul, Rounding.fl_neg, Rounding.fl_neg, Rounding.fl_fl (by decide)]
  · push_cast
    rw [one_mul, one_mul, Rounding.fl_fl (by decide)]

theorem ahead_nonpos (unit : direction = -1 ∨ direction = 1) :
    ahead direction a b ≤ 0 ↔ direction * (a - b) ≤ 0 := by
  rw [ahead_eq unit, Rounding.fl_nonpos_iff (by decide)]

theorem ahead_nonneg (unit : direction = -1 ∨ direction = 1) :
    0 ≤ ahead direction a b ↔ 0 ≤ direction * (a - b) := by
  rw [ahead_eq unit, Rounding.fl_nonneg_iff (by decide)]

/-- What is further ahead is so after rounding. -/
theorem ahead_le_ahead (unit : direction = -1 ∨ direction = 1)
    (h : direction * (a - b) ≤ direction * (c - d)) : ahead direction a b ≤ ahead direction c d := by
  rw [ahead_eq unit, ahead_eq unit]
  exact Rounding.fl_mono (by decide) h

end

/-! ## Setups -/

/-- The fields of `SetupCandidate`. -/
structure SetupFields where
  strategy : String
  direction : ℤ
  availableAt : Instant
  signalStart : Instant
  granularity : Granularity
  reference : ℚ
  stop : ℚ
  target : ℚ
  entryAt : Instant
  expiresAt : Instant
  exitAt : Instant
  evidence : List String
  deriving DecidableEq

namespace SetupFields

variable (s : SetupFields)

/-- The check `setup_direction_or_interval`. -/
def Directed : Prop :=
  (s.direction = -1 ∨ s.direction = 1) ∧ (s.granularity = .m15 ∨ s.granularity = .h1)

/-- The check `setup_chronology`. -/
def Chronological : Prop :=
  s.signalStart < s.availableAt ∧ s.availableAt ≤ s.entryAt ∧ s.entryAt ≤ s.expiresAt ∧
    s.expiresAt < s.exitAt

/-- The check `setup_price`. -/
def Priced : Prop := 0 < s.reference ∧ 0 < s.stop ∧ 0 < s.target

/-- The check `setup_geometry`. -/
def Ordered : Prop :=
  0 < ahead s.direction s.reference s.stop ∧ 0 < ahead s.direction s.target s.reference

instance : Decidable s.Directed := by unfold Directed; infer_instance
instance : Decidable s.Chronological := by unfold Chronological; infer_instance
instance : Decidable s.Priced := by unfold Priced; infer_instance
instance : Decidable s.Ordered := by unfold Ordered; infer_instance

end SetupFields

/-- `SetupCandidate` -/
structure SetupCandidate extends SetupFields where
  directed : toSetupFields.Directed
  chronological : toSetupFields.Chronological
  priced : toSetupFields.Priced
  ordered : toSetupFields.Ordered

/-- `SetupCandidate(…)` -/
def SetupFields.construct (s : SetupFields) : Except Exc SetupCandidate :=
  if directed : s.Directed then
    if chronological : s.Chronological then
      if priced : s.Priced then
        if ordered : s.Ordered then .ok ⟨s, directed, chronological, priced, ordered⟩
        else raise .valueError "setup_geometry"
      else raise .valueError "setup_price"
    else raise .valueError "setup_chronology"
  else raise .valueError "setup_direction_or_interval"

/-- The stop of a setup is behind its target. -/
theorem SetupCandidate.stop_behind (s : SetupCandidate) : s.direction * (s.stop - s.target) < 0 := by
  have behind : 0 < s.direction * (s.reference - s.stop) := by
    by_contra h
    exact absurd s.ordered.1 (not_lt.mpr ((ahead_nonpos s.directed.1).mpr (not_lt.mp h)))
  have before : 0 < s.direction * (s.target - s.reference) := by
    by_contra h
    exact absurd s.ordered.2 (not_lt.mpr ((ahead_nonpos s.directed.1).mpr (not_lt.mp h)))
  have sum : s.direction * (s.stop - s.target) =
      -(s.direction * (s.reference - s.stop)) - s.direction * (s.target - s.reference) := by ring
  linarith

/-! ## Costs -/

/-- The figures of `CostEvidence` once none of them is missing. -/
structure CostFigures where
  spread : ℚ
  commissionPerSide : ℚ
  slippagePerSide : ℚ
  financingReserve : ℚ
  latencySeconds : ℕ
  deriving DecidableEq

/-- `CostEvidence`, with the checks of its constructor. -/
structure CostEvidence where
  component : String
  source : String
  version : String
  contentSha256 : String
  quoteCurrency : String
  knownAt : Instant
  validFrom : Instant
  validThrough : Instant
  spread : Option ℚ
  commissionPerSide : Option ℚ
  slippagePerSide : Option ℚ
  financingReserve : Option ℚ
  latencySeconds : Option ℕ
  period : validFrom ≤ validThrough
  nonneg : ∀ value ∈ [spread, commissionPerSide, slippagePerSide, financingReserve],
    ∀ v, value = some v → 0 ≤ v

namespace CostEvidence

variable (cost : CostEvidence)

/-- The figures, if none is missing. -/
def figures : Option CostFigures :=
  match cost.spread, cost.commissionPerSide, cost.slippagePerSide, cost.financingReserve,
    cost.latencySeconds with
  | some spread, some commission, some slippage, some reserve, some latency =>
    some ⟨spread, commission, slippage, reserve, latency⟩
  | _, _, _, _, _ => none

/-- `readiness`: the reason the evidence is not ready, if it is not. -/
def readiness (cutoff : Instant) (component : String) : Option String :=
  if cost.source = "" ∨ cost.version = "" ∨ cost.contentSha256.length ≠ 64 ∨
      cost.quoteCurrency = "" then some "cost_provenance_unavailable"
  else if cost.component ≠ component then some "cost_component_mismatch"
  else if cutoff < cost.knownAt ∨ ¬ (cost.validFrom ≤ cutoff ∧ cutoff ≤ cost.validThrough) then
    some "cost_not_available_at_cutoff"
  else if cost.figures.isNone then some "incomplete_cost_evidence"
  else none

end CostEvidence

/-! ## Calendars -/

/-- `CalendarAttestation` -/
structure CalendarAttestation where
  version : String
  sourceUrl : String
  profile : String
  knownAt : Instant
  openIntervals : List (Instant × Instant)
  closedIntervals : List (Instant × Instant)
  deriving DecidableEq

/-- `interval_readiness` -/
def intervalReadiness (start finish : Instant) (profile : String) (asOf : Instant)
    (attestation : Option CalendarAttestation) : Except Exc String :=
  if finish ≤ start then raise .valueError "calendar_requires_aware_increasing_interval"
  else match attestation with
    | none => .ok "unavailable"
    | some attestation =>
      if attestation.profile ≠ profile ∨ attestation.version = "" ∨
          "https://".toList.isPrefixOf attestation.sourceUrl.toList = false ∨
          asOf < attestation.knownAt then .ok "unavailable"
      else match attestation.closedIntervals.find? fun closed =>
          closed.1 < finish && start < closed.2 with
        | some closed =>
          if closed.1 ≤ start ∧ finish ≤ closed.2 then .ok "closed" else .ok "irregular"
        | none =>
          if attestation.openIntervals.any fun open_ => open_.1 ≤ start && finish ≤ open_.2 then
            .ok "attested_open"
          else .ok "unavailable"

end TradeRecommender.MarketStrategy
