import TradeRecommender.Assessments.Contracts
import TradeRecommender.Lib.Sorted

/-!
# The assessment engine

`assessments/engine.py`: one assessment out of a frozen snapshot, the eligibility of the instrument,
the strategy evaluations and the cost, capacity and evidence envelopes.

1. the gates;
2. the evaluations, one after the other;
3. the market fields;
4. the setup, its cost and its reward;
5. `build_assessment`.

SHA-256 of the canonical JSON and the digest of the method in force are parameters.
-/

namespace TradeRecommender.Assessments

open Py Civil Market

/-! ## The gates -/

@[ext]
structure Gate where
  closed : Bool
  detail : String
  deriving DecidableEq, Repr

abbrev Gates := Reason → Gate

/-- `_new_gates` -/
def newGates : Gates := fun _ => ⟨false, ""⟩

/-- The detail after a closing with `detail`: the parts of the old one and the new one, sorted. -/
def addDetail (old detail : String) : String :=
  if detail = "" then old else joinOn ';' (sortedOnce (pieces ';' old ++ [detail]))

/-- `_close` -/
def close (gates : Gates) (reason : Reason) (detail : String := "") : Gates := fun other =>
  if other = reason then ⟨true, addDetail (gates reason).detail detail⟩ else gates other

/-- `if condition: _close(gates, reason, detail)` -/
def closeIf (condition : Prop) [Decidable condition] (gates : Gates) (reason : Reason)
    (detail : String := "") : Gates :=
  if condition then close gates reason detail else gates

/-- `_primary` -/
def primary (gates : Gates) : Option Reason := reasons.find? fun reason => (gates reason).closed

/-! ## The evaluations -/

def pendingReasons : List String := ["same_direction_fvg_unavailable"]

def rejectedReasons : List String :=
  ["ambiguous_dual_breach", "not_a_unique_range_edge", "no_unique_confirmed_failed_break"]

def invalidatedReasons : List String :=
  ["confirmation_too_late_for_next_interval", "fvg_interval_mismatch", "invalid_geometry",
    "opening_range_geometry", "snapshot_cutoff_after_entry", "target_not_ahead", "zero_range"]

def expiredReasons : List String := ["no_confirmation_before_expiry"]

def m15UnavailableReasons : List String := ["opening_interval_missing"]

/-- `_unavailable_reason` -/
def unavailableReason (reason : String) : Reason :=
  if reason ∈ m15UnavailableReasons then .m15ConfirmationUnavailable
  else if reason ∈ pendingReasons then .triggerPending
  else if reason ∈ rejectedReasons then .triggerRejected
  else if reason ∈ invalidatedReasons then .triggerInvalidated
  else if reason ∈ expiredReasons then .triggerExpired
  else .technicalSetupAbsent

def Part.setup? : Part → Option Setup
  | .setup part => some part
  | _ => none

def Part.reason? : Part → Option String
  | .unavailable reason => some reason
  | _ => none

/-- The first setup among the outputs. -/
def Evaluation.setup (item : Evaluation) : Option Setup := item.outputs.findSome? Part.setup?

/-- The reason of the first unavailable part among the outputs. -/
def Evaluation.reason (item : Evaluation) : String :=
  (item.outputs.findSome? Part.reason?).getD "technical_setup_absent"

/-- `admitted.get(key)`: of the entries with the key, the last. -/
def admitted (entries : List Entry) (item : Evaluation) : Option Entry :=
  entries.reverse.find? fun entry => entry.strategy = item.strategy ∧
    entry.definitionSha256 = item.definitionSha256 ∧ entry.role = item.strategy.role

/-- An admitted evaluation with its setup. -/
structure Attributed where
  item : Evaluation
  setup : Setup
  eligibility : Entry
  deriving DecidableEq, Repr

/-- An admitted evaluation without one. -/
structure Unavailable where
  identity : String
  reason : String
  gate : Reason
  deriving DecidableEq, Repr

/-- What the loop over the evaluations keeps. -/
structure Triage where
  gates : Gates
  attributed : List Attributed
  unavailable : List Unavailable

/-- One turn of the loop. -/
def triageStep (entries : List Entry) (acc : Triage) (item : Evaluation) : Triage :=
  match admitted entries item with
  | none =>
    { acc with gates := close acc.gates .strategyNotAdmittedForInstrument item.strategy.name }
  | some entry =>
    if item.strategy.role ≠ .setup then
      { acc with gates := close acc.gates .strategyRoleCannotOriginateIntent item.strategy.name }
    else
      match item.setup with
      | none =>
        let reason := item.reason
        let gate := unavailableReason reason
        { acc with
          gates := close acc.gates gate (item.strategy.name ++ ":" ++ reason)
          unavailable := acc.unavailable ++ [⟨item.identity, reason, gate⟩] }
      | some setup => { acc with attributed := acc.attributed ++ [⟨item, setup, entry⟩] }

def triage (entries : List Entry) (gates : Gates) (evaluations : List Evaluation) : Triage :=
  evaluations.foldl (triageStep entries) ⟨gates, [], []⟩

/-- The names of the entries no evaluation is of. -/
def missingEvaluations (entries : List Entry) (evaluations : List Evaluation) : List String :=
  sortedOnce ((entries.map (·.strategy.name)).filter (· ∉ evaluations.map (·.strategy.name)))

structure Trigger where
  identity : String
  reason : String
  deriving DecidableEq, Repr

structure Side where
  supporting : List String
  opposing : List String
  pending : List Trigger
  rejected : List Trigger
  deriving DecidableEq, Repr

structure Sides where
  bull : Side
  bear : Side
  deriving DecidableEq, Repr

/-- The unavailable evaluations behind the given gates. -/
def triggersAt (gates : List Reason) (unavailable : List Unavailable) : List Trigger :=
  sortedBy (fun item => toLex (item.identity, item.reason))
    ((unavailable.filter (·.gate ∈ gates)).map fun item => ⟨item.identity, item.reason⟩)

/-- The identities of the setups in a direction. -/
def identitiesOf (direction : Direction) (setups : List Attributed) : List String :=
  sorted ((setups.filter (·.setup.direction = direction)).map (·.item.identity))

/-- `_trigger_sides` -/
def triggerSides (setups : List Attributed) (unavailable : List Unavailable) : Sides :=
  let pending := triggersAt [.triggerPending] unavailable
  let rejected := triggersAt [.triggerRejected, .triggerInvalidated, .triggerExpired] unavailable
  let long := identitiesOf .long setups
  let short := identitiesOf .short setups
  { bull := ⟨long, short, pending, rejected⟩
    bear := ⟨short, long, pending, rejected⟩ }

/-! ## The market fields -/

/-- `{"state": "unavailable"}` -/
def unavailableState : Val := .dict [("state", .str "unavailable")]

structure MarketFields where
  monthly : Val
  event : Val
  missing : List String
  htf : List (String × Val)
  zones : List Val

/-- `value.get(timeframe, {}).get("state") == "available"` -/
def timeframeAvailable (granularities : Val) (timeframe : String) : Except Exc Bool := do
  let block ← granularities.get timeframe (.dict [])
  let state ← block.get "state"
  return state.isStr "available"

/-- `granularities.get(timeframe, unavailable).get("trend", granularities.get(…))` -/
def trendOf (granularities : Val) (timeframe : String) : Except Exc (String × Val) := do
  let block ← granularities.get timeframe unavailableState
  let trend ← block.get "trend" block
  return (timeframe, trend)

/-- `{"timeframe": timeframe, **zone}` -/
def labelled (timeframe : String) (zone : Val) : Except Exc Val :=
  match zone with
  | .dict entries =>
    .ok (.dict (("timeframe", (entries.lookup "timeframe").getD (.str timeframe)) ::
      entries.filter (·.1 ≠ "timeframe")))
  | _ => raise .typeError "object is not a mapping"

/-- The support and resistance zones of a timeframe. -/
def zonesOf (granularities : Val) (timeframe : String) : Except Exc (List Val) := do
  let block ← granularities.get timeframe (.dict [])
  let structure_ ← block.get "structure" (.dict [])
  let zones ← structure_.get "support_resistance_zones" (.dict [])
  let zones ← zones.get "zones" (.list [])
  let zones ← zones.iter
  mapE (labelled timeframe) zones

/-- `_market_fields` -/
def marketFields (snapshot : Snapshot) : Except Exc MarketFields := do
  let granularities ← snapshot.payload.get "granularities" (.dict [])
  let monthly ← snapshot.payload.get "monthly_context" (.dict [])
  let missing ← filterMapE (fun timeframe => do
    let available ← timeframeAvailable granularities timeframe
    return if available then none else some timeframe) ["W", "D", "H4", "H1", "M15"]
  let monthlyState ← monthly.get "state"
  let missing := if monthlyState.isStr "available" then missing else "monthly-context-v1" :: missing
  let trends ← mapE (trendOf granularities) ["W", "D", "H4"]
  let event ← snapshot.payload.get "event_state" (.dict [])
  let macroRegime ← snapshot.payload.get "macro_regime" unavailableState
  let sentiment := Val.dict [("state", .str "unavailable"),
    ("reason", .str "no_frozen_sentiment_contract")]
  let zones ← mapE (zonesOf granularities) ["W", "D", "H4", "H1"]
  return ⟨monthly, event, missing, trends ++ [("monthly", monthly), ("macro", macroRegime),
    ("event", event), ("sentiment", sentiment)], zones.flatten⟩

/-- A detail that comes from the snapshot; only a text joins. -/
def detailText (detail : Val) : Except Exc String :=
  if detail.truthy then
    match detail with
    | .str text => .ok text
    | _ => raise .typeError "sequence item is not a text"
  else .ok ""

/-- The items of a value that is sorted and then joined. -/
def vintageTexts (value : Val) : Except Exc (List String) := do
  let items ← value.iter
  mapE (fun item => match item with
    | .str text => .ok text
    | _ => raise .typeError "sequence item is not a text") items

/-- What the event gates read off the event state. -/
structure EventReading where
  known : Bool
  detail : String
  active : List String

/-- The detail an unknown event state closes its gate with. -/
def eventDetail (known : Bool) (reasonCode : Val) : Except Exc String :=
  if known then .ok "" else detailText reasonCode

/-- The event state, its detail and its active windows. -/
def readEvent (event : Val) : Except Exc EventReading := do
  let state ← event.get "state"
  let coverage ← event.get "coverage"
  let known := state.isStr "available" && coverage.isStr "attested_complete"
  let covered ← event.get "coverage" (.str "")
  let reasonCode ← event.get "reason_code" covered
  let detail ← eventDetail known reasonCode
  let vintages ← event.get "active_window_vintages" (.list [])
  let active ← vintageTexts vintages
  return ⟨known, detail, sorted active⟩

/-! ## The setup, its cost and its reward -/

/-- `_valid_m15_successor` -/
def validM15Successor (setup : Setup) : Bool :=
  let first := registeredSuccessor setup.signalStart .m15
  let second := registeredSuccessor first .m15
  let expected := if setup.availableAt ≤ first then first else second
  setup.signalStart < first && first ≤ setup.entryAt && setup.availableAt ≤ setup.entryAt &&
    setup.entryAt = expected

/-- The gates on the setups that were attributed. -/
def setupGates (gates : Gates) (attributed m15Setups : List Attributed) : Gates :=
  let gates := closeIf (m15Setups.length ≠ attributed.length) gates .m15ConfirmationUnavailable
    "v2 has no H1-to-M15 entry adapter"
  let gates := closeIf (m15Setups.length ≠ attributed.length) gates .unsupportedIntentShape
    "only exact Phase 5 M15 setup geometry is supported"
  closeIf (1 < m15Setups.length) gates .conflictingEligibleSetups
    "exactly one originatable setup required"

/-- The only M15 setup, when there is one. -/
def onlySetup : List Attributed → Option Setup
  | [item] => some item.setup
  | _ => none

/-- The successor rule on the setup. -/
def successorGate (gates : Gates) : Option Setup → Gates
  | none => gates
  | some setup => closeIf (validM15Successor setup = false) gates .unsupportedIntentShape
      "entry must be registered M15 successor"

/-- `required_ids` -/
def requiredIds (attributed : List Attributed) : List String :=
  sortedOnce (attributed.flatMap (·.eligibility.requiredEvidenceIds))

/-- The gates on the evidence packet. -/
def evidenceGates (gates : Gates) (required : List String) (evidence : Option Evidence) : Gates :=
  if required ≠ [] then
    close gates .requiredEvidenceNotReady "method v2 defines no Phase 7 requirements"
  else closeIf (evidence ≠ none) gates .inputIntegrityFailure "unrequired evidence packet"

/-- The gates on the event state. -/
def eventGates (gates : Gates) (event : EventReading) : Gates :=
  let gates := closeIf (event.known = false) gates .eventStateUnknown event.detail
  closeIf (event.active ≠ []) gates .eventWindowBlocked (",".intercalate event.active)

/-- The components in the order of their names, when all are there. -/
def Components.complete (c : Components) : Option (List ℚ) := do
  let commission ← c.commission
  let financing ← c.financing
  let slippageLatency ← c.slippageLatency
  let spread ← c.spread
  return [commission.value, financing.value, slippageLatency.value, spread.value]

/-- The components of a cost all of which are there. -/
def completeCost (cost : Option Cost) : Option (List ℚ) := cost.bind (·.components.complete)

/-- The spread of a cost. -/
def spreadOf (cost : Option Cost) : Option ℚ := cost.bind fun c => c.components.spread.map (·.value)

/-- `isoformat(timespec="microseconds")` -/
def iso (instant : Instant) : String :=
  let micros := instant % day
  (Date.ofDays (instant / day)).isoformat ++ "T" ++ pad 2 (micros / hour) ++ ":" ++
    pad 2 (micros % hour / minute) ++ ":" ++ pad 2 (micros % minute / 1000000) ++ "." ++
    pad 6 (micros % 1000000) ++ "+00:00"

/-- The gates on the cost evidence. -/
def costGates (gates : Gates) (cost : Option Cost) (cutoff : Instant) : Gates :=
  let gates := closeIf (completeCost cost = none) gates .costEvidenceMissing
    "all exact components required"
  let gates := closeIf (spreadOf cost = none) gates .spreadUnknown "exact spread required"
  match cost with
  | none => gates
  | some c => closeIf (c.staleAfter < cutoff) gates .costEvidenceStale (iso c.staleAfter)

/-- The digits of the default decimal context. -/
def prec : ℕ := 28

/-- `format_decimal`: six places, as long as the digits of the context hold them. -/
def formatDecimal (value : ℚ) : Except Exc String :=
  let units := (Rounding.halfEven (value * 10 ^ 6)).natAbs
  if units < 10 ^ prec then
    .ok ((if value < 0 then "-" else "") ++ toString (units / 10 ^ 6) ++ "." ++
      pad 6 (units % 10 ^ 6 : ℕ))
  else raise .invalidOperation "quantize result has too many digits"

/-- The figures the reward gates compare. -/
structure Reward where
  gross : ℚ
  net : ℚ
  spreadRatio : ℚ
  deriving DecidableEq, Repr

/-- The figures in stop distances; none without a stop distance. -/
def reward (setup : Setup) (components : List ℚ) (spread : ℚ) : Option Reward :=
  let reference := setup.reference.value
  let stopDistance := Rounding.abs prec (Rounding.sub prec reference setup.stop.value)
  if stopDistance ≤ 0 then none
  else
    let gross := Rounding.div prec
      (Rounding.abs prec (Rounding.sub prec setup.target.value reference)) stopDistance
    some
      { gross := gross
        net := Rounding.sub prec gross
          (Rounding.div prec (Rounding.sum prec components) stopDistance)
        spreadRatio := Rounding.div prec spread stopDistance }

/-- The figures of a setup under a complete cost. -/
def rewardOf (setup : Option Setup) (cost : Option Cost) : Option (Option Reward) := do
  let setup ← setup
  let components ← completeCost cost
  let spread ← spreadOf cost
  return reward setup components spread

/-- The printed figures. -/
structure RewardTexts where
  gross : String
  net : String
  deriving DecidableEq, Repr

/-- The gates on the reward, with the figures where they were computed. -/
def rewardGates (gates : Gates) (m15Setups : ℕ) (figures : Option (Option Reward)) :
    Except Exc (Gates × Option RewardTexts) :=
  match figures with
  | none => .ok (closeIf (m15Setups ≤ 1) gates .netRewardNonpositive "unknown", none)
  | some none => .ok (close gates .unsupportedIntentShape "invalid exact geometry", none)
  | some (some r) => do
    let gross ← formatDecimal r.gross
    let net ← formatDecimal r.net
    let gates := closeIf (1 / 10 < r.spreadRatio) gates .spreadExceedsStrategyLimit
    return (closeIf (r.net ≤ 0) gates .netRewardNonpositive net, some ⟨gross, net⟩)

/-- The directions of the two legs of a setup. -/
def Direction.legs : Direction → List Direction
  | .long => [.long, .short]
  | .short => [.short, .long]

/-- The gates on the capacity. -/
def capacityGates (gates : Gates) (setup : Option Setup) : Option Capacity → Gates
  | none =>
    let gates := close gates .capacityAssessmentMissing
    let gates := close gates .aggregateCapacityExceeded "unknown"
    close gates .currencyDirectionCapacityExceeded "unknown"
  | some capacity =>
    let gates := closeIf (capacity.aggregate ≠ .available) gates .aggregateCapacityExceeded
      capacity.aggregate.text
    let directions := capacity.currencyLegs.map (·.direction)
    closeIf ((capacity.currencyLegs.any fun leg => leg.disposition ≠ .available) ∨
      (setup.any fun s => directions ≠ s.direction.legs)) gates .currencyDirectionCapacityExceeded

/-! ## The assessment -/

/-- The arguments of `build_assessment`. -/
structure Inputs where
  methodDigest : String
  snapshot : Snapshot
  eligibility : Eligibility
  evaluations : List Evaluation
  cost : Option Cost := none
  capacity : Option Capacity := none
  evidence : Option Evidence := none
  duplicate : Bool := false
  predecessorTerminalState : String := "open"

/-- What the candidate's semantic identity is taken over. -/
structure Semantic where
  strategy : Strategy
  definitionSha256 : String
  evaluationIdentity : String
  evaluationEvidenceSha256 : String
  evaluationOutputSha256 : String
  direction : Direction
  trigger : List String
  confirmation : Instant
  entry : Instant
  reference : Amount
  stop : Amount
  target : Amount
  invalidation : Amount
  expiry : Instant
  eligibility : String
  cost : Option String
  capacity : Option String
  requiredEvidence : Option String
  predecessorTerminalState : String
  deriving DecidableEq, Repr

structure Candidate where
  schema : String := "phase6a/eligible-trade-intent-candidate-v2"
  authority : String := "research_candidate_only_no_execution_or_trade_permission"
  semantic : Semantic
  semanticIdentity : String
  deriving DecidableEq, Repr

/-- What is fixed when the module loads. -/
structure Digests where
  method : String
  semantic : Semantic → String

/-- `METHOD_V11_DIGEST` -/
def methodV11Digest : String := "9ce72ba4fa5032d010266c06ce2928650bd31338398dee223b477c11c363d3fc"

inductive State
  | available | unavailable | closed
  deriving DecidableEq, Repr

/-- `"available" if condition else "unavailable"` -/
def stateOf (condition : Bool) : State := if condition then .available else .unavailable

structure MechanicalTrigger where
  state : State
  trigger : List String
  confirmation : Option Instant
  earliestNextM15Entry : Option Instant
  brokerExecutable : Bool := false
  m1Inferred : Bool := false
  deriving DecidableEq, Repr

structure RewardAndCost where
  state : State
  grossR : Option String
  components : Option Components
  costIdentity : Option String
  netR : Option String
  deriving DecidableEq, Repr

structure CapacityBlock where
  state : State
  identity : Option String
  policyIdentity : Option String
  sourceIdentity : Option String
  aggregate : Option Disposition
  currencyLegs : Option (List CurrencyLeg)
  deriving DecidableEq, Repr

structure TerminalState where
  state : State
  invalidation : Option Amount
  expiresAt : Option Instant
  supersession : String := "append_only_candidate_link"
  deriving DecidableEq, Repr

structure Decision where
  state : State
  primaryReason : Option Reason
  gates : List (Reason × Gate)
  deriving DecidableEq, Repr

structure Output where
  schema : String := "phase6a/assessment-v2"
  status : State
  informationCutoff : Instant
  htfRegime : State × List (String × Val)
  majorZones : State × List Val
  eligibleStrategies : State × List Entry
  directionalTriggers : State × Sides
  mechanicalTrigger : MechanicalTrigger
  rewardAndCost : RewardAndCost
  capacity : CapacityBlock
  terminalState : TerminalState
  decision : Decision

/-- The setups with M15 geometry. -/
def m15Setups (attributed : List Attributed) : List Attributed :=
  attributed.filter (·.setup.granularity = .m15)

/-- The gates after the evaluations: the setups, the evidence, the event state and the cost. -/
def envelopeGates (i : Inputs) (attributed : List Attributed) (market : MarketFields)
    (event : EventReading) (gates : Gates) : Gates :=
  let gates := closeIf (market.missing ≠ []) gates .requiredTimeframeUnavailable
    (",".intercalate market.missing)
  let gates := setupGates gates attributed (m15Setups attributed)
  let gates := successorGate gates (onlySetup (m15Setups attributed))
  let gates := evidenceGates gates (requiredIds attributed) i.evidence
  let gates := eventGates gates event
  costGates gates i.cost i.snapshot.informationCutoff

/-- The gates on the eligibility and on each evaluation. -/
def evaluationGates (i : Inputs) : Triage :=
  let entries := i.eligibility.entries
  let gates := closeIf (entries = []) newGates .noEconomicallyAdmittedStrategy
    "canonical eligibility is empty"
  let acc := triage entries gates i.evaluations
  let missing := missingEvaluations entries i.evaluations
  let gates := closeIf (missing ≠ []) acc.gates .technicalSetupAbsent
    ("missing evaluations:" ++ ",".intercalate missing)
  { acc with gates := gates }

/-- The assessment of closed or open gates. -/
def assessmentOutput (i : Inputs) (triaged : Triage) (market : MarketFields) (gates : Gates)
    (figures : Option RewardTexts) : Output :=
  let setup := onlySetup (m15Setups triaged.attributed)
  let closing := primary gates
  let verdict := if closing = none then State.available else .closed
  { status := verdict
    informationCutoff := i.snapshot.informationCutoff
    htfRegime := (stateOf (market.missing = []), market.htf)
    majorZones := (stateOf (market.missing = []), market.zones)
    eligibleStrategies := (.available, i.eligibility.entries)
    directionalTriggers := (.available, triggerSides triaged.attributed triaged.unavailable)
    mechanicalTrigger :=
      { state := stateOf setup.isSome
        trigger := (setup.map (·.evidence)).getD []
        confirmation := setup.map (·.availableAt)
        earliestNextM15Entry := setup.map (·.entryAt) }
    rewardAndCost :=
      { state := stateOf figures.isSome
        grossR := figures.map (·.gross)
        components := i.cost.map (·.components)
        costIdentity := i.cost.map (·.identity)
        netR := figures.map (·.net) }
    capacity :=
      { state := stateOf i.capacity.isSome
        identity := i.capacity.map (·.identity)
        policyIdentity := i.capacity.map (·.policyIdentity)
        sourceIdentity := i.capacity.map (·.sourceIdentity)
        aggregate := i.capacity.map (·.aggregate)
        currencyLegs := i.capacity.map (·.currencyLegs) }
    terminalState :=
      { state := stateOf setup.isSome
        invalidation := setup.map (·.stop)
        expiresAt := setup.map (·.expiresAt) }
    decision :=
      { state := verdict
        primaryReason := closing
        gates := reasons.map fun reason => (reason, gates reason) } }

/-- The candidate of a source. -/
def candidateOf (digests : Digests) (i : Inputs) (source : Attributed) : Candidate :=
  let setup := source.setup
  let semantic : Semantic :=
    { strategy := source.item.strategy
      definitionSha256 := source.item.definitionSha256
      evaluationIdentity := source.item.identity
      evaluationEvidenceSha256 := source.item.evidenceSha256
      evaluationOutputSha256 := source.item.outputSha256
      direction := setup.direction
      trigger := setup.evidence
      confirmation := setup.availableAt
      entry := setup.entryAt
      reference := setup.reference
      stop := setup.stop
      target := setup.target
      invalidation := setup.stop
      expiry := setup.expiresAt
      eligibility := i.eligibility.identity
      cost := i.cost.map (·.identity)
      capacity := i.capacity.map (·.identity)
      requiredEvidence := i.evidence.map (·.identity)
      predecessorTerminalState := i.predecessorTerminalState }
  { semantic := semantic, semanticIdentity := digests.semantic semantic }

/-- The candidate of open gates and a single M15 setup. -/
def candidate (digests : Digests) (i : Inputs) (m15Setups : List Attributed) (gates : Gates) :
    Option Candidate :=
  match primary gates, m15Setups with
  | none, [source] => some (candidateOf digests i source)
  | _, _ => none

/-- `build_assessment` after the loop over the evaluations. -/
def conclude (digests : Digests) (i : Inputs) (triaged : Triage) :
    Except Exc (Output × Option Candidate) := do
  let market ← marketFields i.snapshot
  let event ← readEvent market.event
  let gates := envelopeGates i triaged.attributed market event triaged.gates
  let setups := m15Setups triaged.attributed
  let setup := onlySetup setups
  let (gates, figures) ← rewardGates gates setups.length (rewardOf setup i.cost)
  let gates := capacityGates gates setup i.capacity
  let gates := closeIf (i.duplicate = true) gates .unchangedDuplicateIntent
  return (assessmentOutput i triaged market gates figures, candidate digests i setups gates)

/-- `build_assessment` -/
def buildAssessment (digests : Digests) (i : Inputs) : Except Exc (Output × Option Candidate) :=
  if i.methodDigest = digests.method ∨ i.methodDigest = methodV11Digest then
    conclude digests i (evaluationGates i)
  else raise .valueError "input_integrity_failure"

end TradeRecommender.Assessments
