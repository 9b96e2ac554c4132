import Mathlib.Data.Finset.Basic
import Mathlib.Data.Finset.Card
import TradeRecommender.Lib.NewYork
import TradeRecommender.Lib.Sweepline
import TradeRecommender.Lib.Tally
import TradeRecommender.Market.Quality

/-!
# Signal counts

`run_s1` of `research/signal_count.py`: the return-blind report over one ledger of setups.

1. the rows of the ledger, with the constraints of their tables;
2. what the checks before the counts give, as an environment;
3. the rule of the partition's end: completions, censorship and the ten-session horizon;
4. the purge and the lifecycle checks;
5. the counters and their loops;
6. the report.

Strings and instants are those of the rows; what is only compared against registered values (hashes,
identities, candle coverage) is a field of the environment, of any outcome.
-/

namespace TradeRecommender.Research.SignalCount

open Py Civil Market

/-! ## Rows -/

/-- `SetupEvent.Direction` -/
inductive Direction
  | long | short
  deriving DecidableEq, Repr

def Direction.code : Direction → String
  | .long => "long"
  | .short => "short"

/-- `Level.Family` -/
inductive Family
  | weekly | dailySwing | breakout
  deriving DecidableEq, Repr

def Family.code : Family → String
  | .weekly => "PREVIOUS_WEEKLY_EXTREME"
  | .dailySwing => "CONFIRMED_DAILY_SWING"
  | .breakout => "TWENTY_SESSION_BREAKOUT_FLIP"

/-- `SetupTransition.State` -/
inductive SetupState
  | triggerPending | confirmed | entryPending | invalidated | expired | missedFill | blockedSession
  | blockedSpread | noTarget | insufficientReward | cancelledDataQuality
  deriving DecidableEq, Repr

/-- `EntryEligibilityEvaluation.Decision` -/
inductive Decision
  | entryPending | missedFill | blockedSession | blockedSpread | noTarget | insufficientReward
  | cancelledDataQuality
  deriving DecidableEq, Repr

/-- The state a decision is called after. -/
def Decision.state : Decision → SetupState
  | .entryPending => .entryPending
  | .missedFill => .missedFill
  | .blockedSession => .blockedSession
  | .blockedSpread => .blockedSpread
  | .noTarget => .noTarget
  | .insufficientReward => .insufficientReward
  | .cancelledDataQuality => .cancelledDataQuality

/-- `Instrument` -/
structure Instrument where
  pk : ℕ
  code : String
  baseCurrency : String
  quoteCurrency : String
  deriving DecidableEq, Repr

/-- `SetupEvent` -/
structure SetupEvent where
  pk : ℕ
  instrument : Instrument
  direction : Direction
  sweep : Instant
  dataset : ℕ
  strategy : ℕ
  deriving DecidableEq, Repr

/-- The constraint `valid_phase2a_setup_transition`. -/
def ValidTransition (fromState : SetupState) (book : String) (toState : SetupState) : Prop :=
  (fromState = .triggerPending ∧ book = "" ∧
      toState ∈ [.confirmed, .invalidated, .expired, .cancelledDataQuality]) ∨
    (fromState = .confirmed ∧ book ≠ "" ∧
      toState ∈ [.entryPending, .missedFill, .blockedSession, .blockedSpread, .noTarget,
        .insufficientReward, .cancelledDataQuality])

/-- `SetupTransition` -/
structure SetupTransition where
  setup : SetupEvent
  book : String
  fromState : SetupState
  toState : SetupState
  effectiveAt : Instant
  valid : ValidTransition fromState book toState
  deriving DecidableEq

/-- `EntryEligibilityEvaluation` -/
structure Evaluation where
  setup : SetupEvent
  book : String
  decision : Decision
  entryTimestamp : Option Instant
  deriving DecidableEq, Repr

/-- `Level` -/
structure Level where
  pk : ℕ
  family : Family
  activatedAt : Instant
  dataset : ℕ
  strategy : ℕ
  deriving DecidableEq, Repr

/-- `SetupLevelAttribution` -/
structure Attribution where
  setup : SetupEvent
  level : Level
  deriving DecidableEq, Repr

/-- `LevelLifecycleEvent.State` -/
inductive LevelState
  | invalidated | expired | superseded | supersededByFlip
  deriving DecidableEq, Repr

/-- `LevelLifecycleEvent` -/
structure LifecycleEvent where
  pk : ℕ
  level : Level
  state : LevelState
  effectiveAt : Instant
  deriving DecidableEq, Repr

/-- `LevelProximityEvent.Kind` -/
inductive ProximityKind
  | approaching | touched
  deriving DecidableEq, Repr

/-- `LevelProximityEvent` -/
structure ProximityEvent where
  level : Level
  kind : ProximityKind
  observedAt : Instant
  deriving DecidableEq, Repr

/-- `AnalysisRun` -/
structure AnalysisRun where
  code : String
  completedH1 : Instant
  dataset : ℕ
  detectorVersion : String
  dataIncomplete : Bool
  deriving DecidableEq, Repr

/-- The tables the report reads, with their keys; a foreign key is the row it names. -/
structure Ledger where
  setups : List SetupEvent
  transitions : List SetupTransition
  evaluations : List Evaluation
  levels : List Level
  attributions : List Attribution
  lifecycle : List LifecycleEvent
  proximity : List ProximityEvent
  analyses : List AnalysisRun
  setup_pk : (setups.map SetupEvent.pk).Nodup
  transition_setup : ∀ t ∈ transitions, t.setup ∈ setups
  /-- `unique_setup_outgoing_transition` -/
  transition_once : (transitions.map fun t => (t.setup, t.fromState, t.book)).Nodup
  evaluation_setup : ∀ e ∈ evaluations, e.setup ∈ setups
  /-- `unique_setup_book_eligibility` -/
  evaluation_once : (evaluations.map fun e => (e.setup, e.book)).Nodup

/-! ## What comes before the counts -/

/-- `RequiredCandleRange` -/
structure RequiredRange where
  granularity : Granularity
  start : Instant
  finish : Instant
  deriving DecidableEq, Repr

/-- What the report reads of the S0 report. -/
structure S0Output where
  observations : ℕ
  missingness : List (String × List (String × ℕ))

/-- The body of `partition_boundary_censorship`. -/
structure CensorshipBody where
  setupId : ℕ
  sweepTimestamp : String
  rule : String
  partitionBoundary : String
  latestConfirmationCompletion : Option String
  entryEvidenceCompletion : Option String
  deriving DecidableEq, Repr

structure Censorship extends CensorshipBody where
  evidenceSha256 : String
  deriving DecidableEq, Repr

/-- The detector's registered run: whether its configuration and report carry the registered
identities, counts and hashes, and the censorship its report lists. -/
structure DetectorJob where
  pk : ℕ
  verified : Bool
  partitionBoundaryCensored : List Censorship

/-- The dataset, the strategy and what is read of them outside the ledger. -/
structure Env where
  dataset : ℕ
  strategy : ℕ
  detectorVersion : String
  /-- whether `contract_for_dataset` finds a provider-observed contract -/
  contract : Bool
  /-- `dataset_inventory_timestamps` -/
  inventory : String → Granularity → List Instant
  /-- `_validate_s1_contract`: the declared ranges of each instrument and the S0 report -/
  s1Contract : Except Exc (List (String × List RequiredRange) × S0Output)
  instruments : List Instrument
  /-- `assert_dataset_window_usable` on an instrument's development ranges -/
  windowUsable : String → Except Exc Unit
  detectorJob : Option DetectorJob
  /-- `expected_analysis_keys` -/
  expectedAnalyses : List (String × String)
  /-- `stable_hash` of a censorship body -/
  stableHash : CensorshipBody → String
  /-- `read_entry_projection` of an instrument's candle -/
  readEntryProjection : ℕ → Instant → Except Exc Unit

/-- `ReturnBlindViolation` -/
def returnBlindViolation : ExcClass := .other "ReturnBlindViolation"

/-- The refusals of the report. -/
def require (condition : Prop) [Decidable condition] (message : String) : Except Exc Unit :=
  if condition then .ok () else raise returnBlindViolation message

/-! ## The end of the partition -/

/-- `DEVELOPMENT_START`, a midnight of New York. -/
def developmentStart : Instant := (Date.mk 2010 1 1).toDays * day + 5 * hour

/-- `DEVELOPMENT_END`, a midnight of New York. -/
def developmentEnd : Instant := (Date.mk 2019 1 1).toDays * day + 5 * hour

/-- Whether an instant lies in the development partition. -/
def InDevelopment (t : Instant) : Prop := developmentStart ≤ t ∧ t < developmentEnd

instance (t : Instant) : Decidable (InDevelopment t) := by
  unfold InDevelopment
  infer_instance

/-- `candle_completion` -/
def candleCompletion (contract : Bool) (timestamp : Instant) (g : Granularity) : Instant :=
  if contract ∧ g = .h1 then timestamp + hour else registeredCandleCompletion timestamp g

/-- The sealed members at or after a sweep, in order. -/
def sealedSuccessors (sweep : Instant) (sealedH1 : List Instant) : List Instant :=
  (sortedOnce sealedH1).filter (sweep ≤ ·)

/-- `_partition_boundary_lifecycle_horizon` -/
def lifecycleHorizon (contract : Bool) (sweep : Instant) (sealedH1 : List Instant) :
    Option Instant × Option Instant :=
  match (sealedSuccessors sweep sealedH1).take 4 with
  | [_, _, third, fourth] =>
    (some (candleCompletion contract third .h1), some (candleCompletion contract fourth .h1))
  | _ => (none, none)

/-- `PARTITION_BOUNDARY_CENSOR_RULE` -/
def censorRule : String := "development-sweep-sealed-three-h1-plus-entry-v2"

/-- `partition_boundary_censorship` -/
def partitionBoundaryCensorship (contract : Bool) (stableHash : CensorshipBody → String)
    (setupId : ℕ) (sweep : Instant) (sealedH1 : List Instant) : Option Censorship :=
  let horizon := lifecycleHorizon contract sweep sealedH1
  if horizon.2.any (· < developmentEnd) then none
  else
    let body : CensorshipBody :=
      { setupId := setupId, sweepTimestamp := isoformat sweep, rule := censorRule,
        partitionBoundary := isoformat developmentEnd,
        latestConfirmationCompletion := horizon.1.map isoformat,
        entryEvidenceCompletion := horizon.2.map isoformat }
    some { body with evidenceSha256 := stableHash body }

/-- `_maximum_horizon_end`: the first sealed H1 open after ten D completions. -/
def maximumHorizonEnd (contract : Bool) (entry : Instant) (sealedDaily sealedH1 : List Instant) :
    Option Instant :=
  let completions :=
    ((sortedOnce sealedDaily).map fun t => candleCompletion contract t .d).filter (entry < ·)
  match completions[9]? with
  | none => none
  | some tenth => (sortedOnce sealedH1).find? (tenth ≤ ·)

/-! ## Queries -/

section
variable (env : Env) (ledger : Ledger)

/-- Whether a setup is one of the dataset under the strategy. -/
def Env.covers (setup : SetupEvent) : Prop :=
  setup.dataset = env.dataset ∧ setup.strategy = env.strategy

instance (setup : SetupEvent) : Decidable (env.covers setup) := by
  unfold Env.covers
  infer_instance

/-- The setups swept in development. -/
def developmentSetups : List SetupEvent :=
  ledger.setups.filter fun s => env.covers s ∧ InDevelopment s.sweep

/-- `has_global_transition` -/
def hasGlobalTransition (s : SetupEvent) : Bool :=
  ledger.transitions.any fun t => t.setup.pk = s.pk && t.book = ""

/-- The setups of the partition without a global transition. -/
def pending : List SetupEvent :=
  (developmentSetups env ledger).filter fun s => !hasGlobalTransition ledger s

/-- `confirmation_rows` -/
def confirmationRows : List SetupTransition :=
  sortedBy (fun t => toLex (t.effectiveAt, t.setup.pk)) <|
    ledger.transitions.filter fun t => env.covers t.setup ∧ t.book = "" ∧
      t.fromState = .triggerPending ∧ t.toState = .confirmed ∧ InDevelopment t.effectiveAt

/-- The global transitions of the setups swept in development. -/
def setupTerminal : List SetupTransition :=
  ledger.transitions.filter fun t =>
    env.covers t.setup ∧ t.book = "" ∧ InDevelopment t.setup.sweep

/-! ## Checks of the detector's run -/

/-- `FROZEN_INSTRUMENTS` -/
def frozenInstruments : List String :=
  ["EUR_USD", "GBP_USD", "EUR_GBP", "USD_CAD", "USD_JPY", "AUD_USD"]

/-- `AnalysisRun`s of the dataset under the detector that completed in development. -/
def analyses : List AnalysisRun :=
  ledger.analyses.filter fun run =>
    run.dataset = env.dataset ∧ run.detectorVersion = env.detectorVersion ∧
      run.code ∈ frozenInstruments ∧ InDevelopment run.completedH1

/-- The censorship recomputed for the setups of the partition. -/
def expectedCensored : List Censorship :=
  sortedBy (fun c : Censorship => c.setupId) <|
    (developmentSetups env ledger).filterMap fun s =>
      partitionBoundaryCensorship env.contract env.stableHash s.pk s.sweep
        (env.inventory s.instrument.code .h1)

/-- `_validate_detector_coverage` -/
def validateDetectorCoverage : Except Exc DetectorJob :=
  match env.detectorJob with
  | none => raise returnBlindViolation "S1 requires its registered detector JobRun"
  | some job => do
    require (job.verified ∧
        job.partitionBoundaryCensored =
          sortedBy (fun c : Censorship => c.setupId) job.partitionBoundaryCensored)
      "S1 detector audit hashes or identities do not verify"
    require (sortedBy (fun key => toLex (key.1, key.2))
          ((analyses env ledger).map fun run => (run.code, isoformat run.completedH1)) =
            env.expectedAnalyses ∧
        ∀ run ∈ analyses env ledger, run.dataIncomplete = false)
      "S1 detector analysis coverage is incomplete or unresolved"
    let expected := expectedCensored env ledger
    require (job.partitionBoundaryCensored = expected ∧
        ¬ ∃ t ∈ ledger.transitions,
          t.setup.pk ∈ expected.map (fun c : Censorship => c.setupId) ∧ t.book = "")
      "S1 detector partition censorship evidence does not verify"
    return job

/-! ## The purge -/

/-- `inventories_by_code[code]`: the D and the H1 members. -/
def inventoriesByCode (codes : List String) (code : String) :
    Except Exc (List Instant × List Instant) :=
  if code ∈ codes then .ok (env.inventory code .d, env.inventory code .h1)
  else raise .keyError code

/-- The horizon of a confirmation's first possible entry. -/
def confirmationHorizon (inventories : List Instant × List Instant) (effectiveAt : Instant) :
    Option Instant :=
  match inventories.2.find? (effectiveAt ≤ ·) with
  | none => none
  | some entry => maximumHorizonEnd env.contract entry inventories.1 inventories.2

/-- The turn of the loop over `confirmation_rows`: the confirmations kept and the number purged. -/
def purgeStep (codes : List String) (maximumSetups : ℤ) (acc : List SetupTransition × ℕ)
    (confirmation : SetupTransition) : Except Exc (List SetupTransition × ℕ) := do
  let inventories ← inventoriesByCode env codes confirmation.setup.instrument.code
  match confirmationHorizon env inventories confirmation.effectiveAt with
  | none => return (acc.1, acc.2 + 1)
  | some horizonEnd =>
    if developmentEnd ≤ horizonEnd then return (acc.1, acc.2 + 1)
    else do
      require (((acc.1 ++ [confirmation]).length : ℤ) ≤ maximumSetups)
        "S1 maximum_setups would truncate the complete development report"
      return (acc.1 ++ [confirmation], acc.2)

/-! ## The lifecycle of the confirmed setups -/

variable (setupIds : List ℕ)

/-- `attributions_by_setup[setup_id]` -/
def attributionsOf (setupId : ℕ) : List Attribution :=
  ledger.attributions.filter fun a => a.setup.pk = setupId

/-- The families a setup's levels are of. -/
def familiesOf (setupId : ℕ) : Finset Family :=
  ((attributionsOf ledger setupId).map fun a => a.level.family).toFinset

/-- `_s1_evaluation_queryset` -/
def evaluationsOf : List Evaluation :=
  sortedBy (fun e => toLex (e.setup.sweep, toLex (e.setup.pk, e.book))) <|
    ledger.evaluations.filter fun e => e.setup.pk ∈ setupIds

/-- `transitions_by_key.get((setup_id, book))` -/
def entryTransition (setupId : ℕ) (book : String) : Option SetupTransition :=
  ledger.transitions.find? fun t =>
    t.setup.pk = setupId ∧ t.fromState = .confirmed ∧ t.book = book

/-- `COMBINED_BOOK` -/
def combinedBook : String := "failed-break-any-level-deduplicated-v1"

/-- `FAMILY_BOOKS` -/
def familyBook : Family → String
  | .weekly => "failed-break-weekly-extreme-v1"
  | .dailySwing => "failed-break-daily-swing-v1"
  | .breakout => "failed-break-breakout-flip-v1"

/-- The checks on the books and the transitions of one confirmed setup. -/
def lifecycleComplete (setupId : ℕ) : Except Exc Unit := do
  let families := familiesOf ledger setupId
  let own := (evaluationsOf ledger setupIds).filter fun e => e.setup.pk = setupId
  require (families.Nonempty ∧ (own.map Evaluation.book).toFinset =
      insert combinedBook (families.image familyBook))
    "S1 setup/book eligibility lifecycle is incomplete"
  require (∀ e ∈ own, (entryTransition ledger setupId e.book).any fun t =>
      decide (t.toState = e.decision.state))
    "S1 eligibility transition ledger is incomplete"

end

/-! ## Counters -/

/-- `Counter` -/
abbrev Counter := List (String × ℕ)

/-- `counter[key] += 1` -/
def addOne (key : String) (counter : Counter) : Counter := Tally.addTo (· + ·) 0 key 1 counter

/-- `dict(sorted(counter.items()))` -/
def Counter.items (counter : Counter) : Counter :=
  sortedBy (fun entry => toLex (entry.1, entry.2)) counter

/-- The result of `_cluster_summary`. -/
structure ClusterSummary where
  clusters : ℕ
  members : ℕ
  maximumSize : ℕ
  multiMemberClusters : ℕ
  sizeDistribution : List (String × ℕ)
  deriving DecidableEq

/-- `_cluster_summary` -/
def clusterSummary (counter : Counter) : ClusterSummary :=
  let values := counter.map Prod.snd
  { clusters := counter.length
    members := values.sum
    maximumSize := values.foldr max 0
    multiMemberClusters := values.countP (1 < ·)
    sizeDistribution := (sortedBy Prod.fst
      (Tally.tally (· + ·) 0 (values.map fun size => (size, 1)))).map fun entry =>
        (toString entry.1, entry.2) }

/-- The wall time of London: summer time from 01:00 UTC of the last Sunday of March to that of the
last Sunday of October. -/
def londonWall (t : Instant) : ℤ :=
  let year := (Date.ofDays (t / day)).year
  if sundayFrom (Date.mk year 3 25).toDays * day + hour ≤ t ∧
      t < sundayFrom (Date.mk year 10 25).toDays * day + hour then t + hour
  else t

/-- `_session_label` -/
def sessionLabel (t : Instant) : String :=
  let london := 8 * hour ≤ londonWall t % day ∧ londonWall t % day < 17 * hour
  let newYork := 8 * hour ≤ newYorkWall t % day ∧ newYorkWall t % day < 17 * hour
  if london ∧ newYork then "london_new_york_overlap"
  else if london then "london"
  else if newYork then "new_york"
  else "outside_registered_union"

/-- The ISO year and week of a day, those of its Thursday. -/
def isoWeek (days : ℤ) : String :=
  let thursday := days - weekday days + 3
  let year := (Date.ofDays thursday).year
  toString year ++ "-W" ++ pad 2 ((thursday - (Date.mk year 1 1).toDays) / 7 + 1)

/-- The counters of the loop over the confirmed setups. -/
structure SetupCounters where
  byPair : Counter := []
  byYear : Counter := []
  byDirection : Counter := []
  byFamily : Counter := []
  multiplicity : Counter := []
  issuanceDates : Counter := []
  issuanceWeeks : Counter := []

/-- The turn of the loop over the confirmed setups. -/
def countSetup (ledger : Ledger) (acc : SetupCounters) (confirmation : SetupTransition) :
    SetupCounters :=
  let setup := confirmation.setup
  let local_ := newYorkWall confirmation.effectiveAt / day
  let own := attributionsOf ledger setup.pk
  { byPair := addOne setup.instrument.code acc.byPair
    byYear := addOne (toString (Date.ofDays local_).year) acc.byYear
    byDirection := addOne setup.direction.code acc.byDirection
    byFamily := (own.map fun a => a.level.family).dedup.foldl
      (fun counter family => addOne family.code counter) acc.byFamily
    multiplicity := addOne (toString own.length) acc.multiplicity
    issuanceDates := addOne (Date.ofDays local_).isoformat acc.issuanceDates
    issuanceWeeks := addOne (isoWeek local_) acc.issuanceWeeks }

/-! ## The loop over the evaluations -/

/-- The counts by decision. -/
structure DecisionCounts where
  eligibilityEvaluationsProcessed : ℕ := 0
  entryEligible : ℕ := 0
  missedFill : ℕ := 0
  blockedSession : ℕ := 0
  blockedSpread : ℕ := 0
  noTarget : ℕ := 0
  insufficientReward : ℕ := 0
  cancelledDataQuality : ℕ := 0

/-- `counts[decision_fields[decision]] += 1` after the count of the evaluations. -/
def DecisionCounts.add (counts : DecisionCounts) (decision : Decision) : DecisionCounts :=
  let counts := { counts with
    eligibilityEvaluationsProcessed := counts.eligibilityEvaluationsProcessed + 1 }
  match decision with
  | .entryPending => { counts with entryEligible := counts.entryEligible + 1 }
  | .missedFill => { counts with missedFill := counts.missedFill + 1 }
  | .blockedSession => { counts with blockedSession := counts.blockedSession + 1 }
  | .blockedSpread => { counts with blockedSpread := counts.blockedSpread + 1 }
  | .noTarget => { counts with noTarget := counts.noTarget + 1 }
  | .insufficientReward => { counts with insufficientReward := counts.insufficientReward + 1 }
  | .cancelledDataQuality => { counts with cancelledDataQuality := counts.cancelledDataQuality + 1 }

/-- An entry: its instrument's code and its time. -/
abbrev Entry := String × Instant

/-- The state of the loop over the evaluations. -/
structure Entries where
  counts : DecisionCounts := {}
  projectionsRead : ℕ := 0
  projectedEntries : List (ℕ × Instant) := []
  bySession : Counter := []
  byBook : Counter := []
  simultaneous : Counter := []
  simultaneousByBook : List (String × Counter) := []
  sharedCurrency : Counter := []
  eligibleEntries : List Entry := []
  eligibleEntriesByBook : List (String × List Entry) := []

/-- The sides of the two currencies of a setup's pair. -/
def currencySides (setup : SetupEvent) : String × String :=
  match setup.direction with
  | .long =>
    ("long:" ++ setup.instrument.baseCurrency, "short:" ++ setup.instrument.quoteCurrency)
  | .short =>
    ("short:" ++ setup.instrument.baseCurrency, "long:" ++ setup.instrument.quoteCurrency)

section
variable (env : Env) (ledger : Ledger) (ranges : List (String × List RequiredRange))

/-- `ranges_by_instrument_id.get(instrument_id, ())` -/
def rangesById (instrumentId : ℕ) : List RequiredRange :=
  match (env.instruments.filter fun i => i.code ∈ ranges.map Prod.fst).reverse.find?
      fun i => i.pk = instrumentId with
  | none => []
  | some instrument => (ranges.lookup instrument.code).getD []

/-- The part of the loop over the evaluations for an eligible entry. -/
def admitEntry (acc : Entries) (e : Evaluation) (entry : Instant) : Except Exc Entries := do
  require (∃ required ∈ rangesById env ranges e.setup.instrument.pk,
      required.granularity = .h1 ∧ required.start ≤ entry ∧ entry + hour ≤ required.finish)
    "entry projection is outside the frozen S1 range"
  let key := (e.setup.instrument.pk, entry)
  let fresh := key ∉ acc.projectedEntries
  if fresh then env.readEntryProjection key.1 key.2
  let stamp := isoformat entry
  let sides := currencySides e.setup
  return { acc with
    projectionsRead := if fresh then acc.projectionsRead + 1 else acc.projectionsRead
    projectedEntries := if fresh then key :: acc.projectedEntries else acc.projectedEntries
    eligibleEntries := acc.eligibleEntries ++ [(e.setup.instrument.code, entry)]
    eligibleEntriesByBook := Tally.addTo (· ++ ·) [] e.book [(e.setup.instrument.code, entry)]
      acc.eligibleEntriesByBook
    simultaneous := addOne stamp acc.simultaneous
    simultaneousByBook := Tally.addTo (fun counter _ => addOne stamp counter) [] e.book []
      acc.simultaneousByBook
    sharedCurrency := addOne (e.book ++ "|" ++ stamp ++ "|" ++ sides.2)
      (addOne (e.book ++ "|" ++ stamp ++ "|" ++ sides.1) acc.sharedCurrency) }

/-- The turn of the loop over the evaluations. -/
def evaluate (acc : Entries) (e : Evaluation) : Except Exc Entries :=
  match entryTransition ledger e.setup.pk e.book with
  | none => raise .keyError e.book
  | some transition =>
    let acc := { acc with
      counts := acc.counts.add e.decision
      bySession := addOne (sessionLabel transition.effectiveAt) acc.bySession
      byBook := addOne e.book acc.byBook }
    if e.decision = .entryPending then
      match e.entryTimestamp with
      | none => raise .typeError "entry_timestamp"
      | some entry => admitEntry env ranges acc e entry
    else .ok acc

end

/-! ## Concurrency -/

/-- The result of `_maximum_concurrency`. -/
structure Concurrency where
  entryRequests : ℕ
  peakRequests : ℤ
  deriving DecidableEq

section
variable (env : Env) (ledger : Ledger) (codes : List String)

/-- An entry's interval up to its horizon. -/
def entryInterval (entry : Entry) : Except Exc (Instant × Instant) := do
  let inventories ← inventoriesByCode env codes entry.1
  match maximumHorizonEnd env.contract entry.2 inventories.1 inventories.2 with
  | none =>
    raise returnBlindViolation "sealed inventory cannot resolve the ten-session horizon"
  | some horizonEnd => return (entry.2, horizonEnd)

/-- `_maximum_concurrency` -/
def maximumConcurrency (entries : List Entry) : Except Exc Concurrency := do
  let intervals ← mapE (entryInterval env codes) entries
  let changes := intervals.flatMap fun interval => [(interval.1, 1), (interval.2, -1)]
  let final := (sortedBy (fun change => toLex (change.1, change.2)) changes).foldl
    (fun state change => (state.1 + change.2, max state.2 (state.1 + change.2))) ((0, 0) : ℤ × ℤ)
  return ⟨entries.length, final.2⟩

end

/-! ## The report -/

/-- The counts of the report that are not by decision. -/
structure Counts extends DecisionCounts where
  levelsActive : ℕ
  levelsInvalidated : ℕ
  levelsExpired : ℕ
  levelsSuperseded : ℕ
  levelsConsumed : ℕ
  proximityApproaching : ℕ
  proximityTouched : ℕ
  sweeps : ℕ
  attributions : ℕ
  confirmations : ℕ
  setupInvalidated : ℕ
  setupExpired : ℕ
  setupCancelledDataQuality : ℕ
  stillTriggerPending : ℕ
  partitionBoundaryCensored : ℕ
  partitionBoundaryPurged : ℕ
  physicalSetupsProcessed : ℕ

/-- The coverage of the report, less the identities it repeats. -/
structure Coverage where
  entryProjectionsRead : ℕ
  byPair : Counter
  byConfirmationYear : Counter
  byDirection : Counter
  byLevelFamily : Counter
  bySession : Counter
  byStrategyIdentity : Counter
  multipleAttributions : ℕ
  multipleFamilies : ℕ
  attributionMultiplicity : Counter
  issuanceDateClusters : ClusterSummary
  issuanceWeekClusters : ClusterSummary
  sharedCurrencyClusters : ClusterSummary
  simultaneousRequests : ClusterSummary
  simultaneousByStrategyIdentity : List (String × ClusterSummary)
  maximumHorizonConcurrency : Concurrency
  concurrencyByStrategyIdentity : List (String × Concurrency)
  analysisDataIncomplete : ℕ
  manifestMissingCandles : ℕ
  s0OpeningObservations : ℕ
  eligibilityChecks : ℤ
  spreadPassed : ℤ
  entryWindows : ℕ
  minuteRows : ℕ
  estimatedBytes : ℕ

/-- `SignalCountOutput` of stage S1 -/
structure Report where
  counts : Counts
  coverage : Coverage

section
variable (env : Env) (ledger : Ledger)

/-- The levels of the dataset that were active before the partition's end. -/
def developmentLevels : List Level :=
  ledger.levels.filter fun l =>
    l.dataset = env.dataset ∧ l.strategy = env.strategy ∧ l.activatedAt < developmentEnd

/-- `latest_level_state` -/
def latestLevelState : List (ℕ × LevelState) :=
  (sortedBy (fun event => toLex (event.effectiveAt, event.pk)) <|
    ledger.lifecycle.filter fun event =>
      event.level.pk ∈ (developmentLevels env ledger).map Level.pk ∧
        event.effectiveAt < developmentEnd).foldl
    (fun states event => Tally.addTo (fun _ state => state) event.state event.level.pk event.state
      states) []

/-- The proximity events observed in development. -/
def developmentProximity : List ProximityEvent :=
  ledger.proximity.filter fun event =>
    event.level.dataset = env.dataset ∧ event.level.strategy = env.strategy ∧
      InDevelopment event.observedAt

/-- The loop over the confirmations: those kept and the number purged. -/
def purge (codes : List String) (maximumSetups : ℤ) : Except Exc (List SetupTransition × ℕ) :=
  (confirmationRows env ledger).foldlM (purgeStep env codes maximumSetups) ([], 0)

/-- The counts of the report. -/
def countsOf (censored : Finset ℕ) (confirmations : List SetupTransition) (purged : ℕ)
    (entries : Entries) : Counts :=
  let states := (latestLevelState env ledger).map Prod.snd
  let terminal := (setupTerminal env ledger).map SetupTransition.toState
  let kinds := (developmentProximity env ledger).map ProximityEvent.kind
  { entries.counts with
    levelsActive := (developmentLevels env ledger).countP fun l =>
      l.pk ∉ Tally.keys (latestLevelState env ledger)
    levelsInvalidated := states.count .invalidated
    levelsExpired := states.count .expired
    levelsSuperseded := states.countP (· ∈ [.superseded, .supersededByFlip])
    levelsConsumed := ((ledger.attributions.filter fun a =>
      env.covers a.setup ∧ InDevelopment a.setup.sweep).map fun a => a.level.pk).toFinset.card
    proximityApproaching := kinds.count .approaching
    proximityTouched := kinds.count .touched
    sweeps := (developmentSetups env ledger).length
    attributions := ledger.attributions.countP fun a =>
      a.setup.pk ∈ (developmentSetups env ledger).map SetupEvent.pk
    confirmations := confirmations.length
    setupInvalidated := terminal.count .invalidated
    setupExpired := terminal.count .expired
    setupCancelledDataQuality := terminal.count .cancelledDataQuality
    stillTriggerPending := 0
    partitionBoundaryCensored := censored.card
    partitionBoundaryPurged := purged
    physicalSetupsProcessed := confirmations.length }

/-- The coverage of the report. -/
def coverageOf (codes : List String) (s0 : S0Output) (confirmations : List SetupTransition)
    (evaluations : List Evaluation) (entries : Entries) : Except Exc Coverage := do
  let setups := confirmations.foldl (countSetup ledger) {}
  let ids := confirmations.map fun c => c.setup.pk
  let allBooks ← maximumConcurrency env codes entries.eligibleEntries
  let byBook ← mapE (fun book : String × List Entry => do
      let concurrency ← maximumConcurrency env codes book.2
      return (book.1, concurrency))
    (sortedBy Prod.fst entries.eligibleEntriesByBook)
  let spreadChecks : ℤ := evaluations.length - entries.counts.cancelledDataQuality -
    entries.counts.blockedSession - entries.counts.missedFill
  let windows := entries.projectedEntries.length
  return {
    entryProjectionsRead := entries.projectionsRead
    byPair := setups.byPair.items
    byConfirmationYear := setups.byYear.items
    byDirection := setups.byDirection.items
    byLevelFamily := setups.byFamily.items
    bySession := entries.bySession.items
    byStrategyIdentity := entries.byBook.items
    multipleAttributions := ids.countP fun id_ => 1 < (attributionsOf ledger id_).length
    multipleFamilies := ids.countP fun id_ => 1 < (familiesOf ledger id_).card
    attributionMultiplicity := setups.multiplicity.items
    issuanceDateClusters := clusterSummary setups.issuanceDates
    issuanceWeekClusters := clusterSummary setups.issuanceWeeks
    sharedCurrencyClusters := clusterSummary entries.sharedCurrency
    simultaneousRequests := clusterSummary entries.simultaneous
    simultaneousByStrategyIdentity := (sortedBy Prod.fst entries.simultaneousByBook).map
      fun book => (book.1, clusterSummary book.2)
    maximumHorizonConcurrency := allBooks
    concurrencyByStrategyIdentity := byBook
    analysisDataIncomplete := (analyses env ledger).countP AnalysisRun.dataIncomplete
    manifestMissingCandles := (s0.missingness.map fun code => (code.2.map Prod.snd).sum).sum
    s0OpeningObservations := s0.observations
    eligibilityChecks := spreadChecks
    spreadPassed := spreadChecks - entries.counts.blockedSpread
    entryWindows := windows
    minuteRows := windows * 60
    estimatedBytes := windows * 60 * 256 }

/-- `run_s1`; `record` checks the output against its schema and stores it. -/
def runS1 (record : Report → Except Exc Unit) (maximumSetups : ℤ) : Except Exc Report :=
  if maximumSetups < 1 then raise .valueError "maximum_setups must be positive"
  else do
    let (ranges, s0) ← env.s1Contract
    let codes := ranges.map Prod.fst
    require (∀ code ∈ codes, code ∈ env.instruments.map Instrument.code)
      "dataset required_ranges references an unknown instrument"
    let _ ← mapE env.windowUsable codes
    let detector ← validateDetectorCoverage env ledger
    let censored := (detector.partitionBoundaryCensored.map fun c => c.setupId).toFinset
    require (((pending env ledger).map SetupEvent.pk).toFinset = censored)
      ("S1 lifecycle is incomplete: trigger-pending setups do not match immutable " ++
        "partition censorship evidence")
    let (confirmations, purged) ← purge env ledger codes maximumSetups
    let setupIds := confirmations.map fun c => c.setup.pk
    let _ ← mapE (lifecycleComplete ledger setupIds) setupIds
    let evaluations := evaluationsOf ledger setupIds
    let entries ← evaluations.foldlM (evaluate env ledger ranges) {}
    let coverage ← coverageOf env ledger codes s0 confirmations evaluations entries
    let report : Report := ⟨countsOf env ledger censored confirmations purged entries, coverage⟩
    record report
    return report

end

end TradeRecommender.Research.SignalCount
