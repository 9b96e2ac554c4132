import TradeRecommender.Forecasts.PortfolioTables

/-!
# The paper portfolio

`forecasts/portfolio.py`, `forecasts/lifecycle.py` and what `forecasts/paper.py` records, as calls
on the tables. A row takes the number after the rows of its table: gaps that rollbacks leave change
no comparison. Notifications and audit events, which no call reads, are left out.

1. `transition`, `initialize` and `close_cohort`;
2. selections;
3. `assess_recommendation_batch`;
4. `select_portfolio_cohort`;
5. `reconcile_lifecycle`;
6. `resolve_paper_trade`, of which what the candles show is given;
7. runs of calls, each a transaction under the lock of the portfolio.
-/

namespace TradeRecommender.Forecasts.Portfolio

open Civil (Instant hour)
open Py Py.Transaction
open Scope (Outcome)

/-! ## Events and closures -/

/-- A computation on the tables. -/
abbrev Work (α : Type) : Type := Transaction Tables α

section
variable (env : Environment)

/-- `transition` -/
def transition (r : Request) : Work Unit := do
  let time ← orNow env.clock r.occurredAt
  let db ← load id
  let made ← ofExcept (Forecasts.transition env.subjects id db.events { r with now := time })
  save fun db => { db with events := made.2 }

/-- `initialize` -/
def initializeLifecycle (pk : ℕ) : Work Unit :=
  if (env.recommendations pk).contractVersion = 4 then
    transition env {
      recommendation := pk
      state := (env.recommendations pk).subject.initial
      reasonCode := "issued"
      occurredAt := some (env.recommendations pk).generatedAt }
  else pure ()

/-- `CohortClosure.objects.get_or_create` -/
def getOrCreateClosure (cohort : ℕ) (reasonCode : String) (superseding : Option ℕ)
    (closedAt : Instant) : Work ℕ := do
  let db ← load id
  match db.closureOf cohort with
  | some closure => pure closure.id
  | none => do
    let id := db.closures.length + 1
    save fun db => { db with
      closures := db.closures ++ [{
        id, cohort, reasonCode, supersedingCohort := superseding, closedAt }] }
    pure id

/-- The turn of `close_cohort` on a member. -/
def closeMember (reasonCode : String) (closure : ℕ) (asOf : Instant) (member : CohortMember) :
    Work Unit := do
  let pk := member.recommendation
  let state ← load fun db => projectLifecycle env db pk asOf
  if (env.recommendations pk).contractVersion = 4 ∧ state = some .awaitingOwnerDecision then
    transition env {
      recommendation := pk
      state := .closedUnselected
      reasonCode
      source := some { type := .cohortClosure, id := closure }
      occurredAt := some asOf }
  else pure ()

/-- `close_cohort` -/
def closeCohort (cohort : ℕ) (reasonCode : String) (superseding : Option ℕ)
    (asOf : Option Instant) : Work Unit := do
  let asOf ← orNow env.clock asOf
  let closure ← getOrCreateClosure cohort reasonCode superseding asOf
  let members ← load fun db => db.membersOf cohort
  each (closeMember env reasonCode closure asOf) members

/-! ## Selections -/

/-- `PortfolioAdmissionEvent.clean` -/
def admissionClean (db : Tables) (event : AdmissionEvent) : Prop :=
  (env.recommendations event.recommendation).contractVersion = 4 → event.state = .revoked →
    projectedState none db.events event.recommendation event.occurredAt =
        some .admittedAwaitingEntry ∧
      (db.entryBy event.recommendation event.occurredAt).isNone

instance (db : Tables) (event : AdmissionEvent) : Decidable (admissionClean env db event) := by
  unfold admissionClean
  infer_instance

/-- The admission a selection creates. -/
def admissionRow (db : Tables) (selection : Selection) (state : AdmissionState)
    (reasonCode : String) (pk : ℕ) : AdmissionEvent where
  id := db.admissions.length + 1
  recommendation := pk
  cohort := selection.cohort
  selection := selection.id
  state
  reasonCode
  occurredAt := selection.selectedAt

/-- `PortfolioAdmissionEvent.objects.create` -/
def createAdmission (selection : Selection) (state : AdmissionState) (reasonCode : String)
    (pk : ℕ) : Work Unit := do
  let db ← load id
  let event := admissionRow db selection state reasonCode pk
  refuseIf (¬ admissionClean env db event) .validationError "revocation_requires_pending_admission"
  save fun db => { db with admissions := db.admissions ++ [event] }

/-- The latest admission of a recommendation, as the source of a transition. -/
def admissionSource (db : Tables) (pk : ℕ) : Option Source :=
  (db.lastAdmission pk).map fun event =>
    { type := .portfolioAdmissionEvent, id := event.id, recommendation := some pk }

/-- The turn of `_record_selection` on a member. -/
def selectMember (selected : Finset ℕ) (member : CohortMember) : Work Unit := do
  let pk := member.recommendation
  if (env.recommendations pk).contractVersion ≠ 4 then pure ()
  else do
    let time ← now env.clock
    let db ← load id
    let state := projectLifecycle env db pk time
    if pk ∈ selected ∧ state = some .awaitingOwnerDecision then
      transition env {
        recommendation := pk
        state := .admittedAwaitingEntry
        reasonCode := "selected"
        source := admissionSource db pk }
    else if pk ∉ selected ∧ state = some .admittedAwaitingEntry then
      transition env {
        recommendation := pk
        state := .admissionRevoked
        reasonCode := "revoked"
        source := admissionSource db pk }
    else pure ()

/-- `_record_selection`; its audit event is not read. -/
def recordSelection (cohort : Cohort) (selected : Finset ℕ) (mode : SelectionMode)
    (supersedes : Option Selection) (key : SelectionKey) : Work Unit := do
  let selectedAt ← now env.clock
  let db ← load id
  refuseIf (∃ other ∈ db.selections, other.key = key) .databaseError "idempotency_key"
  let selection : Selection := {
    id := db.selections.length + 1
    cohort := cohort.id
    supersedes := supersedes.map Selection.id
    mode
    key
    selectedAt
    selected }
  save fun db => { db with selections := db.selections ++ [selection] }
  let previous := (supersedes.map Selection.selected).getD ∅
  each (createAdmission env selection .admitted
      (if mode = .automatic then "all_fit" else "owner_selected"))
    ((selected \ previous).sort (· ≤ ·))
  each (createAdmission env selection .revoked "owner_superseded_while_pending")
    ((previous \ selected).sort (· ≤ ·))
  let members ← load fun db => db.membersOf cohort.id
  each (selectMember env selected) members
  if cohort.decisionDeadline.isSome then closeCohort env cohort.id "selection_recorded" none none
  else pure ()

/-! ## Assessments -/

/-- Why a recommendation that awaits its assessment is ineligible. -/
def ineligibility (db : Tables) (generatedAt : Instant) (pk : ℕ) : Except Exc (Option String) :=
  let rec_ := env.recommendations pk
  if ¬ (db.activation.any fun effectiveAt => effectiveAt ≤ rec_.generatedAt) then
    .ok (some "policy_not_effective")
  else do
    let deadline ← rec_.ownerDecisionDeadline
    if deadline ≤ generatedAt then .ok (some "decision_window_expired")
    else if (db.positionSize pk).isNone then .ok (some "missing_versioned_sizing")
    else if ∃ member ∈ db.members,
        ((env.recommendations member.recommendation).target.map Prod.fst =
          rec_.target.map Prod.fst) ∧ (db.closureOf member.cohort).isNone then
      .ok (some "existing_open_target_decision")
    else .ok none

/-- The turn of `assess_recommendation_batch` on a recommendation of version 4: whether it is
eligible. -/
def screen (generatedAt : Instant) (pk : ℕ) : Work Bool :=
  if (env.recommendations pk).action = .abstain then pure false
  else do
    let time ← now env.clock
    let state ← load fun db => projectLifecycle env db pk time
    if state ≠ some .awaitingPortfolioAssessment then pure false
    else do
      let db ← load id
      let reason ← ofExcept (ineligibility env db generatedAt pk)
      match reason with
      | some reasonCode => do
        transition env { recommendation := pk, state := .portfolioIneligible, reasonCode }
        pure false
      | none => pure true

/-- `_policy_activation().effective_at` -/
def policyActivation : Work Instant := do
  let time ← now env.clock
  let db ← load id
  match db.activation with
  | some effectiveAt => pure effectiveAt
  | none => do
    save fun db => { db with activation := some time }
    pure time

/-- `PortfolioCohortMember.objects.create`, and the event of a recommendation of version 4. -/
def addMember (cohort : ℕ) (pk : ℕ) : Work Unit := do
  let db ← load id
  match db.positionSize pk with
  | none => ofExcept (raise .validationError
      "A portfolio candidate requires versioned position sizing")
  | some risk => do
    refuseIf (∃ member ∈ db.members, member.recommendation = pk) .databaseError "recommendation"
    let id := db.members.length + 1
    save fun db => { db with
      members := db.members ++ [{
        id, cohort, recommendation := pk, projectedRisk := risk
        currencyLegs := (env.recommendations pk).legs }] }
    if (env.recommendations pk).contractVersion = 4 then
      transition env {
        recommendation := pk
        state := .awaitingOwnerDecision
        reasonCode := "cohort_member"
        source := some {
          type := .portfolioCohortMember, id, recommendation := some pk } }
    else pure ()

/-- The open cohorts that a new one of the candidates supersedes. -/
def supersededCohorts (db : Tables) (cohort : ℕ) (generatedAt : Instant) (candidates : List ℕ) :
    List Cohort :=
  db.cohorts.filter fun old =>
    (db.membersOf old.id).any (fun member =>
      (env.recommendations member.recommendation).instrument.id ∈
        candidates.map fun pk => (env.recommendations pk).instrument.id) &&
      (db.closureOf old.id).isNone && old.decisionDeadline.isSome &&
      decide (old.generatedAt < generatedAt) && old.id ≠ cohort

/-- The least of the deadlines. -/
def cohortDeadline (candidates : List ℕ) : Except Exc (Option Instant) := do
  let deadlines ← mapE (fun pk => (env.recommendations pk).ownerDecisionDeadline) candidates
  .ok deadlines.min?

/-- The cohort an assessment creates. -/
def cohortRow (db : Tables) (candidates base : List ℕ) (usage : ℕ × List (Leg × ℕ))
    (generatedAt : Instant) (decisionDeadline : Option Instant) : Cohort where
  id := db.cohorts.length + 1
  key := candidates.mergeSort fun a b => decide (a ≤ b)
  generatedAt
  decisionDeadline
  snapshot := {
    baseRecommendationIds := base
    baseTotalRisk := usage.1
    baseCurrencyDirectionRisk := usage.2
    aggregateRiskCap
    currencyDirectionRiskCap }

/-- The end of `assess_recommendation_batch`, on its candidates; the notification of a batch that
does not fit is not read. -/
def openCohort (prospective : Bool) (candidates : List ℕ) (generatedAt : Instant) : Work Unit := do
  let db ← load id
  if ∃ cohort ∈ db.cohorts, cohort.key = candidates.mergeSort fun a b => decide (a ≤ b) then pure ()
  else do
    let time ← now env.clock
    let base := activeAdmitted env db candidates time
    let usage ← ofExcept (capacityUsage env db base)
    let decisionDeadline ← ofExcept (if prospective then cohortDeadline env candidates else .ok none)
    let cohort := cohortRow db candidates base usage generatedAt decisionDeadline
    save fun db => { db with cohorts := db.cohorts ++ [cohort] }
    each (addMember env cohort.id) candidates
    let db ← load id
    let old := if prospective then supersededCohorts env db cohort.id generatedAt candidates else []
    each (fun other : Cohort =>
      closeCohort env other.id "new_target_superseded" (some cohort.id) none) old
    let db ← load id
    let fit ← ofExcept (fits env db (base ++ candidates))
    if fit then
      recordSelection env cohort candidates.toFinset .automatic none (.automatic cohort.id)
    else pure ()

/-- `assess_recommendation_batch` from the activation of the policy on. -/
def assessCandidates (prospective : Bool) (pks : List ℕ) (generatedAt : Instant) : Work Unit := do
  let effectiveAt ← policyActivation env
  let db ← load id
  let candidates := pks.filter fun pk =>
    decide (effectiveAt ≤ (env.recommendations pk).generatedAt) &&
      (db.members.all fun member => member.recommendation ≠ pk) &&
      (env.recommendations pk).action ≠ .abstain
  if candidates = [] then pure () else openCohort env prospective candidates generatedAt

/-- `assess_recommendation_batch` -/
def assessRecommendationBatch (pks : List ℕ) (generatedAt : Option Instant) : Work Unit := do
  let generatedAt ← orNow env.clock generatedAt
  let prospective := pks.filter fun pk => (env.recommendations pk).contractVersion = 4
  let eligible ← keepIf (screen env generatedAt) prospective
  let pks := eligible ++ pks.filter fun pk => (env.recommendations pk).contractVersion ≠ 4
  if prospective ≠ [] ∧ pks = [] then pure ()
  else assessCandidates env (prospective ≠ []) pks generatedAt

/-! ## Owner decisions -/

/-- A cohort with a deadline is closed, past it, or decided. -/
def decisionOver (db : Tables) (cohort : Cohort) : Work Bool :=
  match cohort.decisionDeadline with
  | none => pure false
  | some deadline =>
    if (db.closureOf cohort.id).isSome then pure true
    else do
      let time ← now env.clock
      pure (decide (deadline ≤ time) || (db.latestSelection cohort.id).isSome)

/-- `cohort_is_open` -/
def cohortIsOpen (cohort : Cohort) : Work Bool := do
  let db ← load id
  if (db.latestSelection cohort.id).any fun selection => selection.mode = .automatic then pure false
  else do
    let past ← decisionOver env db cohort
    if past then pure false
    else if ∃ member ∈ db.membersOf cohort.id, (db.latestFact member.recommendation).any fun fact =>
        fact.state ∈ [.entered, .closed, .expiredUnobserved, .cancelled, .missingData] then
      pure false
    else do
      let time ← now env.clock
      pure (!cohortHasTriggered env db cohort.id time)

/-- `select_portfolio_cohort`, of a cohort that is read again, once the lock is held. -/
def selectCohort (cohort : Cohort) (selectedIds : Finset ℕ) : Work Unit := do
  let db ← load id
  let members := db.membersOf cohort.id
  let memberIds := members.map CohortMember.recommendation
  refuseIf (∃ pk ∈ selectedIds, pk ∉ memberIds) .validationError
    "Selection contains a recommendation outside this cohort"
  let latest := db.latestSelection cohort.id
  let key : SelectionKey := .owner cohort.id ((latest.map Selection.id).getD 0) selectedIds
  if latest.any (fun selection => selection.selected = selectedIds) then pure ()
  else if ∃ other ∈ db.selections, other.key = key then pure ()
  else do
    let isOpen ← cohortIsOpen env cohort
    refuseIf (isOpen = false) .validationError
      "This selection cohort is closed because prices moved or a newer batch exists"
    let selected := members.filter fun member => member.recommendation ∈ selectedIds
    refuseIf (selectionFitsSnapshot cohort selected = false) .validationError
      "The selected setups exceed the frozen portfolio risk policy"
    let time ← now env.clock
    let db ← load id
    let fit ← ofExcept (fits env db
      (activeAdmitted env db memberIds time ++ selected.map CohortMember.recommendation))
    refuseIf (fit = false) .validationError
      "The selected setups exceed the frozen portfolio risk policy"
    recordSelection env cohort selectedIds .owner latest key

/-- `select_portfolio_cohort` -/
def selectPortfolioCohort (cohort : ℕ) (selectedIds : Finset ℕ) (superuser : Bool) :
    Work Unit := do
  refuseIf (superuser = false) .validationError
    "Only the configured owner can select a portfolio cohort"
  let db ← load id
  match db.cohorts.find? fun row => row.id = cohort with
  | none => ofExcept (raise (.other "DoesNotExist"))
  | some row => selectCohort env row selectedIds

/-! ## Reconciliation -/

/-- `PaperLifecycleEvent.objects.get_or_create`: its number. -/
def getOrCreateFact (pk : ℕ) (state : PaperState) (reasonCode : String) (occurredAt : Instant) :
    Work PaperLifecycleEvent := do
  let db ← load id
  match db.facts.find? fun fact => fact.recommendation = pk && fact.state = state with
  | some fact => pure fact
  | none => do
    let fact : PaperLifecycleEvent := {
      id := db.facts.length + 1, recommendation := pk, state, reasonCode, occurredAt }
    save fun db => { db with facts := db.facts ++ [fact] }
    pure fact

/-- `validate_coverage_fact` on a cancellation -/
def validateCancellation (db : Tables) (fact : PaperLifecycleEvent) : Except Exc Unit :=
  if (db.entryBy fact.recommendation fact.occurredAt).isSome ∨ fact.reasonCode = "" then
    raise .validationError "invalid_cancellation_evidence"
  else .ok ()

/-- The cancellation of an assessment that is overdue. -/
def cancelOverdue (pk : ℕ) (asOf : Instant) : Work Unit := do
  let fact ← getOrCreateFact pk .cancelled "assessment_window_expired" asOf
  let db ← load id
  transition env {
    recommendation := pk
    state := .cancelled
    reasonCode := "assessment_window_expired"
    source := some {
      type := .paperLifecycleEvent, id := fact.id, recommendation := some pk }
    occurredAt := some asOf
    coverage := validateCancellation db fact }

/-- The transition of an entry that has come. -/
def reconcileEntry (pk : ℕ) (asOf : Instant) : Work Unit := do
  let db ← load id
  match db.entryBy pk asOf with
  | none => pure ()
  | some entry =>
    if projectLifecycle env db pk asOf = some .admittedAwaitingEntry then
      transition env {
        recommendation := pk
        state := .entered
        reasonCode := "paper_entry"
        source := some {
          type := .paperTradeEntry, id := entry.id, recommendation := some pk }
        occurredAt := some asOf }
    else pure ()

/-- The transition of a result. -/
def recordResult (result : PaperTradeResult) (reasonCode : String) (occurredAt : Option Instant) :
    Work Unit :=
  transition env {
    recommendation := result.recommendation
    state := result.outcome.state
    reasonCode
    source := some {
      type := .paperTradeResult, id := result.id, recommendation := some result.recommendation }
    occurredAt
    expiry := env.validateExpiry result.id }

/-- The transition of a result that has come. -/
def reconcileResult (pk : ℕ) (asOf : Instant) : Work Unit := do
  let db ← load id
  match db.resultBy pk asOf with
  | none => pure ()
  | some result => recordResult env result "paper_result" (some asOf)

/-- The assessment of a recommendation that awaits it, or its cancellation. -/
def reconcileAssessment (asOf : Instant) (pk : ℕ) : Work Unit := do
  let state ← load fun db => projectLifecycle env db pk asOf
  if state = some .awaitingPortfolioAssessment then
    if (env.recommendations pk).generatedAt + 24 * hour ≤ asOf then cancelOverdue env pk asOf
    else assessRecommendationBatch env [pk] (some asOf)
  else pure ()

/-- The turn of `reconcile_lifecycle` on a recommendation. -/
def reconcileRecommendation (asOf : Instant) (pk : ℕ) : Work Unit := do
  initializeLifecycle env pk
  reconcileAssessment env asOf pk
  reconcileEntry env pk asOf
  reconcileResult env pk asOf

/-- The turn of `reconcile_lifecycle` on a cohort. -/
def reconcileCohort (asOf : Instant) (cohort : Cohort) : Work Unit := do
  let db ← load id
  if cohort.decisionDeadline.any fun deadline => deadline ≤ asOf then
    closeCohort env cohort.id "decision_deadline" none (some asOf)
  else if cohortHasTriggered env db cohort.id asOf then
    closeCohort env cohort.id "entry_trigger_before_selection" none (some asOf)
  else pure ()

/-- The recommendations `reconcile_lifecycle` goes through. -/
def reconciled (db : Tables) (instrument : Option ℕ) (asOf : Instant) : List ℕ :=
  let rows := db.issued.filter fun pk =>
    (env.recommendations pk).contractVersion = 4 &&
      decide ((env.recommendations pk).generatedAt ≤ asOf) &&
      instrument.all fun id => (env.recommendations pk).instrument.id = id
  rows.mergeSort fun a b =>
    let first := (env.recommendations a).generatedAt
    let second := (env.recommendations b).generatedAt
    decide (second < first) || decide (first = second) && decide (b ≤ a)

/-- The cohorts `reconcile_lifecycle` goes through. -/
def undecided (db : Tables) (asOf : Instant) : List Cohort :=
  let rows := db.cohorts.filter fun cohort =>
    cohort.decisionDeadline.isSome && decide (cohort.generatedAt ≤ asOf) &&
      (db.closureOf cohort.id).isNone
  rows.mergeSort fun a b =>
    decide (b.generatedAt < a.generatedAt) ||
      decide (a.generatedAt = b.generatedAt) && decide (b.id ≤ a.id)

/-- `reconcile_lifecycle` -/
def reconcileLifecycle (instrument : Option ℕ) (asOf : Option Instant) : Work Unit := do
  let asOf ← orNow env.clock asOf
  let pks ← load fun db => reconciled env db instrument asOf
  each (reconcileRecommendation env asOf) pks
  let cohorts ← load fun db => undecided db asOf
  each (reconcileCohort env asOf) cohorts

/-! ## Paper accounts -/

/-- The facts of a paper account that are not of an entry or a result. -/
inductive CoverageState
  | expiredUnobserved | missingData
  deriving DecidableEq

def CoverageState.fact : CoverageState → PaperState
  | .expiredUnobserved => .expiredUnobserved
  | .missingData => .missingData

def CoverageState.state : CoverageState → LifecycleState
  | .expiredUnobserved => .expiredUnobserved
  | .missingData => .missingData

/-- How a call of `resolve_paper_trade` ends: with a result, or with facts of coverage, each with
its reason. -/
inductive Ending
  | result (outcome : Outcome)
  | coverage (facts : List (CoverageState × String))

/-- What the candles show to a call of `resolve_paper_trade`, and what `validate_coverage_fact` does
on the facts it records. -/
structure Observation where
  enters : Bool
  ending : Ending
  coverage : Except Exc Unit := .ok ()

/-- `_record_lifecycle` on a fact of coverage -/
def recordCoverage (pk : ℕ) (coverage : Except Exc Unit) (noted : CoverageState × String) :
    Work Unit := do
  let time ← now env.clock
  if (env.recommendations pk).contractVersion = 4 then do
    let fact ← getOrCreateFact pk noted.1.fact noted.2 time
    transition env {
      recommendation := pk
      state := noted.1.state
      reasonCode := noted.2
      source := some {
        type := .paperLifecycleEvent, id := fact.id, recommendation := some pk }
      coverage }
  else do
    let _ ← getOrCreateFact pk noted.1.fact noted.2 (max time (env.recommendations pk).generatedAt)
    pure ()

/-- `_record_lifecycle` on a fact that is an entry or a result: the lifecycle event of a
recommendation of version 4, or else a row. -/
def recordFact (pk : ℕ) (state : PaperState) (event : Work Unit) : Work Unit :=
  if (env.recommendations pk).contractVersion = 4 then event
  else do
    let time ← now env.clock
    let _ ← getOrCreateFact pk state "" (max time (env.recommendations pk).generatedAt)
    pure ()

/-- The entry of a paper account, where it has none. -/
def recordEntry (pk : ℕ) : Work Unit := do
  let enteredAt ← now env.clock
  let db ← load id
  if ∃ entry ∈ db.entries, entry.recommendation = pk then pure ()
  else do
    let id := db.entries.length + 1
    save fun db => { db with entries := db.entries ++ [{ id, recommendation := pk, enteredAt }] }
    recordFact env pk .entered (transition env {
      recommendation := pk
      state := .entered
      reasonCode := "paper_fact"
      source := some { type := .paperTradeEntry, id, recommendation := some pk } })

/-- `_create_result` -/
def createResult (pk : ℕ) (outcome : Outcome) : Work Unit := do
  let resolvedAt ← now env.clock
  let db ← load id
  let result : PaperTradeResult := {
    id := db.results.length + 1, recommendation := pk, outcome, resolvedAt }
  save fun db => { db with results := db.results ++ [result] }
  recordFact env pk .closed (recordResult env result "paper_fact" none)

/-- The entry a call of `resolve_paper_trade` finds. -/
def observeEntry (pk : ℕ) (seen : Observation) : Work Unit :=
  if seen.enters then recordEntry env pk else pure ()

/-- What `resolve_paper_trade` records. -/
def recordObservation (pk : ℕ) (seen : Observation) : Work Unit := do
  observeEntry env pk seen
  match seen.ending with
  | .result outcome => createResult env pk outcome
  | .coverage facts => each (recordCoverage env pk seen.coverage) facts

/-- Whether `resolve_paper_trade` goes on to the candles. -/
def resolvable (pk : ℕ) : Work Bool := do
  let db ← load id
  let rec_ := env.recommendations pk
  if (∃ result ∈ db.results, result.recommendation = pk) ∨ rec_.contractVersion ∉ [2, 3, 4] ∨
      rec_.action = .abstain then pure false
  else do
    let time ← now env.clock
    if pk ∉ db.activeAdmittedRecommendationIds time then pure false
    else if rec_.contractVersion = 4 then do
      let time ← now env.clock
      pure (projectLifecycle env db pk time ∈
        [some LifecycleState.admittedAwaitingEntry, some LifecycleState.entered])
    else pure ((db.latestFact pk).any fun fact =>
      fact.state ∉ [.legacyUnadjudicated, .expiredUnobserved, .cancelled, .missingData])

/-- `resolve_paper_trade` -/
def resolvePaperTrade (pk : ℕ) (seen : Observation) : Work Unit := do
  let goes ← resolvable env pk
  if goes then recordObservation env pk seen else pure ()

/-! ## Runs -/

/-- A call of a worker or of the owner. A recommendation is issued, or sized, or not; candles are
stored as they come. -/
inductive Step
  | issue (pk : ℕ)
  | size (pk risk : ℕ)
  | ingest (candles : List HourlyCandle)
  | assess (pks : List ℕ) (generatedAt : Option Instant)
  | select (cohort : ℕ) (selectedIds : Finset ℕ) (superuser : Bool)
  | reconcile (instrument : Option ℕ) (asOf : Option Instant)
  | resolve (pk : ℕ) (seen : Observation)

/-- A new recommendation, initialized. -/
def issue (pk : ℕ) : Work Unit := do
  let db ← load id
  refuseIf (pk ∈ db.issued) .databaseError "recommendation"
  save fun db => { db with issued := db.issued ++ [pk] }
  initializeLifecycle env pk

/-- `size_recommendation`, with the risk it projects. -/
def sizeRecommendation (pk risk : ℕ) : Work Unit := do
  let db ← load id
  if (db.positionSize pk).isSome ∨ (env.recommendations pk).contractVersion ∉ [2, 3, 4] ∨
      (env.recommendations pk).action = .abstain then pure ()
  else save fun db => { db with positionSizes := db.positionSizes ++ [(pk, risk)] }

/-- The transaction of a call. -/
def Step.work : Step → Work Unit
  | .issue pk => Portfolio.issue env pk
  | .size pk risk => sizeRecommendation env pk risk
  | .ingest candles => save fun db => { db with candles := db.candles ++ candles }
  | .assess pks generatedAt => assessRecommendationBatch env pks generatedAt
  | .select cohort selectedIds superuser => selectPortfolioCohort env cohort selectedIds superuser
  | .reconcile instrument asOf => reconcileLifecycle env instrument asOf
  | .resolve pk seen => resolvePaperTrade env pk seen

/-- What calls leave, one after another. -/
def runAll (s : Server Tables) (steps : List Step) : Server Tables :=
  steps.foldl (fun s step => Transaction.commit (step.work env) s) s

end

end TradeRecommender.Forecasts.Portfolio
