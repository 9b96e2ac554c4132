import TradeRecommender.Research.Feed
import TradeRecommender.Research.Macro
import TradeRecommender.Research.Calendars

/-!
# Research records and the store

The tables the ingests read and write, with their unique constraints.  A row enters a table only
when the database admits it: `Platform.admits` stands for the column checks of Django, the driver
and PostgreSQL.  A transaction either returns the new store or raises and leaves the store alone.
-/

namespace TradeRecommender.Research

open Py Civil

/-- What `fetch` returns. -/
structure FetchResult where
  url : String
  fetchedAt : Instant
  statusCode : ℕ
  contentType : String
  body : Body
  etag : String
  lastModified : String
  requestFingerprint : String

/-- `RawRetrieval.Quality`. -/
inductive RetrievalQuality
  | accepted | quarantined | rejected
  deriving DecidableEq

structure RawRetrieval where
  pk : ℕ
  sourcePolicy : ℕ
  url : String
  requestFingerprint : String
  fetchedAt : Instant
  httpStatus : ℕ
  contentType : String
  byteCount : ℕ
  bodySha256 : String
  body : Body
  etag : String
  lastModified : String
  quality : RetrievalQuality
  qualityReason : String
  retentionDecision : String
  deriving DecidableEq

/-- `ResearchDocument.Quality`. -/
inductive DocumentQuality
  | verified | quarantined | conflict
  deriving DecidableEq

structure ResearchDocument where
  pk : ℕ
  canonicalUrl : String
  canonicalHash : String
  title : String
  publishedAt : Option Instant
  firstObservedAt : Instant
  quality : DocumentQuality
  qualityReason : String
  deriving DecidableEq

structure DocumentRepresentation where
  pk : ℕ
  document : ℕ
  retrieval : ℕ
  sourceItemId : String
  dedupKey : String
  sourceTitle : String
  sourcePublishedAt : Option Instant
  summary : String
  deriving DecidableEq

/-- `MacroObservation.AvailabilityPrecision`. -/
inductive AvailabilityPrecision
  | provider | retrieval
  deriving DecidableEq

structure MacroObservation where
  series : ℕ
  retrieval : ℕ
  observationPeriod : Date
  value : Decimal
  normalizedValue : String
  availableAt : Instant
  vintageAt : Instant
  revisionSequence : ℕ
  availabilityPrecision : AvailabilityPrecision
  providerStatus : String
  deriving DecidableEq

structure EconomicEvent where
  retrieval : ℕ
  series : Option ℕ
  providerEventKey : String
  eventAt : Instant
  timePrecision : String
  country : String
  eventType : String
  sourceUrl : String
  status : String
  comparison : String
  period : String
  actual : Option Decimal
  estimate : Option Decimal
  previous : Option Decimal
  payloadFingerprint : String
  firstObservedAt : Instant
  deriving DecidableEq

/-- `ResearchDiscrepancy.Kind`. -/
inductive DiscrepancyKind
  | duplicate | conflict | revision
  deriving DecidableEq

structure ResearchDiscrepancy where
  kind : DiscrepancyKind
  entityKey : String
  earlierRetrieval : ℕ
  laterRetrieval : ℕ
  detail : List (String × Option String)
  observedAt : Instant
  deriving DecidableEq

/-- The audit events of the ingests; every one is about a retrieval. -/
structure AuditEvent where
  eventType : String
  subjectId : ℕ
  bodySha256 : String
  texts : List (String × String)
  counts : List (String × ℕ)
  deriving DecidableEq

/-- A row offered to the database. -/
inductive Row
  | retrieval (row : RawRetrieval)
  | document (row : ResearchDocument)
  | representation (row : DocumentRepresentation)
  | observation (row : MacroObservation)
  | event (row : EconomicEvent)
  | discrepancy (row : ResearchDiscrepancy)
  | audit (row : AuditEvent)

/-- The library calls of the parsers and the services, and the database's answer to a row. -/
structure Platform extends Stdlib where
  /-- `hashlib.sha256(value.encode()).hexdigest()` -/
  digest : String → Except Exc String
  /-- `hashlib.sha256(body).hexdigest()` -/
  bodySha256 : Body → String
  /-- `json.dumps(payload, sort_keys=True)` of a dict of texts -/
  dumps : List (String × Option String) → String
  admits : Row → Except Exc Unit

/-- The research tables, rows in the order of their creation. -/
structure Db where
  series : List MacroSeries := []
  retrievals : List RawRetrieval := []
  documents : List ResearchDocument := []
  representations : List DocumentRepresentation := []
  observations : List MacroObservation := []
  events : List EconomicEvent := []
  discrepancies : List ResearchDiscrepancy := []
  audits : List AuditEvent := []
  deriving DecidableEq

namespace Db

section
variable (platform : Platform) (db : Db)

def addRetrieval (row : RawRetrieval) : Except Exc Db := do
  platform.admits (.retrieval row)
  return { db with retrievals := db.retrievals ++ [row] }

def addDocument (row : ResearchDocument) : Except Exc Db := do
  platform.admits (.document row)
  return { db with documents := db.documents ++ [row] }

def addRepresentation (row : DocumentRepresentation) : Except Exc Db := do
  platform.admits (.representation row)
  return { db with representations := db.representations ++ [row] }

/-- `unique_macro_series_period_value`. -/
def hasObservation (row : MacroObservation) : Bool :=
  db.observations.any fun other =>
    other.series = row.series && other.observationPeriod = row.observationPeriod &&
      other.normalizedValue = row.normalizedValue

def addObservation (row : MacroObservation) : Except Exc Db := do
  platform.admits (.observation row)
  if db.hasObservation row then raise .databaseError "unique_macro_series_period_value"
  else return { db with observations := db.observations ++ [row] }

/-- The stored vintage of an event, as `unique_economic_event_vintage` identifies it. -/
def findEvent (key fingerprint : String) : Option EconomicEvent :=
  db.events.find? fun row => row.providerEventKey = key && row.payloadFingerprint = fingerprint

/-- `EconomicEvent.objects.get_or_create`; the flag says whether a row was created. -/
def getOrCreateEvent (row : EconomicEvent) : Except Exc (Db × Bool) :=
  match db.findEvent row.providerEventKey row.payloadFingerprint with
  | some _ => .ok (db, false)
  | none => do
    platform.admits (.event row)
    return ({ db with events := db.events ++ [row] }, true)

def addDiscrepancy (row : ResearchDiscrepancy) : Except Exc Db := do
  platform.admits (.discrepancy row)
  return { db with discrepancies := db.discrepancies ++ [row] }

def addAudit (row : AuditEvent) : Except Exc Db := do
  platform.admits (.audit row)
  return { db with audits := db.audits ++ [row] }

/-- `_store_raw`: the retrieval row and the store that holds it. -/
def storeRaw (policy : SourcePolicy) (result : FetchResult)
    (quality : RetrievalQuality := .accepted) (qualityReason : String := "") :
    Except Exc (RawRetrieval × Db) := do
  let row : RawRetrieval :=
    { pk := db.retrievals.length + 1
      sourcePolicy := policy.pk
      url := result.url
      requestFingerprint := result.requestFingerprint
      fetchedAt := result.fetchedAt
      httpStatus := result.statusCode
      contentType := result.contentType
      byteCount := result.body.length
      bodySha256 := platform.bodySha256 result.body
      body := result.body
      etag := result.etag
      lastModified := result.lastModified
      quality, qualityReason
      retentionDecision := s!"retained under {policy.retentionClass}" }
  let db ← db.addRetrieval platform row
  return (row, db)

/-- `_discrepancy`: nothing when both retrievals are one. -/
def discrepancy (kind : DiscrepancyKind) (key : String) (earlier later : ℕ)
    (detail : List (String × Option String)) (observedAt : Instant) : Except Exc Db :=
  if earlier = later then .ok db
  else db.addDiscrepancy platform ⟨kind, key, earlier, later, detail, observedAt⟩

/-- `_audit`. -/
def audit (eventType : String) (retrieval : RawRetrieval) (texts : List (String × String))
    (counts : List (String × ℕ)) : Except Exc Db :=
  db.addAudit platform ⟨eventType, retrieval.pk, retrieval.bodySha256, texts, counts⟩

/-! ### What an accepted operation did -/

variable {platform} {db} {db' : Db}

theorem addObservation_ok {row : MacroObservation}
    (h : db.addObservation platform row = .ok db') :
    db' = { db with observations := db.observations ++ [row] } := by
  obtain ⟨_, _, h⟩ := bind_eq_ok.mp h
  split at h
  · cases h
  · exact (Except.ok.inj h).symm

theorem addDocument_ok {row : ResearchDocument} (h : db.addDocument platform row = .ok db') :
    db' = { db with documents := db.documents ++ [row] } := by
  obtain ⟨_, _, h⟩ := bind_eq_ok.mp h
  exact (Except.ok.inj h).symm

theorem addRepresentation_ok {row : DocumentRepresentation}
    (h : db.addRepresentation platform row = .ok db') :
    db' = { db with representations := db.representations ++ [row] } := by
  obtain ⟨_, _, h⟩ := bind_eq_ok.mp h
  exact (Except.ok.inj h).symm

/-- A new vintage is appended; a stored one leaves the store alone. -/
theorem getOrCreateEvent_ok {row : EconomicEvent} {created : Bool}
    (h : db.getOrCreateEvent platform row = .ok (db', created)) :
    db' = if (db.findEvent row.providerEventKey row.payloadFingerprint).isSome then db
      else { db with events := db.events ++ [row] } := by
  unfold getOrCreateEvent at h
  split at h
  · next found => cases h; simp [found]
  · next missing =>
    obtain ⟨_, _, h⟩ := bind_eq_ok.mp h
    cases h
    simp [missing]

/-- A discrepancy touches its own table only. -/
theorem discrepancy_ok {kind : DiscrepancyKind} {key : String} {earlier later : ℕ}
    {detail : List (String × Option String)} {observedAt : Instant}
    (h : db.discrepancy platform kind key earlier later detail observedAt = .ok db') :
    ∃ rows, db' = { db with discrepancies := rows } := by
  unfold discrepancy at h
  split at h
  · cases h; exact ⟨db.discrepancies, rfl⟩
  · obtain ⟨_, _, h⟩ := bind_eq_ok.mp h
    exact ⟨_, (Except.ok.inj h).symm⟩

/-- An audit event touches its own table only. -/
theorem audit_ok {eventType : String} {retrieval : RawRetrieval}
    {texts : List (String × String)} {counts : List (String × ℕ)}
    (h : db.audit platform eventType retrieval texts counts = .ok db') :
    ∃ rows, db' = { db with audits := rows } := by
  obtain ⟨_, _, h⟩ := bind_eq_ok.mp h
  exact ⟨_, (Except.ok.inj h).symm⟩

/-- A stored body is one new retrieval of that body. -/
theorem storeRaw_ok {policy : SourcePolicy} {result : FetchResult} {quality : RetrievalQuality}
    {qualityReason : String} {row : RawRetrieval}
    (h : db.storeRaw platform policy result quality qualityReason = .ok (row, db')) :
    db' = { db with retrievals := db.retrievals ++ [row] } ∧ row.quality = quality ∧
      row.body = result.body ∧ row.pk = db.retrievals.length + 1 ∧
      row.fetchedAt = result.fetchedAt := by
  obtain ⟨stored, added, h⟩ := bind_eq_ok.mp h
  obtain ⟨_, _, added⟩ := bind_eq_ok.mp added
  cases Except.ok.inj added
  cases h
  exact ⟨rfl, rfl, rfl, rfl, rfl⟩

end

end Db

/-- `transaction.atomic()`: a block that raises leaves the store as it was. -/
def atomic {α : Type} (db : Db) (block : Db → Except Exc (α × Db)) : Except Exc α × Db :=
  match block db with
  | .ok (value, db') => (.ok value, db')
  | .error error => (.error error, db)

end TradeRecommender.Research
