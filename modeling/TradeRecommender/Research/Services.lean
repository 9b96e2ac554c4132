import Mathlib.Data.List.MinMax
import TradeRecommender.Research.Records

/-!
# The research ingests

Each ingest parses what `fetch` returned, keeps a body it cannot parse as a quarantined retrieval,
and otherwise stores the retrieval and the parsed rows in one transaction.  `ingest` is that
shape; the four ingests give it their parser, the exceptions they catch and their rows.
-/

namespace TradeRecommender.Research

open Py Civil

/-! ## The shape of an ingest -/

/-- What an ingest puts into the common shape. -/
structure Ingest (α : Type) where
  policy : SourcePolicy
  /-- the exception classes of the `except` clause -/
  handlers : List ExcClass
  qualityReason : String
  quarantineEvent : String
  quarantineTexts : List (String × String)
  parse : Body → Except Exc α
  /-- the rows of the parsed values, written after the retrieval -/
  store : FetchResult → RawRetrieval → α → Db → Except Exc Db

/-- The transaction that keeps a body as quarantined evidence. -/
def quarantine {α : Type} (platform : Platform) (spec : Ingest α) (result : FetchResult)
    (db : Db) : Except Exc (RawRetrieval × Db) := do
  let (retrieval, db) ←
    db.storeRaw platform spec.policy result .quarantined spec.qualityReason
  let db ← db.audit platform spec.quarantineEvent retrieval spec.quarantineTexts []
  return (retrieval, db)

/-- The transaction that stores a parsed body. -/
def accept {α : Type} (platform : Platform) (spec : Ingest α) (result : FetchResult) (values : α)
    (db : Db) : Except Exc (RawRetrieval × Db) := do
  let (retrieval, db) ← db.storeRaw platform spec.policy result
  let db ← spec.store result retrieval values db
  return (retrieval, db)

/-- An ingest after its fetch: the retrieval it returns or the exception it raises, and the
store it leaves. -/
def ingest {α : Type} (platform : Platform) (spec : Ingest α) (result : FetchResult) (db : Db) :
    Except Exc RawRetrieval × Db :=
  match spec.parse result.body with
  | .ok values => atomic db (accept platform spec result values)
  | .error error =>
    if error.caughtBy spec.handlers then
      match atomic db (quarantine platform spec result) with
      | (.ok _, db') => (.error error, db')
      | (.error raised, db') => (.error raised, db')
    else (.error error, db)

section
variable (platform : Platform)

/-! ## Feeds -/

/-- `document.representations.first()` among the given rows: the latest publication first, a
missing one before all, then the latest row. -/
def firstRepresentation (rows : List DocumentRepresentation) : Option DocumentRepresentation :=
  (rows.mergeSort fun a b =>
    match a.sourcePublishedAt, b.sourcePublishedAt with
    | none, none => b.pk ≤ a.pk
    | none, some _ => true
    | some _, none => false
    | some x, some y => y < x || (x = y && b.pk ≤ a.pk)).head?

/-- `ResearchDocument.objects.get_or_create` of a feed item. -/
def getOrCreateDocument (result : FetchResult) (hash : String) (item : FeedItem) (db : Db) :
    Except Exc (ResearchDocument × Bool × Db) :=
  match db.documents.find? (·.canonicalHash = hash) with
  | some document => .ok (document, false, db)
  | none => do
    let document : ResearchDocument :=
      { pk := db.documents.length + 1
        canonicalUrl := item.url
        canonicalHash := hash
        title := item.title
        publishedAt := item.publishedAt
        firstObservedAt := result.fetchedAt
        quality := if item.publishedAt.isSome then .verified else .quarantined
        qualityReason :=
          if item.publishedAt.isSome then "" else "No trustworthy publication timestamp" }
    let db ← db.addDocument platform document
    return (document, true, db)

/-- `DocumentRepresentation.objects.get_or_create` of a feed item. -/
def getOrCreateRepresentation (document : ResearchDocument) (retrieval : RawRetrieval)
    (dedupKey : String) (item : FeedItem) (db : Db) :
    Except Exc (DocumentRepresentation × Bool × Db) :=
  match db.representations.find? (·.dedupKey = dedupKey) with
  | some representation => .ok (representation, false, db)
  | none => do
    let representation : DocumentRepresentation :=
      { pk := db.representations.length + 1
        document := document.pk
        retrieval := retrieval.pk
        sourceItemId := item.itemId
        dedupKey := dedupKey
        sourceTitle := item.title
        sourcePublishedAt := item.publishedAt
        summary := item.summary }
    let db ← db.addRepresentation platform representation
    return (representation, true, db)

/-- Mark a document whose sources disagree. -/
def markConflict (pk : ℕ) (db : Db) : Db :=
  { db with documents := db.documents.map fun row =>
      if row.pk = pk then
        { row with
          quality := .conflict
          qualityReason := "Source representations disagree; canonical value was preserved" }
      else row }

/-- The discrepancy of a document represented before. -/
def noteDuplicate (result : FetchResult) (retrieval : RawRetrieval) (hash dedupKey : String)
    (prior : Option DocumentRepresentation) (db : Db) : Except Exc Db :=
  match prior with
  | some prior =>
    db.discrepancy platform .duplicate s!"document:{hash}" prior.retrieval retrieval.pk
      [("dedup_key", some dedupKey)] result.fetchedAt
  | none => .ok db

/-- The discrepancy of a stored document this item disagrees with. -/
def noteConflict (result : FetchResult) (retrieval : RawRetrieval) (hash : String)
    (document : ResearchDocument) (documentCreated : Bool) (item : FeedItem)
    (first : Option DocumentRepresentation) (db : Db) : Except Exc Db :=
  if documentCreated ||
      (document.title = item.title && document.publishedAt = item.publishedAt) then .ok db
  else
    match first with
    | none => raise .attributeError "'NoneType' object has no attribute 'retrieval'"
    | some first => do
      let db ← db.discrepancy platform .conflict s!"document:{hash}" first.retrieval retrieval.pk
        [("canonical_title", some document.title), ("observed_title", some item.title),
         ("canonical_published_at", document.publishedAt.map platform.isoformat),
         ("observed_published_at", item.publishedAt.map platform.isoformat)]
        result.fetchedAt
      return markConflict document.pk db

/-- One item of a feed; the count is of new representations. -/
def storeFeedItem (policy : SourcePolicy) (result : FetchResult) (retrieval : RawRetrieval)
    (db : Db) (created : ℕ) (item : FeedItem) : Except Exc (Db × ℕ) := do
  let canonicalHash ← platform.digest item.url
  let (document, documentCreated, db) ←
    getOrCreateDocument platform result canonicalHash item db
  let dedupKey ← platform.digest s!"{policy.pk}:{item.itemId}"
  let (representation, representationCreated, db) ←
    getOrCreateRepresentation platform document retrieval dedupKey item db
  let ofDocument := db.representations.filter (·.document = document.pk)
  let prior := if representationCreated then
      firstRepresentation (ofDocument.filter (·.pk ≠ representation.pk))
    else none
  let db ← noteDuplicate platform result retrieval canonicalHash dedupKey prior db
  let db ← noteConflict platform result retrieval canonicalHash document documentCreated item
    (firstRepresentation ofDocument) db
  return (db, if representationCreated then created + 1 else created)

/-- Fold a loop body that threads the store and a count through the items. -/
def loop {β : Type} (body : Db → ℕ → β → Except Exc (Db × ℕ)) :
    List β → Db → ℕ → Except Exc (Db × ℕ)
  | [], db, created => .ok (db, created)
  | item :: items, db, created => do
    let (db, created) ← body db created item
    loop body items db created

/-- The rows of an ingest, one loop over the items, and its audit event. -/
def storeAll {β : Type} (body : Db → ℕ → β → Except Exc (Db × ℕ)) (items : List β)
    (eventType counted : String) (texts : List (String × String)) (retrieval : RawRetrieval)
    (db : Db) : Except Exc Db := do
  let (db, created) ← loop body items db 0
  db.audit platform eventType retrieval texts [(counted, items.length), ("created", created)]

/-- A relation every step of a loop respects holds across the loop. -/
theorem loop_rel {β : Type} {body : Db → ℕ → β → Except Exc (Db × ℕ)} (R : Db → Db → Prop)
    (refl : ∀ db, R db db) (trans : ∀ {a b c}, R a b → R b c → R a c)
    (step : ∀ db created item db' created',
      body db created item = .ok (db', created') → R db db')
    {items : List β} {db db' : Db} {created created' : ℕ}
    (h : loop body items db created = .ok (db', created')) : R db db' := by
  induction items generalizing db created with
  | nil => cases h; exact refl _
  | cons item items ih =>
    obtain ⟨⟨mid, count⟩, first, rest⟩ := bind_eq_ok.mp h
    exact trans (step _ _ _ _ _ first) (ih rest)

/-- `ingest_feed`. -/
def feedIngest (policy : SourcePolicy) : Ingest (List FeedItem) where
  policy := policy
  handlers := [.parseRejected]
  qualityReason := "Feed parsing failed closed"
  quarantineEvent := "research.feed_quarantined"
  quarantineTexts := []
  parse := parseFeed platform.toStdlib
  store result retrieval items db :=
    storeAll platform (storeFeedItem platform policy result retrieval) items
      "research.feed_ingested" "items" [] retrieval db

def ingestFeed (policy : SourcePolicy) : FetchResult → Db → Except Exc RawRetrieval × Db :=
  ingest platform (feedIngest platform policy)

/-! ## Macro series -/

/-- The stored revisions of a period of a series. -/
def revisions (db : Db) (series : ℕ) (period : Date) : List MacroObservation :=
  db.observations.filter fun row => row.series = series ∧ row.observationPeriod = period

/-- The revision with the highest sequence. -/
def headRevision (db : Db) (series : ℕ) (period : Date) : Option MacroObservation :=
  (revisions db series period).argmax (·.revisionSequence)

/-- The observation a value makes, after the revision it follows. -/
def observationOf (series : MacroSeries) (result : FetchResult) (retrieval : RawRetrieval)
    (previous : Option MacroObservation) (item : MacroValue) : MacroObservation where
  series := series.pk
  retrieval := retrieval.pk
  observationPeriod := item.period
  value := item.value
  normalizedValue := item.normalizedValue
  availableAt := item.availableAt.getD result.fetchedAt
  vintageAt := result.fetchedAt
  revisionSequence := match previous with
    | some previous => previous.revisionSequence + 1
    | none => 0
  availabilityPrecision := if item.availableAt.isSome then .provider else .retrieval
  providerStatus := item.providerStatus

/-- The discrepancy of a value that follows another. -/
def noteRevision (series : MacroSeries) (result : FetchResult) (retrieval : RawRetrieval)
    (previous : Option MacroObservation) (item : MacroValue) (db : Db) : Except Exc Db :=
  match previous with
  | some previous =>
    db.discrepancy platform .revision s!"macro:{series.code}:{item.period.isoformat}"
      previous.retrieval retrieval.pk
      [("previous", some previous.normalizedValue), ("observed", some item.normalizedValue)]
      result.fetchedAt
  | none => .ok db

/-- One value of a macro response; a value the period already has, at any revision, is skipped. -/
def storeMacroValue (series : MacroSeries) (result : FetchResult) (retrieval : RawRetrieval)
    (db : Db) (created : ℕ) (item : MacroValue) : Except Exc (Db × ℕ) :=
  if (revisions db series.pk item.period).any (·.normalizedValue = item.normalizedValue) then
    .ok (db, created)
  else do
    let previous := headRevision db series.pk item.period
    let db ← db.addObservation platform (observationOf series result retrieval previous item)
    let db ← noteRevision platform series result retrieval previous item db
    return (db, created + 1)

/-- `ingest_macro`. -/
def macroIngest (series : MacroSeries) : Ingest (List MacroValue) where
  policy := series.sourcePolicy
  handlers := [.parseRejected, .valueError, .keyError, .typeError]
  qualityReason := "Macro parsing failed closed"
  quarantineEvent := "research.macro_quarantined"
  quarantineTexts := [("series", series.code)]
  parse := parseMacro platform.toStdlib series
  store result retrieval values db :=
    storeAll platform (storeMacroValue platform series result retrieval) values
      "research.macro_ingested" "observations" [] retrieval db

def ingestMacro (series : MacroSeries) : FetchResult → Db → Except Exc RawRetrieval × Db :=
  ingest platform (macroIngest platform series)

/-! ## Calendars -/

/-- `_decimal_text`. -/
def decimalText : Option Decimal → Except Exc (Option String)
  | some value => (platform.normalizedText value).map some
  | none => .ok none

/-- The event a calendar entry makes. -/
def eventOf (result : FetchResult) (retrieval : RawRetrieval) (series : Option ℕ)
    (key fingerprint : String) (item : CalendarValue) : EconomicEvent where
  retrieval := retrieval.pk
  series := series
  providerEventKey := key
  eventAt := item.eventAt
  timePrecision := item.timePrecision
  country := item.country
  eventType := item.eventType
  sourceUrl := item.sourceUrl
  status := item.status
  comparison := item.comparison
  period := item.period
  actual := item.actual
  estimate := item.estimate
  previous := item.previous
  payloadFingerprint := fingerprint
  firstObservedAt := result.fetchedAt

/-- One entry of the EODHD calendar. -/
def storeEodhdEvent (result : FetchResult) (retrieval : RawRetrieval) (db : Db) (created : ℕ)
    (item : CalendarValue) : Except Exc (Db × ℕ) := do
  let identity ← platform.digest
    s!"{item.country}|{item.eventType}|{platform.isoformat item.eventAt}|{item.period}"
  let actual ← decimalText platform item.actual
  let estimate ← decimalText platform item.estimate
  let previous ← decimalText platform item.previous
  let fingerprint ← platform.digest (platform.dumps
    [("actual", actual), ("estimate", estimate), ("previous", previous),
     ("comparison", some item.comparison)])
  -- the defaults leave `series`, `source_url`, `status` and `time_precision` to the model's own
  let row := { eventOf result retrieval none identity fingerprint item with
    sourceUrl := "", status := "scheduled", timePrecision := "exact" }
  let (db, wasCreated) ← db.getOrCreateEvent platform row
  return (db, if wasCreated then created + 1 else created)

/-- `ingest_eodhd_calendar`. -/
def eodhdIngest (policy : SourcePolicy) : Ingest (List CalendarValue) where
  policy := policy
  handlers := [.parseRejected, .valueError, .keyError, .typeError]
  qualityReason := "Economic calendar parsing failed closed"
  quarantineEvent := "research.calendar_quarantined"
  quarantineTexts := []
  parse body := do
    let parsedValues ← parseEodhdEvents platform.toStdlib body
    if parsedValues.length ≥ 1000 then
      reject "Economic calendar reached its pagination boundary"
    else return parsedValues.filter (·.country ∈ ["CA", "US", "GB", "EU"])
  store result retrieval values db :=
    storeAll platform (storeEodhdEvent platform result retrieval) values
      "research.calendar_ingested" "events" [] retrieval db

def ingestEodhdCalendar (policy : SourcePolicy) : FetchResult → Db → Except Exc RawRetrieval × Db :=
  ingest platform (eodhdIngest platform policy)

/-- The texts an official event is fingerprinted by. -/
def officialPayload (item : CalendarValue) : List (String × Option String) :=
  [("event_at", some (platform.isoformat item.eventAt)), ("event_type", some item.eventType),
   ("period", some item.period), ("source_url", some item.sourceUrl),
   ("status", some item.status), ("time_precision", some item.timePrecision),
   ("series_code", some item.seriesCode)]

/-- The key of an official event. -/
def officialIdentity (policy : SourcePolicy) (item : CalendarValue) : String :=
  s!"{policy.slug}|{item.providerEventKey}"

/-- The row of the series an official entry names. -/
def seriesOf (db : Db) (code : String) : Option ℕ :=
  if code = "" then none else (db.series.find? (·.code = code)).map (·.pk)

/-- One entry of an official calendar. -/
def storeOfficialEvent (policy : SourcePolicy) (result : FetchResult) (retrieval : RawRetrieval)
    (db : Db) (created : ℕ) (item : CalendarValue) : Except Exc (Db × ℕ) := do
  let identity ← platform.digest (officialIdentity policy item)
  let fingerprint ← platform.digest (platform.dumps (officialPayload platform item))
  let row := { eventOf result retrieval (seriesOf db item.seriesCode) identity fingerprint item with
    actual := none, estimate := none, previous := none }
  let (db, wasCreated) ← db.getOrCreateEvent platform row
  return (db, if wasCreated then created + 1 else created)

/-- The entries of a calendar in the window around the observation. -/
def forwardWindow (observedAt : Instant) (values : List CalendarValue) :
    Except Exc (List CalendarValue) := do
  let windowStart ← shift observedAt (-7 * day)
  let windowEnd ← shift observedAt (550 * day)
  let values := values.filter fun item => windowStart ≤ item.eventAt ∧ item.eventAt ≤ windowEnd
  if values.isEmpty then
    reject "Official calendar contains no events in the bounded forward window"
  else return values

/-- `ingest_official_calendar`. -/
def officialIngest (policy : SourcePolicy) (parser : String) (observedAt : Instant) :
    Ingest (List CalendarValue) where
  policy := policy
  handlers := [.parseRejected, .valueError, .keyError, .typeError]
  qualityReason := "Official calendar parsing failed closed"
  quarantineEvent := "research.calendar_quarantined"
  quarantineTexts := [("parser", parser)]
  parse body := do
    let parsedValues ← parseOfficialCalendar platform.toStdlib parser body
    forwardWindow observedAt parsedValues
  store result retrieval values db :=
    storeAll platform (storeOfficialEvent platform policy result retrieval) values
      "research.calendar_ingested" "events" [("parser", parser)] retrieval db

def ingestOfficialCalendar (policy : SourcePolicy) (parser : String) (observedAt : Instant) :
    FetchResult → Db → Except Exc RawRetrieval × Db :=
  ingest platform (officialIngest platform policy parser observedAt)

end

end TradeRecommender.Research
