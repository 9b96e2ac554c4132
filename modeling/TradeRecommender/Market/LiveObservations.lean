import TradeRecommender.Lib.Rounding
import TradeRecommender.Lib.Sorted
import TradeRecommender.Lib.Tally
import TradeRecommender.Market.CandleValidation

/-!
# Live observations

The live branch of `store_ingestion` and `_store_live_observations` of `market/services.py`, on one
series of an instrument and a granularity.

1. payloads, and the fields in which two candles differ;
2. the rows of the series;
3. the loop over a batch;
4. the transaction, and the ledger after a delivery.
-/

namespace TradeRecommender.Market

open Py Civil

/-! ## Payloads -/

/-- The text of `_canonical_price`: its sign, and the number its six decimals write. -/
structure PriceText where
  negative : Bool
  amount : ℚ
  deriving DecidableEq

/-- `_canonical_price` -/
def canonicalPrice (value : ℚ) : PriceText :=
  if value = 0 then ⟨false, 0⟩
  else ⟨value < 0, Rounding.quantize Rounding.halfEven (-6) |value|⟩

/-- The texts of the four prices of one side. -/
structure PriceTexts where
  opening : PriceText
  high : PriceText
  low : PriceText
  close : PriceText
  deriving DecidableEq

/-- The payload of a candle; the text of a timestamp is its instant and its offset. -/
structure CandlePayload where
  timestamp : Instant × ℤ
  complete : Bool
  volume : ℤ
  bid : PriceTexts
  ask : PriceTexts
  deriving DecidableEq

def Prices.texts (side : Prices) : PriceTexts :=
  ⟨canonicalPrice side.opening, canonicalPrice side.high, canonicalPrice side.low,
    canonicalPrice side.close⟩

/-- `_candle_payload` -/
def candlePayload (c : CandleData) : CandlePayload :=
  ⟨(c.timestamp, c.utcoffset), c.complete, c.volume, c.bid.texts, c.ask.texts⟩

/-- The fields of two payloads, in the order of their names, with whether they differ. -/
def fieldDifferences (p q : CandlePayload) : List (String × Bool) :=
  [("ask_close", p.ask.close ≠ q.ask.close), ("ask_high", p.ask.high ≠ q.ask.high),
    ("ask_low", p.ask.low ≠ q.ask.low), ("ask_open", p.ask.opening ≠ q.ask.opening),
    ("bid_close", p.bid.close ≠ q.bid.close), ("bid_high", p.bid.high ≠ q.bid.high),
    ("bid_low", p.bid.low ≠ q.bid.low), ("bid_open", p.bid.opening ≠ q.bid.opening),
    ("complete", p.complete ≠ q.complete), ("timestamp", p.timestamp ≠ q.timestamp),
    ("volume", p.volume ≠ q.volume)]

/-- `differing` -/
def differingFields (prior incoming : CandlePayload) : List String :=
  ((fieldDifferences prior incoming).filter Prod.snd).map Prod.fst

/-- Payloads are equal when no field differs. -/
theorem differingFields_eq_nil {p q : CandlePayload} : differingFields p q = [] ↔ p = q := by
  constructor
  · intro h
    unfold differingFields fieldDifferences at h
    rw [List.map_eq_nil_iff, List.filter_eq_nil_iff] at h
    simp only [List.forall_mem_cons, decide_eq_true_eq, not_not] at h
    obtain ⟨h1, h2, h3, h4, h5, h6, h7, h8, h9, h10, h11, -⟩ := h
    obtain ⟨_, _, _, ⟨_, _, _, _⟩, ⟨_, _, _, _⟩⟩ := p
    obtain ⟨_, _, _, ⟨_, _, _, _⟩, ⟨_, _, _, _⟩⟩ := q
    simp_all
  · rintro rfl
    simp [differingFields, fieldDifferences]

/-- The prices as a column of six decimals holds them. -/
def Prices.stored (side : Prices) : Prices :=
  let column := Rounding.quantize Rounding.halfEven (-6)
  ⟨column side.opening, column side.high, column side.low, column side.close⟩

/-- A candle as its row gives it back. -/
def CandleData.stored (c : CandleData) : CandleData :=
  { c with utcoffset := 0, bid := c.bid.stored, ask := c.ask.stored }

/-! ## Rows -/

/-- `Candle.Provenance` -/
inductive Provenance
  | observed | fixture | legacyUnknown
  deriving DecidableEq

/-- `CandleObservation.Kind` -/
inductive ObservationKind
  | initial | lateArrival | revision | conflict
  deriving DecidableEq

def ObservationKind.code : ObservationKind → String
  | .initial => "initial"
  | .lateArrival => "late_arrival"
  | .revision => "revision"
  | .conflict => "conflict"

/-- `SourceRegistry` -/
structure Source where
  pk : ℕ
  name : String
  deriving DecidableEq

/-- `IngestionRun.Status` -/
inductive RunStatus
  | running | succeeded | failed
  deriving DecidableEq

/-- `IngestionRun` -/
structure IngestionRun where
  requestManifestHash : String
  source : ℕ
  status : RunStatus
  fetchedCount : ℕ := 0
  storedCount : ℕ := 0
  rejectedCount : ℕ := 0
  failureReason : List (String × ℕ) := []
  deriving DecidableEq

variable {H : Type}

/-- A live `Candle`, with the source of its run; `H` are the digests of contents. -/
structure Candle (H : Type) where
  pk : ℕ
  source : ℕ
  data : CandleData
  contentSha256 : Option H
  observedAt : Option Instant
  provenance : Provenance

/-- `CandleObservation`; the key is blank until it is saved. -/
structure CandleObservation (H : Type) where
  pk : Option ℕ
  source : ℕ
  candle : ℕ
  data : CandleData
  intervalEnd : Instant
  kind : ObservationKind
  revision : ℕ
  supersedes : Option ℕ
  contentSha256 : H
  differingFields : List String
  observedAt : Instant

def Candle.timestamp (row : Candle H) : Instant := row.data.timestamp

def CandleObservation.timestamp (o : CandleObservation H) : Instant := o.data.timestamp

/-- The rows of one live series and the runs without a dataset. -/
structure Ledger (H : Type) where
  runs : List IngestionRun
  candles : List (Candle H)
  observations : List (CandleObservation H)
  /-- the keys of candles given out -/
  serial : ℕ

namespace Ledger

variable (s : Ledger H)

/-- `existing_by_key.get(timestamp)` -/
def existing (t : Instant) : Option (Candle H) :=
  (s.candles.filter fun row => row.timestamp = t).getLast?

/-- The observations of a candle, `order_by("revision")`. -/
def chain (t : Instant) : List (CandleObservation H) :=
  sortedBy CandleObservation.revision (s.observations.filter fun o => o.timestamp = t)

/-- `heads.get(timestamp)` -/
def head (t : Instant) : Option (CandleObservation H) := (s.chain t).getLast?

/-- `current_observations.get(timestamp)` -/
def current (source : ℕ) (t : Instant) : Option (CandleObservation H) :=
  ((s.chain t).filter fun o => o.source = source).getLast?

/-- `latest_existing` -/
def latestExisting : Option Instant := (s.candles.map Candle.timestamp).max?

/-- The series without its fixture rows. -/
def withoutFixtures : Ledger H :=
  { s with candles := s.candles.filter fun row => row.provenance ≠ .fixture }

end Ledger

/-! ## Deliveries -/

/-- A series: its clock, its granularity and `candle_content_sha256` of a payload on it. -/
structure Series (H : Type) where
  clock : SundayClock
  granularity : Granularity
  contentSha256 : CandlePayload → H

/-- A call of `store_ingestion` without a dataset, and what it finds outside the series. -/
structure Delivery (H : Type) where
  source : Source
  /-- `manifest_hash(manifest)` -/
  manifestHash : String
  candles : List CandleData
  /-- `timezone.now()` -/
  observedAt : Instant
  /-- `candle_is_referenced` -/
  referenced : Candle H → Bool
  /-- the checks of the triggers before an insert, but that of the content -/
  insertable : Ledger H → CandleObservation H → Except Exc Unit
  /-- the audit events and the technical snapshot behind the rows -/
  conclude : Ledger H → Except Exc Unit

/-- `fixture_source` -/
def Delivery.fixture (d : Delivery H) : Bool := d.source.name = "Development fixtures"

/-- `live_candle_completion` -/
def liveCandleCompletion (x : Series H) (timestamp : Instant) : Instant :=
  if x.granularity ∈ [.m15, .h1, .h4] then timestamp + x.granularity.step
  else candleCompletion x.clock x.granularity timestamp

/-- An entry of `conflicts`. -/
structure ConflictEntry (H : Type) where
  candleId : ℕ
  intervalStart : Instant
  frozenContentSha256 : Option H
  incomingContentSha256 : H
  differingFields : List String

/-- What a turn of the loop makes of a candle. -/
inductive Verdict (H : Type)
  /-- no row has its timestamp -/
  | fresh (row : Candle H) (kind : ObservationKind)
  /-- the source's view is what it was; the text is the key that is counted -/
  | same (counted : String)
  /-- the source's view changes -/
  | change (o : CandleObservation H) (conflict : List (ConflictEntry H))

/-- The state of the loop. -/
structure Pass (H : Type) where
  newRows : List (Candle H × ObservationKind)
  revisions : List (CandleObservation H)
  current : Instant → Option (CandleObservation H)
  heads : Instant → Option (CandleObservation H)
  counts : List (String × ℕ)
  conflicts : List (ConflictEntry H)

/-- `counts[key] += 1` -/
def count (counts : List (String × ℕ)) (key : String) : List (String × ℕ) :=
  Tally.addTo (· + ·) 0 key 1 counts

/-- The loop goes on behind a candle. -/
def Pass.add (st : Pass H) (t : Instant) : Verdict H → Pass H
  | .fresh row kind =>
    { st with newRows := st.newRows ++ [(row, kind)], counts := count st.counts kind.code }
  | .same counted => { st with counts := count st.counts counted }
  | .change o conflict =>
    { st with
      revisions := st.revisions ++ [o]
      current := fun t' => if t' = t then some o else st.current t'
      heads := fun t' => if t' = t then some o else st.heads t'
      counts := count st.counts o.kind.code
      conflicts := st.conflicts ++ conflict }

section
variable [DecidableEq H] (x : Series H) (d : Delivery H)

/-- The branch of a candle without a row. -/
def freshVerdict (latest : Option Instant) (c : CandleData) : Verdict H :=
  .fresh
    { pk := 0
      source := d.source.pk
      data := c.stored
      contentSha256 := some (x.contentSha256 (candlePayload c))
      observedAt := some d.observedAt
      provenance := if d.fixture then .fixture else .observed }
    (if latest.any fun l => c.timestamp < l then .lateArrival else .initial)

/-- `matches_current` -/
def matchesCurrent (prior : Candle H) (current : Option (CandleObservation H)) (c : CandleData) :
    Bool :=
  match current with
  | none => candlePayload prior.data = candlePayload c
  | some current => current.contentSha256 = x.contentSha256 (candlePayload c)

/-- The place in the chain of a new view. -/
def place (prior : Candle H) (head : Option (CandleObservation H)) : Except Exc (ℕ × Option ℕ) :=
  match head with
  | none =>
    if prior.contentSha256.isSome then
      raise (.other "DatasetQualityError")
        "has no observation root; refusing to start a revision chain"
    else .ok (1, none)
  | some head => .ok (head.revision + 1, head.pk)

/-- The observation of a changed view. -/
def revisionOf (prior : Candle H) (c : CandleData) (revision : ℕ) (supersedes : Option ℕ) :
    CandleObservation H :=
  let agrees := candlePayload prior.data = candlePayload c
  { pk := none
    source := d.source.pk
    candle := prior.pk
    data := c.stored
    intervalEnd := liveCandleCompletion x c.timestamp
    kind := if ¬ agrees ∧ d.referenced prior = true then .conflict else .revision
    revision := revision
    supersedes := supersedes
    contentSha256 := x.contentSha256 (candlePayload c)
    differingFields := differingFields (candlePayload prior.data) (candlePayload c)
    observedAt := d.observedAt }

/-- The body of the loop. -/
def verdict (latest : Option Instant) (existing : Option (Candle H))
    (current head : Option (CandleObservation H)) (c : CandleData) : Except Exc (Verdict H) :=
  match existing with
  | none => .ok (freshVerdict x d latest c)
  | some prior =>
    if matchesCurrent x prior current c then
      .ok (.same (if candlePayload prior.data = candlePayload c then "duplicate"
        else "duplicate_revision"))
    else do
      let (revision, supersedes) ← place prior head
      let o := revisionOf x d prior c revision supersedes
      return .change o (if o.kind = .conflict then
          [⟨prior.pk, c.timestamp, prior.contentSha256, o.contentSha256, o.differingFields⟩]
        else [])

/-- The turn of the loop for a candle. -/
def Pass.turn (s : Ledger H) (st : Pass H) (c : CandleData) : Except Exc (Pass H) := do
  let v ← verdict x d s.latestExisting (s.existing c.timestamp) (st.current c.timestamp)
    (st.heads c.timestamp) c
  return st.add c.timestamp v

/-- The loop over the candles. -/
def Ledger.pass (s : Ledger H) : Except Exc (Pass H) :=
  d.candles.foldlM (Pass.turn x d s)
    { newRows := []
      revisions := []
      current := s.current d.source.pk
      heads := s.head
      counts := []
      conflicts := [] }

/-! ## The transaction -/

/-- The rows as `bulk_create` saves them. -/
def numbered (serial : ℕ) (rows : List (Candle H × ObservationKind)) :
    List (Candle H × ObservationKind) :=
  rows.zipIdx.map fun entry => ({ entry.1.1 with pk := serial + entry.2 }, entry.1.2)

/-- The first observation of a row. -/
def initialOf (entry : Candle H × ObservationKind) (digest : H) : CandleObservation H :=
  { pk := none
    source := d.source.pk
    candle := entry.1.pk
    data := entry.1.data
    intervalEnd := liveCandleCompletion x entry.1.timestamp
    kind := entry.2
    revision := 1
    supersedes := none
    contentSha256 := digest
    differingFields := []
    observedAt := d.observedAt }

/-- The first observations of new rows. -/
def initials (rows : List (Candle H × ObservationKind)) : List (CandleObservation H) :=
  rows.filterMap fun entry => entry.1.contentSha256.map (initialOf x d entry)

/-- The triggers before the insert of an observation: its digest is that of what is stored. -/
def insertable (s : Ledger H) (o : CandleObservation H) : Except Exc Unit :=
  if x.contentSha256 (candlePayload o.data) = o.contentSha256 then d.insertable s o
  else raise .databaseError "content_sha256 does not match the stored candle content"

/-- `CandleObservation.objects.bulk_create` -/
def Ledger.insertObservations (s : Ledger H) (new : List (CandleObservation H)) :
    Except Exc (Ledger H) := do
  let _ ← mapE (insertable x d s) new
  return { s with observations := s.observations ++
    new.zipIdx.map fun entry => { entry.1 with pk := some (s.observations.length + entry.2) } }

/-- What `_store_live_observations` returns. -/
structure Outcome (H : Type) where
  stored : ℕ
  replacedFixtureCandles : ℕ
  discardedFixtureBatch : Bool
  observations : List (String × ℕ)
  conflicts : List (ConflictEntry H)

/-- The part of `_store_live_observations` behind the fixtures. -/
def Ledger.storeBatch (s : Ledger H) (replaced : ℕ) : Except Exc (Outcome H × Ledger H) := do
  let st ← s.pass x d
  let rows := numbered s.serial st.newRows
  let s' : Ledger H :=
    { s with candles := s.candles ++ rows.map Prod.fst, serial := s.serial + rows.length }
  let outcome : Outcome H := ⟨rows.length, replaced, false, st.counts, st.conflicts⟩
  if d.fixture then return (outcome, s')
  else do
    let s' ← s'.insertObservations x d (initials x d rows ++ st.revisions)
    return (outcome, s')

/-- `_store_live_observations` -/
def storeLiveObservations (s : Ledger H) : Except Exc (Outcome H × Ledger H) :=
  if d.fixture then
    if s.candles.any fun row => row.source ≠ d.source.pk then .ok (⟨0, 0, true, [], []⟩, s)
    else s.storeBatch x d 0
  else
    s.withoutFixtures.storeBatch x d
      (s.candles.countP fun row => row.provenance = .fixture)

/-- `run.save()` -/
def Ledger.saveRun (s : Ledger H) (run : IngestionRun) : Ledger H := { s with runs := s.runs ++ [run] }

/-- `store_ingestion` without a dataset: the run, and the ledger when the transaction is committed. -/
def Ledger.storeIngestion (s : Ledger H) : Except Exc (IngestionRun × Ledger H) :=
  match s.runs.find? fun run => run.requestManifestHash = d.manifestHash with
  | some run => .ok (run, s)
  | none => do
    let run : IngestionRun := ⟨d.manifestHash, d.source.pk, .running, 0, 0, 0, []⟩
    let issues ← validateCandles x.clock x.granularity d.candles false true
    if issues ≠ [] then
      let run := { run with
        status := .failed
        fetchedCount := d.candles.length
        rejectedCount := d.candles.length
        failureReason := (issues.take 20).map fun issue => (issue.code, issue.index) }
      return (run, s.saveRun run)
    else do
      let (outcome, s') ← storeLiveObservations x d s
      let run := { run with
        status := .succeeded
        fetchedCount := d.candles.length
        storedCount := outcome.stored }
      d.conclude (s'.saveRun run)
      return (run, s'.saveRun run)

/-- The ledger after a call: a transaction that raises leaves it as it is. -/
def Ledger.receive (s : Ledger H) : Ledger H :=
  match s.storeIngestion x d with
  | .ok (_, s') => s'
  | .error _ => s

/-- Whether a call is a delivery: its run is a new one, and its batch is stored. -/
def Ledger.accepts (s : Ledger H) : Bool :=
  s.runs.all (fun run => run.requestManifestHash ≠ d.manifestHash) &&
    match s.storeIngestion x d with
    | .ok (run, _) => run.status = .succeeded
    | .error _ => false

/-- The ledger after some calls. -/
def Ledger.after (s : Ledger H) (ds : List (Delivery H)) : Ledger H :=
  ds.foldl (fun s d => s.receive x d) s

/-- The candles of a delivery, under its source. -/
def Delivery.views : List (ℕ × CandleData) := d.candles.map fun c => (d.source.pk, c)

/-- The candles delivered by some calls, in order. -/
def Ledger.delivered : Ledger H → List (Delivery H) → List (ℕ × CandleData)
  | _, [] => []
  | s, d :: ds =>
    (if s.accepts x d then d.views else []) ++ Ledger.delivered (s.receive x d) ds

end

end TradeRecommender.Market
