import TradeRecommender.Lib.IsoFormat
import TradeRecommender.Lib.Runs
import TradeRecommender.Lib.Slices
import TradeRecommender.Lib.Sorted
import TradeRecommender.Market.CandleValidation

/-!
# Historical acquisition in chunks

`market/historical_acquisition.py`: the ranges of a plan are cut into chunks, each chunk is attempted
until a response covers it, and the dataset registers when it covers the ranges.
-/

namespace TradeRecommender.Market

open Py Civil

/-! ## Chunks and responses -/

/-- `INSTRUMENTS` -/
def INSTRUMENTS : List String := ["AUD_USD", "EUR_GBP", "EUR_USD", "GBP_USD", "USD_CAD", "USD_JPY"]

/-- `GRANULARITIES` -/
def GRANULARITIES : List Granularity := [.d, .h1, .w]

/-- `value.replace("Z", "+00:00")` -/
def withoutZulu (value : String) : String :=
  String.ofList (value.toList.flatMap fun c => if c = 'Z' then "+00:00".toList else [c])

/-- `parse_timestamp` -/
def parseTimestamp : Val → Except Exc Instant
  | .str value => do
    let parsed ← fromisoformat (withoutZulu value)
    match parsed.offset with
    | none => raise .valueError "historical range timestamps must be timezone-aware"
    | some offset => toUtc parsed.wall offset
  | _ => raise .attributeError "object has no attribute 'replace'"

/-- `HistoricalDatasetPlan` -/
structure Plan where
  ranges : Val
  chunkSize : ℕ
  sha256 : String

/-- `HistoricalIngestionChunk` -/
structure Chunk where
  instrument : String
  granularity : Granularity
  requestedFrom : Instant
  requestedTo : Instant
  canonicalRequestSha256 : String
  logicalKey : String
  deriving DecidableEq

/-- `canonical_request` -/
def canonicalRequest (code : String) (g : Granularity) (start finish : Instant) : Val :=
  .dict [("instrument", .str code), ("granularity", .str g.code), ("from", .str (isoformat start)),
    ("to", .str (isoformat finish)), ("price", .str "BA"),
    ("price_component", .str "COMBINED_BID_ASK"), ("smooth", .bool false), ("dailyAlignment", .int 17),
    ("alignmentTimezone", .str "America/New_York"), ("weeklyAlignment", .str "Friday"),
    ("includeFirst", .bool true), ("complete_only", .bool true)]

section
variable (c : SundayClock) (stableHash : Val → String)

/-- The timestamps of the plan's range of a granularity. -/
def rangeTimestamps (plan : Plan) (g : Granularity) : Except Exc (List Instant) := do
  let candleRange ← plan.ranges.getItem g.code
  let start ← parseTimestamp (← candleRange.getItem "from")
  let finish ← parseTimestamp (← candleRange.getItem "to")
  expectedCandleTimestamps c start finish g

/-- The chunk of one batch of timestamps. -/
def chunkOf (plan : Plan) (manifestSha256 code : String) (g : Granularity) (batch : List Instant) :
    Except Exc Chunk :=
  match batch.head?, batch.getLast? with
  | some first, some last =>
    let finish := candleCompletion c g last
    let requestHash := stableHash (canonicalRequest code g first finish)
    .ok ⟨code, g, first, finish, requestHash, stableHash (.dict [("plan_sha256", .str plan.sha256),
      ("dataset_manifest_sha256", .str manifestSha256),
      ("canonical_request_sha256", .str requestHash)])⟩
  | _, _ => raise .indexError "list index out of range"

/-- The chunks of one instrument and granularity. -/
def seriesChunks (plan : Plan) (manifestSha256 code : String) (g : Granularity) :
    Except Exc (List Chunk) := do
  let timestamps ← rangeTimestamps c plan g
  if plan.chunkSize = 0 then raise .valueError "range() arg 3 must not be zero"
  else mapE (chunkOf c stableHash plan manifestSha256 code g) (slices plan.chunkSize timestamps)

/-- `materialize_historical_chunks`, of the instruments that exist. -/
def materializeHistoricalChunks (instruments : List String) (plan : Plan)
    (manifestSha256 : String) : Except Exc (List Chunk) :=
  if ∀ code ∈ INSTRUMENTS, code ∈ instruments then do
    let series ← mapE (fun key : String × Granularity =>
      seriesChunks c stableHash plan manifestSha256 key.1 key.2) (INSTRUMENTS.product GRANULARITIES)
    return series.flatten
  else raise .valueError "all frozen instruments must exist before planning"

/-- `HistoricalResponseError` -/
def responseError {α : Type} (message : String) : Except Exc α :=
  raise (.other "HistoricalResponseError") message

/-- `DatasetQualityError` -/
def qualityError {α : Type} (message : String) : Except Exc α :=
  raise (.other "DatasetQualityError") message

/-- `value == n` for a number. -/
def equalsInt (value : Val) (n : ℤ) : Bool :=
  match value with
  | .int m => m = n
  | .bool b => (if b then 1 else 0) = n
  | .float repr => repr = toString n ++ ".0" || n = 0 && repr = "-0.0"
  | _ => false

/-- White space of `str.strip()`. -/
def isBlank (c : Char) : Bool :=
  c ∈ ['\t', '\n', '\x0b', '\x0c', '\r', '\x1c', '\x1d', '\x1e', '\x1f', ' ', '\u0085', '\u00a0',
    '\u1680', '\u2000', '\u2001', '\u2002', '\u2003', '\u2004', '\u2005', '\u2006', '\u2007',
    '\u2008', '\u2009', '\u200a', '\u2028', '\u2029', '\u202f', '\u205f', '\u3000']

/-- `text.strip()` -/
def strip (text : String) : List Char :=
  ((text.toList.dropWhile isBlank).reverse.dropWhile isBlank).reverse

/-- A request identifier of the provider that is kept as evidence. -/
def isRequestId (text : String) : Bool :=
  0 < (strip text).length && (strip text).length ≤ 200 &&
    (strip text).all fun c =>
      c.isAlphanum || c = '.' || c = '_' || c = ':' || c = '-'

/-- `_canonical_request_sha256` -/
def registeredRequestSha256 (chunk : Chunk) : String :=
  if chunk.canonicalRequestSha256 ≠ "" then chunk.canonicalRequestSha256
  else stableHash (canonicalRequest chunk.instrument chunk.granularity chunk.requestedFrom
    chunk.requestedTo)

/-- `provider_evidence["unavailable_fields"]` of `_sanitized_provider_evidence` -/
def unavailableFields (chunk : Chunk) (manifest : Val) : Except Exc (List String) := do
  let requests ← manifest.get "requests"
  let request := match requests with
    | .list [request] => request
    | _ => .dict []
  let environment ← request.get "oanda_environment"
  if environment.hashable = false then raise .typeError "unhashable type"
  else
    let known := environment.isStr "practice" || environment.isStr "live"
    let requestId ← request.get "provider_request_id"
    let endpoint ← request.get "endpoint_identity"
    let method ← request.get "http_method"
    let status ← request.get "http_status"
    let requestSha256 ← request.get "canonical_request_sha256"
    let identity (name : String) := "oanda-v20-" ++ name ++ ":GET:/v3/instruments/" ++
      chunk.instrument ++ "/candles"
    let fine : List (String × Bool) :=
      [("canonical_request_sha256", requestSha256.isStr (registeredRequestSha256 stableHash chunk)),
        ("endpoint_identity", match environment with
          | .str name => known && endpoint.isStr (identity name)
          | _ => false),
        ("http_method", method.isStr "GET"), ("http_status", equalsInt status 200),
        ("oanda_environment", known),
        ("provider_request_id", match requestId with
          | .str text => isRequestId text
          | _ => false)]
    return (fine.filter fun entry => !entry.2).map Prod.fst

/-- The fields of a manifest that conflict with the chunk. -/
def invalidManifestFields (chunk : Chunk) (manifest : Val) : Except Exc (List String) := do
  let zone ← manifest.get "alignmentTimezone"
  let daily ← manifest.get "dailyAlignment"
  let granularity ← manifest.get "granularity"
  let includeFirst ← manifest.get "includeFirst"
  let instrument ← manifest.get "instrument"
  let price ← manifest.get "price"
  let smooth ← manifest.get "smooth"
  let weekly ← manifest.get "weeklyAlignment"
  let fine : List (String × Bool) :=
    [("alignmentTimezone", zone.isStr "America/New_York"), ("dailyAlignment", equalsInt daily 17),
      ("granularity", granularity.isStr chunk.granularity.code),
      ("includeFirst", equalsInt includeFirst 1), ("instrument", instrument.isStr chunk.instrument),
      ("price", price.isStr "BA"), ("smooth", equalsInt smooth 0),
      ("weeklyAlignment", weekly.isStr "Friday")]
  return (fine.filter fun entry => !entry.2).map Prod.fst

/-- Whether a manifest names the range of the chunk. -/
def rangeMatches (chunk : Chunk) (manifest : Val) : Except Exc Bool :=
  tryExcept (do
    let start ← parseTimestamp (← manifest.get "from" (.str ""))
    if start = chunk.requestedFrom then do
      let finish ← parseTimestamp (← manifest.get "to" (.str ""))
      return finish = chunk.requestedTo
    else return false) [.typeError, .valueError] fun _ => .ok false

/-- The checks of a response's candles. -/
def validateChunkCandles (chunk : Chunk) (candles : List CandleData) : Except Exc Unit := do
  let expected ← expectedCandleTimestamps c chunk.requestedFrom chunk.requestedTo chunk.granularity
  if candles.map CandleData.timestamp ≠ expected then
    responseError "provider response does not exactly cover the logical chunk"
  else do
    let issues ← validateCandles c chunk.granularity candles true
    if issues ≠ [] then responseError "provider response contains invalid candles"
    else return ()

/-- `_validate_chunk_response` of a chunk without a discovery inventory -/
def validateChunkResponse (chunk : Chunk) (candles : List CandleData) (manifest : Val) :
    Except Exc Unit := do
  if manifest.isDict = false then responseError "provider response manifest is malformed"
  else do
    let unavailable ← unavailableFields stableHash chunk manifest
    if unavailable ≠ [] then responseError "provider response lacks canonical request evidence"
    else do
      let invalid ← invalidManifestFields chunk manifest
      if invalid ≠ [] then responseError "provider manifest conflicts with the logical chunk"
      else do
        let agrees ← rangeMatches chunk manifest
        if agrees = false then
          responseError "provider manifest range conflicts with the logical chunk"
        else validateChunkCandles c chunk candles

end

/-! ## Attempts, rows and coverage -/

/-- `IngestionRun.Status` of an attempt's run; a run that ends rejected or quarantined is rolled back
and recorded as failed. -/
inductive Status
  | running | succeeded | failed
  deriving DecidableEq

/-- `HistoricalIngestionAttempt` with the status of its run -/
structure Attempt where
  chunk : Chunk
  attemptNumber : ℕ
  status : Status
  deriving DecidableEq

/-- `Candle` of the dataset -/
structure CandleRow where
  instrument : String
  granularity : Granularity
  candle : CandleData
  deriving DecidableEq

/-- The rows the acquisition of a dataset writes. -/
structure Dataset where
  attempts : List Attempt
  candles : List CandleRow

/-- What an attempt has for an answer; one that is killed has none and stays running. -/
inductive Reply
  /-- the client raises, or the database does while the candles are stored -/
  | failure
  | response (candles : List CandleData) (manifest : Val)

/-- The two transactions of `run_historical_chunk`, which those of other workers may separate. -/
inductive Event
  | begin (chunk : Chunk)
  | finish (attempt : Attempt) (reply : Reply)

section
variable (c : SundayClock) (stableHash : Val → String)

/-- `begin_historical_attempt`: the attempt that succeeded, or the number of a new one. -/
def beginHistoricalAttempt (dataset : Dataset) (chunk : Chunk) : Except Exc (Attempt ⊕ ℕ) :=
  let attempts := dataset.attempts.filter fun attempt => attempt.chunk = chunk
  match attempts.find? fun attempt => attempt.status = .succeeded with
  | some successful => .ok (.inl successful)
  | none =>
    if attempts.any fun attempt => attempt.status = .running then
      qualityError "historical chunk already has a running attempt"
    else .ok (.inr ((attempts.map Attempt.attemptNumber).foldl max 0 + 1))

/-- `store_ingestion` into a dataset, of candles of one series. -/
def storeIngestion (chunk : Chunk) (candles : List CandleData) (rows : List CandleRow) :
    Except Exc (List CandleRow) := do
  let issues ← validateCandles c chunk.granularity candles true
  if issues ≠ [] then qualityError "historical ingestion ended as FAILED"
  else
    let series := rows.filter fun row =>
      row.instrument = chunk.instrument ∧ row.granularity = chunk.granularity
    let existing (candle : CandleData) : Option CandleRow :=
      series.find? fun row => row.candle.timestamp = candle.timestamp
    if candles.any fun candle => (existing candle).any fun row => row.candle ≠ candle then
      qualityError "historical ingestion ended as QUARANTINED"
    else
      return rows ++ (candles.filter fun candle => (existing candle).isNone).map fun candle =>
        ⟨chunk.instrument, chunk.granularity, candle⟩

/-- The rows behind a reply that is validated and stored. -/
def storeReply (chunk : Chunk) (rows : List CandleRow) : Reply → Except Exc (List CandleRow)
  | .failure => raise .runtimeError "OANDA historical request failed"
  | .response candles manifest => do
    validateChunkResponse c stableHash chunk candles manifest
    storeIngestion c chunk candles rows

/-- The attempts with the status of one written. -/
def record (attempts : List Attempt) (attempt : Attempt) (status : Status) : List Attempt :=
  attempts.map fun a => if a = attempt then { a with status } else a

/-- The end of a running attempt; that of any other is refused. -/
def finishAttempt (dataset : Dataset) (attempt : Attempt) (reply : Reply) : Dataset :=
  if attempt ∈ dataset.attempts ∧ attempt.status = .running then
    match storeReply c stableHash attempt.chunk dataset.candles reply with
    | .ok rows => ⟨record dataset.attempts attempt .succeeded, rows⟩
    | .error _ => ⟨record dataset.attempts attempt .failed, dataset.candles⟩
  else dataset

/-- `run_historical_chunk`, one transaction at a time -/
def runHistoricalChunk (dataset : Dataset) : Event → Dataset
  | .begin chunk =>
    match beginHistoricalAttempt dataset chunk with
    | .ok (.inr number) => ⟨dataset.attempts ++ [⟨chunk, number, .running⟩], dataset.candles⟩
    | _ => dataset
  | .finish attempt reply => finishAttempt c stableHash dataset attempt reply

/-- One series of the manifest of a registered dataset. -/
structure SeriesCoverage where
  series : String
  range : Val
  rowCount : ℕ
  first : Instant
  last : Instant

/-- The rows of a series, ordered by timestamp. -/
def seriesTimestamps (rows : List CandleRow) (code : String) (g : Granularity) : List Instant :=
  sorted ((rows.filter fun row => row.instrument = code ∧ row.granularity = g).map
    fun row => row.candle.timestamp)

/-- The coverage of one series. -/
def seriesCoverage (plan : Plan) (rows : List CandleRow) (code : String) (g : Granularity) :
    Except Exc SeriesCoverage := do
  let expected ← rangeTimestamps c plan g
  let timestamps := seriesTimestamps rows code g
  if timestamps ≠ expected then
    qualityError ("dataset does not exactly cover " ++ code ++ " " ++ g.code)
  else do
    let range ← plan.ranges.getItem g.code
    match timestamps.head?, timestamps.getLast? with
    | some first, some last => .ok ⟨code ++ ":" ++ g.code, range, timestamps.length, first, last⟩
    | _, _ => raise .indexError "tuple index out of range"

/-- `_legacy_series_coverage` -/
def legacySeriesCoverage (plan : Plan) (rows : List CandleRow) :
    Except Exc (List SeriesCoverage) :=
  mapE (fun key : String × Granularity => seriesCoverage c plan rows key.1 key.2)
    (INSTRUMENTS.product GRANULARITIES)

end

end TradeRecommender.Market
