import Mathlib.Data.Rat.Init
import Mathlib.Order.Defs.LinearOrder
import TradeRecommender.Lib.IsoFormat
import TradeRecommender.Lib.Python
import TradeRecommender.Lib.Tiles
import TradeRecommender.Market.Quality

/-!
# Retrospective requests

`research/validation_acquisition.py`: the registered requests, and what one fetch makes of a
provider's answer.
-/

namespace TradeRecommender.Research.Acquisition

open Py Civil Market

/-! ## The registered requests -/

/-- `PERIODS` of `research/validation_audit.py`, each with the midnights it starts and ends at. -/
def PERIODS : List (String × Instant × Instant) :=
  let midnight (year month dayOfMonth : ℤ) : Instant := (Date.mk year month dayOfMonth).toDays * day
  [("warmup", midnight 2017 1 1, midnight 2019 1 7),
    ("development", midnight 2019 1 7, midnight 2025 1 6),
    ("sealed_first", midnight 2025 1 6, midnight 2025 11 10),
    ("sealed_second", midnight 2025 11 10, midnight 2026 9 7)]

/-- `canonical_pairs()` -/
def canonicalPairs : List String :=
  ["EUR_USD", "GBP_USD", "EUR_GBP", "USD_CAD", "USD_JPY", "AUD_USD", "USD_CHF", "NZD_USD",
    "EUR_JPY", "GBP_JPY", "AUD_JPY", "AUD_CAD"]

/-- `DAYS` -/
def DAYS : List (Granularity × ℤ) := [(.w, 365), (.d, 365), (.h4, 180), (.h1, 90), (.m15, 28)]

/-- `MAX_BODY` -/
def MAX_BODY : ℕ := 4 * 1024 * 1024

/-- A request; its ends are written with `isoformat` and read back with `fromisoformat`. -/
structure Request where
  period : String
  instrument : String
  granularity : Granularity
  start : Instant
  finish : Instant
  deriving DecidableEq

/-- The requests of one period, instrument and granularity. -/
def seriesRequests (period : String × Instant × Instant) (instrument : String)
    (chunkDays : Granularity × ℤ) : List Request :=
  (Tiles.tiles (chunkDays.2 * day) period.2.1 period.2.2).map fun tile =>
    ⟨period.1, instrument, chunkDays.1, tile.1, tile.2⟩

/-- `chunks()` -/
def chunks : List Request :=
  PERIODS.flatMap fun period => canonicalPairs.flatMap fun instrument =>
    DAYS.flatMap fun chunkDays => seriesRequests period instrument chunkDays

/-! ## Fetching -/

/-- A finite `Decimal`: its value and the text `str` gives. -/
structure Amount where
  value : ℚ
  text : String
  deriving DecidableEq

/-- The four prices of one side. -/
structure Side where
  opening : Amount
  high : Amount
  low : Amount
  close : Amount
  deriving DecidableEq

/-- The candle `_parse_live_candle` returns. -/
structure LiveCandle where
  timestamp : Instant
  complete : Bool
  volume : ℤ
  bid : Side
  ask : Side
  deriving DecidableEq

/-- An element of `normalized`. -/
structure NormalizedRow where
  timestamp : String
  volume : ℤ
  bid : List String
  ask : List String
  deriving DecidableEq

/-- What the artifacts keep of a normalized list: its bytes are a function of it. -/
abbrev Blob : Type := List NormalizedRow

/-- What one answered request is described by. -/
structure Metadata (δ : Type) where
  request : Request
  includeFirst : Bool
  periodBoundaryExclusions : List String
  requestStartedAt : Instant
  acquiredAt : Instant
  providerRequestId : String
  rows : ℕ
  firstTimestamp : Option String
  lastTimestamp : Option String
  timestampSha256 : δ
  responseSha256 : δ
  contentSha256 : δ
  registration : δ
  blobSha256 : δ
  deriving DecidableEq

/-- An answer of the provider: the lengths of its parts, the parsed body and the body's digest. -/
structure Response (δ : Type) where
  status : ℤ
  parts : List ℕ
  providerId : String
  payload : Except Exc Val
  bodySha256 : δ

/-- What the acquisition calls: `Decimal` of a JSON value (none of one that is not finite), and
SHA-256 of the canonical form of what it digests. -/
structure Library (δ : Type) where
  decimal : Val → Except Exc (Option Amount)
  timestampsDigest : List String → δ
  contentDigest : Blob → δ
  blobDigest : Blob → δ
  requestDigest : δ → Request → δ
  metadataDigest : Metadata δ → δ

/-- `set(value) == names` -/
def keysAre (value : Val) (names : List String) : Except Exc Bool := do
  let items ← value.iter
  if items.any fun item => !item.hashable then raise .typeError "unhashable type"
  else return (items.all fun item => names.any item.isStr) &&
    names.all fun name => items.any fun item => item.isStr name

section
variable {δ : Type} (L : Library δ)

/-- `_provider_timestamp`: the reading of `_parse_candle` is the same one. -/
def providerTimestamp : Val → Except Exc Instant
  | .str value => do
    let parsed ← fromisoformat
      (String.ofList (value.toList.flatMap fun c => if c = 'Z' then "+00:00".toList else [c]))
    match parsed.offset with
    | none => raise .valueError "provider timestamp must include a timezone"
    | some offset => toUtc parsed.wall offset
  | _ => raise .typeError "provider timestamp must be text"

/-- The amounts of a side, none where one of them is not finite. -/
def parseSide (side : Val) : Except Exc (Option Side) := do
  let opening ← L.decimal (← side.getItem "o")
  let high ← L.decimal (← side.getItem "h")
  let low ← L.decimal (← side.getItem "l")
  let close ← L.decimal (← side.getItem "c")
  match opening, high, low, close with
  | some opening, some high, some low, some close => return some ⟨opening, high, low, close⟩
  | _, _, _, _ => return none

/-- `_parse_live_candle` -/
def parseLiveCandle (item : Val) : Except Exc LiveCandle := do
  let timestamp ← providerTimestamp (← item.getItem "time")
  match ← item.getItem "complete", ← item.getItem "volume" with
  | .bool complete, .int volume => do
    let bid ← parseSide L (← item.getItem "bid")
    let ask ← parseSide L (← item.getItem "ask")
    match bid, ask with
    | some bid, some ask => return ⟨timestamp, complete, volume, bid, ask⟩
    | _, _ => raise .valueError "nonfinite candle price"
  | _, _ => raise .valueError "invalid candle metadata"

/-- `0 < low <= min(opening, close) <= max(opening, close) <= high` -/
def Side.sound (side : Side) : Bool :=
  0 < side.low.value && side.low.value ≤ min side.opening.value side.close.value &&
    max side.opening.value side.close.value ≤ side.high.value

/-- Whether a bid lies above its ask. -/
def LiveCandle.crossed (candle : LiveCandle) : Bool :=
  [Side.opening, Side.high, Side.low, Side.close].any fun field =>
    (field candle.ask).value < (field candle.bid).value

/-- The shape of one element of `payload["candles"]`. -/
def candleShape (item : Val) : Except Exc Bool := do
  if ← keysAre item ["time", "complete", "volume", "bid", "ask"] then
    if ← keysAre (← item.getItem "bid") ["o", "h", "l", "c"] then
      keysAre (← item.getItem "ask") ["o", "h", "l", "c"]
    else return false
  else return false

/-- The checks on a parsed candle behind the one before it. -/
def checkCandle (request : Request) (previous : Option Instant) (candle : LiveCandle) :
    Except Exc Unit :=
  if candle.volume < 0 ∨ candle.timestamp < request.start ∨ request.finish ≤ candle.timestamp then
    raise .valueError "provider_interval_or_completeness"
  else if previous.any fun earlier => candle.timestamp ≤ earlier then
    raise .valueError "provider_duplicate_or_unordered"
  else if candle.bid.sound = false ∨ candle.ask.sound = false then
    raise .valueError "provider_ohlc_geometry"
  else if candle.crossed then raise .valueError "provider_crossed_quotes"
  else .ok ()

/-- Whether the candle completes behind the end of the period. -/
def beyond (request : Request) (periodEnd : Instant) (candle : LiveCandle) : Bool :=
  periodEnd < registeredCandleCompletion candle.timestamp request.granularity

/-- The loop over the candles: those that are kept and those that cross the end of the period. -/
def readCandles (request : Request) (periodEnd : Instant) :
    Option Instant → List Val → Except Exc (List LiveCandle × List LiveCandle)
  | _, [] => .ok ([], [])
  | previous, item :: rest => do
    if (← candleShape item) = false then raise .valueError "provider_candle_shape"
    else do
      let candle ← parseLiveCandle L item
      checkCandle request previous candle
      if beyond request periodEnd candle then do
        let (kept, excluded) ← readCandles request periodEnd (some candle.timestamp) rest
        return (kept, candle :: excluded)
      else if candle.complete = false then
        raise .valueError "provider_interval_or_completeness"
      else do
        let (kept, excluded) ← readCandles request periodEnd (some candle.timestamp) rest
        return (candle :: kept, excluded)

/-- The element of `normalized` for a candle. -/
def normalize (candle : LiveCandle) : NormalizedRow :=
  let texts (side : Side) : List String :=
    [side.opening, side.high, side.low, side.close].map Amount.text
  ⟨isoformat candle.timestamp, candle.volume, texts candle.bid, texts candle.ask⟩

/-- `re.fullmatch(r"[A-Za-z0-9-]{0,128}", provider_id)` -/
def isProviderId (text : String) : Bool :=
  text.toList.length ≤ 128 && text.toList.all fun c => c.isAlphanum || c = '-'

/-- The end of the named period. -/
def periodEnd (name : String) : Except Exc Instant :=
  match PERIODS.find? fun period => period.1 = name with
  | some period => .ok period.2.2
  | none => raise (.other "StopIteration")

/-- The candles of a payload for the request. -/
def envelope (request : Request) (payload : Val) : Except Exc (List Val) := do
  let shaped ← keysAre payload ["instrument", "granularity", "candles"]
  if shaped = false then raise .valueError "provider_envelope_mismatch"
  else do
    let instrument ← payload.getItem "instrument"
    let granularity ← payload.getItem "granularity"
    match ← payload.getItem "candles" with
    | .list items =>
      if instrument.isStr request.instrument = false ∨
          granularity.isStr request.granularity.code = false ∨ 4999 < items.length then
        raise .valueError "provider_envelope_mismatch"
      else return items
    | _ => raise .valueError "provider_envelope_mismatch"

/-- `include_first` -/
def Request.includeFirst (request : Request) : Bool :=
  liveIntervalIsAligned request.start request.granularity

/-- `metadata`, before `acquire` adds the registration and the digest of the blob. -/
def describe (request : Request) (started acquired : Instant) (response : Response δ)
    (kept excluded : List LiveCandle) (registration blobSha256 : δ) : Metadata δ :=
  let timestamps := kept.map fun candle => isoformat candle.timestamp
  { request
    includeFirst := request.includeFirst
    periodBoundaryExclusions := excluded.map fun candle => isoformat candle.timestamp
    requestStartedAt := started
    acquiredAt := acquired
    providerRequestId := response.providerId
    rows := kept.length
    firstTimestamp := timestamps.head?
    lastTimestamp := timestamps.getLast?
    timestampSha256 := L.timestampsDigest timestamps
    responseSha256 := response.bodySha256
    contentSha256 := L.contentDigest (kept.map normalize)
    registration
    blobSha256 }

/-- The reading of a response by `fetch`: the candles it keeps and those it excludes. -/
def readResponse (request : Request) (response : Response δ) :
    Except Exc (List LiveCandle × List LiveCandle) :=
  if response.status ≠ 200 then
    raise .valueError (if response.status ∈ [401, 403] then "provider_auth"
      else "provider_http_" ++ toString response.status)
  else if MAX_BODY < response.parts.sum then raise .valueError "provider_body_bound"
  else if isProviderId response.providerId = false then raise .valueError "provider_id_malformed"
  else do
    let payload ← response.payload
    let items ← envelope request payload
    let finish ← periodEnd request.period
    readCandles L request finish none items

end

/-! ## What a response is read into -/

section
variable {δ : Type} {L : Library δ} {request : Request} {finish : Instant}

theorem checkCandle_eq_ok {previous : Option Instant} {candle : LiveCandle} :
    checkCandle request previous candle = .ok () ↔
      0 ≤ candle.volume ∧ request.start ≤ candle.timestamp ∧ candle.timestamp < request.finish ∧
        (∀ earlier ∈ previous, earlier < candle.timestamp) ∧ candle.bid.sound = true ∧
        candle.ask.sound = true ∧ candle.crossed = false := by
  rw [checkCandle]
  by_cases outside : candle.volume < 0 ∨ candle.timestamp < request.start ∨
      request.finish ≤ candle.timestamp
  · rw [if_pos outside]
    refine ⟨fun h => (by cases h), fun ⟨volume, low, high, _⟩ => ?_⟩
    rcases outside with h | h | h
    · exact absurd h (not_lt.mpr volume)
    · exact absurd h (not_lt.mpr low)
    · exact absurd h (not_le.mpr high)
  rw [if_neg outside]
  push Not at outside
  by_cases repeated : (previous.any fun earlier => decide (candle.timestamp ≤ earlier)) = true
  · rw [if_pos repeated]
    refine ⟨fun h => (by cases h), fun ⟨_, _, _, later, _⟩ => ?_⟩
    cases previous with
    | none => cases repeated
    | some earlier => exact absurd (of_decide_eq_true repeated) (not_le.mpr (later earlier rfl))
  rw [if_neg repeated]
  have later : ∀ earlier ∈ previous, earlier < candle.timestamp := by
    rintro earlier rfl
    by_contra before
    exact repeated (decide_eq_true (not_lt.mp before))
  by_cases unsound : candle.bid.sound = false ∨ candle.ask.sound = false
  · rw [if_pos unsound]
    refine ⟨fun h => (by cases h), fun ⟨_, _, _, _, bid, ask, _⟩ => ?_⟩
    rcases unsound with h | h
    · rw [h] at bid
      cases bid
    · rw [h] at ask
      cases ask
  rw [if_neg unsound]
  push Not at unsound
  by_cases crossed : candle.crossed = true
  · rw [if_pos crossed]
    refine ⟨fun h => (by cases h), fun ⟨_, _, _, _, _, _, h⟩ => ?_⟩
    rw [h] at crossed
    cases crossed
  · rw [if_neg crossed]
    exact ⟨fun _ => ⟨outside.1, outside.2.1, outside.2.2, later, Bool.of_not_eq_false unsound.1,
      Bool.of_not_eq_false unsound.2, Bool.of_not_eq_true crossed⟩, fun _ => rfl⟩

/-- Candles that are read lie in the request; those that complete in the period are kept. -/
theorem readCandles_spec {previous : Option Instant} {items : List Val}
    {kept excluded : List LiveCandle}
    (h : readCandles L request finish previous items = .ok (kept, excluded)) :
    ∃ candles, mapE (parseLiveCandle L) items = .ok candles ∧
      kept = candles.filter (fun candle => !beyond request finish candle) ∧
      ∀ candle ∈ candles, request.start ≤ candle.timestamp ∧ candle.timestamp < request.finish := by
  induction items generalizing previous kept excluded with
  | nil =>
    cases h
    exact ⟨[], rfl, rfl, fun candle mem => by cases mem⟩
  | cons item rest ih =>
    obtain ⟨shaped, -, h⟩ := bind_eq_ok.mp h
    by_cases shapeless : shaped = false
    · rw [if_pos shapeless] at h
      cases h
    rw [if_neg shapeless] at h
    obtain ⟨candle, parsed, h⟩ := bind_eq_ok.mp h
    obtain ⟨⟨⟩, checked, h⟩ := bind_eq_ok.mp h
    obtain ⟨-, low, high, -⟩ := checkCandle_eq_ok.mp checked
    have here (candles : List LiveCandle) (above : ∀ candle ∈ candles,
        request.start ≤ candle.timestamp ∧ candle.timestamp < request.finish) :
        ∀ c ∈ candle :: candles, request.start ≤ c.timestamp ∧ c.timestamp < request.finish := by
      intro c mem
      rcases List.mem_cons.mp mem with rfl | mem
      · exact ⟨low, high⟩
      · exact above c mem
    by_cases crosses : beyond request finish candle = true
    · rw [if_pos crosses] at h
      obtain ⟨⟨kept', excluded'⟩, later, h⟩ := bind_eq_ok.mp h
      cases h
      obtain ⟨candles, parsedRest, rfl, above⟩ := ih later
      refine ⟨candle :: candles, ?_, ?_, here candles above⟩
      · rw [mapE, parsed, parsedRest]
        rfl
      · rw [List.filter_cons, crosses]
        rfl
    · rw [if_neg crosses] at h
      by_cases incomplete : candle.complete = false
      · rw [if_pos incomplete] at h
        cases h
      rw [if_neg incomplete] at h
      obtain ⟨⟨kept', excluded'⟩, later, h⟩ := bind_eq_ok.mp h
      cases h
      obtain ⟨candles, parsedRest, rfl, above⟩ := ih later
      refine ⟨candle :: candles, ?_, ?_, here candles above⟩
      · rw [mapE, parsed, parsedRest]
        rfl
      · rw [List.filter_cons, Bool.of_not_eq_true crosses]
        rfl

end

/-! ## Honest answers -/

/-- The candles a provider has, of each instrument and granularity. -/
abbrev Book : Type := String → Granularity → List LiveCandle

/-- The candles of each series are in order and start where intervals do. -/
structure Book.Registered (book : Book) : Prop where
  increasing : ∀ instrument g, (book instrument g).Pairwise fun a b => a.timestamp < b.timestamp
  aligned : ∀ instrument g, ∀ candle ∈ book instrument g,
    liveIntervalIsAligned candle.timestamp g = true

/-- What the provider answers: the candles that start between the ends of the request, and with
`includeFirst` the one that covers its start. -/
def answer (book : Book) (request : Request) : List LiveCandle :=
  (book request.instrument request.granularity).filter fun candle =>
    (request.start < candle.timestamp ∧ candle.timestamp < request.finish) ∨
      (request.includeFirst = true ∧ candle.timestamp ≤ request.start ∧
        request.start < candle.timestamp + request.granularity.step)

/-- A response that is admissible and holds the answer. -/
structure Honest {δ : Type} (L : Library δ) (book : Book) (request : Request)
    (response : Response δ) : Prop where
  status : response.status = 200
  size : response.parts.sum ≤ MAX_BODY
  id : isProviderId response.providerId = true
  payload : ∃ payload items, response.payload = .ok payload ∧
    envelope request payload = .ok items ∧ (∀ item ∈ items, candleShape item = .ok true) ∧
    mapE (parseLiveCandle L) items = .ok (answer book request)

/-- The candles that start in the request and complete by an instant. -/
def requested (book : Book) (request : Request) (finish : Instant) : List LiveCandle :=
  (Tiles.within LiveCandle.timestamp (book request.instrument request.granularity) request.start
    request.finish).filter fun candle => !beyond request finish candle

section
variable {δ : Type} {L : Library δ} {book : Book} {request : Request} {response : Response δ}
  {finish : Instant}

theorem Granularity.step_pos (g : Granularity) : 0 < g.step := by
  cases g <;> decide

/-- An answer without candles from before the request is what starts in it. -/
theorem answer_eq (registered : book.Registered)
    (inside : ∀ candle ∈ answer book request,
      request.start ≤ candle.timestamp ∧ candle.timestamp < request.finish) :
    answer book request = Tiles.within LiveCandle.timestamp
      (book request.instrument request.granularity) request.start request.finish := by
  refine List.filter_congr fun candle mem => ?_
  rw [decide_eq_decide]
  constructor
  · intro chosen
    exact inside candle (List.mem_filter.mpr ⟨mem, decide_eq_true chosen⟩)
  · rintro ⟨low, high⟩
    rcases lt_or_eq_of_le low with later | same
    · exact .inl ⟨later, high⟩
    · -- a candle at the start of the request is the one that covers it
      refine .inr ⟨?_, same.ge, ?_⟩
      · rw [Request.includeFirst, same]
        exact registered.aligned _ _ candle mem
      · rw [same]
        exact Int.lt_add_of_pos_right _ (Granularity.step_pos _)

theorem readResponse_eq_ok {kept excluded : List LiveCandle}
    (h : readResponse L request response = .ok (kept, excluded)) :
    ∃ payload items finish, response.payload = .ok payload ∧ envelope request payload = .ok items ∧
      periodEnd request.period = .ok finish ∧
      readCandles L request finish none items = .ok (kept, excluded) := by
  rw [readResponse] at h
  by_cases status : response.status ≠ 200
  · rw [if_pos status] at h
    cases h
  by_cases size : MAX_BODY < response.parts.sum
  · rw [if_neg status, if_pos size] at h
    cases h
  by_cases id : isProviderId response.providerId = false
  · rw [if_neg status, if_neg size, if_pos id] at h
    cases h
  rw [if_neg status, if_neg size, if_neg id] at h
  obtain ⟨payload, parsed, h⟩ := bind_eq_ok.mp h
  obtain ⟨items, enveloped, h⟩ := bind_eq_ok.mp h
  obtain ⟨finish, ends, h⟩ := bind_eq_ok.mp h
  exact ⟨payload, items, finish, parsed, enveloped, ends, h⟩

/-- An honest answer that is read is kept as far as it completes in the period. -/
theorem kept_of_honest (registered : book.Registered) (honest : Honest L book request response)
    (ends : periodEnd request.period = .ok finish) {kept excluded : List LiveCandle}
    (h : readResponse L request response = .ok (kept, excluded)) :
    kept = requested book request finish := by
  obtain ⟨payload, items, finish', parsed, enveloped, ends', read⟩ := readResponse_eq_ok h
  obtain ⟨payload', items', parsed', enveloped', -, answered⟩ := honest.payload
  cases parsed'.symm.trans parsed
  cases enveloped'.symm.trans enveloped
  cases ends'.symm.trans ends
  obtain ⟨candles, same, rfl, inside⟩ := readCandles_spec read
  cases answered.symm.trans same
  rw [requested, ← answer_eq registered inside]

/-! ## Every honest answer is accepted -/

theorem DAYS_pos : ∀ entry ∈ DAYS, 0 < entry.2 * day := by decide

theorem PERIODS_midnight : ∀ period ∈ PERIODS, period.2.1 % day = 0 := by decide

/-- A request starts at a midnight in UTC, and its period is named. -/
theorem start_of_mem_chunks (mem : request ∈ chunks) : request.start % day = 0 := by
  obtain ⟨period, hperiod, mem⟩ := List.mem_flatMap.mp mem
  obtain ⟨instrument, -, mem⟩ := List.mem_flatMap.mp mem
  obtain ⟨⟨g, days⟩, hdays, mem⟩ := List.mem_flatMap.mp mem
  obtain ⟨tile, htile, rfl⟩ := List.mem_map.mp mem
  obtain ⟨⟨n, at_⟩, -, -⟩ := Tiles.mem_tiles (DAYS_pos _ hdays) htile
  have midnight := PERIODS_midnight period hperiod
  show tile.1 % day = 0
  rw [at_, ← mul_assoc, Int.add_mul_emod_self_right]
  exact midnight

theorem nonempty_of_mem_chunks (mem : request ∈ chunks) : request.start < request.finish := by
  obtain ⟨period, hperiod, mem⟩ := List.mem_flatMap.mp mem
  obtain ⟨instrument, -, mem⟩ := List.mem_flatMap.mp mem
  obtain ⟨⟨g, days⟩, hdays, mem⟩ := List.mem_flatMap.mp mem
  obtain ⟨tile, htile, rfl⟩ := List.mem_map.mp mem
  exact (Tiles.mem_tiles (DAYS_pos _ hdays) htile).2.1

/-- At midnight in UTC it is 19:00 or 20:00 in New York. -/
theorem newYorkWall_midnight {t : ℤ} (midnight : t % day = 0) :
    newYorkWall t % day = 20 * hour ∨ newYorkWall t % day = 19 * hour := by
  have offset := newYorkOffset_eq t
  rw [newYorkWall]
  simp only [day, hour] at midnight offset ⊢
  omega

/-- The one interval that covers a start named with `includeFirst` begins there. -/
theorem eq_start_of_covers {g : Granularity} {t start : ℤ} (midnight : start % day = 0)
    (included : liveIntervalIsAligned start g = true) (aligned : liveIntervalIsAligned t g = true)
    (before : t ≤ start) (covers : start < t + g.step) : t = start := by
  have wall := newYorkWall_midnight midnight
  have offset := newYorkOffset_eq t
  have shift : newYorkWall t = t + newYorkOffset t := rfl
  cases g <;>
    simp only [liveIntervalIsAligned, Bool.and_eq_true, decide_eq_true_eq, Bool.if_false_left,
      Bool.not_eq_true', decide_eq_false_iff_not, not_not, List.mem_cons, List.not_mem_nil,
      or_false] at included aligned <;>
    simp only [Granularity.step, day, hour, minute] at * <;>
    omega

/-- Candles a fetch refuses none of. -/
structure Clean (request : Request) (finish : Instant) (candle : LiveCandle) : Prop where
  volume : 0 ≤ candle.volume
  bid : candle.bid.sound = true
  ask : candle.ask.sound = true
  uncrossed : candle.crossed = false
  final : beyond request finish candle = false → candle.complete = true

theorem readCandles_accepts {items : List Val} {candles : List LiveCandle}
    (previous : Option Instant) (shaped : ∀ item ∈ items, candleShape item = .ok true)
    (parsed : mapE (parseLiveCandle L) items = .ok candles)
    (increasing : candles.Pairwise fun a b => a.timestamp < b.timestamp)
    (later : ∀ earlier ∈ previous, ∀ candle ∈ candles, earlier < candle.timestamp)
    (inside : ∀ candle ∈ candles,
      request.start ≤ candle.timestamp ∧ candle.timestamp < request.finish)
    (clean : ∀ candle ∈ candles, Clean request finish candle) :
    ∃ read, readCandles L request finish previous items = .ok read := by
  induction items generalizing candles previous with
  | nil => exact ⟨_, rfl⟩
  | cons item rest ih =>
    obtain ⟨candle, first, parsed⟩ := bind_eq_ok.mp parsed
    obtain ⟨candles', parsedRest, h⟩ := bind_eq_ok.mp parsed
    cases h
    obtain ⟨above, increasing⟩ := List.pairwise_cons.mp increasing
    have own := clean candle List.mem_cons_self
    have range := inside candle List.mem_cons_self
    have checked : checkCandle request previous candle = .ok () :=
      checkCandle_eq_ok.mpr ⟨own.volume, range.1, range.2,
        fun earlier mem => later earlier mem candle List.mem_cons_self, own.bid, own.ask,
        own.uncrossed⟩
    obtain ⟨⟨kept, excluded⟩, read⟩ := ih (some candle.timestamp)
      (fun item mem => shaped item (List.mem_cons_of_mem _ mem)) parsedRest increasing
      (by rintro earlier ⟨⟩ c hc; exact above c hc)
      (fun c hc => inside c (List.mem_cons_of_mem _ hc))
      (fun c hc => clean c (List.mem_cons_of_mem _ hc))
    rw [readCandles, shaped item List.mem_cons_self]
    refine bind_returns ⟨true, rfl⟩ fun shape hshape => ?_
    cases hshape
    rw [if_neg (by decide)]
    refine bind_returns ⟨candle, first⟩ fun candle' hcandle => ?_
    cases first.symm.trans hcandle
    refine bind_returns ⟨(), checked⟩ fun _ _ => ?_
    by_cases crosses : beyond request finish candle = true
    · rw [if_pos crosses, read]
      exact ⟨_, rfl⟩
    · rw [if_neg crosses, if_neg (by rw [own.final (Bool.of_not_eq_true crosses)]; decide), read]
      exact ⟨_, rfl⟩

/-- A fetch takes every honest answer to a registered request. -/
theorem readResponse_accepts (registered : book.Registered) (mem : request ∈ chunks)
    (honest : Honest L book request response) (ends : periodEnd request.period = .ok finish)
    (clean : ∀ candle ∈ book request.instrument request.granularity, Clean request finish candle) :
    ∃ read, readResponse L request response = .ok read := by
  obtain ⟨payload, items, parsed, enveloped, shaped, answered⟩ := honest.payload
  have sublist : (answer book request).Sublist
    (book request.instrument request.granularity) := List.filter_sublist
  have inside : ∀ candle ∈ answer book request,
      request.start ≤ candle.timestamp ∧ candle.timestamp < request.finish := by
    intro candle hcandle
    obtain ⟨hbook, chosen⟩ := List.mem_filter.mp hcandle
    rcases of_decide_eq_true chosen with ⟨low, high⟩ | ⟨included, before, covers⟩
    · exact ⟨low.le, high⟩
    · have same := eq_start_of_covers (start_of_mem_chunks mem) included
        (registered.aligned _ _ candle hbook) before covers
      exact ⟨same.ge, same ▸ nonempty_of_mem_chunks mem⟩
  obtain ⟨read, hread⟩ := readCandles_accepts (L := L) none shaped answered
    ((registered.increasing _ _).sublist sublist) (by rintro _ ⟨⟩) inside
    fun candle hcandle => clean candle (sublist.subset hcandle)
  rw [readResponse, if_neg (not_not.mpr honest.status), if_neg (not_lt.mpr honest.size),
    if_neg (by rw [honest.id]; decide), parsed]
  refine ⟨read, bind_eq_ok.mpr ⟨payload, rfl, bind_eq_ok.mpr ⟨items, enveloped,
    bind_eq_ok.mpr ⟨finish, ends, hread⟩⟩⟩⟩

end

end TradeRecommender.Research.Acquisition
