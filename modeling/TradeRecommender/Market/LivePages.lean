import TradeRecommender.Lib.SundayClock
import TradeRecommender.Research.RetrospectiveFetch

/-!
# Pages of live candles

`OandaClient.fetch_candles` of `market/oanda.py`, and the grid its windows are cut on.

1. the live grid, and `canonical_live_start`;
2. one page: what is asked, and what is made of the answer;
3. the loop over the pages.
-/

namespace TradeRecommender.Market

open Py Civil
open TradeRecommender.Research.Acquisition (Library LiveCandle parseLiveCandle)

/-! ## The live grid -/

/-- `live_interval_is_aligned` of a supported granularity, on the New York reading -/
def isLiveAligned (g : Granularity) (wall : ℤ) : Bool :=
  if wall % minute ≠ 0 then false
  else match g with
    | .m15 => wall % hour / minute % 15 = 0
    | .h1 => wall % hour = 0
    | .h4 => wall % hour = 0 && wall % day / hour ∈ [1, 5, 9, 13, 17, 21]
    | .d => wall % day = 17 * hour && weekday (wall / day) ∈ [6, 0, 1, 2, 3]
    | .w => wall % day = 17 * hour && weekday (wall / day) = 4

section
variable (c : SundayClock) (g : Granularity)

/-- The loop of `canonical_live_start`, over the hours down from a whole one. -/
def alignedHour : ℕ → Instant → Except Exc Instant
  | 0, _ => raise .valueError "No canonical live interval found"
  | turns + 1, candidate =>
    if isLiveAligned g (c.wall candidate) then .ok candidate
    else alignedHour turns (candidate - hour)

/-- `canonical_live_start` -/
def canonicalLiveStart (value : Instant) : Except Exc Instant :=
  let candidate := value / minute * minute
  if g = .m15 then .ok (candidate - candidate % hour / minute % 15 * minute)
  else alignedHour c g 170 (candidate / hour * hour)

/-- `live_candle_completion` -/
def liveCompletion (timestamp : Instant) : Instant :=
  if g ∈ [.m15, .h1, .h4] then timestamp + g.step
  else c.utc (c.wall timestamp + g.step)

end

/-! ## One page -/

/-- The request of a page, with its `params`. -/
structure PageRequest where
  instrument : String
  granularity : Granularity
  fromTime : Instant
  toTime : Instant
  includeFirst : Bool
  price : String := "BA"
  smooth : Bool := false
  dailyAlignment : ℤ := 17
  alignmentTimezone : String := "America/New_York"
  weeklyAlignment : String := "Friday"
  deriving DecidableEq

/-- The response to a page, with the time it is recorded at. -/
structure PageResponse where
  url : String
  status : ℤ
  /-- the header `RequestID`, blank where there is none -/
  requestId : String
  json : Except Exc Val
  retrievedAt : Instant

/-- An element of `requests`. -/
structure RequestRecord where
  url : String
  status : ℤ
  includeFirst : Bool
  retrievedAt : Instant
  providerRequestId : String

/-- What a client calls: the transport, told how many requests came before, and the text of a
message. -/
structure Client where
  get : ℕ → PageRequest → Except Exc PageResponse
  format : Val → String

/-- `OandaError` -/
def oandaError : ExcClass := .other "OandaError"

/-- `response.json().get("errorMessage")`, and nothing where that fails. -/
def errorMessage (json : Except Exc Val) : Except Exc Val :=
  tryExcept (json >>= fun payload => payload.get "errorMessage") [.jsonDecodeError, .typeError]
    fun _ => .ok .none

/-- A page whose status is not 200. -/
def refusePage {α : Type} (client : Client) (response : PageResponse) : Except Exc α := do
  let message ← errorMessage response.json
  let detail := if message.truthy then ": " ++ client.format message else ""
  raise oandaError ("OANDA returned HTTP " ++ toString response.status ++ detail)

section
variable {δ : Type} (L : Library δ)

/-- `[_parse_live_candle(item) for item in payload["candles"]]` -/
def parsePage (json : Except Exc Val) : Except Exc (List LiveCandle) :=
  let parsed := do
    match ← json with
    | .dict entries =>
      match entries.lookup "candles" with
      | some (.list items) => mapE (parseLiveCandle L) items
      | _ => raise .valueError "missing candle list"
    | _ => raise .valueError "missing candle list"
  tryExcept parsed [.keyError, .typeError, .valueError, .overflowError, .invalidOperation]
    fun _ => raise oandaError "OANDA live candle response is malformed"

/-- Where the loop stands: the cursor, whether the candle at it is asked for, and what it has. -/
structure Paging where
  cursor : Instant
  firstRequest : Bool
  candles : List LiveCandle
  requests : List RequestRecord

section
variable (c : SundayClock) (client : Client) (instrument : String) (g : Granularity)
  (start finish : Instant)

/-- `accepted` -/
def acceptedCandles (windowEnd cursor : Instant) (firstRequest : Bool) (parsed : List LiveCandle) :
    List LiveCandle :=
  parsed.filter fun item =>
    item.complete && decide (start ≤ item.timestamp) && decide (item.timestamp < finish) &&
      decide (liveCompletion c g item.timestamp ≤ min windowEnd finish) &&
      (if firstRequest then decide (cursor ≤ item.timestamp) else decide (cursor < item.timestamp))

/-- `window_end` -/
def windowEnd (cursor : Instant) : Except Exc Instant :=
  let raw := min (cursor + g.step * 4999) finish
  if raw < finish then canonicalLiveStart c g raw else .ok raw

/-- The state behind a page that is not the last one. -/
def Paging.next (st : Paging) (windowEnd : Instant) (accepted : List LiveCandle)
    (record : RequestRecord) : Paging :=
  let candles := st.candles ++ accepted
  let requests := st.requests ++ [record]
  match accepted.getLast? with
  | none => ⟨windowEnd, true, candles, requests⟩
  | some last =>
    -- the last accepted interval is asked for again, without its first candle
    if st.cursor < last.timestamp then ⟨last.timestamp, false, candles, requests⟩
    else ⟨windowEnd, true, candles, requests⟩

/-- The request of the page from a cursor. -/
def Paging.request (st : Paging) (windowEnd : Instant) : PageRequest where
  instrument := instrument
  granularity := g
  fromTime := st.cursor
  toTime := windowEnd
  includeFirst := st.firstRequest

/-- The element of `requests` for a response. -/
def Paging.record (st : Paging) (response : PageResponse) : RequestRecord :=
  ⟨response.url, response.status, st.firstRequest, response.retrievedAt, response.requestId⟩

/-- The candles a page brings, and its record. -/
def Paging.fetch (st : Paging) (windowEnd : Instant) :
    Except Exc (List LiveCandle × RequestRecord) := do
  let response ← client.get st.requests.length (st.request instrument g windowEnd)
  if response.status ≠ 200 then refusePage client response
  else do
    let parsed ← parsePage L response.json
    return (acceptedCandles c g start finish windowEnd st.cursor st.firstRequest parsed,
      st.record response)

/-- The loop over the pages; the fuel bounds its turns. -/
def fetchPages : ℕ → Paging → Except Exc Paging
  | 0, _ => raise (.other "OutOfFuel")
  | fuel + 1, st =>
    if st.cursor < finish then do
      let windowEnd ← windowEnd c g finish st.cursor
      let (accepted, record) ← st.fetch L c client instrument g start finish windowEnd
      if windowEnd = finish then
        return { st with
          candles := st.candles ++ accepted
          requests := st.requests ++ [record] }
      else fetchPages fuel (st.next windowEnd accepted record)
    else .ok st

end

/-- The manifest `fetch_candles` returns. -/
structure LiveManifest where
  instrument : String
  granularity : Granularity
  fromTime : Instant
  toTime : Instant
  price : String := "BA"
  smooth : Bool := false
  alignmentTimezone : String := "America/New_York"
  dailyAlignment : ℤ := 17
  weeklyAlignment : String := "Friday"
  includeFirstByPage : List Bool
  requests : List RequestRecord

/-- `OandaClient.fetch_candles` between aware times -/
def fetchCandles (c : SundayClock) (client : Client) (instrument : String) (g : Granularity)
    (start finish : Instant) : Except Exc (List LiveCandle × LiveManifest) :=
  if finish ≤ start then raise .valueError "start must be before end"
  else do
    let start ← canonicalLiveStart c g start
    let last ← fetchPages L c client instrument g start finish ((finish - start).toNat + 1)
      ⟨start, true, [], []⟩
    return (last.candles,
      { instrument := instrument
        granularity := g
        fromTime := start
        toTime := finish
        includeFirstByPage := last.requests.map RequestRecord.includeFirst
        requests := last.requests })

end

end TradeRecommender.Market
