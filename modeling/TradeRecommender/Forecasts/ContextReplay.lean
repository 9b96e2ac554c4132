import TradeRecommender.Forecasts.ContextClaims
import TradeRecommender.Lib.Runs
import TradeRecommender.Research.Feed
import TradeRecommender.Research.Ascii

/-!
# Context results replay

`record_context_result` and `replay_context_result` of `forecasts/evidence_context.py` over the
tables of `research/evidence_store.py`.

1. the rows, with the immutable retrievals and observations they are of;
2. `verify_representation` on a stored row;
3. the store, `load_frozen_packet`, recording and replaying;
4. what is recorded replays in every later store.

Rows are appended and never change.  A `jsonb` column gives a value back with the entries of its
dicts in an order of its own; the texts of typed fields come back as they are.
-/

namespace TradeRecommender.Evidence.Context

open Py Civil Runs

/-! ## Rows -/

structure Retrieval where
  pk : ℤ
  url : String
  fetchedAt : Instant
  contentType : String
  bodySha256 : String
  body : Research.Body

structure Observation where
  pk : ℤ
  seriesId : ℤ
  retrievalId : ℤ
  observationPeriod : Date
  normalizedValue : String
  availableAt : Instant
  availabilityPrecision : Research.AvailabilityPrecision

/-- `ExactEvidence`, with the rows it is of. -/
structure ExactEvidence where
  digest : String
  payload : Representation
  retrieval : Retrieval
  document : Option ℤ
  observation : Option Observation
  admittedMacroLabel : Option String

/-- `EvidenceRightsReview` -/
structure RightsReview where
  digest : String
  payload : Review

/-- `FrozenEvidencePacket` -/
structure FrozenPacket where
  digest : String
  payload : Packet

/-- The payload of a context result. -/
structure Payload where
  version : String
  packetSha256 : String
  request : Request
  result : Result

def Payload.toVal (p : Payload) : Val := .dict
  [("version", .str p.version), ("packet_sha256", .str p.packetSha256),
    ("request", p.request.toVal), ("result", p.result.toVal)]

/-- `==` -/
def Payload.eq (p p' : Payload) : Bool :=
  p.version = p'.version && p.packetSha256 = p'.packetSha256 && p.request.eq p'.request &&
    p.result.eq p'.result

/-- The payload as its column gives it back. -/
def Payload.stored (p : Payload) : Payload :=
  { p with
    request := { p.request with schema := p.request.schema.jsonb }
    result := { p.result with output := p.result.output.jsonb } }

/-- `EvidenceContextResult`; a packet is known by its place in its table. -/
structure ContextResult where
  digest : String
  payload : Payload
  packetId : ℕ

/-! ## Stored representations -/

/-- The calls the checks of a stored row make besides. -/
structure StoreLibrary extends toContext : Context.Library where
  std : Research.Stdlib
  /-- `hashlib.sha256(body).hexdigest()` -/
  bodySha256 : Research.Body → String
  /-- `ElementTree.tostring` -/
  tostring : Research.Element → Research.Body
  /-- `canonical` of a rights review -/
  canonicalReview : Review → String

section
variable (lib : StoreLibrary)

/-- `re.fullmatch(r"\d\x7b4\x7d-\d\x7b2\x7d-\d\x7b2\x7d", text)` -/
def isDateText (text : List Char) : Bool :=
  match text with
  | [a, b, c, d, '-', e, f, '-', g, h] => [a, b, c, d, e, f, g, h].all lib.isDigit
  | _ => false

/-- `re.match(r"\d\x7b2\x7d:\d\x7b2\x7d:\d\x7b2\x7d", text)` -/
def isClock (text : List Char) : Bool :=
  match text with
  | a :: b :: ':' :: c :: d :: ':' :: e :: f :: _ => [a, b, c, d, e, f].all lib.isDigit
  | _ => false

/-- Whether a stamp of a feed names its zone; a text that is no stamp does not. -/
def namesZone (raw : String) : Except Exc Bool :=
  tryExcept
    (do
      let parsed ← tryExcept (lib.std.parsedateToDatetime (.str raw)) [.typeError, .valueError]
        fun _ => lib.std.fromisoformat (lib.std.replace raw "Z" "+00:00")
      return parsed.offset.isSome)
    [.valueError] fun _ => .ok false

/-- The precision of the stamp of a node. -/
def nodePrecision (node : Research.Element) : Except Exc TimestampPrecision := do
  let raw := lib.std.strip
    (Research.childText node ["pubDate", "published", "updated", "date"])
  if isDateText lib raw.toList then return .dateOnly
  else if raw.toList.tails.any (isClock lib) then
    let zone ← namesZone lib raw
    return if zone then .providerExact else .unknown
  else return .unknown

/-- The body of the loop over the nodes: nothing for a node that is no match. -/
def matchPrecision (matched : List Research.FeedItem) (node : Research.Element) :
    Except Exc (Option TimestampPrecision) := do
  let items ← Research.parseFeed lib.std (lib.tostring node)
  match items with
  | [] => raise .indexError "list index out of range"
  | item :: _ =>
    if item ∈ matched then
      let precision ← nodePrecision lib node
      return some precision
    else return none

/-- `news_timestamp_precision` -/
def newsTimestampPrecision (body : Research.Body) (matched : List Research.FeedItem) :
    Except Exc TimestampPrecision := do
  let root ← lib.std.fromstring body
  let precisions ← filterMapE (matchPrecision lib matched) (Research.feedNodes root)
  match precisions.dedup with
  | [precision] => return precision
  | _ => return .unknown

/-- Whether an item of the feed is what a representation says. -/
def represents (payload : Representation) (item : Research.FeedItem) : Bool :=
  item.itemId = payload.sourceItemId && item.url = payload.canonicalUrl &&
    item.title = payload.headline && item.summary = payload.suppliedSummary &&
    item.publishedAt.map isoformat = payload.publishedAt

/-- The branch of a document. -/
def verifyDocument (row : ExactEvidence) (document : ℤ) : Except Exc Unit := do
  let payload := row.payload
  require (payload.documentId = some document ∧ payload.observationId = none) "cross_document"
  let items ← Research.parseFeed lib.std row.retrieval.body
  let matched := items.filter (represents payload)
  require (matched ≠ [] ∧ payload.normalizedFact = "") "unproven_representation"
  let precision ← newsTimestampPrecision lib row.retrieval.body matched
  require (payload.quality.timestampPrecision ∈ [precision, .unknown]) "timestamp_provenance"

/-- The precision of an observation. -/
def observationPrecision : Research.AvailabilityPrecision → TimestampPrecision
  | .provider => .providerExact
  | .retrieval => .retrievalOnly

/-- `digest(["macro", series, period])` -/
def macroDigest (observation : Observation) : String :=
  digestOf lib.toContext (.list [.str "macro", .int observation.seriesId,
    .str observation.observationPeriod.isoformat])

/-- The branch without a document. -/
def verifyObservation (row : ExactEvidence) : Except Exc Unit := do
  let payload := row.payload
  match row.observation with
  | none => raise evidenceError "wrong_observation"
  | some observation =>
    require (payload.observationId = some observation.pk ∧ payload.documentId = none)
      "wrong_observation"
    require (observation.retrievalId = row.retrieval.pk) "wrong_retrieval"
    require (payload.canonicalHash = macroDigest lib observation) "macro_identity"
    require (payload.canonicalUrl = row.retrieval.url ∧
      payload.firstObservedAt = isoformat row.retrieval.fetchedAt) "macro_provenance"
    require (payload.sourceItemId = toString observation.pk ∧
      payload.normalizedFact = observation.normalizedValue) "observation_value"
    require (some payload.headline = row.admittedMacroLabel ∧ payload.suppliedSummary = "")
      "observation_label"
    require (payload.quality.timestampPrecision ∈
      [observationPrecision observation.availabilityPrecision, .unknown]) "timestamp_provenance"
    require (payload.publishedAt = some (isoformat observation.availableAt)) "observation_time"

/-- `verify_representation` of a stored row, under `replay_only`. -/
def verifyRepresentation (row : ExactEvidence) : Except Exc Unit := do
  let payload := row.payload
  validateRepresentation payload
  require (payload.retrievalId = row.retrieval.pk) "wrong_retrieval"
  require (payload.retrievalSha256 = row.retrieval.bodySha256 ∧
    row.retrieval.bodySha256 = lib.bodySha256 row.retrieval.body) "retrieval_hash"
  require (payload.retrievedAt = isoformat row.retrieval.fetchedAt) "retrieval_time"
  require (payload.contentType = row.retrieval.contentType) "content_type"
  match row.document with
  | some document => verifyDocument lib row document
  | none => verifyObservation lib row

end

/-! ## The store -/

/-- The tables, rows in the order they were appended. -/
structure Store where
  reviews : List RightsReview := []
  evidence : List ExactEvidence := []
  packets : List FrozenPacket := []
  results : List ContextResult := []

/-- `DoesNotExist` -/
def doesNotExist {α : Type} : Except Exc α := raise (.other "DoesNotExist")

namespace Store

section
variable (lib : StoreLibrary) (s : Store)

/-- `ExactEvidence.objects.get(digest=digest)` -/
def getEvidence (digest : String) : Except Exc ExactEvidence :=
  match s.evidence.find? (·.digest = digest) with
  | some row => .ok row
  | none => doesNotExist

/-- `FrozenEvidencePacket.objects.get(pk=packet_id)` -/
def getPacket (packetId : ℕ) : Except Exc FrozenPacket :=
  match s.packets[packetId]? with
  | some row => .ok row
  | none => doesNotExist

/-- The body of the loop over the entries of a packet. -/
def verifyEntry (entry : Entry) : Except Exc Unit := do
  let row ← s.getEvidence entry.candidate.id
  require (row.payload = entry.candidate.representation) "stored_representation"
  verifyRepresentation lib row

/-- `load_frozen_packet` -/
def loadFrozenPacket (packetId : ℕ) : Except Exc FrozenPacket := do
  let packet ← s.getPacket packetId
  require (packet.digest = digestPacket lib.toContext packet.payload) "stored_digest"
  let _ ← replay lib.toContext.toLibrary lib.canonicalPacket packet.payload
  let _ ← mapE (s.verifyEntry lib) packet.payload.entries
  return packet

/-- `_append` of a context result: the row of the digest, or a new one read back from its column. -/
def appendResult (payload : Payload) (packetId : ℕ) : Except Exc (ContextResult × Store) := do
  let digest ← digest lib.toContext payload.toVal
  match s.results.find? (·.digest = digest) with
  | some row => do
    require (row.payload.eq payload) "identity_collision"
    return (row, s)
  | none =>
    let row : ContextResult := ⟨digest, payload.stored, packetId⟩
    return (row, { s with results := s.results ++ [row] })

/-- `record_context_result` -/
def recordContextResult (packetId : ℕ) (response : Val) :
    Except Exc (ContextResult × Store) := do
  let packet ← s.loadFrozenPacket lib packetId
  let request ← prepareRequest lib.toContext packet.payload (currentMethod lib.toContext)
  let result ← validateResponse lib.toContext packet.payload response
  s.appendResult lib ⟨version, packet.digest, request, result⟩ packetId

/-- The response a stored result was made of. -/
def responseOf (result : Result) : Val := .dict
  [("returned_model", .str result.returnedModel), ("input_tokens", .int result.inputTokens),
    ("output_tokens", .int result.outputTokens), ("output", result.output)]

/-- `replay_context_result` -/
def replayContextResult (row : ContextResult) : Except Exc (List Char) := do
  let digest ← digest lib.toContext row.payload.toVal
  require (row.digest = digest) "stored_digest"
  let packet ← s.loadFrozenPacket lib row.packetId
  require (row.payload.version = version ∧ row.payload.packetSha256 = packet.digest)
    "context_identity"
  let method := row.payload.request.method
  let request ← prepareRequest lib.toContext packet.payload method
  require (row.payload.request.eq request) "context_method_drift"
  let result ← validateWith lib.toContext packet.payload (responseOf row.payload.result) method
  require (result.eq row.payload.result) "context_replay"
  row.payload.toVal.canonical

/-- `review_rights` of a valid review: appended unless it is known, and in the chain of its source
and processor. -/
def reviewRights (review : Review) : Except Exc Store := do
  validateReview review
  let digest := lib.sha256 (lib.canonicalReview review).toList
  if s.reviews.any (·.digest = digest) then return s
  else do
    let prior := (s.reviews.filter fun row => row.payload.sourceId = review.sourceId ∧
      row.payload.processor = review.processor).getLast?
    require (review.supersedes = prior.map (·.digest)) "rights_chain"
    return { s with reviews := s.reviews ++ [⟨digest, review⟩] }

/-- A row of evidence of a new digest, as `store_representation` appends it. -/
def appendEvidence (row : ExactEvidence) : Except Exc Store :=
  if s.evidence.any (·.digest = row.digest) then .ok s
  else do
    verifyRepresentation lib row
    return { s with evidence := s.evidence ++ [row] }

/-- A packet that replays, as `freeze_packet` appends it. -/
def appendPacket (packet : Packet) : Except Exc Store := do
  let _ ← replay lib.toContext.toLibrary lib.canonicalPacket packet
  let digest := digestPacket lib.toContext packet
  if s.packets.any (·.digest = digest) then return s
  else return { s with packets := s.packets ++ [⟨digest, packet⟩] }

/-- A call on the store. -/
inductive Event
  | review (review : Review)
  | evidence (row : ExactEvidence)
  | packet (packet : Packet)
  | result (packetId : ℕ) (response : Val)

/-- The transaction of a call: what it returns, or an exception. -/
def transaction : Event → Except Exc Store
  | .review review => s.reviewRights lib review
  | .evidence row => s.appendEvidence lib row
  | .packet packet => s.appendPacket lib packet
  | .result packetId response => (s.recordContextResult lib packetId response).map Prod.snd

/-- A transaction that raises leaves the store as it is. -/
def step (e : Event) : Store :=
  match s.transaction lib e with
  | .ok s' => s'
  | .error _ => s

end

end Store

/-! ## What is recorded -/

theorem distinct_outputSchema : outputSchema.Distinct := by decide

theorem distinct_citation (c : Citation) : c.toVal.Distinct :=
  ⟨(by decide : ["evidence_id", "field", "quote", "directness", "conflict_state"].Nodup),
    trivial, trivial, trivial, trivial, trivial, trivial⟩

theorem distinct_claim (c : Claim) : c.toVal.Distinct := by
  refine ⟨(by decide : ["statement", "relationship", "kind", "citations"].Nodup), trivial, trivial,
    trivial, ?_, trivial⟩
  rw [Val.Distinct, Val.distinctItems_iff]
  intro v mem
  obtain ⟨citation, -, rfl⟩ := List.mem_map.mp mem
  exact distinct_citation citation

theorem distinct_output {out : Output} (all : out.map Prod.fst = sections) :
    out.toVal.Distinct := by
  refine ⟨?_, Val.distinctEntries_iff.mpr fun entry mem => ?_⟩
  · rw [keys_sectionEntry, all]
    decide
  · obtain ⟨s, -, rfl⟩ := List.mem_map.mp mem
    show Val.DistinctItems (s.2.map Claim.toVal)
    rw [Val.distinctItems_iff]
    intro v claim
    obtain ⟨c, -, rfl⟩ := List.mem_map.mp claim
    exact distinct_claim c

theorem Result.Admissible.distinct {lib : Library} {packet : Packet} {method : Method} {r : Result}
    (admissible : r.Admissible lib packet method) : r.output.Distinct := by
  obtain ⟨_, _, -, -, -, -, out, same, valid⟩ := admissible.read
  exact same.distinct (distinct_output valid.sections)

section
variable {p : Payload}

/-- The column of a payload keeps it but for the order of entries. -/
theorem Payload.same_stored (schema : p.request.schema.Distinct)
    (output : p.result.output.Distinct) : p.stored.toVal.Same p.toVal := by
  have request : p.stored.request.toVal.Same p.request.toVal :=
    Val.same_entries <| .cons ⟨rfl, rfl⟩ <| .cons ⟨rfl, rfl⟩ <| .cons ⟨rfl, rfl⟩ <|
      .cons ⟨rfl, Val.same_jsonb schema⟩ <| .cons ⟨rfl, rfl⟩ .nil
  have result : p.stored.result.toVal.Same p.result.toVal :=
    Val.same_entries <| .cons ⟨rfl, rfl⟩ <| .cons ⟨rfl, rfl⟩ <| .cons ⟨rfl, rfl⟩ <|
      .cons ⟨rfl, rfl⟩ <| .cons ⟨rfl, rfl⟩ <| .cons ⟨rfl, rfl⟩ <|
      .cons ⟨rfl, Val.same_jsonb output⟩ .nil
  exact Val.same_entries <| .cons ⟨rfl, rfl⟩ <| .cons ⟨rfl, rfl⟩ <| .cons ⟨rfl, request⟩ <|
    .cons ⟨rfl, result⟩ .nil

end

/-! ## Later stores -/

namespace Store

/-- The tables of a later store start with those of an earlier one. -/
structure Extends (s t : Store) : Prop where
  evidence : s.evidence <+: t.evidence
  packets : s.packets <+: t.packets
  results : s.results <+: t.results

variable {lib : StoreLibrary} {s t : Store}

theorem Extends.refl (s : Store) : s.Extends s :=
  ⟨List.prefix_rfl, List.prefix_rfl, List.prefix_rfl⟩

theorem Extends.trans {u : Store} (h : s.Extends t) (h' : t.Extends u) : s.Extends u :=
  ⟨h.evidence.trans h'.evidence, h.packets.trans h'.packets, h.results.trans h'.results⟩

/-- A context result is in its table already, or new at its end. -/
theorem appendResult_cases {payload : Payload} {packetId : ℕ} {row : ContextResult}
    (h : s.appendResult lib payload packetId = .ok (row, t)) :
    (t = s ∧ row ∈ s.results) ∨
      (row.payload = payload.stored ∧ row.packetId = packetId ∧
        digest lib.toContext payload.toVal = .ok row.digest ∧
        t = { s with results := s.results ++ [row] }) := by
  rw [appendResult] at h
  obtain ⟨key, hkey, h⟩ := bind_eq_ok.mp h
  cases found : s.results.find? (·.digest = key) with
  | some known =>
    rw [found] at h
    obtain ⟨_, -, h⟩ := bind_eq_ok.mp h
    cases h
    exact .inl ⟨rfl, List.mem_of_find?_eq_some found⟩
  | none =>
    rw [found] at h
    cases h
    exact .inr ⟨rfl, rfl, hkey, rfl⟩

theorem appendResult_extends {payload : Payload} {packetId : ℕ} {row : ContextResult}
    (h : s.appendResult lib payload packetId = .ok (row, t)) : s.Extends t := by
  rcases appendResult_cases h with ⟨rfl, -⟩ | ⟨-, -, -, rfl⟩
  · exact .refl _
  · exact ⟨List.prefix_rfl, List.prefix_rfl, List.prefix_append _ _⟩

theorem recordContextResult_cases {packetId : ℕ} {response : Val} {row : ContextResult}
    (h : s.recordContextResult lib packetId response = .ok (row, t)) :
    ∃ packet request result, s.loadFrozenPacket lib packetId = .ok packet ∧
      prepareRequest lib.toContext packet.payload (currentMethod lib.toContext) = .ok request ∧
      validateResponse lib.toContext packet.payload response = .ok result ∧
      s.appendResult lib ⟨version, packet.digest, request, result⟩ packetId = .ok (row, t) := by
  rw [recordContextResult] at h
  obtain ⟨packet, hpacket, h⟩ := bind_eq_ok.mp h
  obtain ⟨request, hrequest, h⟩ := bind_eq_ok.mp h
  obtain ⟨result, hresult, h⟩ := bind_eq_ok.mp h
  exact ⟨packet, request, result, hpacket, hrequest, hresult, h⟩

/-! ## Loading a packet again -/

theorem getEvidence_extends (later : s.Extends t) {key : String} {row : ExactEvidence}
    (h : s.getEvidence key = .ok row) : t.getEvidence key = .ok row := by
  obtain ⟨rest, same⟩ := later.evidence
  cases found : s.evidence.find? (·.digest = key) with
  | none =>
    rw [getEvidence, found] at h
    cases h
  | some known =>
    rw [getEvidence, found] at h
    rw [getEvidence, ← same, List.find?_append, found]
    exact h

theorem getPacket_extends (later : s.Extends t) {packetId : ℕ} {row : FrozenPacket}
    (h : s.getPacket packetId = .ok row) : t.getPacket packetId = .ok row := by
  obtain ⟨rest, same⟩ := later.packets
  cases found : s.packets[packetId]? with
  | none =>
    rw [getPacket, found] at h
    cases h
  | some known =>
    rw [getPacket, found] at h
    rw [getPacket, ← same, List.getElem?_append_left (List.getElem?_eq_some_iff.mp found).1, found]
    exact h

/-- A packet that loads does so in every later store. -/
theorem loadFrozenPacket_extends (later : s.Extends t) {packetId : ℕ} {row : FrozenPacket}
    (h : s.loadFrozenPacket lib packetId = .ok row) :
    t.loadFrozenPacket lib packetId = .ok row := by
  rw [loadFrozenPacket] at h ⊢
  obtain ⟨packet, hpacket, h⟩ := bind_eq_ok.mp h
  obtain ⟨_, identity, h⟩ := bind_eq_ok.mp h
  obtain ⟨text, replayed, h⟩ := bind_eq_ok.mp h
  obtain ⟨verified, each, h⟩ := bind_eq_ok.mp h
  refine bind_eq_ok.mpr ⟨packet, getPacket_extends later hpacket, ?_⟩
  refine bind_eq_ok.mpr ⟨(), identity, bind_eq_ok.mpr ⟨text, replayed, ?_⟩⟩
  refine bind_eq_ok.mpr ⟨verified, ?_, h⟩
  refine mapE_eq_ok_iff.mpr ((mapE_eq_ok_iff.mp each).imp fun entry _ ok => ?_)
  rw [verifyEntry] at ok ⊢
  obtain ⟨row, hrow, ok⟩ := bind_eq_ok.mp ok
  exact bind_eq_ok.mpr ⟨row, getEvidence_extends later hrow, ok⟩

/-! ## Recorded results -/

/-- A result of the current method over a packet that loads, with the digest of its payload. -/
structure Replayable (lib : StoreLibrary) (s : Store) (row : ContextResult) : Prop where
  digest : digest lib.toContext row.payload.toVal = .ok row.digest
  packet : ∃ packet request, s.loadFrozenPacket lib row.packetId = .ok packet ∧
    row.payload.version = version ∧ row.payload.packetSha256 = packet.digest ∧
    prepareRequest lib.toContext packet.payload row.payload.request.method = .ok request ∧
    row.payload.request.eq request = true ∧
    row.payload.result.Admissible lib.toContext packet.payload row.payload.request.method

theorem Replayable.extends (later : s.Extends t) {row : ContextResult}
    (h : Replayable lib s row) : Replayable lib t row := by
  obtain ⟨packet, request, loaded, rest⟩ := h.packet
  exact ⟨h.digest, packet, request, loadFrozenPacket_extends later loaded, rest⟩

theorem responds_responseOf (r : Result) : Responds (responseOf r) r where
  keys := rfl
  model := rfl
  inputTokens := rfl
  outputTokens := rfl
  output := rfl

theorem Result.eq_self {r : Result} (distinct : r.output.Distinct) : r.eq r = true := by
  simp [Result.eq, Val.eq_of_same r.output r.output rfl distinct]

theorem Replayable.replays {row : ContextResult} (h : Replayable lib s row) :
    ∃ text, s.replayContextResult lib row = .ok text := by
  obtain ⟨packet, request, loaded, version_eq, packet_eq, prepared, same, admissible⟩ := h.packet
  have validated := validateWith_eq_ok.mpr ⟨responds_responseOf row.payload.result, admissible⟩
  obtain ⟨text, htext, -⟩ := map_eq_ok.mp h.digest
  refine ⟨text, ?_⟩
  rw [replayContextResult]
  refine bind_eq_ok.mpr ⟨row.digest, h.digest, bind_eq_ok.mpr ⟨(), require_eq_ok.mpr rfl, ?_⟩⟩
  refine bind_eq_ok.mpr ⟨packet, loaded, ?_⟩
  refine bind_eq_ok.mpr ⟨(), require_eq_ok.mpr ⟨version_eq, packet_eq⟩, ?_⟩
  refine bind_eq_ok.mpr ⟨request, prepared, bind_eq_ok.mpr ⟨(), require_eq_ok.mpr same, ?_⟩⟩
  refine bind_eq_ok.mpr ⟨_, validated, bind_eq_ok.mpr ⟨(), require_eq_ok.mpr ?_, htext⟩⟩
  exact Result.eq_self admissible.distinct

/-- A recorded result is in its table already, or new there and replayable. -/
theorem record_spec {packetId : ℕ} {response : Val} {row : ContextResult}
    (h : s.recordContextResult lib packetId response = .ok (row, t)) : s.Extends t ∧
      (t.results = s.results ∧ row ∈ s.results ∨
        t.results = s.results ++ [row] ∧ Replayable lib t row) := by
  obtain ⟨packet, request, result, loaded, prepared, validated, appended⟩ :=
    recordContextResult_cases h
  have later := appendResult_extends appended
  refine ⟨later, ?_⟩
  rcases appendResult_cases appended with ⟨rfl, known⟩ | ⟨payload_eq, packet_eq, digest_eq, rfl⟩
  · exact .inl ⟨rfl, known⟩
  obtain ⟨-, admissible⟩ := validateWith_eq_ok.mp validated
  obtain ⟨-, method_eq, schema_eq, -⟩ := prepareRequest_spec prepared
  have schema : request.schema.Distinct := schema_eq ▸ distinct_outputSchema
  have same := Payload.same_stored (p := ⟨version, packet.digest, request, result⟩) schema
    admissible.distinct
  refine .inr ⟨rfl, ?_, packet, request, packet_eq ▸ loadFrozenPacket_extends later loaded, ?_⟩
  · rw [payload_eq, digest_same same]
    exact digest_eq
  · rw [payload_eq]
    refine ⟨rfl, rfl, ?_, ?_, ?_⟩
    · show prepareRequest _ _ request.method = _
      rw [method_eq]
      exact prepared
    · have equal := Val.eq_of_same _ _ (Val.same_jsonb schema).symm
        ((Val.same_jsonb schema).distinct schema)
      simp [Payload.stored, Request.eq, equal]
    · show Result.Admissible _ _ request.method _
      rw [method_eq]
      exact admissible.same (Val.same_jsonb admissible.distinct)

/-- A transaction appends; a result it appends is replayable. -/
theorem transaction_cases {e : Event} (h : s.transaction lib e = .ok t) :
    s.Extends t ∧ (t.results = s.results ∨ ∃ row, t.results = s.results ++ [row] ∧
      Replayable lib t row) := by
  cases e with
  | review review =>
    change s.reviewRights lib review = .ok t at h
    rw [reviewRights] at h
    obtain ⟨_, -, h⟩ := bind_eq_ok.mp h
    dsimp only at h
    split at h
    · cases h
      exact ⟨.refl _, .inl rfl⟩
    · obtain ⟨_, -, h⟩ := bind_eq_ok.mp h
      cases h
      exact ⟨⟨List.prefix_rfl, List.prefix_rfl, List.prefix_rfl⟩, .inl rfl⟩
  | evidence row =>
    change s.appendEvidence lib row = .ok t at h
    rw [appendEvidence] at h
    split at h
    · cases h
      exact ⟨.refl _, .inl rfl⟩
    · obtain ⟨_, -, h⟩ := bind_eq_ok.mp h
      cases h
      exact ⟨⟨List.prefix_append _ _, List.prefix_rfl, List.prefix_rfl⟩, .inl rfl⟩
  | packet packet =>
    change s.appendPacket lib packet = .ok t at h
    rw [appendPacket] at h
    obtain ⟨_, -, h⟩ := bind_eq_ok.mp h
    dsimp only at h
    split at h
    · cases h
      exact ⟨.refl _, .inl rfl⟩
    · cases h
      exact ⟨⟨List.prefix_rfl, List.prefix_append _ _, List.prefix_rfl⟩, .inl rfl⟩
  | result packetId response =>
    obtain ⟨⟨row, u⟩, recorded, rfl⟩ := map_eq_ok.mp h
    obtain ⟨later, ⟨same, -⟩ | new⟩ := record_spec recorded
    · exact ⟨later, .inl same⟩
    · exact ⟨later, .inr ⟨row, new⟩⟩

theorem step_cases (lib : StoreLibrary) (s : Store) (e : Event) : s.Extends (s.step lib e) ∧
    ((s.step lib e).results = s.results ∨ ∃ row, (s.step lib e).results = s.results ++ [row] ∧
      Replayable lib (s.step lib e) row) := by
  rw [step]
  cases h : s.transaction lib e with
  | error _ => exact ⟨.refl s, .inl rfl⟩
  | ok t => exact transaction_cases h

/-- Every result of the store is replayable. -/
def Sound (lib : StoreLibrary) (s : Store) : Prop := ∀ row ∈ s.results, Replayable lib s row

theorem Sound.step (sound : Sound lib s) (e : Event) : Sound lib (s.step lib e) := by
  intro row mem
  obtain ⟨later, same | ⟨new, same, replayable⟩⟩ := step_cases lib s e
  · exact (sound row (same ▸ mem)).extends later
  · rw [same] at mem
    rcases List.mem_append.mp mem with old | mem
    · exact (sound row old).extends later
    · exact List.mem_singleton.mp mem ▸ replayable

/-- The stores of runs of calls from an empty store. -/
abbrev Run (lib : StoreLibrary) : Store → Prop :=
  Reached (step lib) (fun _ _ => True) fun s => s = {}

/-- The stores later calls make of one. -/
abbrev After (lib : StoreLibrary) (s : Store) : Store → Prop :=
  Reached (step lib) (fun _ _ => True) fun t => t = s

theorem Run.sound (run : Run lib s) : Sound lib s := by
  refine run.invariant (fun s empty => ?_) fun s e sound _ => sound.step e
  rw [empty]
  intro row mem
  cases mem

theorem After.extends (after : After lib s t) : s.Extends t := by
  refine after.invariant (fun u same => same ▸ .refl s) fun u e later _ => ?_
  exact later.trans (step_cases lib u e).1

end Store

/-- The boundary: what it accepts is grounded in its packet, and what is recorded replays. -/
theorem accepted_context (lib : StoreLibrary) :
    (∀ packet response result,
      validateResponse lib.toContext packet response = .ok result →
        Accepted lib.toContext packet response result) ∧
    ∀ s, Store.Run lib s → ∀ packetId response row s',
      s.recordContextResult lib packetId response = .ok (row, s') →
        ∀ t, Store.After lib s' t → row ∈ t.results ∧
          ∃ text, t.replayContextResult lib row = .ok text := by
  refine ⟨fun _ _ _ => accepted_of_ok, fun s run packetId response row s' recorded t after => ?_⟩
  have later := Store.After.extends after
  obtain ⟨appended, ⟨same, known⟩ | ⟨same, replayable⟩⟩ := Store.record_spec recorded
  · have replayable := (Store.Run.sound run row known).extends appended
    exact ⟨later.results.subset (same ▸ known), (replayable.extends later).replays⟩
  · refine ⟨later.results.subset ?_, (replayable.extends later).replays⟩
    rw [same]
    exact List.mem_append_right _ (List.mem_singleton_self row)

/-! ## A recorded result -/

/-- ASCII characters, and digests told by the length of a text. -/
def sampleStoreLibrary : StoreLibrary where
  toLibrary := sampleLibrary
  sha256 _ := sampleHash 'e'
  canonicalPacket packet := packet.instrument ++ packet.cutoff
  isDigit := Char.isDigit
  isSpace := Char.isWhitespace
  isLetter := Char.isAlpha
  isOther c := c.toNat < 32 || c.toNat = 127
  nfkc text := text
  std := (Research.asciiPlatform {}).toStdlib
  bodySha256 _ := sampleHash 'b'
  tostring _ := []
  canonicalReview review := review.processor

/-- A rate of Canadian inflation. -/
def sampleObservation : Observation where
  pk := 1
  seriesId := 1
  retrievalId := 1
  observationPeriod := ⟨2026, 8, 1⟩
  normalizedValue := "2.1"
  availableAt := 1789120800000000
  availabilityPrecision := .provider

def sampleEvidence : ExactEvidence where
  digest := sampleHash 'd'
  payload :=
    { version := version, kind := .macroObservation, documentId := none, observationId := some 1
      retrievalId := 1, retrievalSha256 := sampleHash 'b', sourceId := 1, sourceItemId := "1"
      canonicalHash := macroDigest sampleStoreLibrary sampleObservation
      canonicalUrl := "https://official.example/1"
      headline := "Canada inflation", suppliedSummary := "", normalizedFact := "2.1"
      publishedAt := some "2026-09-11T10:00:00+00:00"
      firstObservedAt := "2026-09-11T11:00:00+00:00", retrievedAt := "2026-09-11T11:00:00+00:00"
      language := "en", contentType := "application/json", storageReviewSha256 := sampleHash 'a'
      quality := ⟨.hashChecked, .providerExact, .primary, .direct, .singleSource⟩ }
  retrieval := ⟨1, "https://official.example/1", 1789124400000000, "application/json",
    sampleHash 'b', []⟩
  document := none
  observation := some sampleObservation
  admittedMacroLabel := some "Canada inflation"

/-- The one observation as a candidate, its headline permitted. -/
def sampleEntry : Entry where
  candidate :=
    { sampleCandidate with
      representation := sampleEvidence.payload
      role := .contextual
      rights := sampleCandidate.rights.map fun review =>
        { review with attribution := "Bank of Canada" } }
  conflictAtCutoff := .none
  relevance := ⟨60, ["quote_currency_country_region:CAD", "declared_release", "direct_source",
    "within_one_day"]⟩
  rightsByField :=
    have allowed : Uses := ⟨.allowed, .allowed⟩
    ⟨allowed, allowed, allowed, allowed, allowed⟩
  permittedFields := [.headline, .suppliedSummary, .normalizedFact, .derivedLabel, .urlAttribution]
  exclusions := []
  rank := none

/-- The packet of the one observation. -/
def samplePacket : Packet := assemble "USD_CAD" "2026-09-11T12:00:00+00:00" [] [sampleEntry]

/-- A response that quotes the headline. -/
def sampleResponse : Val := .dict
  [("returned_model", .str "claude-sonnet-5"), ("input_tokens", .int 1200),
    ("output_tokens", .int 300),
    ("output", .dict (sections.map fun s => (s.code, .list
      (if s = .executiveSummary then
        [.dict [("statement", .str "Canada inflation"), ("relationship", .str "uncertain"),
          ("kind", .str "fact"), ("citations", .list [.dict
            [("evidence_id", .str (sampleHash 'd')), ("field", .str "headline"),
              ("quote", .str "Canada inflation"), ("directness", .str "direct"),
              ("conflict_state", .str "none")]])]]
      else []))))]

/-- The store of the observation and its packet. -/
def sampleStore : Store :=
  (({} : Store).step sampleStoreLibrary (.evidence sampleEvidence)).step sampleStoreLibrary
    (.packet samplePacket)

/-- What leaves of the packet. -/
def sampleProjection : Projection where
  methodSha256 := sampleHash 'e'
  packetSha256 := sampleHash 'e'
  evidence := [⟨sampleHash 'd', [(.headline, "Canada inflation")], "Bank of Canada", .direct, .none⟩]
  templates := templates

def sampleRequest : Request where
  method := currentMethod sampleStoreLibrary.toContext
  input := sampleProjection
  prompt := prompt
  schema := outputSchema
  requestSha256 := sampleHash 'e'

/-- What `validateWith` makes of the response behind its request. -/
def answered (request : Request) : Except Exc Result := do
  let method := currentMethod sampleStoreLibrary.toContext
  closed sampleResponse ["returned_model", "input_tokens", "output_tokens", "output"]
  require ((← sampleResponse.getItem "returned_model").isStr method.requestedModel) "wrong_model"
  let inputTokens ← readTokens sampleResponse "input_tokens" method.maxInputTokens
  let outputTokens ← readTokens sampleResponse "output_tokens" method.maxOutputTokens
  let cost := costOf method inputTokens outputTokens
  require (cost ≤ decimal method.maxCostUsd) "cost_cap"
  let output ← sampleResponse.getItem "output"
  let _ ← readOutput sampleStoreLibrary.toContext 3 method.maxOutputTokens request.input.evidence
    output
  return ⟨request.method, request.requestSha256, method.requestedModel, inputTokens, outputTokens,
    costText cost, output⟩

theorem utf8ByteSize_le {text : String} {chars : List Char} {n : ℕ} (same : text = String.ofList chars)
    (short : String.utf8Len chars ≤ n) : text.utf8ByteSize ≤ n := by
  rw [same, String.utf8ByteSize_ofList]
  exact short

theorem prompt_size : prompt.utf8ByteSize ≤ 400 :=
  utf8ByteSize_le (by rfl : prompt = String.ofList _) (by decide +kernel)

-- the calls of the record one by one: evaluated whole, each keeps the texts of the others
theorem recorded_calls :
    mapE (itemOf sampleStoreLibrary.toContext 3) (included samplePacket.entries) =
        .ok sampleProjection.evidence ∧
      Val.utf8Length sampleProjection.toVal.sorted.render ≤ 1800 ∧
      Val.utf8Length outputSchema.sorted.render ≤ 1800 ∧
      methodVersion sampleStoreLibrary.toContext (currentMethod sampleStoreLibrary.toContext) =
        .ok 3 ∧
      (answered sampleRequest).isOk = true ∧
      (replay sampleStoreLibrary.toLibrary sampleStoreLibrary.canonicalPacket
        samplePacket).isOk = true ∧
      (verifyRepresentation sampleStoreLibrary sampleEvidence).isOk = true := by
  refine ⟨?_, ?_, ?_, ?_, ?_, ?_, ?_⟩ <;> decide +kernel

theorem exists_of_isOk {α : Type} {x : Except Exc α} (h : x.isOk = true) : ∃ a, x = .ok a := by
  cases x with
  | error e => cases h
  | ok a => exact ⟨a, rfl⟩

/-- The packet and its one candidate. -/
theorem samplePacket_ready : samplePacket.readiness = .ready ∧
    ∃ entry, samplePacket.entries = [entry] ∧ entry.candidate = sampleEntry.candidate :=
  ⟨by decide +kernel, _, rfl, rfl⟩

theorem prepareRequest_recorded :
    prepareRequest sampleStoreLibrary.toContext samplePacket
      (currentMethod sampleStoreLibrary.toContext) = .ok sampleRequest := by
  obtain ⟨items, projection, schema, known, -, replays, -⟩ := recorded_calls
  obtain ⟨again, replayed⟩ := exists_of_isOk replays
  have projected : externalProjection sampleStoreLibrary.toContext samplePacket
      (currentMethod sampleStoreLibrary.toContext) = .ok sampleProjection :=
    bind_eq_ok.mpr ⟨3, known, bind_eq_ok.mpr ⟨again, replayed, bind_eq_ok.mpr
      ⟨(), require_eq_ok.mpr samplePacket_ready.1, bind_eq_ok.mpr ⟨_, items, bind_eq_ok.mpr
        ⟨(), require_eq_ok.mpr (List.cons_ne_nil _ _), rfl⟩⟩⟩⟩⟩
  have short : Val.utf8Length sampleProjection.toVal.sorted.render + prompt.utf8ByteSize +
      Val.utf8Length outputSchema.sorted.render ≤ 4000 :=
    Nat.add_le_add (Nat.add_le_add projection prompt_size) schema
  exact bind_eq_ok.mpr ⟨_, projected, bind_eq_ok.mpr ⟨(), require_eq_ok.mpr short, rfl⟩⟩

theorem sampleEvidence_found (packets : List FrozenPacket) :
    Store.getEvidence { evidence := [sampleEvidence], packets := packets } sampleEntry.candidate.id =
      .ok sampleEvidence := by
  have same : sampleEvidence.digest = sampleEntry.candidate.id := rfl
  have found : [sampleEvidence].find? (fun row => row.digest = sampleEntry.candidate.id) =
      some sampleEvidence := List.find?_cons_of_pos (decide_eq_true same)
  unfold Store.getEvidence
  rw [found]

theorem step_of_ok {lib : StoreLibrary} {s s' : Store} {e : Store.Event}
    (h : s.transaction lib e = .ok s') : s.step lib e = s' := by
  unfold Store.step
  rw [h]

theorem appendEvidence_first {lib : StoreLibrary} {row : ExactEvidence}
    (verified : verifyRepresentation lib row = .ok ()) :
    Store.appendEvidence lib {} row = .ok { evidence := [row] } := by
  unfold Store.appendEvidence
  rw [if_neg (by simp), verified]
  rfl

theorem appendPacket_first {lib : StoreLibrary} {rows : List ExactEvidence} {packet : Packet}
    {text : String}
    (replayed : replay lib.toContext.toLibrary lib.canonicalPacket packet = .ok text) :
    Store.appendPacket lib { evidence := rows } packet =
      .ok { evidence := rows, packets := [⟨digestPacket lib.toContext packet, packet⟩] } := by
  unfold Store.appendPacket
  rw [replayed]
  rfl

/-- The store holds the observation and its packet. -/
theorem sampleStore_eq : sampleStore =
    { evidence := [sampleEvidence], packets := [⟨sampleHash 'e', samplePacket⟩] } := by
  obtain ⟨-, -, -, -, -, replays, verifies⟩ := recorded_calls
  obtain ⟨⟨⟩, verified⟩ := exists_of_isOk verifies
  obtain ⟨again, replayed⟩ := exists_of_isOk replays
  have first : ({} : Store).step sampleStoreLibrary (.evidence sampleEvidence) =
      { evidence := [sampleEvidence] } := step_of_ok (appendEvidence_first verified)
  unfold sampleStore
  rw [first]
  exact step_of_ok (appendPacket_first replayed)

theorem loadFrozenPacket_recorded :
    sampleStore.loadFrozenPacket sampleStoreLibrary 0 = .ok ⟨sampleHash 'e', samplePacket⟩ := by
  obtain ⟨-, -, -, -, -, replays, verifies⟩ := recorded_calls
  obtain ⟨⟨⟩, verified⟩ := exists_of_isOk verifies
  obtain ⟨again, replayed⟩ := exists_of_isOk replays
  obtain ⟨-, entry, entries, candidate⟩ := samplePacket_ready
  have entered : sampleStore.verifyEntry sampleStoreLibrary entry = .ok () := by
    rw [sampleStore_eq]
    unfold Store.verifyEntry
    rw [candidate]
    exact bind_eq_ok.mpr ⟨sampleEvidence, sampleEvidence_found _, bind_eq_ok.mpr
      ⟨(), require_eq_ok.mpr rfl, verified⟩⟩
  have all : mapE (sampleStore.verifyEntry sampleStoreLibrary) samplePacket.entries = .ok [()] := by
    rw [entries]
    exact bind_eq_ok.mpr ⟨(), entered, rfl⟩
  refine bind_eq_ok.mpr ⟨⟨sampleHash 'e', samplePacket⟩, ?_, bind_eq_ok.mpr
    ⟨(), require_eq_ok.mpr rfl, bind_eq_ok.mpr ⟨again, replayed, bind_eq_ok.mpr ⟨_, all, rfl⟩⟩⟩⟩
  rw [sampleStore_eq]
  rfl

/-- A payload is dumpable when its request, its method and its output are. -/
theorem Payload.dumpable {p : Payload} (request : p.request.toVal.dumpable = .ok ())
    (method : p.result.method.toVal.dumpable = .ok ())
    (output : p.result.output.dumpable = .ok ()) : p.toVal.dumpable = .ok () := by
  have result : p.result.toVal.dumpable = .ok () := by
    refine Val.dumpableEntries_eq_ok.mpr ?_
    simp only [List.forall_mem_cons]
    exact ⟨method, rfl, rfl, rfl, rfl, rfl, output, nofun⟩
  refine Val.dumpableEntries_eq_ok.mpr ?_
  simp only [List.forall_mem_cons]
  exact ⟨rfl, rfl, request, result, nofun⟩

theorem answered_spec {request : Request} {result : Result} (answer : answered request = .ok result) :
    result.method = request.method ∧ result.output.dumpable = .ok () := by
  obtain ⟨_, -, rest⟩ := bind_eq_ok.mp answer
  obtain ⟨_, -, rest⟩ := bind_eq_ok.mp rest
  obtain ⟨_, -, rest⟩ := bind_eq_ok.mp rest
  obtain ⟨_, -, rest⟩ := bind_eq_ok.mp rest
  obtain ⟨_, -, rest⟩ := bind_eq_ok.mp rest
  obtain ⟨_, -, rest⟩ := bind_eq_ok.mp rest
  obtain ⟨output, -, rest⟩ := bind_eq_ok.mp rest
  obtain ⟨out, read, made⟩ := bind_eq_ok.mp rest
  obtain ⟨_, -, read⟩ := bind_eq_ok.mp read
  obtain ⟨text, written, -⟩ := bind_eq_ok.mp read
  obtain rfl := Except.ok.inj made
  exact ⟨rfl, Val.canonical_isOk.mp ⟨text, written⟩⟩

/-- What is recorded of the response has a digest. -/
theorem digest_recorded {result : Result} (answer : answered sampleRequest = .ok result) :
    ∃ d, digest sampleStoreLibrary.toContext
      (Payload.mk version (sampleHash 'e') sampleRequest result).toVal = .ok d := by
  obtain ⟨same, written⟩ := answered_spec answer
  have request : sampleRequest.toVal.dumpable = .ok () := by decide +kernel
  have method : sampleRequest.method.toVal.dumpable = .ok () := by decide +kernel
  obtain ⟨text, canonical⟩ := Val.canonical_isOk.mpr
    (Payload.dumpable (p := ⟨version, sampleHash 'e', sampleRequest, result⟩) request
      (same ▸ method) written)
  exact ⟨_, map_eq_ok.mpr ⟨text, canonical, rfl⟩⟩

theorem recordContextResult_recorded : ∃ row s',
    sampleStore.recordContextResult sampleStoreLibrary 0 sampleResponse = .ok (row, s') := by
  obtain ⟨-, -, -, known, answers, -, -⟩ := recorded_calls
  obtain ⟨result, answer⟩ := exists_of_isOk answers
  let payload : Payload := ⟨version, sampleHash 'e', sampleRequest, result⟩
  obtain ⟨digest, digested⟩ := digest_recorded answer
  have validated : validateResponse sampleStoreLibrary.toContext samplePacket sampleResponse =
      .ok result :=
    bind_eq_ok.mpr ⟨3, known, bind_eq_ok.mpr ⟨_, prepareRequest_recorded, answer⟩⟩
  refine ⟨⟨digest, payload.stored, 0⟩,
    { sampleStore with results := [⟨digest, payload.stored, 0⟩] }, ?_⟩
  refine bind_eq_ok.mpr ⟨_, loadFrozenPacket_recorded, ?_⟩
  refine bind_eq_ok.mpr ⟨_, prepareRequest_recorded, bind_eq_ok.mpr ⟨_, validated, ?_⟩⟩
  refine bind_eq_ok.mpr ⟨digest, digested, ?_⟩
  rw [sampleStore_eq]
  rfl

theorem accepted_context_recorded : ∃ row s',
    sampleStore.recordContextResult sampleStoreLibrary 0 sampleResponse = .ok (row, s') ∧
      row ∈ (s'.step sampleStoreLibrary (.packet samplePacket)).results ∧
      ∃ text, (s'.step sampleStoreLibrary (.packet samplePacket)).replayContextResult
        sampleStoreLibrary row = .ok text := by
  obtain ⟨row, s', recorded⟩ := recordContextResult_recorded
  have run : Store.Run sampleStoreLibrary sampleStore :=
    ((Reached.start rfl : Store.Run sampleStoreLibrary {}).step trivial).step trivial
  have after : Store.After sampleStoreLibrary s'
      (s'.step sampleStoreLibrary (.packet samplePacket)) :=
    (Reached.start rfl : Store.After sampleStoreLibrary s' s').step trivial
  exact ⟨row, s', recorded, (accepted_context sampleStoreLibrary).2 sampleStore run 0 sampleResponse
    row s' recorded _ after⟩

end TradeRecommender.Evidence.Context
