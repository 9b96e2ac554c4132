import Mathlib.Data.Prod.Lex
import TradeRecommender.Lib.IsoFormat
import TradeRecommender.Lib.Sorted

/-!
# Evidence quality

`research/evidence_quality.py`: the rights reviews, representations and conflict events a packet
freezes, their validation, the relevance of a headline to a pair, and the packet itself.

1. the frozen records;
2. validation and permission;
3. conflicts and relevance;
4. the entry of a candidate;
5. the packet and its replay.

A record is closed by its type: the keys of its mapping are the fields, and a value out of a fixed
vocabulary is an enumeration.  Texts are texts of Unicode characters, as a stored JSON document
holds them.  SHA-256 of the canonical JSON, the canonical JSON of a packet and the character tables
of `re` and `str` are parameters.
-/

namespace TradeRecommender.Evidence

open Py Civil

def version : String := "evidence-quality-v1"

/-! ## The frozen records -/

/-- `FIELDS` -/
inductive Field
  | rawBody | headline | suppliedSummary | normalizedFact | derivedLabel | urlAttribution
  deriving DecidableEq, Repr

/-- `USES` -/
inductive Use
  | privateStorage | privateDisplay | deterministicProcessing | externalLlm | internalReport
  | notification | redistribution
  deriving DecidableEq, Repr

/-- `STATES` -/
inductive Permission
  | allowed | prohibited | unknown | reviewRequired | expired | superseded
  deriving DecidableEq, Repr

/-- `CLASSES` -/
inductive ChangeClass
  | exactDuplicate | immaterialRepeat | titleEdit | publicationTimeEdit | summaryEdit
  | providerCorrection | materialDisagreement | retraction | unclassifiedChange
  deriving DecidableEq, Repr

/-- `MATERIAL` -/
def material : List ChangeClass := [.providerCorrection, .materialDisagreement, .retraction]

structure Review where
  version : String
  sourceId : ℤ
  processor : String
  termsUrl : String
  termsSha256 : String
  reviewer : String
  reviewedAt : String
  expiresAt : String
  jurisdiction : String
  attribution : String
  retention : String
  deletion : String
  rationale : String
  decisions : Field → Use → Permission
  supersedes : Option String

inductive Kind
  | news | macroObservation
  deriving DecidableEq, Repr

inductive Integrity
  | hashChecked | unknown | rejected
  deriving DecidableEq, Repr

inductive TimestampPrecision
  | providerExact | dateOnly | retrievalOnly | unknown
  deriving DecidableEq, Repr

inductive SourceTier
  | primary | secondary | unknown
  deriving DecidableEq, Repr

inductive Directness
  | direct | reported | unknown
  deriving DecidableEq, Repr

inductive Corroboration
  | independent | singleSource | unknown
  deriving DecidableEq, Repr

structure Quality where
  retrievalIntegrity : Integrity
  timestampPrecision : TimestampPrecision
  sourceTier : SourceTier
  directness : Directness
  corroboration : Corroboration
  deriving DecidableEq, Repr

structure Representation where
  version : String
  kind : Kind
  documentId : Option ℤ
  observationId : Option ℤ
  retrievalId : ℤ
  retrievalSha256 : String
  sourceId : ℤ
  sourceItemId : String
  canonicalHash : String
  canonicalUrl : String
  headline : String
  suppliedSummary : String
  normalizedFact : String
  publishedAt : Option String
  firstObservedAt : String
  retrievedAt : String
  language : String
  contentType : String
  storageReviewSha256 : String
  quality : Quality
  deriving DecidableEq, Repr

structure ConflictEvent where
  digest : String
  knownAt : String
  cls : ChangeClass
  changedFields : List String
  deriving DecidableEq, Repr

inductive Role
  | required | contextual | optional
  deriving DecidableEq, Repr

structure Candidate where
  id : String
  representation : Representation
  knownAt : String
  rights : Option Review
  rightsKnownAt : Option String
  conflicts : List ConflictEvent
  role : Role

/-! ## Validation and permission -/

/-- `EvidenceError` -/
def evidenceError : ExcClass := .other "EvidenceError"

/-- `require` -/
def require (condition : Prop) [Decidable condition] (code : String := "invalid_evidence") :
    Except Exc Unit :=
  if condition then .ok () else raise evidenceError code

/-- `instant`: every failure is the same error. -/
def instant (value : String) : Except Exc Instant :=
  match fromisoformat value with
  | .ok ⟨wall, some 0⟩ => .ok wall
  | _ => raise evidenceError "invalid_time"

/-- `re.fullmatch("[a-f0-9]{64}", text)` -/
def isHash (text : String) : Bool :=
  text.length = 64 && text.toList.all fun c => c.isDigit || ('a' ≤ c && c ≤ 'f')

/-- `validate_review` -/
def validateReview (review : Review) : Except Exc Unit := do
  require (review.version = version) "unknown_version"
  require (0 < review.sourceId)
  require (∀ text ∈ [review.processor, review.termsUrl, review.reviewer, review.jurisdiction,
    review.attribution, review.retention, review.deletion, review.rationale],
      0 < text.length ∧ text.length ≤ 2000)
  require (review.termsUrl.startsWith "https://")
  require (isHash review.termsSha256)
  require (review.supersedes.all isHash)
  let expires ← instant review.expiresAt
  let reviewed ← instant review.reviewedAt
  require (reviewed < expires)

/-- `permission` -/
def permission (review : Option Review) (sourceId : ℤ) (field : Field) (use : Use)
    (processor : String) (cutoff : Instant) : Except Exc Permission :=
  match review with
  | none => .ok .unknown
  | some review => do
    validateReview review
    if review.sourceId ≠ sourceId ∨ review.processor ≠ processor then return .unknown
    else
      let reviewed ← instant review.reviewedAt
      if cutoff < reviewed then return .unknown
      else
        let expires ← instant review.expiresAt
        if expires ≤ cutoff then return .expired else return review.decisions field use

/-- A time that may be missing. -/
def instant? : Option String → Except Exc (Option Instant)
  | none => .ok none
  | some text => (instant text).map some

/-- `validate_representation` -/
def validateRepresentation (rep : Representation) : Except Exc Unit := do
  require (rep.version = version) "unknown_version"
  require (rep.documentId.isSome ↔ rep.kind = .news)
  require (rep.observationId.isSome ↔ rep.kind = .macroObservation)
  require (0 < rep.retrievalId ∧ 0 < rep.sourceId)
  require (isHash rep.retrievalSha256 ∧ isHash rep.canonicalHash ∧
    isHash rep.storageReviewSha256)
  require (∀ text ∈ [rep.sourceItemId, rep.canonicalUrl, rep.headline, rep.suppliedSummary,
    rep.normalizedFact, rep.language, rep.contentType], text.length ≤ 12000)
  require (rep.sourceItemId ≠ "" ∧ rep.language ≠ "" ∧ rep.contentType ≠ "")
  let _ ← instant? rep.publishedAt
  let first ← instant rep.firstObservedAt
  let retrieved ← instant rep.retrievedAt
  require (first ≤ retrieved)

/-! ## Conflicts and relevance -/

inductive ConflictState
  | none | nonmaterial | postCutoff | unknown | material
  deriving DecidableEq, Repr

/-- The events known by the cutoff. -/
def knownEvents (cutoff : Instant) (events : List ConflictEvent) :
    Except Exc (List ConflictEvent) :=
  filterMapE (fun event => do
    let known ← instant event.knownAt
    return if known ≤ cutoff then some event else none) events

/-- `conflict_state` -/
def conflictState (events : List ConflictEvent) (cutoff : Instant) : Except Exc ConflictState := do
  require (events.map (·.digest)).Nodup "duplicate_conflict"
  let known ← knownEvents cutoff events
  if known.any (·.cls ∈ material) then return .material
  else if known.any (·.cls ∉ [ChangeClass.exactDuplicate, .immaterialRepeat]) then return .unknown
  else if known ≠ [] then return .nonmaterial
  else return if events ≠ [] then .postCutoff else .none

/-- The digests and the character tables. -/
structure Library where
  /-- SHA-256 of the canonical JSON -/
  digest : Representation → String
  /-- `\w` -/
  isWord : Char → Bool
  /-- equality of characters under `re.I` -/
  same : Char → Char → Bool
  lower : String → String

section
variable (lib : Library)

/-- What follows `word` at the front of a text, ignoring case. -/
def afterWord : List Char → List Char → Option (List Char)
  | [], rest => some rest
  | _ :: _, [] => none
  | c :: word, d :: rest => if lib.same c d then afterWord word rest else none

/-- `re.search(r"(?<!\w)" + word + r"(?!\w)", text, re.I)`, after the character `before`. -/
def occurs (word : List Char) (before : Option Char) (text : List Char) : Bool :=
  let here := !before.any lib.isWord &&
    (afterWord lib word text).any fun rest => !rest.head?.any lib.isWord
  here || match text with
    | [] => false
    | c :: text => occurs word (some c) text

/-- `words` -/
def words (text : String) (values : List String) : Bool :=
  values.any fun value => occurs lib value.toList none text.toList

end

/-- `CURRENCIES` -/
def currencies : List (String × List String) :=
  [("EUR", ["euro", "eurozone", "european", "ecb", "european central bank"]),
    ("USD", ["dollar", "united states", "federal reserve", "fed", "us"]),
    ("CAD", ["canada", "canadian", "bank of canada", "boc"]),
    ("GBP", ["britain", "british", "united kingdom", "bank of england", "boe"]),
    ("JPY", ["japan", "japanese", "bank of japan", "boj"]),
    ("CHF", ["swiss", "switzerland", "snb"]),
    ("AUD", ["australia", "australian", "rba"]),
    ("NZD", ["new zealand", "rbnz"])]

def macroWords : List String :=
  ["inflation", "interest rate", "central bank", "liquidity", "monetary", "employment", "gdp",
    "recession", "treasury", "yield"]

def cryptoWords : List String :=
  ["bitcoin", "crypto", "cryptocurrency", "ethereum", "ether", "blockchain", "token", "stablecoin"]

def banks : List String :=
  ["ecb", "federal reserve", "bank of canada", "boc", "bank of england", "boe", "bank of japan",
    "snb", "rba", "rbnz"]

def releases : List String := ["inflation", "employment", "gdp", "interest rate"]

def systemicWords : List String :=
  ["global financial crisis", "global liquidity", "systemic banking crisis"]

structure Relevance where
  score : ℤ
  reasons : List String
  deriving DecidableEq, Repr

/-- `instrument.split("_")` -/
def instrumentParts (instrument : String) : List String :=
  (instrument.toList.splitOn '_').map String.ofList

/-- The names of the base and the quote currency. -/
def pairNames (instrument : String) :
    Except Exc ((String × List String) × (String × List String)) :=
  match instrumentParts instrument with
  | [base, quote] =>
    match currencies.lookup base, currencies.lookup quote with
    | some baseNames, some quoteNames => .ok ((base, baseNames), (quote, quoteNames))
    | _, _ => raise evidenceError "unsupported_instrument"
  | _ => raise evidenceError "unsupported_instrument"

/-- `needle in text` -/
def contains (needle text : String) : Bool := 
  text.toList.tails.any fun rest => needle.toList.isPrefixOf rest

/-- `total_seconds() < 86400`, in microseconds -/
def withinOneDay (cutoff published : Instant) : Bool :=
  0 ≤ cutoff - published && cutoff - published < day

/-- Add a score and its reason. -/
def Relevance.add (r : Relevance) (condition : Bool) (points : ℤ) (reason : String) : Relevance :=
  if condition then ⟨r.score + points, r.reasons ++ [reason]⟩ else r

/-- `relevance` -/
def relevance (lib : Library) (rep : Representation) (instrument : String) (cutoff : Instant)
    (conflict : ConflictState) : Except Exc Relevance := do
  let (base, quote) ← pairNames instrument
  let text := rep.headline
  let r : Relevance := ⟨0, []⟩
  let r := r.add (words lib text (base.1 :: base.2)) 40
    ("base_currency_country_region:" ++ base.1)
  let r := r.add (words lib text (quote.1 :: quote.2)) 40
    ("quote_currency_country_region:" ++ quote.1)
  let linked := r.reasons ≠ []
  let macroLink := words lib text macroWords
  let crypto := words lib text cryptoWords || contains "coindesk" (lib.lower rep.canonicalUrl)
  let systemic := words lib text systemicWords
  let published ← instant? rep.publishedAt
  if crypto ∧ ¬ (linked ∧ macroLink) then
    return ⟨0, ["crypto_without_explicit_fx_macro_link"]⟩
  else if ¬ linked ∧ ¬ systemic then return ⟨0, ["no_pair_or_systemic_link"]⟩
  else
    let r := r.add (linked && words lib text banks) 20 "central_bank"
    let r := r.add (linked && words lib text releases) 10 "declared_release"
    let r := r.add crypto 0 "explicit_cross_market_link"
    let r := r.add systemic 30 "systemic_global"
    let r := r.add (rep.quality.directness = .direct) 5 "direct_source"
    let r := r.add (published.any (withinOneDay cutoff)) 5 "within_one_day"
    let r := r.add (conflict ∈ [.material, .unknown]) (-15) "unresolved_conflict_penalty"
    return ⟨max r.score 1, r.reasons⟩

/-! ## The entry of a candidate -/

inductive Exclusion
  | future | missingPublicationTime | stale | retrievalUnavailable | irrelevant | rightsBlocked
  | attributionRightsBlocked | derivedLabelRightsBlocked | requiredFieldRightsBlocked
  | requiredUnresolved | duplicateDocument | cap
  deriving DecidableEq, Repr

/-- The decisions on the two uses of a field. -/
structure Uses where
  deterministicProcessing : Permission
  externalLlm : Permission
  deriving DecidableEq, Repr

/-- `all(state == "allowed" for state in uses.values())` -/
def Uses.allowed (uses : Uses) : Bool :=
  uses.deterministicProcessing = .allowed && uses.externalLlm = .allowed

/-- The decisions on the fields a packet can carry. -/
structure Decisions where
  headline : Uses
  suppliedSummary : Uses
  normalizedFact : Uses
  derivedLabel : Uses
  urlAttribution : Uses
  deriving DecidableEq, Repr

/-- The fields and their decisions, in order. -/
def Decisions.items (d : Decisions) : List (Field × Uses) :=
  [(.headline, d.headline), (.suppliedSummary, d.suppliedSummary),
    (.normalizedFact, d.normalizedFact), (.derivedLabel, d.derivedLabel),
    (.urlAttribution, d.urlAttribution)]

structure Entry where
  candidate : Candidate
  conflictAtCutoff : ConflictState
  relevance : Relevance
  rightsByField : Decisions
  permittedFields : List Field
  exclusions : List Exclusion
  rank : Option ℕ

/-- The decisions on the two uses. -/
def usesOf (rights : Option Review) (rep : Representation) (now : Instant) (field : Field) :
    Except Exc Uses := do
  let deterministic ← permission rights rep.sourceId field .deterministicProcessing "anthropic" now
  let external ← permission rights rep.sourceId field .externalLlm "anthropic" now
  return ⟨deterministic, external⟩

def decisionsOf (rights : Option Review) (rep : Representation) (now : Instant) :
    Except Exc Decisions := do
  let headline ← usesOf rights rep now .headline
  let suppliedSummary ← usesOf rights rep now .suppliedSummary
  let normalizedFact ← usesOf rights rep now .normalizedFact
  let derivedLabel ← usesOf rights rep now .derivedLabel
  let urlAttribution ← usesOf rights rep now .urlAttribution
  return ⟨headline, suppliedSummary, normalizedFact, derivedLabel, urlAttribution⟩

/-- The rights that were known by the cutoff. -/
def rightsAvailable (candidate : Candidate) (now : Instant) : Except Exc (Option Review) :=
  match candidate.rights with
  | none => .ok none
  | some review =>
    match candidate.rightsKnownAt with
    | none => raise evidenceError "invalid_time"
    | some text => do
      let known ← instant text
      return if known ≤ now then some review else none

/-- The rank of a candidate whose headline and label may be processed. -/
def rankOf (lib : Library) (rep : Representation) (instrument : String) (now : Instant)
    (conflict : ConflictState) (decisions : Decisions) : Except Exc Relevance :=
  if decisions.headline.deterministicProcessing = .allowed ∧
      decisions.derivedLabel.deterministicProcessing = .allowed then
    relevance lib rep instrument now conflict
  else .ok ⟨0, ["deterministic_rights_unavailable"]⟩

/-- `if condition: reasons.append(reason)` -/
def when (condition : Prop) [Decidable condition] (reason : Exclusion) : List Exclusion :=
  if condition then [reason] else []

/-- Whether the headline and the label may be processed at all. -/
def Decisions.rankable (d : Decisions) : Bool :=
  d.headline.deterministicProcessing = .allowed && d.derivedLabel.deterministicProcessing = .allowed

/-- What the times of a candidate exclude it for. -/
def timeExclusions (known retrieved now : Instant) (published : Option Instant) :
    List Exclusion :=
  when (now < known ∨ now < retrieved ∨ published.any (now < ·)) .future ++
    match published with
    | none => [.missingPublicationTime]
    | some published => when (3 * day < now - published) .stale

/-- What a required candidate is excluded for besides. -/
def requiredExclusions (candidate : Candidate) (conflict : ConflictState) (d : Decisions) :
    List Exclusion :=
  let rep := candidate.representation
  when (candidate.role = .required ∧
      (rep.headline ≠ "" ∧ d.headline.allowed = false ∨
        rep.suppliedSummary ≠ "" ∧ d.suppliedSummary.allowed = false ∨
        rep.normalizedFact ≠ "" ∧ d.normalizedFact.allowed = false)) .requiredFieldRightsBlocked ++
    when (candidate.role = .required ∧ (conflict ∈ [ConflictState.material, .unknown] ∨
      rep.quality.timestampPrecision ≠ .providerExact)) .requiredUnresolved

/-- The body of the loop over the candidates. -/
def entryOf (lib : Library) (instrument : String) (now : Instant) (required : List String)
    (candidate : Candidate) : Except Exc Entry := do
  let rep := candidate.representation
  validateRepresentation rep
  require (candidate.id = lib.digest rep) "representation_digest"
  require (candidate.role = .required ↔ candidate.id ∈ required) "required_role"
  let conflict ← conflictState candidate.conflicts now
  let candidate := { candidate with conflicts := sortedBy (·.digest) candidate.conflicts }
  let published ← instant? rep.publishedAt
  let known ← instant candidate.knownAt
  let retrieved ← instant rep.retrievedAt
  let rights ← rightsAvailable candidate now
  let decisions ← decisionsOf rights rep now
  let rank ← rankOf lib rep instrument now conflict decisions
  let exclusions := timeExclusions known retrieved now published ++
    when (rep.quality.retrievalIntegrity ≠ .hashChecked) .retrievalUnavailable ++
    when (decisions.rankable ∧ rank.score = 0) .irrelevant ++
    when (decisions.headline.allowed = false) .rightsBlocked ++
    when (decisions.urlAttribution.allowed = false) .attributionRightsBlocked ++
    when (decisions.derivedLabel.allowed = false) .derivedLabelRightsBlocked ++
    requiredExclusions candidate conflict decisions
  return ⟨candidate, conflict, rank, decisions,
    (decisions.items.filter (·.2.allowed)).map (·.1), exclusions, none⟩

/-! ## The packet -/

/-- The order of the entries. -/
def Entry.key (e : Entry) : Lex (ℤ × Lex (String × String)) :=
  toLex (-e.relevance.score, toLex (e.candidate.representation.canonicalHash, e.candidate.id))

/-- The document an entry is of. -/
def Entry.document (e : Entry) : String := e.candidate.representation.canonicalHash

def capacity : ℕ := 20

/-- The loop over the ranked entries; `seen` and `admitted` are its state. -/
def admitEntries : ℕ → List String → ℕ → List Entry → List Entry × ℕ
  | _, _, admitted, [] => ([], admitted)
  | index, seen, admitted, e :: rest =>
    let ranked := { e with rank := some index }
    if e.exclusions ≠ [] then
      let (entries, total) := admitEntries (index + 1) seen admitted rest
      (ranked :: entries, total)
    else if e.document ∈ seen then
      let (entries, total) := admitEntries (index + 1) seen admitted rest
      ({ ranked with exclusions := [.duplicateDocument] } :: entries, total)
    else if admitted = capacity then
      let (entries, total) := admitEntries (index + 1) (e.document :: seen) admitted rest
      ({ ranked with exclusions := [.cap] } :: entries, total)
    else
      let (entries, total) := admitEntries (index + 1) (e.document :: seen) (admitted + 1) rest
      (ranked :: entries, total)

/-- `counts[reason] = counts.get(reason, 0) + 1` -/
def count (counts : List (Exclusion × ℕ)) (reason : Exclusion) : List (Exclusion × ℕ) :=
  match counts with
  | [] => [(reason, 1)]
  | (r, n) :: rest => if r = reason then (r, n + 1) :: rest else (r, n) :: count rest reason

inductive Readiness
  | abstain | ready
  deriving DecidableEq, Repr

structure Packet where
  schema : String
  policies : List (String × String)
  instrument : String
  cutoff : String
  requiredIds : List String
  entries : List Entry
  candidateCount : ℕ
  includedCount : ℕ
  excludedCounts : List (Exclusion × ℕ)
  unavailableRequired : List String
  readiness : Readiness

/-- The entries without an exclusion. -/
def included (entries : List Entry) : List Entry := entries.filter (·.exclusions = [])

/-- The packet of the validated entries. -/
def assemble (instrument cutoff : String) (required : List String) (validated : List Entry) :
    Packet :=
  let (entries, admitted) := admitEntries 1 [] 0 (sortedBy Entry.key validated)
  let available := (included entries).map (·.candidate.id)
  let missing := sortedOnce (required.filter (· ∉ available))
  { schema := version
    policies := ["rights", "relevance", "conflict", "packet"].map (·, version)
    instrument := instrument
    cutoff := cutoff
    requiredIds := required
    entries := entries
    candidateCount := entries.length
    includedCount := admitted
    excludedCounts := (entries.flatMap (·.exclusions)).foldl count []
    unavailableRequired := missing
    readiness := if missing ≠ [] ∨ admitted = 0 then .abstain else .ready }

/-- `build_packet` -/
def buildPacket (lib : Library) (instrument cutoff : String) (candidates : List Candidate)
    (required : List String) : Except Exc Packet := do
  let now ← instant cutoff
  require (∀ id ∈ required, isHash id) "required_identity"
  require (required = sortedOnce required) "duplicate_required"
  let entries ← mapE (entryOf lib instrument now required) candidates
  require (candidates.map (·.id)).Nodup "duplicate_evidence"
  return assemble instrument cutoff required entries

/-- `replay`, given the canonical JSON of a packet. -/
def replay (lib : Library) (canonical : Packet → String) (packet : Packet) : Except Exc String := do
  require (packet.schema = version) "unknown_version"
  let expected ← buildPacket lib packet.instrument packet.cutoff (packet.entries.map (·.candidate))
    packet.requiredIds
  require (canonical expected = canonical packet) "semantic_replay_mismatch"
  return canonical expected

end TradeRecommender.Evidence
