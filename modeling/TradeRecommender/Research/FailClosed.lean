import TradeRecommender.Research.Services
import TradeRecommender.Research.Ascii

/-!
# Failing closed

An ingest fails closed on a body when it keeps exactly one retrieval of it: an accepted one when
it returns, a quarantined one and no parsed row when it re-raises what the parser raised.
-/

namespace TradeRecommender.Research

open Py Civil

/-- The ingest keeps the body: accepted and returned, or quarantined with the parse error raised
again and no parsed row written. -/
def FailsClosed {α : Type} (platform : Platform) (spec : Ingest α) (result : FetchResult)
    (db : Db) : Prop :=
  match ingest platform spec result db with
  | (.ok retrieval, db') =>
    db'.retrievals = db.retrievals ++ [retrieval] ∧ retrieval.quality = .accepted ∧
      retrieval.body = result.body
  | (.error error, db') =>
    spec.parse result.body = .error error ∧
    ∃ retrieval : RawRetrieval, db'.retrievals = db.retrievals ++ [retrieval] ∧
      retrieval.quality = .quarantined ∧ retrieval.body = result.body ∧
      db'.documents = db.documents ∧ db'.representations = db.representations ∧
      db'.observations = db.observations ∧ db'.events = db.events

/-- The parser raises, if it raises, an exception the ingest catches. -/
def ParseCaught {α : Type} (spec : Ingest α) (body : Body) : Prop :=
  ∀ error, spec.parse body = .error error → error.caughtBy spec.handlers

/-- The database takes the rows of the transaction the parse leads to. -/
def Admitted {α : Type} (platform : Platform) (spec : Ingest α) (result : FetchResult)
    (db : Db) : Prop :=
  match spec.parse result.body with
  | .ok values => ∃ outcome, accept platform spec result values db = .ok outcome
  | .error _ => ∃ outcome, quarantine platform spec result db = .ok outcome

section
variable {α : Type} {platform : Platform} {spec : Ingest α} {result : FetchResult} {db db' : Db}
  {retrieval : RawRetrieval}

/-- A quarantine writes one quarantined retrieval and its audit event. -/
theorem quarantine_ok (h : quarantine platform spec result db = .ok (retrieval, db')) :
    ∃ audits, db' = { db with retrievals := db.retrievals ++ [retrieval], audits := audits } ∧
      retrieval.quality = .quarantined ∧ retrieval.body = result.body := by
  obtain ⟨⟨row, mid⟩, stored, h⟩ := bind_eq_ok.mp h
  obtain ⟨after, audited, h⟩ := bind_eq_ok.mp h
  cases h
  obtain ⟨rfl, hq, hb, -, -⟩ := Db.storeRaw_ok stored
  obtain ⟨audits, rfl⟩ := Db.audit_ok audited
  exact ⟨audits, rfl, hq, hb⟩

/-- What an ingest can do: store the retrieval and the parsed rows and return, or raise and touch
no table but the retrievals and the audit events. -/
theorem ingest_cases (platform : Platform) (spec : Ingest α) (result : FetchResult) (db : Db) :
    (∃ retrieval values db', spec.parse result.body = .ok values ∧
      retrieval.pk = db.retrievals.length + 1 ∧ retrieval.fetchedAt = result.fetchedAt ∧
      spec.store result retrieval values
        { db with retrievals := db.retrievals ++ [retrieval] } = .ok db' ∧
      ingest platform spec result db = (.ok retrieval, db')) ∨
    (∃ error retrievals audits, ingest platform spec result db =
      (.error error, { db with retrievals := retrievals, audits := audits })) := by
  unfold ingest
  cases parsed : spec.parse result.body with
  | ok values =>
    cases done : accept platform spec result values db with
    | error raised =>
      exact Or.inr ⟨raised, db.retrievals, db.audits, by simp [atomic, done]⟩
    | ok outcome =>
      obtain ⟨retrieval, db'⟩ := outcome
      have shape := done
      obtain ⟨⟨stored, db₁⟩, raw, shape⟩ := bind_eq_ok.mp shape
      obtain ⟨db₂, written, shape⟩ := bind_eq_ok.mp shape
      cases shape
      obtain ⟨rfl, -, -, hpk, hat⟩ := Db.storeRaw_ok raw
      exact Or.inl ⟨_, values, _, rfl, hpk, hat, written, by simp [atomic, done]⟩
  | error error =>
    dsimp only
    split
    · cases done : quarantine platform spec result db with
      | ok outcome =>
        obtain ⟨retrieval, db'⟩ := outcome
        obtain ⟨audits, rfl, -⟩ := quarantine_ok done
        exact Or.inr ⟨error, db.retrievals ++ [retrieval], audits, by simp [atomic, done]⟩
      | error raised =>
        exact Or.inr ⟨raised, db.retrievals, db.audits, by simp [atomic, done]⟩
    · exact Or.inr ⟨error, db.retrievals, db.audits, rfl⟩

/-- The rows an ingest writes after its retrieval are in other tables. -/
def KeepsRetrievals (spec : Ingest α) : Prop :=
  ∀ {result retrieval values db db'}, spec.store result retrieval values db = .ok db' →
    db'.retrievals = db.retrievals

/-- An accepted ingest writes one accepted retrieval. -/
theorem accept_ok {values : α} (keeps : KeepsRetrievals spec)
    (h : accept platform spec result values db = .ok (retrieval, db')) :
    db'.retrievals = db.retrievals ++ [retrieval] ∧ retrieval.quality = .accepted ∧
      retrieval.body = result.body := by
  obtain ⟨⟨row, mid⟩, stored, h⟩ := bind_eq_ok.mp h
  obtain ⟨after, written, h⟩ := bind_eq_ok.mp h
  cases h
  obtain ⟨rfl, hq, hb, -, -⟩ := Db.storeRaw_ok stored
  exact ⟨keeps written, hq, hb⟩

/-- **The shape fails closed exactly as far as its `except` clause and the database reach.** -/
theorem failsClosed_iff (keeps : KeepsRetrievals spec) :
    FailsClosed platform spec result db ↔
      ParseCaught spec result.body ∧ Admitted platform spec result db := by
  unfold FailsClosed ParseCaught Admitted ingest
  cases parsed : spec.parse result.body with
  | ok values =>
    cases done : accept platform spec result values db with
    | ok outcome =>
      obtain ⟨retrieval, db'⟩ := outcome
      simpa [atomic, done] using accept_ok keeps done
    | error raised => simp [atomic, done]
  | error error =>
    by_cases caught : error.caughtBy spec.handlers
    · cases done : quarantine platform spec result db with
      | ok outcome =>
        obtain ⟨retrieval, db'⟩ := outcome
        obtain ⟨audits, rfl, hq, hb⟩ := quarantine_ok done
        simp [atomic, done, caught, hq, hb]
      | error raised => simp [atomic, done, caught]
    · simp [caught]

end

/-! ## The four ingests write their rows beside the retrieval -/

section
variable {platform : Platform} {policy : SourcePolicy} {result : FetchResult}
  {retrieval : RawRetrieval} {db db' : Db} {created created' : ℕ}

theorem getOrCreateDocument_ok {hash : String} {item : FeedItem} {document : ResearchDocument}
    {isNew : Bool}
    (h : getOrCreateDocument platform result hash item db = .ok (document, isNew, db')) :
    ∃ rows, db' = { db with documents := rows } := by
  unfold getOrCreateDocument at h
  split at h
  · cases h; exact ⟨db.documents, rfl⟩
  · obtain ⟨mid, added, h⟩ := bind_eq_ok.mp h
    cases h
    exact ⟨_, Db.addDocument_ok added⟩

theorem getOrCreateRepresentation_ok {document : ResearchDocument} {key : String}
    {item : FeedItem} {representation : DocumentRepresentation} {isNew : Bool}
    (h : getOrCreateRepresentation platform document retrieval key item db =
      .ok (representation, isNew, db')) :
    ∃ rows, db' = { db with representations := rows } := by
  unfold getOrCreateRepresentation at h
  split at h
  · cases h; exact ⟨db.representations, rfl⟩
  · obtain ⟨mid, added, h⟩ := bind_eq_ok.mp h
    cases h
    exact ⟨_, Db.addRepresentation_ok added⟩

theorem noteDuplicate_ok {hash key : String} {prior : Option DocumentRepresentation}
    (h : noteDuplicate platform result retrieval hash key prior db = .ok db') :
    ∃ rows, db' = { db with discrepancies := rows } := by
  unfold noteDuplicate at h
  split at h
  · exact Db.discrepancy_ok h
  · cases h; exact ⟨db.discrepancies, rfl⟩

theorem noteConflict_ok {hash : String} {document : ResearchDocument} {isNew : Bool}
    {item : FeedItem} {first : Option DocumentRepresentation}
    (h : noteConflict platform result retrieval hash document isNew item first db = .ok db') :
    ∃ documents rows, db' = { db with documents := documents, discrepancies := rows } := by
  unfold noteConflict at h
  split at h
  · cases h; exact ⟨db.documents, db.discrepancies, rfl⟩
  · split at h
    · cases h
    · obtain ⟨mid, noted, h⟩ := bind_eq_ok.mp h
      obtain ⟨rows, rfl⟩ := Db.discrepancy_ok noted
      cases h
      exact ⟨_, rows, rfl⟩

theorem noteRevision_ok {series : MacroSeries} {previous : Option MacroObservation}
    {item : MacroValue}
    (h : noteRevision platform series result retrieval previous item db = .ok db') :
    ∃ rows, db' = { db with discrepancies := rows } := by
  unfold noteRevision at h
  split at h
  · exact Db.discrepancy_ok h
  · cases h; exact ⟨db.discrepancies, rfl⟩

/-- A feed item leaves the retrievals alone. -/
theorem storeFeedItem_ok {item : FeedItem}
    (h : storeFeedItem platform policy result retrieval db created item = .ok (db', created')) :
    db'.retrievals = db.retrievals := by
  obtain ⟨hash, -, h⟩ := bind_eq_ok.mp h
  obtain ⟨⟨document, isNew, db₁⟩, found, h⟩ := bind_eq_ok.mp h
  obtain ⟨key, -, h⟩ := bind_eq_ok.mp h
  obtain ⟨⟨representation, isFirst, db₂⟩, represented, h⟩ := bind_eq_ok.mp h
  obtain ⟨db₃, linked, h⟩ := bind_eq_ok.mp h
  obtain ⟨db₄, noted, h⟩ := bind_eq_ok.mp h
  cases h
  obtain ⟨documents, rfl⟩ := getOrCreateDocument_ok found
  obtain ⟨representations, rfl⟩ := getOrCreateRepresentation_ok represented
  obtain ⟨discrepancies, rfl⟩ := noteDuplicate_ok linked
  obtain ⟨documents', discrepancies', rfl⟩ := noteConflict_ok noted
  rfl

/-- A macro value leaves the retrievals alone. -/
theorem storeMacroValue_ok {series : MacroSeries} {item : MacroValue}
    (h : storeMacroValue platform series result retrieval db created item = .ok (db', created')) :
    db'.retrievals = db.retrievals := by
  unfold storeMacroValue at h
  split at h
  · cases h; rfl
  · obtain ⟨db₁, added, h⟩ := bind_eq_ok.mp h
    obtain ⟨db₂, noted, h⟩ := bind_eq_ok.mp h
    cases h
    obtain ⟨rows, rfl⟩ := noteRevision_ok noted
    rw [Db.addObservation_ok added]

theorem getOrCreateEvent_retrievals {row : EconomicEvent} {isNew : Bool}
    (h : db.getOrCreateEvent platform row = .ok (db', isNew)) :
    db'.retrievals = db.retrievals := by
  rw [Db.getOrCreateEvent_ok h]
  split <;> rfl

theorem storeEodhdEvent_ok {item : CalendarValue}
    (h : storeEodhdEvent platform result retrieval db created item = .ok (db', created')) :
    db'.retrievals = db.retrievals := by
  obtain ⟨identity, -, h⟩ := bind_eq_ok.mp h
  obtain ⟨actual, -, h⟩ := bind_eq_ok.mp h
  obtain ⟨estimate, -, h⟩ := bind_eq_ok.mp h
  obtain ⟨previous, -, h⟩ := bind_eq_ok.mp h
  obtain ⟨fingerprint, -, h⟩ := bind_eq_ok.mp h
  obtain ⟨⟨mid, isNew⟩, stored, h⟩ := bind_eq_ok.mp h
  cases h
  exact getOrCreateEvent_retrievals stored

theorem storeOfficialEvent_ok {item : CalendarValue}
    (h : storeOfficialEvent platform policy result retrieval db created item =
      .ok (db', created')) :
    db'.retrievals = db.retrievals := by
  obtain ⟨identity, -, h⟩ := bind_eq_ok.mp h
  obtain ⟨fingerprint, -, h⟩ := bind_eq_ok.mp h
  obtain ⟨⟨mid, isNew⟩, stored, h⟩ := bind_eq_ok.mp h
  cases h
  exact getOrCreateEvent_retrievals stored

/-- A loop whose steps leave the retrievals alone, and its audit event. -/
theorem storeAll_retrievals {β : Type} {body : Db → ℕ → β → Except Exc (Db × ℕ)}
    {items : List β} {eventType counted : String} {texts : List (String × String)}
    (step : ∀ db created item db' created',
      body db created item = .ok (db', created') → db'.retrievals = db.retrievals)
    (h : storeAll platform body items eventType counted texts retrieval db = .ok db') :
    db'.retrievals = db.retrievals := by
  obtain ⟨⟨mid, count⟩, looped, h⟩ := bind_eq_ok.mp h
  obtain ⟨audits, rfl⟩ := Db.audit_ok h
  show mid.retrievals = db.retrievals
  exact loop_rel (fun a b => b.retrievals = a.retrievals) (fun _ => rfl)
    (fun h₁ h₂ => h₂.trans h₁) step looped

end

section
variable (platform : Platform)

theorem keepsRetrievals_feed (policy : SourcePolicy) :
    KeepsRetrievals (feedIngest platform policy) :=
  storeAll_retrievals fun _ _ _ _ _ => storeFeedItem_ok

theorem keepsRetrievals_macro (series : MacroSeries) :
    KeepsRetrievals (macroIngest platform series) :=
  storeAll_retrievals fun _ _ _ _ _ => storeMacroValue_ok

theorem keepsRetrievals_eodhd (policy : SourcePolicy) :
    KeepsRetrievals (eodhdIngest platform policy) :=
  storeAll_retrievals fun _ _ _ _ _ => storeEodhdEvent_ok

theorem keepsRetrievals_official (policy : SourcePolicy) (parser : String)
    (observedAt : Instant) : KeepsRetrievals (officialIngest platform policy parser observedAt) :=
  storeAll_retrievals fun _ _ _ _ _ => storeOfficialEvent_ok

end

/-! ## Which bodies escape -/

section
variable {platform : Platform}

/-- A macro response in JSON whose top level is no object escapes: `get` is looked up on it. -/
theorem macro_escapes_of_not_dict (series : MacroSeries) (body : Body) (text : String)
    (payload : Val) (json : series.parser ∈ [.bocValet, .blsJson, .eurostatJson])
    (decoded : platform.decode body = .ok text) (loaded : platform.loads text = .ok payload)
    (shape : payload.isDict = false) :
    ¬ ParseCaught (macroIngest platform series) body := by
  have noGet (key : String) (default : Val) : payload.get key default =
      raise .attributeError "object has no attribute 'get'" := by
    cases payload <;> first | rfl | cases shape
  intro caught
  have escaped : parseMacro platform.toStdlib series body =
      raise .attributeError "object has no attribute 'get'" := by
    simp only [List.mem_cons, List.not_mem_nil, or_false] at json
    unfold parseMacro macroRows
    rcases json with h | h | h
    · simp only [h, decoded, reduceCtorEq, if_false, bocValetRows, loaded, bind, Except.bind,
        noGet, raise]
    · simp only [h, decoded, reduceCtorEq, if_false, blsJsonRows, loaded, bind, Except.bind,
        noGet, raise]
    · simp only [h, decoded, reduceCtorEq, if_false, eurostatJsonRows, loaded, bind, Except.bind,
        noGet, raise]
  have bad := caught _ escaped
  simp [Exc.caughtBy, macroIngest, ExcClass.isSubclass, ExcClass.bases] at bad

end

/-- The target rate of the Bank of Canada. -/
def policyRate : MacroSeries :=
  ⟨1, ⟨1, "bank-of-canada", "official-public-record"⟩, "CA_POLICY_RATE", "V39079", .bocValet, .none⟩

/-- A Valet response whose body is the given text. -/
def valetResult (text : String) (fetchedAt : Instant) : FetchResult where
  url := "https://www.bankofcanada.ca/valet/observations/V39079/json?recent=120"
  fetchedAt := fetchedAt
  statusCode := 200
  contentType := "application/json"
  body := asciiBody text
  etag := ""
  lastModified := ""
  requestFingerprint := ""

def emptyListPlatform : Platform := asciiPlatform
  { json := [("[]", .list [])]
    digests := [("[]", "4f53cda18c2baa0c0354bb5f9a3ecbe5ed12ab4d8e11ba873c2f11161202b945")] }

end TradeRecommender.Research
