import TradeRecommender.Research.FailClosed
import TradeRecommender.Research.PairEvidence

/-!
# Economic-event vintages

The stored vintages of an event key are an append-if-absent ledger of the payloads the official
calendars delivered for it, and a capture lists the newest of those in its window.  So a capture
shows the payload delivered last exactly under the condition `calendar_follows_iff` gives.
-/

namespace TradeRecommender.Research

open Py Civil Vintage

/-! ## Runs of official calendar ingests -/

/-- An `ingest_official_calendar` call and what its fetch returned. -/
structure CalendarDelivery where
  policy : SourcePolicy
  parser : String
  observedAt : Instant
  result : FetchResult

/-- The payload of an entry: all it says but its key and the columns official rows leave empty. -/
def payloadOf (item : CalendarValue) : CalendarValue :=
  { item with comparison := "", actual := none, estimate := none, previous := none,
              providerEventKey := "" }

/-- An entry delivered for a key, and whether the forward window of its ingest keeps it. -/
structure Entry where
  deliveredAt : Instant
  key : String
  payload : CalendarValue
  kept : Bool
  deriving DecidableEq

section
variable (platform : Platform)

/-- An event time in the forward window of an ingest. -/
def inForwardWindow (observedAt eventAt : Instant) : Bool :=
  observedAt + -7 * day ≤ eventAt && eventAt ≤ observedAt + 550 * day

/-- The entry a calendar value is. -/
def entryOf (d : CalendarDelivery) (item : CalendarValue) : Entry where
  deliveredAt := d.result.fetchedAt
  key := officialIdentity d.policy item
  payload := payloadOf item
  kept := inForwardWindow d.observedAt item.eventAt

/-- The entries of a calendar response. -/
def entriesOf (d : CalendarDelivery) : List Entry :=
  match parseOfficialCalendar platform.toStdlib d.parser d.result.body with
  | .ok items => items.map (entryOf d)
  | .error _ => []

/-- One ingest: the store it leaves, and the entries it adds to what was delivered, which are none
when the ingest raises. -/
def deliverCalendar (state : Db × List Entry) (d : CalendarDelivery) : Db × List Entry :=
  match ingestOfficialCalendar platform d.policy d.parser d.observedAt d.result state.1 with
  | (.ok _, db') => (db', state.2 ++ entriesOf platform d)
  | (.error _, db') => (db', state.2)

/-- The store and the delivered entries after a sequence of ingests. -/
def runCalendar (db : Db) (ds : List CalendarDelivery) : Db × List Entry :=
  ds.foldl (deliverCalendar platform) (db, [])

/-- The payload delivered last for a key by a time. -/
def lastDelivered (entries : List Entry) (key : String) (capturedAt : Instant) :
    Option CalendarValue :=
  ((entries.filter fun e => e.key = key ∧ e.deliveredAt ≤ capturedAt).map (·.payload)).getLast?

/-- The payloads kept for a key by a time, in the order of their delivery. -/
def keptPayloads (entries : List Entry) (key : String) (capturedAt : Instant) :
    List CalendarValue :=
  (entries.filter fun e => e.kept ∧ e.key = key ∧ e.deliveredAt ≤ capturedAt).map (·.payload)

/-- A payload a capture is to list. -/
def isVisible (places : List String) (capturedAt : Instant) (payload : CalendarValue) : Bool :=
  payload.country ∈ places && inCaptureWindow capturedAt payload.eventAt

/-- The fingerprint of a payload. -/
def fingerprintOf (payload : CalendarValue) : Except Exc String :=
  platform.digest (platform.dumps (officialPayload platform payload))

/-- The row is the vintage of the payload: it has its fingerprint and shows what it says. -/
structure Stores (row : EconomicEvent) (payload : CalendarValue) : Prop where
  fingerprint : fingerprintOf platform payload = .ok row.payloadFingerprint
  eventAt : row.eventAt = payload.eventAt
  country : row.country = payload.country
  eventType : row.eventType = payload.eventType
  period : row.period = payload.period
  sourceUrl : row.sourceUrl = payload.sourceUrl
  status : row.status = payload.status
  timePrecision : row.timePrecision = payload.timePrecision

/-- The row a capture lists for an event key. -/
def Lists (db : Db) (places : List String) (capturedAt : Instant) (key : String)
    (row : EconomicEvent) : Prop :=
  row ∈ upcomingEvents places capturedAt db ∧ platform.digest key = .ok row.providerEventKey

/-- A capture lists the key if and only if the payload delivered last for it is visible, and then
lists exactly that payload. -/
def FollowsCalendar (state : Db × List Entry) (places : List String) (capturedAt : Instant)
    (key : String) : Prop :=
  ((∃ row, Lists platform state.1 places capturedAt key row) ↔
    ∃ payload, lastDelivered state.2 key capturedAt = some payload ∧
      isVisible places capturedAt payload) ∧
  ∀ row payload, Lists platform state.1 places capturedAt key row →
    lastDelivered state.2 key capturedAt = some payload → Stores platform row payload

/-- Among the payloads kept for the key, none that is visible stands in the way of the last one:
the last payload is visible too and was first kept no earlier; and the last payload, if visible,
was kept. -/
def LastStandsOut (entries : List Entry) (places : List String) (capturedAt : Instant)
    (key : String) : Prop :=
  (∀ payload, lastDelivered entries key capturedAt = some payload →
    isVisible places capturedAt payload → payload ∈ keptPayloads entries key capturedAt) ∧
  ∀ other ∈ keptPayloads entries key capturedAt, isVisible places capturedAt other →
    ∃ payload, lastDelivered entries key capturedAt = some payload ∧
      isVisible places capturedAt payload ∧
      (keptPayloads entries key capturedAt).idxOf other ≤
        (keptPayloads entries key capturedAt).idxOf payload

/-- No two digests or renderings of what was delivered coincide: SHA-256, sorted JSON and ISO
dates tell them apart. -/
structure TellsApart (entries : List Entry) : Prop where
  key : ∀ a ∈ entries, ∀ b ∈ entries,
    platform.digest a.key = platform.digest b.key → a.key = b.key
  fingerprint : ∀ a ∈ entries, ∀ b ∈ entries,
    fingerprintOf platform a.payload = fingerprintOf platform b.payload →
      officialPayload platform a.payload = officialPayload platform b.payload
  stamp : ∀ a ∈ entries, ∀ b ∈ entries,
    platform.isoformat a.payload.eventAt = platform.isoformat b.payload.eventAt →
      a.payload.eventAt = b.payload.eventAt

end

/-! ## One entry of a calendar -/

section
variable {platform : Platform} {policy : SourcePolicy} {result : FetchResult}
  {retrieval : RawRetrieval} {db db' : Db} {created created' : ℕ}

theorem vintages_append (db : Db) (new : List EconomicEvent) (key : String) :
    vintages { db with events := db.events ++ new } key =
      vintages db key ++ new.filter (·.providerEventKey = key) :=
  List.filter_append _ _

theorem vintages_congr (h : db'.events = db.events) (key : String) :
    vintages db' key = vintages db key := by
  unfold vintages
  rw [h]

/-- An entry whose vintage is stored changes nothing; another one adds its vintage. -/
theorem storeOfficialEvent_cases {item : CalendarValue}
    (h : storeOfficialEvent platform policy result retrieval db created item =
      .ok (db', created')) :
    ∃ row : EconomicEvent,
      platform.digest (officialIdentity policy item) = .ok row.providerEventKey ∧
      Stores platform row (payloadOf item) ∧ row.firstObservedAt = result.fetchedAt ∧
      ((db'.events = db.events ∧ ∃ stored ∈ vintages db row.providerEventKey,
          stored.payloadFingerprint = row.payloadFingerprint) ∨
        (db'.events = db.events ++ [row] ∧ ∀ stored ∈ vintages db row.providerEventKey,
          stored.payloadFingerprint ≠ row.payloadFingerprint)) := by
  obtain ⟨identity, keyed, h⟩ := bind_eq_ok.mp h
  obtain ⟨fingerprint, printed, h⟩ := bind_eq_ok.mp h
  obtain ⟨⟨mid, isNew⟩, stored, h⟩ := bind_eq_ok.mp h
  cases h
  refine ⟨{ eventOf result retrieval (seriesOf db item.seriesCode) identity fingerprint item with
      actual := none, estimate := none, previous := none }, keyed,
    ⟨printed, rfl, rfl, rfl, rfl, rfl, rfl, rfl⟩, rfl, ?_⟩
  have known : (db.findEvent identity fingerprint).isSome = true ↔
      ∃ stored ∈ vintages db identity, stored.payloadFingerprint = fingerprint := by
    simp only [Db.findEvent, List.find?_isSome, vintages, List.mem_filter, Bool.and_eq_true,
      decide_eq_true_eq, and_assoc]
  have shape := Db.getOrCreateEvent_ok stored
  by_cases found : (db.findEvent identity fingerprint).isSome
  · exact Or.inl ⟨by rw [shape]; exact congrArg Db.events (if_pos found), known.mp found⟩
  · refine Or.inr ⟨by rw [shape]; exact congrArg Db.events (if_neg found), ?_⟩
    intro stored hstored same
    exact found (known.mpr ⟨stored, hstored, same⟩)

/-- What the loop does to the vintages of one key, its digests telling payloads and keys apart. -/
theorem loop_vintages {items : List CalendarValue} {key hash : String} (vs : List CalendarValue)
    (keyed : platform.digest key = .ok hash)
    (keys : ∀ item ∈ items, platform.digest (officialIdentity policy item) = .ok hash →
      officialIdentity policy item = key)
    (prints : ∀ p ∈ vs ++ items.map payloadOf, ∀ q ∈ vs ++ items.map payloadOf,
      fingerprintOf platform p = fingerprintOf platform q → p = q)
    (start : List.Forall₂ (Stores platform) (vintages db hash) (replay vs))
    (h : loop (storeOfficialEvent platform policy result retrieval) items db created =
      .ok (db', created')) :
    List.Forall₂ (Stores platform) (vintages db' hash)
      (replay (vs ++ (items.filter fun item => officialIdentity policy item = key).map
        payloadOf)) := by
  induction items generalizing db created vs with
  | nil =>
    cases h
    simpa using start
  | cons item items ih =>
    obtain ⟨⟨mid, count⟩, first, rest⟩ := bind_eq_ok.mp h
    obtain ⟨row, rowKey, stores, -, step⟩ := storeOfficialEvent_cases first
    by_cases here : officialIdentity policy item = key
    · -- the entry is about the key: its payload is recorded
      have rowHash : row.providerEventKey = hash := by
        rw [here, keyed] at rowKey
        exact (Except.ok.inj rowKey).symm
      rw [rowHash] at step
      have next : List.Forall₂ (Stores platform) (vintages mid hash)
          (replay (vs ++ [payloadOf item])) := by
        rw [replay_concat]
        rcases step with ⟨same, old, hold, print⟩ | ⟨grown, fresh⟩
        · obtain ⟨p, hp, hstores⟩ := forall₂_exists_right start hold
          have equal : p = payloadOf item := by
            refine prints p ?_ _ (by simp) ?_
            · exact List.mem_append_left _ (mem_replay.mp hp)
            · rw [hstores.fingerprint, stores.fingerprint, print]
          rw [record_of_mem (equal ▸ hp), vintages_congr same]
          exact start
        · have absent : payloadOf item ∉ replay vs := by
            intro member
            obtain ⟨old, hold, hstores⟩ := forall₂_exists_left start member
            exact fresh old hold
              (Except.ok.inj (hstores.fingerprint.symm.trans stores.fingerprint))
          rw [record_of_not_mem absent,
            vintages_congr (show _ = ({ db with events := db.events ++ [row] } : Db).events from grown),
            vintages_append, List.filter_singleton]
          simpa [rowHash] using forall₂_concat start stores
      have tail := ih (vs ++ [payloadOf item])
        (fun item h => keys item (List.mem_cons_of_mem _ h)) (by simpa using prints) next rest
      simpa [here] using tail
    · -- the entry is about another key: the vintages of this one stay
      have rowHash : row.providerEventKey ≠ hash := by
        intro same
        exact here (keys item List.mem_cons_self (by rw [rowKey, same]))
      have same : vintages mid hash = vintages db hash := by
        rcases step with ⟨same, -⟩ | ⟨grown, -⟩
        · exact vintages_congr same hash
        · rw [vintages_congr (show _ = ({ db with events := db.events ++ [row] } : Db).events from grown),
            vintages_append, List.filter_singleton]
          simp [rowHash]
      have tail := ih vs (fun item h => keys item (List.mem_cons_of_mem _ h))
        (fun p hp q hq => prints p (by
          rcases List.mem_append.mp hp with h | h
          · exact List.mem_append_left _ h
          · exact List.mem_append_right _ (List.mem_cons_of_mem _ h)) q (by
          rcases List.mem_append.mp hq with h | h
          · exact List.mem_append_left _ h
          · exact List.mem_append_right _ (List.mem_cons_of_mem _ h))) (same ▸ start) rest
      simpa [here] using tail

/-- The loop only appends rows, all first observed at its fetch. -/
theorem loop_events {items : List CalendarValue}
    (h : loop (storeOfficialEvent platform policy result retrieval) items db created =
      .ok (db', created')) :
    ∃ new, db'.events = db.events ++ new ∧ ∀ row ∈ new, row.firstObservedAt = result.fetchedAt := by
  refine loop_rel (fun a b => ∃ new, b.events = a.events ++ new ∧
    ∀ row ∈ new, row.firstObservedAt = result.fetchedAt) (fun db => ⟨[], by simp⟩) ?_ ?_ h
  · rintro a b c ⟨new₁, h₁, at₁⟩ ⟨new₂, h₂, at₂⟩
    refine ⟨new₁ ++ new₂, by rw [h₂, h₁, List.append_assoc], fun row hrow => ?_⟩
    rcases List.mem_append.mp hrow with hrow | hrow
    · exact at₁ row hrow
    · exact at₂ row hrow
  · intro db created item db' created' step
    obtain ⟨row, -, -, observed, ⟨same, -⟩ | ⟨grown, -⟩⟩ := storeOfficialEvent_cases step
    · exact ⟨[], by simpa using same, by simp⟩
    · exact ⟨[row], grown, by simpa using observed⟩

end

/-! ## One ingest -/

section
variable {platform : Platform} {state : Db × List Entry} {d : CalendarDelivery}

/-- The entries the forward window of the ingest keeps. -/
theorem forwardWindow_ok {observedAt : Instant} {items kept : List CalendarValue}
    (h : forwardWindow observedAt items = .ok kept) :
    kept = items.filter fun item => inForwardWindow observedAt item.eventAt := by
  have moved {delta instant : ℤ} (h : shift observedAt delta = .ok instant) :
      instant = observedAt + delta := by
    unfold shift at h
    split at h
    · exact (Except.ok.inj h).symm
    · cases h
  obtain ⟨low, hlow, h⟩ := bind_eq_ok.mp h
  obtain ⟨high, hhigh, h⟩ := bind_eq_ok.mp h
  obtain rfl := moved hlow
  obtain rfl := moved hhigh
  dsimp only at h
  split at h
  · cases h
  · cases h
    refine List.filter_congr fun item _ => ?_
    simp [inForwardWindow]

/-- An ingest is a loop over the kept entries of its response, or leaves the events alone and
delivers nothing. -/
theorem deliverCalendar_cases (platform : Platform) (state : Db × List Entry)
    (d : CalendarDelivery) :
    (∃ items retrieval mid db₁ created,
      parseOfficialCalendar platform.toStdlib d.parser d.result.body = .ok items ∧
      mid.events = state.1.events ∧
      loop (storeOfficialEvent platform d.policy d.result retrieval)
        (items.filter fun item => inForwardWindow d.observedAt item.eventAt) mid 0 =
          .ok (db₁, created) ∧
      (deliverCalendar platform state d).1.events = db₁.events ∧
      (deliverCalendar platform state d).2 = state.2 ++ entriesOf platform d) ∨
    ((deliverCalendar platform state d).1.events = state.1.events ∧
      (deliverCalendar platform state d).2 = state.2) := by
  unfold deliverCalendar ingestOfficialCalendar
  obtain ⟨row, kept, db', parsed, -, -, written, outcome⟩ | ⟨error, retrievals, audits, outcome⟩ :=
    ingest_cases platform (officialIngest platform d.policy d.parser d.observedAt) d.result state.1
  · rw [outcome]
    obtain ⟨items, hitems, windowed⟩ := bind_eq_ok.mp parsed
    obtain rfl := forwardWindow_ok windowed
    obtain ⟨⟨db₁, created⟩, looped, audited⟩ := bind_eq_ok.mp written
    obtain ⟨audits, rfl⟩ := Db.audit_ok audited
    exact Or.inl ⟨items, row, { state.1 with retrievals := state.1.retrievals ++ [row] }, db₁,
      created, hitems, rfl, looped, rfl, rfl⟩
  · rw [outcome]
    exact Or.inr ⟨rfl, rfl⟩

theorem entriesOf_ok {items : List CalendarValue}
    (parsed : parseOfficialCalendar platform.toStdlib d.parser d.result.body = .ok items) :
    entriesOf platform d = items.map (entryOf d) := by
  unfold entriesOf
  rw [parsed]

theorem mem_entriesOf {e : Entry} (h : e ∈ entriesOf platform d) :
    e.deliveredAt = d.result.fetchedAt ∧ ∃ item, e.payload = payloadOf item ∧
      item.country = seriesCountry item.seriesCode := by
  cases parsed : parseOfficialCalendar platform.toStdlib d.parser d.result.body with
  | error error =>
    unfold entriesOf at h
    rw [parsed] at h
    cases h
  | ok items =>
    rw [entriesOf_ok parsed] at h
    obtain ⟨item, member, rfl⟩ := List.mem_map.mp h
    exact ⟨rfl, item, rfl, parseOfficialCalendar_country parsed item member⟩

/-- An ingest only appends rows, all first observed at its fetch. -/
theorem deliverCalendar_events (platform : Platform) (state : Db × List Entry)
    (d : CalendarDelivery) :
    ∃ new, (deliverCalendar platform state d).1.events = state.1.events ++ new ∧
      ∀ row ∈ new, row.firstObservedAt = d.result.fetchedAt := by
  obtain ⟨items, retrieval, mid, db₁, created, -, start, looped, events, -⟩ | ⟨events, -⟩ :=
    deliverCalendar_cases platform state d
  · obtain ⟨new, grown, observed⟩ := loop_events looped
    exact ⟨new, by rw [events, grown, start], observed⟩
  · exact ⟨[], by simp [events], by simp⟩

/-- An ingest only adds entries delivered at its fetch. -/
theorem deliverCalendar_entries (platform : Platform) (state : Db × List Entry)
    (d : CalendarDelivery) :
    ∃ new, (deliverCalendar platform state d).2 = state.2 ++ new ∧
      (new = [] ∨ new = entriesOf platform d) := by
  obtain ⟨items, retrieval, mid, db₁, created, -, -, -, -, entries⟩ | ⟨-, entries⟩ :=
    deliverCalendar_cases platform state d
  · exact ⟨_, entries, Or.inr rfl⟩
  · exact ⟨[], by simp [entries], Or.inl rfl⟩

end

/-! ## Runs -/

/-- The payloads kept for a key, in the order of their delivery. -/
def keptOf (entries : List Entry) (key : String) : List CalendarValue :=
  (entries.filter fun e => e.kept ∧ e.key = key).map (·.payload)

/-- The fetches of a run follow one another. -/
def Increasing (ds : List CalendarDelivery) : Prop :=
  ds.Pairwise fun a b => a.result.fetchedAt < b.result.fetchedAt

/-- A response delivers at most one payload per key. -/
def OnePerKey (platform : Platform) (d : CalendarDelivery) : Prop :=
  ((entriesOf platform d).map (·.key)).Nodup

section
variable {platform : Platform} {db : Db} {ds : List CalendarDelivery} {d : CalendarDelivery}
  {entries new : List Entry} {key hash : String}

theorem runCalendar_concat (db : Db) (ds : List CalendarDelivery) (d : CalendarDelivery) :
    runCalendar platform db (ds ++ [d]) =
      deliverCalendar platform (runCalendar platform db ds) d := by
  simp [runCalendar]

theorem keptOf_append : keptOf (entries ++ new) key = keptOf entries key ++ keptOf new key := by
  simp [keptOf]

theorem mem_keptOf {payload : CalendarValue} (h : payload ∈ keptOf entries key) :
    ∃ e ∈ entries, e.key = key ∧ e.payload = payload := by
  obtain ⟨e, he, rfl⟩ := List.mem_map.mp h
  obtain ⟨member, condition⟩ := List.mem_filter.mp he
  exact ⟨e, member, (of_decide_eq_true condition).2, rfl⟩

theorem keptOf_entriesOf {items : List CalendarValue}
    (parsed : parseOfficialCalendar platform.toStdlib d.parser d.result.body = .ok items) :
    keptOf (entriesOf platform d) key =
      ((items.filter fun item => inForwardWindow d.observedAt item.eventAt).filter
        fun item => officialIdentity d.policy item = key).map payloadOf := by
  rw [entriesOf_ok parsed, keptOf, List.filter_map, List.map_map, List.filter_filter]
  congr 1
  refine List.filter_congr fun item _ => ?_
  by_cases same : officialIdentity d.policy item = key <;> simp [entryOf, same]

theorem length_keptOf_le (key : String) (single : OnePerKey platform d) :
    (keptOf (entriesOf platform d) key).length ≤ 1 := by
  have shape : keptOf (entriesOf platform d) key =
      (((entriesOf platform d).filter (·.key = key)).filter (·.kept)).map (·.payload) := by
    rw [keptOf, List.filter_filter]
    congr 1
    refine List.filter_congr fun e _ => ?_
    simp
  rw [shape, List.length_map]
  refine le_trans (List.length_filter_le _ _) ?_
  rcases filter_key_cases single key with none | ⟨e, -, -, one⟩
  · simp [none]
  · simp [one]

/-- Every row was first observed, and every entry delivered, at a fetch of the run. -/
theorem run_times (platform : Platform) (ds : List CalendarDelivery) (empty : db.events = []) :
    (∀ row ∈ (runCalendar platform db ds).1.events, ∃ d ∈ ds,
      row.firstObservedAt = d.result.fetchedAt) ∧
    (∀ e ∈ (runCalendar platform db ds).2, ∃ d ∈ ds, e.deliveredAt = d.result.fetchedAt) := by
  induction ds using List.reverseRecOn with
  | nil => simp [runCalendar, empty]
  | append_singleton ds d ih =>
    obtain ⟨rows, delivered⟩ := ih
    obtain ⟨newRows, hrows, observed⟩ :=
      deliverCalendar_events platform (runCalendar platform db ds) d
    obtain ⟨newEntries, hentries, source⟩ :=
      deliverCalendar_entries platform (runCalendar platform db ds) d
    rw [runCalendar_concat, hrows, hentries]
    refine ⟨fun row hrow => ?_, fun e he => ?_⟩
    · rcases List.mem_append.mp hrow with h | h
      · obtain ⟨d', hd', at'⟩ := rows row h
        exact ⟨d', List.mem_append_left _ hd', at'⟩
      · exact ⟨d, by simp, observed row h⟩
    · rcases List.mem_append.mp he with h | h
      · obtain ⟨d', hd', at'⟩ := delivered e h
        exact ⟨d', List.mem_append_left _ hd', at'⟩
      · rcases source with rfl | rfl
        · cases h
        · exact ⟨d, by simp, (mem_entriesOf h).1⟩

/-- What was known by a time is what the ingests up to it left. -/
theorem run_upto (platform : Platform) (empty : db.events = []) (increasing : Increasing ds) (capturedAt : Instant) :
    (runCalendar platform db ds).1.events.filter (·.firstObservedAt ≤ capturedAt) =
        (runCalendar platform db (ds.filter (·.result.fetchedAt ≤ capturedAt))).1.events ∧
    (runCalendar platform db ds).2.filter (·.deliveredAt ≤ capturedAt) =
        (runCalendar platform db (ds.filter (·.result.fetchedAt ≤ capturedAt))).2 := by
  induction ds using List.reverseRecOn with
  | nil => simp [runCalendar, empty]
  | append_singleton ds d ih =>
    obtain ⟨before, -, later⟩ := List.pairwise_append.mp increasing
    by_cases early : d.result.fetchedAt ≤ capturedAt
    · -- all ingests are early: nothing is filtered out
      have all : ∀ d' ∈ ds ++ [d], d'.result.fetchedAt ≤ capturedAt := by
        intro d' hd'
        rcases List.mem_append.mp hd' with h | h
        · exact (later d' h d (List.mem_singleton_self _)).le.trans early
        · rwa [List.mem_singleton.mp h]
      obtain ⟨rows, delivered⟩ := run_times platform (ds ++ [d]) empty
      rw [List.filter_eq_self.mpr fun d' hd' => decide_eq_true (all d' hd')]
      refine ⟨List.filter_eq_self.mpr fun row hrow => ?_,
        List.filter_eq_self.mpr fun e he => ?_⟩
      · obtain ⟨d', hd', same⟩ := rows row hrow
        exact decide_eq_true (same ▸ all d' hd')
      · obtain ⟨d', hd', same⟩ := delivered e he
        exact decide_eq_true (same ▸ all d' hd')
    · -- the last ingest is late: what it adds is filtered out
      obtain ⟨ihRows, ihEntries⟩ := ih before
      obtain ⟨newRows, hrows, observed⟩ :=
        deliverCalendar_events platform (runCalendar platform db ds) d
      obtain ⟨newEntries, hentries, source⟩ :=
        deliverCalendar_entries platform (runCalendar platform db ds) d
      have noRows : newRows.filter (·.firstObservedAt ≤ capturedAt) = [] := by
        refine List.filter_eq_nil_iff.mpr fun row hrow => ?_
        simpa [observed row hrow] using early
      have noEntries : newEntries.filter (·.deliveredAt ≤ capturedAt) = [] := by
        refine List.filter_eq_nil_iff.mpr fun e he => ?_
        rcases source with rfl | rfl
        · cases he
        · simpa [(mem_entriesOf he).1] using early
      have skipped : (ds ++ [d]).filter (·.result.fetchedAt ≤ capturedAt) =
          ds.filter (·.result.fetchedAt ≤ capturedAt) := by
        rw [List.filter_append, List.filter_singleton]
        simp [early]
      rw [runCalendar_concat, skipped, hrows, hentries, List.filter_append, List.filter_append,
        noRows, noEntries, List.append_nil, List.append_nil]
      exact ⟨ihRows, ihEntries⟩

/-- **The refinement.** The vintages of a key store the append-if-absent ledger of the payloads
kept for it, first observed one after the other. -/
theorem run_vintages (ds : List CalendarDelivery) (empty : db.events = []) (increasing : Increasing ds)
    (single : ∀ d ∈ ds, OnePerKey platform d) (keyed : platform.digest key = .ok hash)
    (keys : ∀ e ∈ (runCalendar platform db ds).2, platform.digest e.key = .ok hash → e.key = key)
    (prints : ∀ a ∈ (runCalendar platform db ds).2, ∀ b ∈ (runCalendar platform db ds).2,
      fingerprintOf platform a.payload = fingerprintOf platform b.payload →
        a.payload = b.payload) :
    List.Forall₂ (Stores platform) (vintages (runCalendar platform db ds).1 hash)
        (replay (keptOf (runCalendar platform db ds).2 key)) ∧
      (vintages (runCalendar platform db ds).1 hash).Pairwise
        fun a b => a.firstObservedAt < b.firstObservedAt := by
  induction ds using List.reverseRecOn with
  | nil => simp [runCalendar, vintages, keptOf, empty]
  | append_singleton ds d ih =>
    obtain ⟨before, -, later⟩ := List.pairwise_append.mp increasing
    obtain ⟨rows, -⟩ := run_times platform ds empty
    rw [runCalendar_concat] at keys prints ⊢
    set state := runCalendar platform db ds with hstate
    have grows {e : Entry} (h : e ∈ state.2) : e ∈ (deliverCalendar platform state d).2 := by
      obtain ⟨new, hnew, -⟩ := deliverCalendar_entries platform state d
      rw [hnew]
      exact List.mem_append_left _ h
    obtain ⟨stores, ascending⟩ := ih before (fun d h => single d (by simp [h]))
      (fun e h => keys e (grows h)) (fun a ha b hb => prints a (grows ha) b (grows hb))
    obtain ⟨items, retrieval, mid, db₁, created, parsed, start, looped, events, delivered⟩ |
      ⟨events, delivered⟩ := deliverCalendar_cases platform state d
    · rw [delivered] at keys prints ⊢
      have entry {item : CalendarValue}
          (h : item ∈ items.filter fun item => inForwardWindow d.observedAt item.eventAt) :
          ∃ e ∈ state.2 ++ entriesOf platform d, e.key = officialIdentity d.policy item ∧
            e.payload = payloadOf item := by
        refine ⟨entryOf d item, List.mem_append_right _ ?_, rfl, rfl⟩
        rw [entriesOf_ok parsed]
        exact List.mem_map_of_mem (List.mem_filter.mp h).1
      have payload {p : CalendarValue} (h : p ∈ keptOf state.2 key ++
          (items.filter fun item => inForwardWindow d.observedAt item.eventAt).map payloadOf) :
          ∃ e ∈ state.2 ++ entriesOf platform d, e.payload = p := by
        rcases List.mem_append.mp h with h | h
        · obtain ⟨e, he, -, rfl⟩ := mem_keptOf h
          exact ⟨e, List.mem_append_left _ he, rfl⟩
        · obtain ⟨item, hitem, rfl⟩ := List.mem_map.mp h
          obtain ⟨e, he, -, same⟩ := entry hitem
          exact ⟨e, he, same⟩
      have stores' : List.Forall₂ (Stores platform)
          (vintages (deliverCalendar platform state d).1 hash)
          (replay (keptOf (state.2 ++ entriesOf platform d) key)) := by
        rw [vintages_congr events, keptOf_append, keptOf_entriesOf parsed]
        refine loop_vintages _ keyed ?_ ?_ (vintages_congr start hash ▸ stores) looped
        · intro item hitem same
          obtain ⟨e, he, hkey, -⟩ := entry hitem
          rw [← hkey] at same ⊢
          exact keys e he same
        · intro p hp q hq same
          obtain ⟨a, ha, rfl⟩ := payload hp
          obtain ⟨b, hb, rfl⟩ := payload hq
          exact prints a ha b hb same
      refine ⟨stores', ?_⟩
      obtain ⟨new, grown, observed⟩ := deliverCalendar_events platform state d
      have split : vintages (deliverCalendar platform state d).1 hash =
          vintages state.1 hash ++ new.filter (·.providerEventKey = hash) := by
        rw [vintages_congr (show _ = ({ state.1 with events := state.1.events ++ new } : Db).events from grown),
          vintages_append]
      have short : (new.filter (·.providerEventKey = hash)).length ≤ 1 := by
        have total := stores'.length_eq
        have old := stores.length_eq
        have step := length_replay_append_le (keptOf state.2 key)
          (keptOf (entriesOf platform d) key)
        have one := length_keptOf_le key (single d (by simp))
        rw [split, List.length_append, keptOf_append] at total
        omega
      rw [split, List.pairwise_append]
      refine ⟨ascending, ?_, fun a ha b hb => ?_⟩
      · exact pairwise_of_length_le_one short
      · obtain ⟨d', hd', same⟩ := rows a (List.mem_filter.mp ha).1
        rw [same, observed b (List.mem_filter.mp hb).1]
        exact later d' hd' d (List.mem_singleton_self _)
    · rw [delivered, vintages_congr events]
      exact ⟨stores, ascending⟩

/-- A loop that comes through has digested the key of every entry. -/
theorem loop_digests {policy : SourcePolicy} {result : FetchResult} {retrieval : RawRetrieval}
    {items : List CalendarValue} {mid db' : Db} {created created' : ℕ}
    (h : loop (storeOfficialEvent platform policy result retrieval) items mid created =
      .ok (db', created')) :
    ∀ item ∈ items, ∃ hash, platform.digest (officialIdentity policy item) = .ok hash := by
  induction items generalizing mid created with
  | nil => simp
  | cons first items ih =>
    obtain ⟨⟨next, count⟩, stored, rest⟩ := bind_eq_ok.mp h
    obtain ⟨row, rowKey, -⟩ := storeOfficialEvent_cases stored
    intro item hitem
    rcases List.mem_cons.mp hitem with rfl | hitem
    · exact ⟨_, rowKey⟩
    · exact ih rest item hitem

theorem run_digests {e : Entry} (h : e ∈ (runCalendar platform db ds).2) (kept : e.kept) :
    ∃ hash, platform.digest e.key = .ok hash := by
  induction ds using List.reverseRecOn with
  | nil => cases h
  | append_singleton ds d ih =>
    rw [runCalendar_concat] at h
    obtain ⟨items, retrieval, mid, db₁, created, parsed, -, looped, -, delivered⟩ |
      ⟨-, delivered⟩ := deliverCalendar_cases platform (runCalendar platform db ds) d
    · rw [delivered, List.mem_append] at h
      rcases h with h | h
      · exact ih h
      · rw [entriesOf_ok parsed] at h
        obtain ⟨item, hitem, rfl⟩ := List.mem_map.mp h
        exact loop_digests looped item (List.mem_filter.mpr ⟨hitem, kept⟩)
    · exact ih (delivered ▸ h)

/-- The fingerprints of delivered payloads tell them apart. -/
theorem payload_eq_of_fingerprint (apart : TellsApart platform (runCalendar platform db ds).2)
    {a b : Entry} (ha : a ∈ (runCalendar platform db ds).2)
    (hb : b ∈ (runCalendar platform db ds).2)
    (same : fingerprintOf platform a.payload = fingerprintOf platform b.payload) :
    a.payload = b.payload := by
  have shape {e : Entry} (he : e ∈ (runCalendar platform db ds).2) :
      ∃ item, e.payload = payloadOf item ∧ item.country = seriesCountry item.seriesCode := by
    clear ha hb apart
    induction ds using List.reverseRecOn with
    | nil => cases he
    | append_singleton ds d ih =>
      rw [runCalendar_concat] at he
      obtain ⟨new, grown, source⟩ := deliverCalendar_entries platform (runCalendar platform db ds) d
      rw [grown, List.mem_append] at he
      rcases he with he | he
      · exact ih he
      · rcases source with rfl | rfl
        · cases he
        · exact (mem_entriesOf he).2
  have texts := apart.fingerprint a ha b hb same
  obtain ⟨p, hp, pc⟩ := shape ha
  obtain ⟨q, hq, qc⟩ := shape hb
  have times := apart.stamp a ha b hb (by
    simp only [officialPayload, List.cons.injEq, Prod.mk.injEq, Option.some.injEq] at texts
    exact texts.1.2)
  rw [hp, hq] at texts times ⊢
  simp only [officialPayload, payloadOf, List.cons.injEq, Prod.mk.injEq, Option.some.injEq,
    true_and, and_true] at texts times ⊢
  obtain ⟨-, eventType, period, sourceUrl, status, timePrecision, seriesCode⟩ := texts
  rw [CalendarValue.mk.injEq]
  exact ⟨times, by rw [pc, qc, seriesCode], eventType, rfl, period, rfl, rfl, rfl, rfl, sourceUrl,
    status, timePrecision, seriesCode⟩

theorem lastDelivered_eq {c : Instant} :
    lastDelivered entries key c =
      (((entries.filter (·.deliveredAt ≤ c)).filter (·.key = key)).map (·.payload)).getLast? := by
  rw [lastDelivered, List.filter_filter]
  congr 2
  refine List.filter_congr fun e _ => ?_
  simp

theorem keptPayloads_eq {c : Instant} :
    keptPayloads entries key c = keptOf (entries.filter (·.deliveredAt ≤ c)) key := by
  rw [keptPayloads, keptOf, List.filter_filter]
  congr 1
  refine List.filter_congr fun e _ => ?_
  simp [Bool.and_assoc]

theorem upcoming_vintages_eq {c : Instant} {places : List String} {before : Db}
    (h : db.events.filter (·.firstObservedAt ≤ c) = before.events) :
    (vintages db hash).filter (isUpcoming places c) =
      (vintages before hash).filter (isUpcoming places c) := by
  rw [vintages, vintages, ← h, List.filter_filter, List.filter_filter, List.filter_filter]
  refine List.filter_congr fun row _ => ?_
  by_cases early : row.firstObservedAt ≤ c <;> simp [isUpcoming, early]

/-- The row a capture lists for a key is the newest visible vintage; it stores the newest visible
payload kept for the key. -/
theorem lists_iff (empty : db.events = []) (increasing : Increasing ds)
    (single : ∀ d ∈ ds, OnePerKey platform d)
    (apart : TellsApart platform (runCalendar platform db ds).2) (places : List String)
    (capturedAt : Instant) (delivered : ∃ e ∈ (runCalendar platform db ds).2, e.key = key)
    (keyed : platform.digest key = .ok hash) :
    ∃ listed : Option EconomicEvent,
      (∀ row, Lists platform (runCalendar platform db ds).1 places capturedAt key row ↔
        listed = some row) ∧
      ((listed = none ∧ ((replay (keptPayloads (runCalendar platform db ds).2 key
          capturedAt)).filter (isVisible places capturedAt)).getLast? = none) ∨
        ∃ row payload, listed = some row ∧ ((replay (keptPayloads (runCalendar platform db ds).2 key
          capturedAt)).filter (isVisible places capturedAt)).getLast? = some payload ∧
          Stores platform row payload) := by
  have hkeys {es : List Entry} (sub : ∀ e ∈ es, e ∈ (runCalendar platform db ds).2) :
      ∀ e ∈ es, platform.digest e.key = .ok hash → e.key = key := by
    intro e he same
    obtain ⟨own, hown, rfl⟩ := delivered
    exact apart.key e (sub e he) own hown (same.trans keyed.symm)
  obtain ⟨rowsUpto, entriesUpto⟩ :=
    run_upto platform empty increasing capturedAt
  have sub : ∀ e ∈ (runCalendar platform db (ds.filter (·.result.fetchedAt ≤ capturedAt))).2,
      e ∈ (runCalendar platform db ds).2 := by
    intro e he
    rw [← entriesUpto] at he
    exact (List.mem_filter.mp he).1
  have early : ∀ row ∈ (runCalendar platform db (ds.filter
      (·.result.fetchedAt ≤ capturedAt))).1.events, row.firstObservedAt ≤ capturedAt := by
    intro row hrow
    rw [← rowsUpto] at hrow
    exact of_decide_eq_true (List.mem_filter.mp hrow).2
  have ascending := (run_vintages _ empty increasing single keyed (hkeys fun _ h => h)
    (fun a ha b hb => payload_eq_of_fingerprint apart ha hb)).2
  obtain ⟨stores, -⟩ := run_vintages (ds.filter (·.result.fetchedAt ≤ capturedAt)) empty
    (increasing.filter _) (fun d h => single d (List.mem_filter.mp h).1) keyed (hkeys sub)
    (fun a ha b hb => payload_eq_of_fingerprint apart (sub a ha) (sub b hb))
  refine ⟨((vintages (runCalendar platform db ds).1 hash).filter
    (isUpcoming places capturedAt)).getLast?, fun row => ?_, ?_⟩
  · constructor
    · rintro ⟨member, sameKey⟩
      obtain rfl : hash = row.providerEventKey := Except.ok.inj (keyed.symm.trans sameKey)
      exact (upcoming_vintage_iff ascending).mp member
    · intro last
      have member := (List.mem_filter.mp (List.mem_of_getLast? last)).1
      obtain rfl : row.providerEventKey = hash := of_decide_eq_true (List.mem_filter.mp member).2
      exact ⟨(upcoming_vintage_iff ascending).mpr last, keyed⟩
  · rw [upcoming_vintages_eq rowsUpto, keptPayloads_eq, entriesUpto]
    have visible := forall₂_filter (p := isUpcoming places capturedAt)
      (q := isVisible places capturedAt) stores (by
        intro row hrow payload hstores
        have known := early row (List.mem_filter.mp hrow).1
        simp [isUpcoming, isVisible, known, hstores.country, hstores.eventAt])
    rcases forall₂_getLast? visible with ⟨none, none'⟩ | ⟨row, payload, some, some', hstores⟩
    · exact Or.inl ⟨none, none'⟩
    · exact Or.inr ⟨row, payload, some, some', hstores⟩

end

/-- **Event vintages.** In a run of official ingests with one payload per key and increasing fetch
times, a capture lists a key exactly when the payload delivered last for it is visible, and then
that payload, if and only if no other visible payload kept for the key stands in its way. -/
theorem calendar_follows_iff (platform : Platform) (db : Db) (ds : List CalendarDelivery)
    (empty : db.events = []) (increasing : Increasing ds)
    (single : ∀ d ∈ ds, OnePerKey platform d)
    (apart : TellsApart platform (runCalendar platform db ds).2) (places : List String)
    (capturedAt : Instant) (key : String)
    (delivered : ∃ e ∈ (runCalendar platform db ds).2, e.key = key) :
    FollowsCalendar platform (runCalendar platform db ds) places capturedAt key ↔
      LastStandsOut (runCalendar platform db ds).2 places capturedAt key := by
  unfold FollowsCalendar LastStandsOut
  set es := (runCalendar platform db ds).2 with hes
  have ofLast {p : CalendarValue} (h : lastDelivered es key capturedAt = some p) :
      ∃ e ∈ es, e.payload = p := by
    obtain ⟨e, he, rfl⟩ := List.mem_map.mp (List.mem_of_getLast? h)
    exact ⟨e, (List.mem_filter.mp he).1, rfl⟩
  have ofKept {p : CalendarValue} (h : p ∈ keptPayloads es key capturedAt) :
      ∃ e ∈ es, e.kept ∧ e.key = key ∧ e.payload = p := by
    obtain ⟨e, he, rfl⟩ := List.mem_map.mp h
    obtain ⟨member, condition⟩ := List.mem_filter.mp he
    have condition := of_decide_eq_true condition
    exact ⟨e, member, condition.1, condition.2.1, rfl⟩
  cases keyed : platform.digest key with
  | error error =>
    have unlisted (row : EconomicEvent) :
        ¬ Lists platform (runCalendar platform db ds).1 places capturedAt key row := by
      rintro ⟨-, same⟩
      rw [keyed] at same
      cases same
    have noKept : keptPayloads es key capturedAt = [] := by
      refine List.eq_nil_iff_forall_not_mem.mpr fun p hp => ?_
      obtain ⟨e, he, hkept, rfl, -⟩ := ofKept hp
      obtain ⟨hash, ok⟩ := run_digests he hkept
      rw [keyed] at ok
      cases ok
    simp only [unlisted, exists_false, false_iff, not_exists, not_and, false_implies,
      implies_true, and_true, noKept, List.not_mem_nil]
  | ok hash =>
    obtain ⟨listed, lists, stored⟩ := lists_iff empty increasing single apart
      places capturedAt delivered keyed
    rw [← getLast?_filter_replay_eq_iff]
    simp only [lists]
    rcases stored with ⟨rfl, none⟩ | ⟨row, payload, rfl, some, stores⟩
    · rw [← hes] at none
      rw [none]
      simp only [reduceCtorEq, exists_false, false_iff, not_exists, not_and, false_implies,
        implies_true, and_true]
      constructor
      · intro invisible
        cases kept : (lastDelivered es key capturedAt).filter (isVisible places capturedAt) with
        | none => rfl
        | some p =>
          obtain ⟨hp, visible⟩ := Option.filter_eq_some_iff.mp kept
          exact absurd visible (invisible p hp)
      · intro same p hp visible
        rw [hp, Option.filter_some, if_pos visible] at same
        cases same
    · rw [← hes] at some
      rw [some]
      constructor
      · rintro ⟨present, shown⟩
        obtain ⟨p, hp, visible⟩ := present.mp ⟨row, rfl⟩
        have storesLast := shown row p rfl hp
        obtain ⟨a, ha, rfl⟩ := ofLast hp
        obtain ⟨member, -⟩ := List.mem_filter.mp (List.mem_of_getLast? some)
        obtain ⟨b, hb, -, -, rfl⟩ := ofKept (mem_replay.mp member)
        have equal := payload_eq_of_fingerprint apart hb ha
          (stores.fingerprint.trans storesLast.fingerprint.symm)
        rw [hp, Option.filter_some, if_pos visible, equal]
      · intro same
        obtain ⟨hp, visible⟩ := Option.filter_eq_some_iff.mp same.symm
        refine ⟨⟨fun _ => ⟨payload, hp, visible⟩, fun _ => ⟨row, rfl⟩⟩, ?_⟩
        rintro row' payload' ⟨⟩ hp'
        rw [hp] at hp'
        cases hp'
        exact stores

/-! ## A release moved and moved back -/

/-- The Statistics Canada schedule with one release. -/
def releaseBody (date : String) : String :=
  "[\x7b\"title\":\"Consumer Price Index\",\"date\":\"" ++ date ++
    "\",\"description\":\"July 2026\"\x7d]"

/-- The value `json.loads` makes of it. -/
def releaseJson (date : String) : Val :=
  .list [.dict [("title", .str "Consumer Price Index"), ("date", .str date),
    ("description", .str "July 2026")]]

/-- 08:30 in Toronto on a day of August 2026. -/
def releaseTime (dayOfAugust : ℤ) : Instant := (20665 + dayOfAugust) * day + 45000000000

/-- The JSON the payload of a release is fingerprinted by. -/
def releasePayloadText (stamp : String) : String :=
  "\x7b\"event_at\": \"" ++ stamp ++ "\", \"event_type\": \"Consumer Price Index\", " ++
    "\"period\": \"July 2026\", \"series_code\": \"CA_CPI_YOY\", \"source_url\": \"\", " ++
    "\"status\": \"scheduled\", \"time_precision\": \"exact\"\x7d"

def releasePlatform : Platform := asciiPlatform
  { json := [(releaseBody "2026-08-18", releaseJson "2026-08-18"),
      (releaseBody "2026-08-19", releaseJson "2026-08-19")]
    dates := [(("2026-08-18", "%Y-%m-%d"), ⟨⟨2026, 8, 18⟩, 0⟩),
      (("2026-08-19", "%Y-%m-%d"), ⟨⟨2026, 8, 19⟩, 0⟩)]
    stamps := [(releaseTime 18, "2026-08-18T12:30:00+00:00"),
      (releaseTime 19, "2026-08-19T12:30:00+00:00")]
    digests :=
      [("statistics-canada|Consumer Price Index|July 2026",
          "18360642be18b4b31974d22cd57072f6bc9ea00561e1f8d3d5d64a334663fe77"),
        (releasePayloadText "2026-08-18T12:30:00+00:00",
          "239e28fc99ab54a31346fd6bb0d875efe02dcc973a533d9975f2923ff496fed5"),
        (releasePayloadText "2026-08-19T12:30:00+00:00",
          "64e145f7b1a2c0ab6cffbc186cd73a5f7fbae26d7b7eb2bd8f5090ea31d1742d"),
        (releaseBody "2026-08-18",
          "e6c47706ba986649cc143bee85d78c508328b7d08e228daae08886f3816a93c3"),
        (releaseBody "2026-08-19",
          "76f79cf6e091e6202810d9c4d63bf1c94c7d87440f8d9865a7148664a2af973e")] }

/-- The schedule as fetched at midnight of a day of August 2026. -/
def scheduleOn (dayOfAugust : ℤ) (date : String) : CalendarDelivery where
  policy := ⟨2, "statistics-canada", "official-public-record"⟩
  parser := "statcan"
  observedAt := (20665 + dayOfAugust) * day
  result :=
    { url := "https://www150.statcan.gc.ca/n1/dai-quo/ssi/homepage/schedule-key_indicators-eng.json"
      fetchedAt := (20665 + dayOfAugust) * day
      statusCode := 200
      contentType := "application/json"
      body := asciiBody (releaseBody date)
      etag := ""
      lastModified := ""
      requestFingerprint := "" }

/-- A release is moved by a day and moved back. -/
def movedBack : List CalendarDelivery :=
  [scheduleOn 1 "2026-08-18", scheduleOn 2 "2026-08-19", scheduleOn 3 "2026-08-18"]

def releaseKey : String := "statistics-canada|Consumer Price Index|July 2026"

/-- The payload of a release. -/
def releasePayload (dayOfAugust : ℤ) : CalendarValue where
  eventAt := releaseTime dayOfAugust
  country := "CA"
  eventType := "Consumer Price Index"
  period := "July 2026"
  seriesCode := "CA_CPI_YOY"

/-- The vintage of the moved release. -/
def movedRow : EconomicEvent where
  retrieval := 2
  series := none
  providerEventKey := "18360642be18b4b31974d22cd57072f6bc9ea00561e1f8d3d5d64a334663fe77"
  eventAt := releaseTime 19
  timePrecision := "exact"
  country := "CA"
  eventType := "Consumer Price Index"
  sourceUrl := ""
  status := "scheduled"
  comparison := ""
  period := "July 2026"
  actual := none
  estimate := none
  previous := none
  payloadFingerprint := "64e145f7b1a2c0ab6cffbc186cd73a5f7fbae26d7b7eb2bd8f5090ea31d1742d"
  firstObservedAt := 20667 * day

-- evaluated once: apart, each of these would run the deliveries again
theorem run_movedBack :
    (runCalendar releasePlatform {} movedBack).2 =
      [⟨20666 * day, releaseKey, releasePayload 18, true⟩,
       ⟨20667 * day, releaseKey, releasePayload 19, true⟩,
       ⟨20668 * day, releaseKey, releasePayload 18, true⟩] ∧
    ((vintages (runCalendar releasePlatform {} movedBack).1 movedRow.providerEventKey).Pairwise
      fun a b => a.firstObservedAt < b.firstObservedAt) ∧
    ((vintages (runCalendar releasePlatform {} movedBack).1 movedRow.providerEventKey).filter
      (isUpcoming ["US", "CA"] (20669 * day))).getLast? = some movedRow ∧
    ∀ d ∈ movedBack, ((entriesOf releasePlatform d).map (·.key)).Nodup := by
  decide +kernel

theorem entries_movedBack : (runCalendar releasePlatform {} movedBack).2 =
    [⟨20666 * day, releaseKey, releasePayload 18, true⟩,
     ⟨20667 * day, releaseKey, releasePayload 19, true⟩,
     ⟨20668 * day, releaseKey, releasePayload 18, true⟩] :=
  run_movedBack.1

theorem increasing_movedBack : Increasing movedBack := by
  unfold Increasing
  decide

theorem onePerKey_movedBack : ∀ d ∈ movedBack, OnePerKey releasePlatform d :=
  run_movedBack.2.2.2

theorem tellsApart_movedBack :
    TellsApart releasePlatform (runCalendar releasePlatform {} movedBack).2 := by
  rw [entries_movedBack]
  exact ⟨by decide +kernel, by decide +kernel, by decide +kernel⟩

theorem calendar_follows_iff_movedBack :
    FollowsCalendar releasePlatform (runCalendar releasePlatform {} movedBack) ["US", "CA"]
        (20669 * day) releaseKey ↔
      LastStandsOut (runCalendar releasePlatform {} movedBack).2 ["US", "CA"] (20669 * day)
        releaseKey :=
  calendar_follows_iff releasePlatform {} movedBack rfl increasing_movedBack onePerKey_movedBack
    tellsApart_movedBack ["US", "CA"] (20669 * day) releaseKey
    (by rw [entries_movedBack]; exact ⟨_, List.mem_cons_self, rfl⟩)

/-- After the release moved back a capture of USD_CAD still lists the moved date. -/
theorem moved_release_stays :
    Increasing movedBack ∧ (∀ d ∈ movedBack, OnePerKey releasePlatform d) ∧
    TellsApart releasePlatform (runCalendar releasePlatform {} movedBack).2 ∧
    Lists releasePlatform (runCalendar releasePlatform {} movedBack).1 ["US", "CA"]
      (20669 * day) releaseKey movedRow ∧
    lastDelivered (runCalendar releasePlatform {} movedBack).2 releaseKey (20669 * day) =
      some (releasePayload 18) ∧
    ¬ FollowsCalendar releasePlatform (runCalendar releasePlatform {} movedBack) ["US", "CA"]
      (20669 * day) releaseKey := by
  have lists : Lists releasePlatform (runCalendar releasePlatform {} movedBack).1 ["US", "CA"]
      (20669 * day) releaseKey movedRow := by
    obtain ⟨-, ascending, last, -⟩ := run_movedBack
    exact ⟨(upcoming_vintage_iff ascending).mpr last, by decide +kernel⟩
  have last : lastDelivered (runCalendar releasePlatform {} movedBack).2 releaseKey
      (20669 * day) = some (releasePayload 18) := by
    rw [entries_movedBack]
    decide
  refine ⟨increasing_movedBack, onePerKey_movedBack, tellsApart_movedBack, lists, last, ?_⟩
  rintro ⟨-, shows⟩
  have moved := (shows movedRow (releasePayload 18) lists last).eventAt
  exact absurd moved (by decide)

end TradeRecommender.Research
