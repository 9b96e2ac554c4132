import TradeRecommender.Lib.Vintage
import TradeRecommender.Research.FailClosed
import TradeRecommender.Research.Ascii

/-!
# Macro vintages

The revisions of a period, in the order of their creation, are an append-if-absent ledger of the
delivered values (`revisions_after`), numbered from 0.  So the head of the history follows the
provider exactly as long as no value returns to one that was replaced (`macro_vintages_follow_iff`).
-/

namespace TradeRecommender.Research

open Py Civil Vintage

/-! ## Runs of accepted responses -/

/-- A response for a series. -/
structure Delivery where
  series : MacroSeries
  result : FetchResult

section
variable (platform : Platform)

/-- The values a response delivers. -/
def values (d : Delivery) : List MacroValue :=
  match parseMacro platform.toStdlib d.series d.result.body with
  | .ok values => values
  | .error _ => []

/-- One `ingest_macro` call. -/
def deliver (db : Db) (d : Delivery) : Except Exc RawRetrieval × Db :=
  ingestMacro platform d.series d.result db

/-- The store after a sequence of responses. -/
def afterAll (db : Db) (ds : List Delivery) : Db :=
  ds.foldl (fun db d => (deliver platform db d).2) db

/-- Every response of the sequence is accepted. -/
def AllAccepted (db : Db) (ds : List Delivery) : Prop :=
  ∀ pre d, pre ++ [d] <+: ds →
    ∃ retrieval, (deliver platform (afterAll platform db pre) d).1 = .ok retrieval

/-- A response gives at most one value per period. -/
def OnePerPeriod (d : Delivery) : Prop := ((values platform d).map (·.period)).Nodup

/-- The values a response delivers for a period of a series. -/
def deliveredBy (series : ℕ) (period : Date) (d : Delivery) : List String :=
  if d.series.pk = series then
    ((values platform d).filter (·.period = period)).map (·.normalizedValue)
  else []

/-- The values a sequence of responses delivers for a period of a series, oldest first. -/
def delivered (series : ℕ) (period : Date) (ds : List Delivery) : List String :=
  ds.flatMap (deliveredBy platform series period)

/-- After a response: every period it contains has the delivered value at its head, every
history is numbered from 0, and ingesting the body again stores no observation. -/
structure Follows (d : Delivery) (db : Db) : Prop where
  head : ∀ item ∈ values platform d,
    (headRevision db d.series.pk item.period).map (·.normalizedValue) =
      some item.normalizedValue
  dense : ∀ series period,
    (revisions db series period).map (·.revisionSequence) =
      List.range (revisions db series period).length
  settled : ∀ result : FetchResult, result.body = d.result.body →
    (ingestMacro platform d.series result db).2.observations = db.observations

end

/-! ## Histories numbered from 0 -/

/-- The revisions are numbered from 0 in the order of their creation. -/
def Dense (rows : List MacroObservation) : Prop :=
  rows.map (·.revisionSequence) = List.range rows.length

theorem Dense.nil : Dense [] := rfl

theorem dense_concat {rows : List MacroObservation} {row : MacroObservation} :
    Dense (rows ++ [row]) ↔ Dense rows ∧ row.revisionSequence = rows.length := by
  unfold Dense
  rw [List.map_append, List.length_append, List.length_singleton, List.range_succ]
  constructor
  · intro h
    obtain ⟨h₁, h₂⟩ := List.append_inj' h rfl
    exact ⟨h₁, by simpa using h₂⟩
  · rintro ⟨h₁, h₂⟩
    rw [h₁, List.map_singleton, h₂]

/-- The highest revision of a dense history is its last row. -/
theorem Dense.argmax_eq {rows : List MacroObservation} (h : Dense rows) :
    rows.argmax (·.revisionSequence) = rows.getLast? := by
  induction rows using List.reverseRecOn with
  | nil => rfl
  | append_singleton rows row ih =>
    obtain ⟨dense, last⟩ := dense_concat.mp h
    rw [List.argmax_concat, List.getLast?_concat, ih dense]
    cases prior : rows.getLast? with
    | none => rfl
    | some top =>
      have member : top.revisionSequence ∈ rows.map (·.revisionSequence) :=
        List.mem_map_of_mem (List.mem_of_getLast? prior)
      rw [dense, List.mem_range] at member
      simp [last, member]

/-- The number of the row that follows a dense history. -/
theorem Dense.next_eq {rows : List MacroObservation} (h : Dense rows) :
    (match rows.getLast? with
    | some previous => previous.revisionSequence + 1
    | none => 0) = rows.length := by
  induction rows using List.reverseRecOn with
  | nil => rfl
  | append_singleton rows row _ =>
    rw [List.getLast?_concat, List.length_append]
    show row.revisionSequence + 1 = rows.length + 1
    rw [(dense_concat.mp h).2]

/-! ## The ledger of a period -/

/-- The stored values of a period, oldest first. -/
def ledger (db : Db) (series : ℕ) (period : Date) : List String :=
  (revisions db series period).map (·.normalizedValue)

/-- Every history is numbered from 0. -/
def AllDense (db : Db) : Prop := ∀ series period, Dense (revisions db series period)

section
variable {platform : Platform} {series : MacroSeries} {result : FetchResult}
  {retrieval : RawRetrieval} {db db' : Db} {created created' : ℕ}

theorem revisions_concat (db : Db) (row : MacroObservation) (s : ℕ) (p : Date) :
    revisions { db with observations := db.observations ++ [row] } s p =
      if row.series = s ∧ row.observationPeriod = p then revisions db s p ++ [row]
      else revisions db s p := by
  unfold revisions
  rw [List.filter_append]
  by_cases h : row.series = s ∧ row.observationPeriod = p
  · rw [if_pos h, List.filter_singleton]
    simp [h]
  · rw [if_neg h, List.filter_singleton]
    simp [h]

/-- A value already in the ledger changes nothing; another one is appended to it. -/
theorem storeMacroValue_observations {item : MacroValue}
    (h : storeMacroValue platform series result retrieval db created item = .ok (db', created')) :
    db'.observations = if item.normalizedValue ∈ ledger db series.pk item.period
      then db.observations
      else db.observations ++ [observationOf series result retrieval
        (headRevision db series.pk item.period) item] := by
  have present : ((revisions db series.pk item.period).any
      (·.normalizedValue = item.normalizedValue)) = true ↔
      item.normalizedValue ∈ ledger db series.pk item.period := by
    simp [ledger]
  unfold storeMacroValue at h
  simp only [present] at h
  split at h
  · next known =>
    cases h
    rw [if_pos known]
  · next fresh =>
    obtain ⟨db₁, added, h⟩ := bind_eq_ok.mp h
    obtain ⟨db₂, noted, h⟩ := bind_eq_ok.mp h
    cases h
    obtain ⟨rows, rfl⟩ := noteRevision_ok noted
    rw [if_neg fresh, Db.addObservation_ok added]

theorem revisions_congr (h : db'.observations = db.observations) (s : ℕ) (p : Date) :
    revisions db' s p = revisions db s p := by
  unfold revisions
  rw [h]

/-- What one value does to the history of a period. -/
theorem storeMacroValue_revisions {item : MacroValue}
    (h : storeMacroValue platform series result retrieval db created item = .ok (db', created'))
    (s : ℕ) (p : Date) :
    revisions db' s p =
      if (series.pk = s ∧ item.period = p) ∧ item.normalizedValue ∉ ledger db s p
      then revisions db s p ++ [observationOf series result retrieval (headRevision db s p) item]
      else revisions db s p := by
  have hobs := storeMacroValue_observations h
  by_cases known : item.normalizedValue ∈ ledger db series.pk item.period
  · rw [if_pos known] at hobs
    rw [revisions_congr hobs, if_neg]
    rintro ⟨⟨rfl, rfl⟩, fresh⟩
    exact fresh known
  · rw [if_neg known] at hobs
    rw [revisions_congr (show _ = ({ db with observations := _ } : Db).observations from hobs), revisions_concat]
    by_cases here : series.pk = s ∧ item.period = p
    · obtain ⟨rfl, rfl⟩ := here
      rw [if_pos ⟨rfl, rfl⟩, if_pos ⟨⟨rfl, rfl⟩, known⟩]
    · exact (if_neg here).trans (if_neg fun h => here h.1).symm

/-- The value just offered is in the ledger. -/
theorem storeMacroValue_ledger {item : MacroValue}
    (h : storeMacroValue platform series result retrieval db created item = .ok (db', created'))
    (s : ℕ) (p : Date) :
    ledger db' s p = if series.pk = s ∧ item.period = p
      then record (ledger db s p) item.normalizedValue else ledger db s p := by
  unfold ledger
  rw [storeMacroValue_revisions h s p]
  by_cases here : series.pk = s ∧ item.period = p
  · by_cases known : item.normalizedValue ∈ ledger db s p
    · rw [if_neg (fun h => h.2 known), if_pos here]
      exact (record_of_mem known).symm
    · rw [if_pos ⟨here, known⟩, if_pos here, List.map_append]
      exact (record_of_not_mem known).symm
  · rw [if_neg fun h => here h.1, if_neg here]

theorem storeMacroValue_dense {item : MacroValue} (dense : AllDense db)
    (h : storeMacroValue platform series result retrieval db created item = .ok (db', created')) :
    AllDense db' := by
  intro s p
  rw [storeMacroValue_revisions h s p]
  split
  · refine dense_concat.mpr ⟨dense s p, ?_⟩
    show (match headRevision db s p with
      | some previous => previous.revisionSequence + 1
      | none => 0) = _
    rw [headRevision, (dense s p).argmax_eq]
    exact (dense s p).next_eq
  · exact dense s p

/-- The loop appends the values of each period to its ledger, in order. -/
theorem loop_ledger {items : List MacroValue}
    (h : loop (storeMacroValue platform series result retrieval) items db created =
      .ok (db', created')) (s : ℕ) (p : Date) :
    ledger db' s p = (if series.pk = s then
      (items.filter (·.period = p)).map (·.normalizedValue) else []).foldl record
        (ledger db s p) := by
  induction items generalizing db created with
  | nil =>
    cases h
    simp
  | cons item items ih =>
    obtain ⟨⟨mid, count⟩, first, rest⟩ := bind_eq_ok.mp h
    rw [ih rest, storeMacroValue_ledger first]
    by_cases hs : series.pk = s
    · by_cases hp : item.period = p
      · simp [hs, hp]
      · simp [hs, hp]
    · simp [hs]

theorem loop_dense {items : List MacroValue} (dense : AllDense db)
    (h : loop (storeMacroValue platform series result retrieval) items db created =
      .ok (db', created')) : AllDense db' :=
  loop_rel (fun a b => AllDense a → AllDense b) (fun _ h => h) (fun h₁ h₂ h => h₂ (h₁ h))
    (fun _ _ _ _ _ step dense => storeMacroValue_dense dense step) h dense

/-- A loop over values the store already has changes nothing. -/
theorem loop_known {items : List MacroValue}
    (known : ∀ item ∈ items, item.normalizedValue ∈ ledger db series.pk item.period) :
    loop (storeMacroValue platform series result retrieval) items db created =
      .ok (db, created) := by
  induction items with
  | nil => rfl
  | cons item items ih =>
    have first : storeMacroValue platform series result retrieval db created item =
        .ok (db, created) := by
      have here := known item List.mem_cons_self
      refine if_pos ?_
      simpa [ledger] using here
    show (storeMacroValue platform series result retrieval db created item >>= fun stored =>
      loop _ items stored.1 stored.2) = _
    rw [first]
    exact ih fun item h => known item (List.mem_cons_of_mem _ h)

end

/-! ## One response -/

section
variable {platform : Platform} {db : Db} {d : Delivery} {retrieval : RawRetrieval}

/-- The rows of a macro response: ledgers and numbering after its loop. -/
theorem macroStore_ok {series : MacroSeries} {result : FetchResult} {items : List MacroValue}
    {db' : Db} (h : (macroIngest platform series).store result retrieval items db = .ok db') :
    ∃ db₁ created audits, db' = { db₁ with audits := audits } ∧
      loop (storeMacroValue platform series result retrieval) items db 0 = .ok (db₁, created) := by
  obtain ⟨⟨db₁, created⟩, looped, audited⟩ := bind_eq_ok.mp h
  obtain ⟨audits, rfl⟩ := Db.audit_ok audited
  exact ⟨db₁, created, audits, rfl, looped⟩

/-- An accepted response appends its values to the ledgers and keeps the numbering. -/
theorem deliver_ok (h : (deliver platform db d).1 = .ok retrieval) :
    (∀ s p, ledger (deliver platform db d).2 s p =
        (deliveredBy platform s p d).foldl record (ledger db s p)) ∧
      (AllDense db → AllDense (deliver platform db d).2) := by
  unfold deliver ingestMacro at h ⊢
  obtain ⟨row, items, db', parsed, -, -, written, outcome⟩ | ⟨error, retrievals, audits, outcome⟩ :=
    ingest_cases platform (macroIngest platform d.series) d.result db
  · rw [outcome]
    have hvalues : values platform d = items := by
      unfold values
      rw [show parseMacro platform.toStdlib d.series d.result.body = .ok items from parsed]
    obtain ⟨db₁, created, audits, rfl, looped⟩ := macroStore_ok written
    constructor
    · intro s p
      show ledger db₁ s p = _
      rw [loop_ledger looped, deliveredBy, hvalues]
      rfl
    · intro dense
      have start : AllDense { db with retrievals := db.retrievals ++ [row] } := dense
      have after : AllDense db₁ := loop_dense start looped
      exact after
  · rw [outcome] at h
    cases h

/-- Ingesting a body whose values are all stored adds no observation. -/
theorem ingestMacro_known {series : MacroSeries} {result : FetchResult}
    (known : ∀ items, parseMacro platform.toStdlib series result.body = .ok items →
      ∀ item ∈ items, item.normalizedValue ∈ ledger db series.pk item.period) :
    (ingestMacro platform series result db).2.observations = db.observations := by
  unfold ingestMacro
  obtain ⟨row, items, db', parsed, -, -, written, outcome⟩ | ⟨error, retrievals, audits, outcome⟩ :=
    ingest_cases platform (macroIngest platform series) result db
  · rw [outcome]
    obtain ⟨db₁, created, audits, rfl, looped⟩ := macroStore_ok written
    have kept : loop (storeMacroValue platform series result row) items
        { db with retrievals := db.retrievals ++ [row] } 0 = .ok (_, 0) :=
      loop_known (known items parsed)
    have idle := kept.symm.trans looped
    cases idle
    rfl
  · rw [outcome]

end

/-! ## Runs -/

section
variable {platform : Platform} {db : Db} {ds : List Delivery} {d : Delivery}

theorem afterAll_concat (db : Db) (ds : List Delivery) (d : Delivery) :
    afterAll platform db (ds ++ [d]) = (deliver platform (afterAll platform db ds) d).2 := by
  simp [afterAll]

theorem allAccepted_concat :
    AllAccepted platform db (ds ++ [d]) ↔ AllAccepted platform db ds ∧
      ∃ retrieval, (deliver platform (afterAll platform db ds) d).1 = .ok retrieval :=
  forall_concat_prefix

theorem delivered_concat (s : ℕ) (p : Date) :
    delivered platform s p (ds ++ [d]) =
      delivered platform s p ds ++ deliveredBy platform s p d := by
  simp [delivered]

/-- **The refinement.** After a run over an empty table the ledger of every period is the
append-if-absent ledger of the values delivered for it. -/
theorem revisions_after (empty : db.observations = []) (accepted : AllAccepted platform db ds) :
    (∀ s p, ledger (afterAll platform db ds) s p = replay (delivered platform s p ds)) ∧
      AllDense (afterAll platform db ds) := by
  induction ds using List.reverseRecOn with
  | nil =>
    have none (s p) : revisions db s p = [] := by simp [revisions, empty]
    refine ⟨fun s p => ?_, fun s p => ?_⟩
    · show (revisions db s p).map _ = []
      rw [none]
      rfl
    · show Dense (revisions db s p)
      rw [none]
      exact Dense.nil
  | append_singleton ds d ih =>
    obtain ⟨before, retrieval, now⟩ := allAccepted_concat.mp accepted
    obtain ⟨ledgers, dense⟩ := ih before
    obtain ⟨step, keeps⟩ := deliver_ok now
    rw [afterAll_concat]
    refine ⟨fun s p => ?_, keeps dense⟩
    rw [step, ledgers, delivered_concat, replay, replay, List.foldl_append]

/-- The head of a dense history is the last value of its ledger. -/
theorem headRevision_value {db : Db} (dense : AllDense db) (s : ℕ) (p : Date) :
    (headRevision db s p).map (·.normalizedValue) = (ledger db s p).getLast? := by
  unfold headRevision ledger
  rw [(dense s p).argmax_eq, List.getLast?_map]

theorem mem_deliveredBy {item : MacroValue} (h : item ∈ values platform d) :
    item.normalizedValue ∈ deliveredBy platform d.series.pk item.period d := by
  unfold deliveredBy
  rw [if_pos rfl]
  exact List.mem_map_of_mem (List.mem_filter.mpr ⟨h, decide_eq_true rfl⟩)

/-- A response with one value per period delivers nothing for a period or exactly that value. -/
theorem deliveredBy_cases (single : OnePerPeriod platform d) (s : ℕ) (p : Date) :
    deliveredBy platform s p d = [] ∨
      ∃ item ∈ values platform d, d.series.pk = s ∧ item.period = p ∧
        deliveredBy platform s p d = [item.normalizedValue] := by
  unfold deliveredBy
  by_cases hs : d.series.pk = s
  · rw [if_pos hs]
    rcases filter_key_cases single p with none | ⟨item, member, period, one⟩
    · exact Or.inl (by rw [none]; rfl)
    · exact Or.inr ⟨item, member, hs, period, by rw [one]; rfl⟩
  · rw [if_neg hs]
    exact Or.inl rfl

/-- The histories settle after a response if they settled before and none of its values returns
to a replaced one. -/
theorem settled_concat_iff (single : OnePerPeriod platform d) :
    (∀ s p, Settled (delivered platform s p (ds ++ [d]))) ↔
      (∀ s p, Settled (delivered platform s p ds)) ∧
      ∀ item ∈ values platform d,
        (replay (delivered platform d.series.pk item.period (ds ++ [d]))).getLast? =
          some item.normalizedValue := by
  constructor
  · intro settled
    have before (s p) : Settled (delivered platform s p ds) := by
      have h := settled s p
      rw [delivered_concat] at h
      exact fun pre v hp => h pre v (hp.trans (List.prefix_append _ _))
    refine ⟨before, fun item member => ?_⟩
    have tracks := (tracks_iff_settled _).mpr (settled d.series.pk item.period)
    rw [tracks.getLast?_replay, delivered_concat]
    rcases deliveredBy_cases single d.series.pk item.period with none | ⟨other, _, _, _, one⟩
    · have here := mem_deliveredBy member
      rw [none] at here
      cases here
    · have here := mem_deliveredBy member
      rw [one, List.mem_singleton] at here
      rw [one, here, List.getLast?_concat]
  · rintro ⟨before, heads⟩ s p
    rw [delivered_concat]
    rcases deliveredBy_cases single s p with none | ⟨item, member, hs, hp, one⟩
    · rw [none, List.append_nil]
      exact before s p
    · rw [one, ← tracks_iff_settled, tracks_concat, tracks_iff_settled]
      refine ⟨before s p, ?_⟩
      have head := heads item member
      rw [hs, hp, delivered_concat, one] at head
      exact head

/-- What one response of a run from an empty table shows. -/
theorem follows_iff (empty : db.observations = [])
    (accepted : AllAccepted platform db (ds ++ [d])) :
    Follows platform d (afterAll platform db (ds ++ [d])) ↔
      ∀ item ∈ values platform d,
        (replay (delivered platform d.series.pk item.period (ds ++ [d]))).getLast? =
          some item.normalizedValue := by
  obtain ⟨ledgers, dense⟩ := revisions_after empty accepted
  have head (item : MacroValue) :
      (headRevision (afterAll platform db (ds ++ [d])) d.series.pk item.period).map
        (·.normalizedValue) =
      (replay (delivered platform d.series.pk item.period (ds ++ [d]))).getLast? := by
    rw [headRevision_value dense, ledgers]
  constructor
  · intro follows item member
    rw [← head item]
    exact follows.head item member
  · intro heads
    refine ⟨fun item member => (head item).trans (heads item member), dense, ?_⟩
    intro result same
    refine ingestMacro_known fun items parsed item member => ?_
    have here : item ∈ values platform d := by
      unfold values
      rw [same] at parsed
      rw [parsed]
      exact member
    rw [ledgers, mem_replay, delivered_concat]
    exact List.mem_append_right _ (mem_deliveredBy here)

/-- **Macro vintages.** In a run of accepted responses with one value per period, every response
finds its values at the heads, the histories numbered from 0 and a second ingest idle, if and only
if no response returns a period to a value that another response replaced. -/
theorem macro_vintages_follow_iff (platform : Platform) (db : Db) (ds : List Delivery)
    (empty : db.observations = []) (accepted : AllAccepted platform db ds)
    (single : ∀ d ∈ ds, OnePerPeriod platform d) :
    (∀ pre d, pre ++ [d] <+: ds → Follows platform d (afterAll platform db (pre ++ [d]))) ↔
      ∀ series period, Settled (delivered platform series period ds) := by
  induction ds using List.reverseRecOn with
  | nil =>
    have none (s p) : delivered platform s p [] = [] := rfl
    simp [none, Settled]
  | append_singleton ds d ih =>
    rw [ forall_concat_prefix, settled_concat_iff (single d (by simp)), follows_iff empty accepted,
      ih (allAccepted_concat.mp accepted).1 fun d h => single d (by simp [h])]

end

/-! ## A value that comes back -/

/-- The Bank of Canada response that gives July 2026 a rate. -/
def rateBody (rate : String) : String :=
  "\x7b\"observations\":[\x7b\"d\":\"2026-07-01\",\"V39079\":\x7b\"v\":\"" ++ rate ++
    "\"\x7d\x7d]\x7d"

/-- The value `json.loads` makes of it. -/
def rateJson (rate : String) : Val :=
  .dict [("observations", .list [.dict [("d", .str "2026-07-01"),
    ("V39079", .dict [("v", .str rate)])]])]

def ratePlatform : Platform := asciiPlatform
  { json := [(rateBody "2.25", rateJson "2.25"), (rateBody "2.50", rateJson "2.50")]
    dates := [(("2026-07-01", "%Y-%m-%d"), ⟨⟨2026, 7, 1⟩, 0⟩)]
    numbers := [("2.25", .finite false 225 (-2), "2.25"), ("2.50", .finite false 250 (-2), "2.5")]
    digests :=
      [(rateBody "2.25", "1304187763b62476d6f968464e41ccb9e1ac7618ddb35cfac07d2915b6c42240"),
       (rateBody "2.50", "c3ea066b84f9befa305a1c1dc21e743a4bacd0eb118f8f53bc9a858a3cee161d")] }

/-- The response of a day of July 2026. -/
def rateOn (dayOfJuly : ℤ) (rate : String) : Delivery :=
  ⟨policyRate, valetResult (rateBody rate) ((20634 + dayOfJuly) * day)⟩

/-- A rate is revised and the revision withdrawn. -/
def withdrawnRevision : List Delivery := [rateOn 2 "2.25", rateOn 3 "2.50", rateOn 4 "2.25"]

theorem allAccepted_withdrawnRevision : AllAccepted ratePlatform {} withdrawnRevision := by
  rw [show withdrawnRevision = (([] ++ [rateOn 2 "2.25"]) ++ [rateOn 3 "2.50"]) ++
    [rateOn 4 "2.25"] from rfl]
  refine allAccepted_concat.mpr ⟨?_, ⟨_, rfl⟩⟩
  refine allAccepted_concat.mpr ⟨?_, ⟨_, rfl⟩⟩
  refine allAccepted_concat.mpr ⟨?_, ⟨_, rfl⟩⟩
  intro pre d h
  simp at h

theorem onePerPeriod_rateOn (dayOfJuly : ℤ) (rate : String) (h : rate = "2.25" ∨ rate = "2.50") :
    OnePerPeriod ratePlatform (rateOn dayOfJuly rate) := by
  have one : (values ratePlatform (rateOn dayOfJuly rate)).length = 1 := by
    rcases h with rfl | rfl <;> rfl
  obtain ⟨item, only⟩ := List.length_eq_one_iff.mp one
  unfold OnePerPeriod
  rw [only]
  exact List.nodup_singleton _

theorem onePerPeriod_withdrawnRevision :
    ∀ d ∈ withdrawnRevision, OnePerPeriod ratePlatform d := by
  intro d h
  simp only [withdrawnRevision, List.mem_cons, List.not_mem_nil, or_false] at h
  rcases h with rfl | rfl | rfl <;> exact onePerPeriod_rateOn _ _ (by decide)

theorem macro_vintages_follow_iff_withdrawn :
    (∀ pre d, pre ++ [d] <+: withdrawnRevision →
      Follows ratePlatform d (afterAll ratePlatform {} (pre ++ [d]))) ↔
    ∀ series period, Settled (delivered ratePlatform series period withdrawnRevision) :=
  macro_vintages_follow_iff ratePlatform {} withdrawnRevision rfl allAccepted_withdrawnRevision
    onePerPeriod_withdrawnRevision

/-- After the withdrawal the head still has the revised rate. -/
theorem withdrawn_revision_stays :
    AllAccepted ratePlatform {} withdrawnRevision ∧
    (∀ d ∈ withdrawnRevision, OnePerPeriod ratePlatform d) ∧
    ¬ Follows ratePlatform (rateOn 4 "2.25") (afterAll ratePlatform {} withdrawnRevision) := by
  refine ⟨allAccepted_withdrawnRevision, onePerPeriod_withdrawnRevision, fun follows => ?_⟩
  have head := follows.head
    ⟨⟨2026, 7, 1⟩, .finite false 225 (-2), "2.25", none, ""⟩ (by decide)
  exact absurd head (by decide)

end TradeRecommender.Research
