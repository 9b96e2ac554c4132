import Mathlib.Data.List.ProdSigma
import TradeRecommender.Lib.Tables
import TradeRecommender.Market.HistoricalChunks

/-!
# Chunks cover their range

What the chunks of a plan expand into, what attempts at them store, and the dataset whose chunks have
all succeeded.

1. a batch of a range is the expansion of its chunk's request;
2. the chunks of a plan, series by series;
3. the rows behind any run of attempts;
4. coverage.
-/

namespace TradeRecommender.Market

open Py Civil

/-! ## One chunk -/

section
variable {c : SundayClock} {stableHash : Val → String} {plan : Plan} {manifestSha256 code : String}
  {g : Granularity}

/-- A chunk is of a series and its request expands into a batch. -/
def Covers (c : SundayClock) (code : String) (g : Granularity) (batch : List Instant)
    (chunk : Chunk) : Prop :=
  (chunk.instrument = code ∧ chunk.granularity = g) ∧
    expectedCandleTimestamps c chunk.requestedFrom chunk.requestedTo chunk.granularity = .ok batch

variable (stableHash plan manifestSha256 code) in
/-- The chunk of a batch of an expanded range expands into the batch. -/
theorem chunkOf_covers {start finish : Instant} {ts : List Instant}
    (expanded : expectedCandleTimestamps c start finish g = .ok ts) {size : ℕ} (positive : 0 < size)
    {batch : List Instant} (mem : batch ∈ slices size ts) :
    ∃ chunk, chunkOf c stableHash plan manifestSha256 code g batch = .ok chunk ∧
      Covers c code g batch chunk := by
  obtain ⟨aligned, n, rfl, -⟩ := expected_spec expanded
  obtain ⟨k, inside, rfl⟩ := mem_slices positive mem
  rw [length_startsFrom] at inside
  obtain ⟨m, count⟩ : ∃ m, min size (n + 1 - k) = m + 1 := ⟨min size (n + 1 - k) - 1, by omega⟩
  have part : ((startsFrom c g (n + 1) start).drop k).take size =
      startsFrom c g (m + 1) (startAfter c g k start) := by
    rw [drop_startsFrom, take_startsFrom, count]
  have first := (startAfter_spec k aligned).1
  have ends := getLast?_startsFrom (c := c) (g := g) m (startAfter c g k start)
  rw [part]
  obtain ⟨chunk, made⟩ : ∃ chunk, chunkOf c stableHash plan manifestSha256 code g
      (startsFrom c g (m + 1) (startAfter c g k start)) = .ok chunk := by
    rw [chunkOf, head?_startsFrom, ends]
    exact ⟨_, rfl⟩
  refine ⟨chunk, made, ?_⟩
  rw [chunkOf, head?_startsFrom, ends] at made
  cases made
  exact ⟨⟨rfl, rfl⟩, expected_starts m first⟩

theorem rangeTimestamps_expands {expected : List Instant}
    (range : rangeTimestamps c plan g = .ok expected) :
    ∃ start finish, expectedCandleTimestamps c start finish g = .ok expected := by
  obtain ⟨candleRange, -, range⟩ := bind_eq_ok.mp range
  obtain ⟨startText, -, range⟩ := bind_eq_ok.mp range
  obtain ⟨start, -, range⟩ := bind_eq_ok.mp range
  obtain ⟨finishText, -, range⟩ := bind_eq_ok.mp range
  obtain ⟨finish, -, range⟩ := bind_eq_ok.mp range
  exact ⟨start, finish, range⟩

variable (stableHash manifestSha256 code) in
/-- The chunks of a series cover the slices of its range. -/
theorem seriesChunks_cover {expected : List Instant}
    (range : rangeTimestamps c plan g = .ok expected) (positive : 0 < plan.chunkSize) :
    ∃ chunks, seriesChunks c stableHash plan manifestSha256 code g = .ok chunks ∧
      List.Forall₂ (Covers c code g) (slices plan.chunkSize expected) chunks := by
  obtain ⟨start, finish, expanded⟩ := rangeTimestamps_expands range
  obtain ⟨chunks, made, covers⟩ := mapE_forall₂ (P := Covers c code g) fun batch mem =>
    chunkOf_covers stableHash plan manifestSha256 code expanded positive mem
  refine ⟨chunks, ?_, covers⟩
  rw [seriesChunks, range]
  show (if plan.chunkSize = 0 then _ else _) = _
  rw [if_neg (by omega)]
  exact made

/-! ## The chunks of a plan -/

/-- The expansion of a chunk's request. -/
def expansion (c : SundayClock) (chunk : Chunk) : List Instant :=
  (expectedCandleTimestamps c chunk.requestedFrom chunk.requestedTo chunk.granularity).toOption.getD
    []

/-- The chunks of one series. -/
def chunksOf (chunks : List Chunk) (code : String) (g : Granularity) : List Chunk :=
  chunks.filter fun chunk => chunk.instrument = code ∧ chunk.granularity = g

/-- Chunks whose requests expand, each series into the range of the plan. -/
structure Tiled (c : SundayClock) (plan : Plan) (chunks : List Chunk) : Prop where
  named : ∀ chunk ∈ chunks, chunk.instrument ∈ INSTRUMENTS ∧ chunk.granularity ∈ GRANULARITIES
  expands : ∀ chunk ∈ chunks, expectedCandleTimestamps c chunk.requestedFrom chunk.requestedTo
    chunk.granularity = .ok (expansion c chunk)
  full : ∀ chunk ∈ chunks, expansion c chunk ≠ []
  covers : ∀ code ∈ INSTRUMENTS, ∀ g ∈ GRANULARITIES,
    rangeTimestamps c plan g = .ok ((chunksOf chunks code g).flatMap (expansion c))
  increasing : ∀ code ∈ INSTRUMENTS, ∀ g ∈ GRANULARITIES,
    ((chunksOf chunks code g).flatMap (expansion c)).Pairwise (· < ·)

theorem expected_increasing {start finish : Instant}
    {ts : List Instant} (expanded : expectedCandleTimestamps c start finish g = .ok ts) :
    ts.Pairwise (· < ·) ∧ ts ≠ [] := by
  obtain ⟨aligned, n, rfl, -⟩ := expected_spec expanded
  exact ⟨(startsFrom_increasing (n + 1) aligned).1, List.cons_ne_nil _ _⟩

theorem Covers.expansion {batch : List Instant} {chunk : Chunk} (h : Covers c code g batch chunk) :
    expansion c chunk = batch := by
  rw [Market.expansion, h.2]
  rfl

theorem expansions_of_covers {batches : List (List Instant)} {chunks : List Chunk}
    (h : List.Forall₂ (Covers c code g) batches chunks) : chunks.map (expansion c) = batches := by
  induction h with
  | nil => rfl
  | cons first _ ih => rw [List.map_cons, first.expansion, ih]

variable (stableHash manifestSha256) in
/-- The chunks that a plan is cut into tile its ranges. -/
theorem materialized (instruments : List String)
    (exist : ∀ code ∈ INSTRUMENTS, code ∈ instruments)
    (ranges : ∀ g ∈ GRANULARITIES, ∃ expected, rangeTimestamps c plan g = .ok expected)
    (positive : 0 < plan.chunkSize) :
    ∃ chunks, materializeHistoricalChunks c stableHash instruments plan manifestSha256 =
      .ok chunks ∧ Tiled c plan chunks := by
  have each : ∀ key ∈ INSTRUMENTS.product GRANULARITIES,
      ∃ chunks, seriesChunks c stableHash plan manifestSha256 key.1 key.2 = .ok chunks ∧
        ∃ expected, rangeTimestamps c plan key.2 = .ok expected ∧ key.1 ∈ INSTRUMENTS ∧
          key.2 ∈ GRANULARITIES ∧
          List.Forall₂ (Covers c key.1 key.2) (slices plan.chunkSize expected) chunks := by
    rintro ⟨code, g⟩ mem
    obtain ⟨hcode, hg⟩ := List.pair_mem_product.mp mem
    obtain ⟨expected, range⟩ := ranges g hg
    obtain ⟨chunks, made, covers⟩ := seriesChunks_cover stableHash manifestSha256 code
      range positive
    exact ⟨chunks, made, expected, range, hcode, hg, covers⟩
  obtain ⟨series, made, related⟩ := mapE_forall₂ each
  have member : ∀ chunk ∈ series.flatten, (chunk.instrument ∈ INSTRUMENTS ∧
      chunk.granularity ∈ GRANULARITIES) ∧
      expectedCandleTimestamps c chunk.requestedFrom chunk.requestedTo chunk.granularity =
        .ok (expansion c chunk) := by
    intro chunk hchunk
    obtain ⟨group, hgroup, hchunk⟩ := List.mem_flatten.mp hchunk
    obtain ⟨key, -, expected, range, hcode, hg, covers⟩ :=
      Vintage.forall₂_exists_left related hgroup
    obtain ⟨batch, -, covered⟩ := Vintage.forall₂_exists_left covers hchunk
    rw [covered.expansion, covered.1.1, covered.1.2]
    refine ⟨⟨hcode, hg⟩, ?_⟩
    rw [← covered.1.2]
    exact covered.2
  have group : ∀ code ∈ INSTRUMENTS, ∀ g ∈ GRANULARITIES,
      ∃ expected, rangeTimestamps c plan g = .ok expected ∧
        (chunksOf series.flatten code g).flatMap (expansion c) = expected := by
    intro code hcode g hg
    obtain ⟨chunks, ⟨expected, range, -, -, covers⟩, same⟩ :=
      Tables.exists_group (fun chunk : Chunk => (chunk.instrument, chunk.granularity))
        (fun key group related chunk hchunk => by
          obtain ⟨expected, -, -, -, covers⟩ := related
          obtain ⟨batch, -, covered⟩ := Vintage.forall₂_exists_left covers hchunk
          exact Prod.ext covered.1.1 covered.1.2) related
        (List.Nodup.product (by decide) (by decide))
        (List.pair_mem_product.mpr ⟨hcode, hg⟩)
    refine ⟨expected, range, ?_⟩
    have filtered : chunksOf series.flatten code g = chunks := by
      rw [chunksOf, ← same]
      refine List.filter_congr fun chunk _ => ?_
      rw [decide_eq_decide, Prod.mk.injEq]
    rw [filtered, List.flatMap, expansions_of_covers covers, flatten_slices positive]
  refine ⟨series.flatten, ?_, ⟨fun chunk h => (member chunk h).1, fun chunk h => (member chunk h).2,
    ?_, ?_, ?_⟩⟩
  · rw [materializeHistoricalChunks, if_pos exist, made]
    rfl
  · intro chunk h
    exact (expected_increasing (member chunk h).2).2
  · intro code hcode g hg
    obtain ⟨expected, range, same⟩ := group code hcode g hg
    rw [same]
    exact range
  · intro code hcode g hg
    obtain ⟨expected, range, same⟩ := group code hcode g hg
    obtain ⟨start, finish, expanded⟩ := rangeTimestamps_expands range
    rw [same]
    exact (expected_increasing expanded).1

theorem mem_chunksOf {chunks : List Chunk} {chunk : Chunk} :
    chunk ∈ chunksOf chunks code g ↔
      chunk ∈ chunks ∧ chunk.instrument = code ∧ chunk.granularity = g := by
  rw [chunksOf, List.mem_filter, decide_eq_true_eq]

/-- Chunks of one series share no timestamp. -/
theorem Tiled.apart {chunks : List Chunk} (tiled : Tiled c plan chunks)
    (hcode : code ∈ INSTRUMENTS) (hg : g ∈ GRANULARITIES) :
    (chunksOf chunks code g).Pairwise fun a b => (expansion c a).Disjoint (expansion c b) := by
  have distinct : ((chunksOf chunks code g).flatMap (expansion c)).Nodup :=
    (tiled.increasing code hcode g hg).imp fun h => h.ne
  exact (List.nodup_flatMap.mp distinct).2

theorem Tiled.distinct {chunks : List Chunk} (tiled : Tiled c plan chunks) : chunks.Nodup := by
  refine List.nodup_iff_count_le_one.mpr fun chunk => ?_
  by_cases mem : chunk ∈ chunks
  · have series : (chunksOf chunks chunk.instrument chunk.granularity).Nodup := by
      obtain ⟨hcode, hg⟩ := tiled.named chunk mem
      refine (tiled.apart hcode hg).imp_of_mem fun {a b} ha _ disjoint => ?_
      rintro rfl
      obtain ⟨t, ht⟩ := List.exists_mem_of_ne_nil _ (tiled.full a (mem_chunksOf.mp ha).1)
      exact disjoint ht ht
    have count : (chunksOf chunks chunk.instrument chunk.granularity).count chunk =
        chunks.count chunk := List.count_filter (decide_eq_true ⟨rfl, rfl⟩)
    rw [← count]
    exact List.nodup_iff_count_le_one.mp series chunk
  · rw [List.count_eq_zero_of_not_mem mem]
    exact Nat.zero_le 1

theorem Tiled.disjoint {chunks : List Chunk} (tiled : Tiled c plan chunks) {a b : Chunk}
    (ha : a ∈ chunks) (hb : b ∈ chunks) (instrument : a.instrument = b.instrument)
    (granularity : a.granularity = b.granularity) (differ : a ≠ b) :
    (expansion c a).Disjoint (expansion c b) := by
  obtain ⟨hcode, hg⟩ := tiled.named b hb
  have : Std.Symm fun a b : Chunk => (expansion c a).Disjoint (expansion c b) :=
    ⟨fun _ _ h => h.symm⟩
  exact List.Pairwise.forall (tiled.apart hcode hg) (mem_chunksOf.mpr ⟨ha, instrument, granularity⟩)
    (mem_chunksOf.mpr ⟨hb, rfl, rfl⟩) differ

/-! ## Runs of attempts -/

/-- A response that is accepted has the candles of the chunk's expansion. -/
theorem validateChunkResponse_covers {chunk : Chunk} {candles : List CandleData} {manifest : Val}
    (h : validateChunkResponse c stableHash chunk candles manifest = .ok ()) :
    expectedCandleTimestamps c chunk.requestedFrom chunk.requestedTo chunk.granularity =
      .ok (candles.map CandleData.timestamp) := by
  rw [validateChunkResponse] at h
  split_ifs at h
  · cases h
  · obtain ⟨unavailable, -, h⟩ := bind_eq_ok.mp h
    by_cases lacking : unavailable ≠ []
    · rw [if_pos lacking] at h
      cases h
    rw [if_neg lacking] at h
    obtain ⟨invalid, -, h⟩ := bind_eq_ok.mp h
    by_cases conflict : invalid ≠ []
    · rw [if_pos conflict] at h
      cases h
    rw [if_neg conflict] at h
    obtain ⟨agrees, -, h⟩ := bind_eq_ok.mp h
    by_cases other : agrees = false
    · rw [if_pos other] at h
      cases h
    rw [if_neg other] at h
    obtain ⟨expected, expanded, h⟩ := bind_eq_ok.mp h
    by_cases differ : candles.map CandleData.timestamp ≠ expected
    · rw [if_pos differ] at h
      cases h
    rw [not_not.mp differ]
    exact expanded

/-- The timestamps of a series' rows. -/
def rowTimes (rows : List CandleRow) (code : String) (g : Granularity) : List Instant :=
  (rows.filter fun row => row.instrument = code ∧ row.granularity = g).map
    fun row => row.candle.timestamp

/-- Whether an attempt at the chunk succeeded. -/
def succeeded (attempts : List Attempt) (chunk : Chunk) : Bool :=
  attempts.any fun attempt => attempt.chunk = chunk ∧ attempt.status = .succeeded

/-- The chunks of the attempts that have not failed. -/
def open_ (attempts : List Attempt) : List Chunk :=
  (attempts.filter fun attempt => attempt.status ≠ .failed).map Attempt.chunk

/-- What holds of the dataset between transactions: at most one attempt at a chunk has not failed,
and the rows are those of the chunks with one that succeeded. -/
structure Acquired (c : SundayClock) (chunks : List Chunk) (dataset : Dataset) : Prop where
  own : ∀ attempt ∈ dataset.attempts, attempt.chunk ∈ chunks
  exclusive : (open_ dataset.attempts).Nodup
  stored : ∀ code g, (rowTimes dataset.candles code g).Perm
    (((chunksOf chunks code g).filter (succeeded dataset.attempts)).flatMap (expansion c))

variable (c stableHash) in
theorem begin_cases (dataset : Dataset) (chunk : Chunk) :
    (∃ number, (∀ attempt ∈ dataset.attempts, attempt.chunk = chunk → attempt.status = .failed) ∧
      runHistoricalChunk c stableHash dataset (.begin chunk) =
        ⟨dataset.attempts ++ [⟨chunk, number, .running⟩], dataset.candles⟩) ∨
      runHistoricalChunk c stableHash dataset (.begin chunk) = dataset := by
  rw [runHistoricalChunk, beginHistoricalAttempt]
  cases found : (dataset.attempts.filter fun attempt => attempt.chunk = chunk).find?
      fun attempt => attempt.status = .succeeded with
  | some attempt => exact .inr rfl
  | none =>
    dsimp only
    by_cases running : ((dataset.attempts.filter fun attempt => attempt.chunk = chunk).any
        fun attempt => attempt.status = .running) = true
    · rw [if_pos running]
      exact .inr rfl
    · rw [if_neg running]
      refine .inl ⟨_, fun attempt mem same => ?_, rfl⟩
      have mine : attempt ∈ dataset.attempts.filter fun attempt => attempt.chunk = chunk :=
        List.mem_filter.mpr ⟨mem, decide_eq_true same⟩
      have unsuccessful := List.find?_eq_none.mp found attempt mine
      cases status : attempt.status with
      | failed => rfl
      | succeeded => exact absurd (decide_eq_true status) unsuccessful
      | running => exact absurd (List.any_eq_true.mpr ⟨attempt, mine, decide_eq_true status⟩) running

theorem isNone_find?_row (rows : List CandleRow) (t : Instant) :
    (rows.find? fun row => row.candle.timestamp = t).isNone =
      decide (t ∉ rows.map fun row => row.candle.timestamp) := by
  rw [Bool.eq_iff_iff, Option.isNone_iff_eq_none, List.find?_eq_none, decide_eq_true_eq,
    List.mem_map]
  simp

/-- A reply that is stored covers the chunk. -/
theorem storeReply_spec {chunk : Chunk} {rows rows' : List CandleRow} {reply : Reply}
    (h : storeReply c stableHash chunk rows reply = .ok rows') :
    ∃ candles : List CandleData, expectedCandleTimestamps c chunk.requestedFrom chunk.requestedTo
        chunk.granularity = .ok (candles.map CandleData.timestamp) ∧
      rows' = rows ++ (candles.filter fun candle =>
        candle.timestamp ∉ rowTimes rows chunk.instrument chunk.granularity).map fun candle =>
          ⟨chunk.instrument, chunk.granularity, candle⟩ := by
  cases reply with
  | failure => cases h
  | response candles manifest =>
    obtain ⟨⟨⟩, validated, h⟩ := bind_eq_ok.mp h
    have covered := validateChunkResponse_covers validated
    refine ⟨candles, covered, ?_⟩
    obtain ⟨issues, -, h⟩ := bind_eq_ok.mp h
    by_cases rejected : issues ≠ []
    · rw [if_pos rejected] at h
      cases h
    · rw [if_neg rejected] at h
      dsimp only at h
      split_ifs at h with conflict
      · cases h
      · cases h
        refine congrArg (rows ++ ·) (congrArg _ (List.filter_congr fun candle _ => ?_))
        exact isNone_find?_row _ _

section
variable {attempts : List Attempt} {attempt : Attempt} {status : Status}

theorem of_mem_record {a : Attempt} (h : a ∈ record attempts attempt status) :
    (a = { attempt with status } ∧ attempt ∈ attempts) ∨ (a ∈ attempts ∧ a ≠ attempt) := by
  obtain ⟨b, hb, rfl⟩ := List.mem_map.mp h
  by_cases same : b = attempt
  · rw [if_pos same, same]
    exact .inl ⟨rfl, same ▸ hb⟩
  · rw [if_neg same]
    exact .inr ⟨hb, same⟩

theorem open_record (running : attempt.status = .running) :
    (open_ (record attempts attempt status)).Sublist (open_ attempts) := by
  induction attempts with
  | nil => exact List.Sublist.refl _
  | cons a attempts ih =>
    have first : open_ (record (a :: attempts) attempt status) =
        open_ [if a = attempt then { a with status } else a] ++
          open_ (record attempts attempt status) := by
      rw [open_, open_, open_, ← List.map_append, ← List.filter_append]
      rfl
    have rest : open_ (a :: attempts) = open_ [a] ++ open_ attempts := by
      rw [open_, open_, open_, ← List.map_append, ← List.filter_append]
      rfl
    rw [first, rest]
    refine List.Sublist.append ?_ ih
    by_cases same : a = attempt
    · rw [if_pos same, same]
      have whole : open_ [attempt] = [attempt.chunk] := by
        simp [open_, running]
      rw [whole]
      cases status <;> simp [open_]
    · rw [if_neg same]

theorem succeeded_record_failed (chunk : Chunk) (running : attempt.status = .running) :
    succeeded (record attempts attempt .failed) chunk = succeeded attempts chunk := by
  rw [succeeded, succeeded, record, List.any_map]
  refine congrArg attempts.any (funext fun a => ?_)
  show decide ((if a = attempt then { a with status := Status.failed } else a).chunk = chunk ∧
    (if a = attempt then { a with status := Status.failed } else a).status = .succeeded) = _
  by_cases same : a = attempt
  · rw [if_pos same, same, running]
    simp
  · rw [if_neg same]

theorem succeeded_record (chunk : Chunk) (mem : attempt ∈ attempts)
    (running : attempt.status = .running) :
    succeeded (record attempts attempt .succeeded) chunk = true ↔
      chunk = attempt.chunk ∨ succeeded attempts chunk = true := by
  simp only [succeeded, List.any_eq_true, decide_eq_true_eq]
  constructor
  · rintro ⟨a, ha, rfl, success⟩
    rcases of_mem_record ha with ⟨rfl, -⟩ | ⟨ha, -⟩
    · exact .inl rfl
    · exact .inr ⟨a, ha, rfl, success⟩
  · rintro (rfl | ⟨a, ha, rfl, success⟩)
    · exact ⟨{ attempt with status := .succeeded }, List.mem_map.mpr ⟨attempt, mem, if_pos rfl⟩,
        rfl, rfl⟩
    · refine ⟨a, List.mem_map.mpr ⟨a, ha, if_neg ?_⟩, rfl, success⟩
      rintro rfl
      rw [running] at success
      cases success

theorem mem_open {chunk : Chunk} :
    chunk ∈ open_ attempts ↔ ∃ a ∈ attempts, a.status ≠ .failed ∧ a.chunk = chunk := by
  simp only [open_, List.mem_map, List.mem_filter, decide_eq_true_eq, and_assoc]

/-- A running attempt is the only one at its chunk that has not failed. -/
theorem not_succeeded (exclusive : (open_ attempts).Nodup) (mem : attempt ∈ attempts)
    (running : attempt.status = .running) : succeeded attempts attempt.chunk = false := by
  rw [Bool.eq_false_iff]
  intro success
  obtain ⟨other, hother, here⟩ := List.any_eq_true.mp success
  obtain ⟨same, success⟩ := of_decide_eq_true here
  have one : other = attempt :=
    Tables.eq_of_key exclusive
      (List.mem_filter.mpr ⟨hother, decide_eq_true (by rw [success]; decide)⟩)
      (List.mem_filter.mpr ⟨mem, decide_eq_true (by rw [running]; decide)⟩) same
  rw [one, running] at success
  cases success

end

theorem rowTimes_append (rows : List CandleRow) (candles : List CandleData) (code' : String)
    (g' : Granularity) : rowTimes (rows ++ candles.map (CandleRow.mk code' g')) code g =
      rowTimes rows code g ++
        (if code' = code ∧ g' = g then candles.map CandleData.timestamp else []) := by
  rw [rowTimes, List.filter_append, List.map_append, rowTimes, List.filter_map, List.map_map]
  congr 1
  by_cases same : code' = code ∧ g' = g
  · have whole : candles.filter ((fun row : CandleRow =>
        decide (row.instrument = code ∧ row.granularity = g)) ∘ CandleRow.mk code' g') = candles :=
      List.filter_eq_self.mpr fun _ _ => decide_eq_true same
    rw [if_pos same, whole]
    rfl
  · have none : candles.filter ((fun row : CandleRow =>
        decide (row.instrument = code ∧ row.granularity = g)) ∘ CandleRow.mk code' g') = [] :=
      List.filter_eq_nil_iff.mpr fun _ _ h => same (of_decide_eq_true h)
    rw [if_neg same, none]
    rfl

/-- A list that one more element of it passes into a filter. -/
theorem filter_perm_cons {p p' : Chunk → Bool} {chunks : List Chunk} {chunk : Chunk}
    (distinct : chunks.Nodup) (mem : chunk ∈ chunks) (fresh : p chunk = false)
    (grows : ∀ x, p' x = true ↔ x = chunk ∨ p x = true) :
    (chunks.filter p').Perm (chunk :: chunks.filter p) := by
  refine (List.perm_ext_iff_of_nodup (distinct.filter _) (List.nodup_cons.mpr ⟨?_,
    distinct.filter _⟩)).mpr fun x => ?_
  · intro h
    have := (List.mem_filter.mp h).2
    rw [fresh] at this
    cases this
  · rw [List.mem_cons, List.mem_filter, List.mem_filter, grows]
    constructor
    · rintro ⟨hx, rfl | hp⟩
      · exact .inl rfl
      · exact .inr ⟨hx, hp⟩
    · rintro (rfl | ⟨hx, hp⟩)
      · exact ⟨mem, .inl rfl⟩
      · exact ⟨hx, .inr hp⟩

section
variable {chunks : List Chunk} {dataset : Dataset}

theorem Acquired.begin (acquired : Acquired c chunks dataset) {chunk : Chunk}
    (mem : chunk ∈ chunks) :
    Acquired c chunks (runHistoricalChunk c stableHash dataset (.begin chunk)) := by
  rcases begin_cases c stableHash dataset chunk with
    ⟨number, failed, made⟩ | same
  · rw [made]
    refine ⟨fun attempt h => ?_, ?_, fun code g => ?_⟩
    · rcases List.mem_append.mp h with h | h
      · exact acquired.own attempt h
      · rw [List.mem_singleton.mp h]
        exact mem
    · have grown : open_ (dataset.attempts ++ [⟨chunk, number, .running⟩]) =
          open_ dataset.attempts ++ [chunk] := by
        simp [open_, List.filter_append]
      rw [grown]
      refine List.nodup_append.mpr ⟨acquired.exclusive, List.nodup_singleton _, ?_⟩
      rintro x hx y hy rfl
      obtain ⟨attempt, hattempt, live, same⟩ := mem_open.mp hx
      exact live (failed attempt hattempt (same.trans (List.mem_singleton.mp hy)))
    · have unchanged : succeeded (dataset.attempts ++ [⟨chunk, number, .running⟩]) =
          succeeded dataset.attempts := by
        funext x
        simp [succeeded, List.any_append]
      rw [unchanged]
      exact acquired.stored code g
  · rw [same]
    exact acquired

variable (tiled : Tiled c plan chunks)
include tiled

theorem Acquired.success (acquired : Acquired c chunks dataset) {attempt : Attempt} {reply : Reply}
    {rows : List CandleRow} (mem : attempt ∈ dataset.attempts)
    (running : attempt.status = .running)
    (stored : storeReply c stableHash attempt.chunk dataset.candles reply = .ok rows)
    (code : String) (g : Granularity) :
    (rowTimes rows code g).Perm (((chunksOf chunks code g).filter
      (succeeded (record dataset.attempts attempt .succeeded))).flatMap (expansion c)) := by
  obtain ⟨candles, expanded, rfl⟩ := storeReply_spec stored
  have own := acquired.own attempt mem
  have fresh := not_succeeded acquired.exclusive mem running
  have times : candles.map CandleData.timestamp = expansion c attempt.chunk :=
    Except.ok.inj (expanded.symm.trans (tiled.expands attempt.chunk own))
  have grows : ∀ x, succeeded (record dataset.attempts attempt .succeeded) x = true ↔
      x = attempt.chunk ∨ succeeded dataset.attempts x = true :=
    fun x => succeeded_record x mem running
  -- no stored row has a timestamp of the chunk
  have new : candles.filter (fun candle => candle.timestamp ∉
      rowTimes dataset.candles attempt.chunk.instrument attempt.chunk.granularity) = candles := by
    refine List.filter_eq_self.mpr fun candle hcandle => decide_eq_true fun there => ?_
    obtain ⟨other, hother, at_⟩ := List.mem_flatMap.mp
      ((acquired.stored _ _).mem_iff.mp there)
    obtain ⟨series, success⟩ := List.mem_filter.mp hother
    obtain ⟨hchunk, instrument, granularity⟩ := mem_chunksOf.mp series
    have differ : other ≠ attempt.chunk := by
      rintro rfl
      rw [fresh] at success
      cases success
    refine tiled.disjoint hchunk own instrument granularity differ at_ ?_
    rw [← times]
    exact List.mem_map_of_mem hcandle
  rw [new, rowTimes_append, times]
  by_cases same : attempt.chunk.instrument = code ∧ attempt.chunk.granularity = g
  · rw [if_pos same]
    have here : attempt.chunk ∈ chunksOf chunks code g := mem_chunksOf.mpr ⟨own, same⟩
    have grown := (filter_perm_cons (tiled.distinct.filter _) here fresh grows).flatMap_right
      (expansion c)
    refine List.Perm.trans ?_ grown.symm
    rw [List.flatMap_cons]
    exact ((acquired.stored code g).append_right _).trans List.perm_append_comm
  · rw [if_neg same, List.append_nil]
    have unchanged : (chunksOf chunks code g).filter
        (succeeded (record dataset.attempts attempt .succeeded)) =
          (chunksOf chunks code g).filter (succeeded dataset.attempts) := by
      refine List.filter_congr fun x hx => ?_
      rw [Bool.eq_iff_iff, grows]
      refine or_iff_right ?_
      rintro rfl
      exact same (mem_chunksOf.mp hx).2
    rw [unchanged]
    exact acquired.stored code g

theorem Acquired.finish (acquired : Acquired c chunks dataset) (attempt : Attempt) (reply : Reply) :
    Acquired c chunks (finishAttempt c stableHash dataset attempt reply) := by
  rw [finishAttempt]
  by_cases live : attempt ∈ dataset.attempts ∧ attempt.status = .running
  · rw [if_pos live]
    obtain ⟨mem, running⟩ := live
    have own (status : Status) : ∀ a ∈ record dataset.attempts attempt status,
        a.chunk ∈ chunks := by
      intro a ha
      rcases of_mem_record ha with ⟨rfl, -⟩ | ⟨ha, -⟩
      · exact acquired.own attempt mem
      · exact acquired.own a ha
    have exclusive (status : Status) : (open_ (record dataset.attempts attempt status)).Nodup :=
      acquired.exclusive.sublist (open_record running)
    cases stored : storeReply c stableHash attempt.chunk dataset.candles reply with
    | ok rows => exact ⟨own _, exclusive _, acquired.success tiled mem running stored⟩
    | error e =>
      refine ⟨own _, exclusive _, fun code g => ?_⟩
      have unchanged : succeeded (record dataset.attempts attempt .failed) =
          succeeded dataset.attempts := funext fun x => succeeded_record_failed x running
      dsimp only
      rw [unchanged]
      exact acquired.stored code g
  · rw [if_neg live]
    exact acquired

/-! ## Coverage -/

/-- A dataset is covered once an attempt at every chunk has succeeded. -/
theorem Acquired.covered (acquired : Acquired c chunks dataset)
    (all : ∀ chunk ∈ chunks, succeeded dataset.attempts chunk = true) :
    ∃ coverage, legacySeriesCoverage c plan dataset.candles = .ok coverage := by
  refine mapE_returns ?_
  rintro ⟨code, g⟩ mem
  obtain ⟨hcode, hg⟩ := List.pair_mem_product.mp mem
  have range := tiled.covers code hcode g hg
  have increasing := tiled.increasing code hcode g hg
  have whole : (chunksOf chunks code g).filter (succeeded dataset.attempts) =
      chunksOf chunks code g :=
    List.filter_eq_self.mpr fun x hx => all x (mem_chunksOf.mp hx).1
  have perm := acquired.stored code g
  rw [whole] at perm
  have sortedTimes : seriesTimestamps dataset.candles code g =
      (chunksOf chunks code g).flatMap (expansion c) := by
    rw [seriesTimestamps]
    refine (sorted_perm perm).trans ?_
    exact List.Pairwise.insertionSort_eq (increasing.imp fun h => le_of_lt h)
  have full : (chunksOf chunks code g).flatMap (expansion c) ≠ [] := by
    obtain ⟨start, finish, expanded⟩ := rangeTimestamps_expands range
    exact (expected_increasing expanded).2
  obtain ⟨first, rest, split⟩ := List.exists_cons_of_ne_nil full
  obtain ⟨candleRange, found, -⟩ := bind_eq_ok.mp range
  show ∃ y, seriesCoverage c plan dataset.candles code g = .ok y
  rw [seriesCoverage, range]
  show ∃ y, (if seriesTimestamps dataset.candles code g ≠
    (chunksOf chunks code g).flatMap (expansion c) then _ else _) = _
  rw [if_neg (not_not.mpr sortedTimes), sortedTimes, found, split]
  cases last : (first :: rest).getLast? with
  | none => cases List.getLast?_eq_none_iff.mp last
  | some final => exact ⟨_, rfl⟩

end

end

/-- The chunks an event of the acquisition is about. -/
def Event.chunk : Event → Chunk
  | .begin chunk => chunk
  | .finish attempt _ => attempt.chunk

/-- The datasets that attempts at the chunks lead to. -/
def Acquisition (c : SundayClock) (stableHash : Val → String) (chunks : List Chunk) :
    Dataset → Prop :=
  Runs.Reached (runHistoricalChunk c stableHash) (fun _ event => event.chunk ∈ chunks)
    fun dataset => dataset = ⟨[], []⟩

theorem Tiled.acquired {c : SundayClock} {stableHash : Val → String} {plan : Plan}
    {chunks : List Chunk} (tiled : Tiled c plan chunks) {dataset : Dataset}
    (reached : Acquisition c stableHash chunks dataset) : Acquired c chunks dataset := by
  refine reached.invariant ?_ ?_
  · rintro dataset rfl
    refine ⟨fun attempt h => absurd h List.not_mem_nil, List.nodup_nil, fun code g => ?_⟩
    have none : (chunksOf chunks code g).filter (succeeded []) = [] :=
      List.filter_eq_nil_iff.mpr fun _ _ h => by cases h
    rw [none]
    exact List.Perm.refl _
  · rintro dataset (chunk | ⟨attempt, reply⟩) acquired mem
    · exact acquired.begin mem
    · exact acquired.finish tiled attempt reply

/-- Whenever the ranges of a plan expand, its chunks are made; the requests of a series' chunks
expand, apart from each other, into the parts of its range in order; and a dataset that any run of
attempts leaves with one success at every chunk is accepted. -/
theorem chunked_acquisition (c : SundayClock) (stableHash : Val → String)
    (instruments : List String) (exist : ∀ code ∈ INSTRUMENTS, code ∈ instruments) (plan : Plan)
    (manifestSha256 : String) (size : 1 ≤ plan.chunkSize)
    (ranges : ∀ g ∈ GRANULARITIES, ∃ expected, rangeTimestamps c plan g = .ok expected) :
    ∃ chunks, materializeHistoricalChunks c stableHash instruments plan manifestSha256 =
        .ok chunks ∧
      (∀ code ∈ INSTRUMENTS, ∀ g ∈ GRANULARITIES, ∃ parts : List (List Instant),
        List.Forall₂ (fun chunk part => expectedCandleTimestamps c chunk.requestedFrom
          chunk.requestedTo g = .ok part) (chunksOf chunks code g) parts ∧
        parts.Pairwise List.Disjoint ∧ rangeTimestamps c plan g = .ok parts.flatten) ∧
      ∀ dataset, Acquisition c stableHash chunks dataset →
        (∀ chunk ∈ chunks, (dataset.attempts.filter fun attempt =>
          attempt.chunk = chunk ∧ attempt.status = .succeeded).length = 1) →
        ∃ coverage, legacySeriesCoverage c plan dataset.candles = .ok coverage := by
  obtain ⟨chunks, made, tiled⟩ := materialized stableHash manifestSha256 instruments exist
    ranges size
  refine ⟨chunks, made, fun code hcode g hg => ?_, fun dataset reached one => ?_⟩
  · refine ⟨(chunksOf chunks code g).map (expansion c), ?_, ?_, ?_⟩
    · refine List.forall₂_map_right_iff.mpr (List.forall₂_same.mpr fun chunk hchunk => ?_)
      obtain ⟨mem, -, rfl⟩ := mem_chunksOf.mp hchunk
      exact tiled.expands chunk mem
    · exact List.pairwise_map.mpr (tiled.apart hcode hg)
    · exact tiled.covers code hcode g hg
  · refine (tiled.acquired reached).covered tiled fun chunk hchunk => ?_
    obtain ⟨attempt, only⟩ := List.length_eq_one_iff.mp (one chunk hchunk)
    have mem : attempt ∈ dataset.attempts.filter fun attempt =>
        attempt.chunk = chunk ∧ attempt.status = .succeeded := by
      rw [only]
      exact List.mem_singleton_self attempt
    exact List.any_eq_true.mpr ⟨attempt, List.mem_filter.mp mem⟩

/-- New York in 2024: summer time from 10 March to 3 November. -/
def offset2024 (t : ℤ) : ℤ :=
  if 1710054000000000 ≤ t ∧ t < 1730613600000000 then -4 * hour else -5 * hour

theorem offset2024_sunday (t : ℤ) (changes : offset2024 t ≠ offset2024 (t - 1)) :
    SundayTwo (t + offset2024 (t - 1)) := by
  have boundary : t = 1710054000000000 ∨ t = 1730613600000000 := by
    simp only [offset2024, hour] at changes
    split_ifs at changes <;> omega
  rw [SundayTwo]
  rcases boundary with rfl | rfl
  · decide
  · decide

def newYork2024 : SundayClock where
  offset := offset2024
  two t := by
    rw [offset2024]
    split_ifs
    · exact .inl rfl
    · exact .inr rfl
  sunday := offset2024_sunday

/-- A plan across the March weekend, in chunks of one candle. -/
def marchPlan : Plan where
  ranges := .dict [
    ("D", .dict [("from", .str "2024-03-07T22:00:00+00:00"),
      ("to", .str "2024-03-11T21:00:00+00:00")]),
    ("H1", .dict [("from", .str "2024-03-08T21:00:00+00:00"),
      ("to", .str "2024-03-10T22:00:00Z")]),
    ("W", .dict [("from", .str "2024-03-01T22:00:00+00:00"),
      ("to", .str "2024-03-15T21:00:00+00:00")])]
  chunkSize := 1
  sha256 := "plan"

theorem marchPlan_ranges :
    rangeTimestamps newYork2024 marchPlan .d = .ok [1709848800000000, 1710104400000000] ∧
      rangeTimestamps newYork2024 marchPlan .h1 = .ok [1709931600000000, 1710104400000000] ∧
      rangeTimestamps newYork2024 marchPlan .w = .ok [1709330400000000, 1709935200000000] := by
  decide

theorem chunked_acquisition_march :
    ∃ chunks, materializeHistoricalChunks newYork2024 (fun _ => "digest") INSTRUMENTS marchPlan
        "manifest" = .ok chunks ∧
      (∀ code ∈ INSTRUMENTS, ∀ g ∈ GRANULARITIES, ∃ parts : List (List Instant),
        List.Forall₂ (fun chunk part => expectedCandleTimestamps newYork2024 chunk.requestedFrom
          chunk.requestedTo g = .ok part) (chunksOf chunks code g) parts ∧
        parts.Pairwise List.Disjoint ∧
        rangeTimestamps newYork2024 marchPlan g = .ok parts.flatten) ∧
      ∀ dataset, Acquisition newYork2024 (fun _ => "digest") chunks dataset →
        (∀ chunk ∈ chunks, (dataset.attempts.filter fun attempt =>
          attempt.chunk = chunk ∧ attempt.status = .succeeded).length = 1) →
        ∃ coverage, legacySeriesCoverage newYork2024 marchPlan dataset.candles = .ok coverage := by
  refine chunked_acquisition newYork2024 (fun _ => "digest") INSTRUMENTS (fun _ h => h) marchPlan
    "manifest" (by decide) fun g hg => ?_
  simp only [GRANULARITIES, List.mem_cons, List.not_mem_nil, or_false] at hg
  rcases hg with rfl | rfl | rfl
  · exact ⟨_, marchPlan_ranges.1⟩
  · exact ⟨_, marchPlan_ranges.2.1⟩
  · exact ⟨_, marchPlan_ranges.2.2⟩

end TradeRecommender.Market
