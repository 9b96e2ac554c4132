import TradeRecommender.Strategy.Incremental

/-!
# The incremental indicators are the batch indicators

Each batch function is described by what one more completed candle adds to it, and the state of the
loop by the batch functions of the candles it has seen. The two descriptions agree candle by candle.
-/

namespace TradeRecommender.Strategy

open Civil (Instant)
open Py (Exc)

/-! ## Completed candles -/

/-- Candles in the order of their opening and of their completion. -/
def Chronological (data : List Candle) : Prop :=
  data.Pairwise fun a b => a.openedAt < b.openedAt ∧ a.completedAt < b.completedAt

/-- Every candle is complete by the context's time. -/
def Available (data : List Candle) (context : Context) : Prop :=
  ∀ c ∈ data, c.complete = true ∧ c.completedAt ≤ context.asOf

theorem completedCandles_eq {data : List Candle} {context : Context} (hc : Chronological data)
    (ha : Available data context) : completedCandles data context = data := by
  have keep : data.filter (fun c => c.complete && c.completedAt ≤ context.asOf) = data := by
    rw [List.filter_eq_self]
    intro c hmem
    simpa using ha c hmem
  unfold completedCandles
  rw [keep]
  apply List.mergeSort_of_pairwise
  exact hc.imp fun h => by simpa using h.1.le

theorem Chronological.snoc {data : List Candle} {c : Candle} (h : Chronological (data ++ [c])) :
    Chronological data ∧ ∀ row ∈ data, row.openedAt < c.openedAt ∧ row.completedAt < c.completedAt := by
  have parts := List.pairwise_append.mp h
  exact ⟨parts.1, fun row hrow => parts.2.2 row hrow c (by simp)⟩

theorem Available.of_prefix {pre data : List Candle} {context : Context} (hp : pre <+: data)
    (h : Available data context) : Available pre context :=
  fun c hc => h c (hp.subset hc)

/-! ## Moving averages -/

/-- The average after the closes: the mean of the first ones, moved by each later one. -/
def emaAfter (period : ℕ) (closes : List ℚ) : ℚ :=
  (closes.drop period).foldl
    (fun value close => Rounding.add prec value
      (Rounding.mul prec (Rounding.div prec 2 (period + 1)) (Rounding.sub prec close value)))
    (Rounding.div prec (Rounding.sum prec (closes.take period)) period)

theorem emaAfter_concat {period : ℕ} {closes : List ℚ} (h : period ≤ closes.length) (close : ℚ) :
    emaAfter period (closes ++ [close]) =
      Rounding.add prec (emaAfter period closes)
        (Rounding.mul prec (Rounding.div prec 2 (period + 1))
          (Rounding.sub prec close (emaAfter period closes))) := by
  unfold emaAfter
  rw [List.drop_append_of_le_length h, List.take_append_of_le_length h, List.foldl_append]
  rfl

/-- The incremental average after the closes. -/
def emaState (period : ℕ) (closes : List ℚ) : IncrementalEma :=
  ⟨period, closes.take period, if closes.length < period then none else some (emaAfter period closes),
    Rounding.div prec 2 (period + 1)⟩

theorem emaState_nil {period : ℕ} (hp : 0 < period) : emaState period [] = .init period := by
  simp [emaState, IncrementalEma.init, hp]

theorem emaState_concat (period : ℕ) (closes : List ℚ) (close : ℚ) :
    (emaState period closes).update close = emaState period (closes ++ [close]) := by
  rcases lt_or_ge closes.length period with hshort | hfull
  · have htake : closes.take period = closes := List.take_of_length_le hshort.le
    have htake' : (closes ++ [close]).take period = closes ++ [close] := by
      apply List.take_of_length_le
      simp
      omega
    have hval : (emaState period closes).value = none := by simp [emaState, hshort]
    unfold IncrementalEma.update
    rw [hval]
    simp only [emaState, htake, htake', List.length_append, List.length_singleton]
    by_cases hlast : closes.length + 1 = period
    · have hdrop : (closes ++ [close]).drop period = [] := by
        apply List.drop_of_length_le
        simp
        omega
      have hnot : ¬ closes.length + 1 < period := by omega
      rw [if_pos hlast, if_neg hnot, emaAfter, hdrop, htake']
      rfl
    · have hstill : closes.length + 1 < period := by omega
      rw [if_neg hlast, if_pos hstill]
  · have hnot : ¬ closes.length < period := by omega
    have hnot' : ¬ (closes ++ [close]).length < period := by simp; omega
    have hval : (emaState period closes).value = some (emaAfter period closes) := by
      simp [emaState, hnot]
    unfold IncrementalEma.update
    rw [hval]
    simp only [emaState, if_neg hnot', emaAfter_concat hfull,
      List.take_append_of_le_length hfull]

/-- The points of the average after one turn of the loop more. -/
theorem emaFold_value (multiplier : ℚ) (rows : List Candle) (s : ℚ × List Point) :
    (rows.foldl (emaStep multiplier) s).1 =
      (rows.map Candle.close).foldl
        (fun value close => Rounding.add prec value
          (Rounding.mul prec multiplier (Rounding.sub prec close value))) s.1 := by
  induction rows generalizing s with
  | nil => rfl
  | cons row rows ih =>
    rw [List.foldl_cons, ih]
    rfl

/-- **One more candle adds one point**, once the seed is complete. -/
theorem emaPoints_concat {period : ℕ} (hp : 0 < period) (data : List Candle) (c : Candle) :
    emaPoints period (data ++ [c]) = emaPoints period data ++
      if data.length + 1 < period then []
      else [⟨c.completedAt, emaAfter period ((data ++ [c]).map Candle.close)⟩] := by
  have hp' : ¬ period < 1 := by omega
  unfold emaPoints
  simp only [hp', false_or, List.length_append, List.length_singleton]
  rcases lt_trichotomy (data.length + 1) period with hlt | heq | hgt
  · rw [if_pos hlt, if_pos (by omega), if_pos hlt]
    rfl
  · have hnot : ¬ data.length + 1 < period := by omega
    have hshort : data.length < period := by omega
    have hget : (data ++ [c])[period - 1]? = some c := by
      rw [← heq]
      simp
    have hdrop : (data ++ [c]).drop period = [] := by
      apply List.drop_of_length_le
      simp
      omega
    have hdrop' : ((data ++ [c]).map Candle.close).drop period = [] := by
      rw [← List.map_drop, hdrop]
      rfl
    rw [if_neg hnot, if_pos hshort, if_neg hnot, hget, hdrop]
    simp only [List.foldl_nil, List.nil_append, emaAfter, hdrop', List.map_take]
  · have hnot : ¬ data.length + 1 < period := by omega
    have hfull : period ≤ data.length := by omega
    have hnot' : ¬ data.length < period := by omega
    have hget : (data ++ [c])[period - 1]? = data[period - 1]? :=
      List.getElem?_append_left (by omega)
    obtain ⟨last, hlast⟩ : ∃ last, data[period - 1]? = some last :=
      ⟨_, List.getElem?_eq_getElem (by omega)⟩
    rw [if_neg hnot, if_neg hnot', if_neg hnot, hget, hlast,
      List.drop_append_of_le_length hfull, List.take_append_of_le_length hfull]
    simp only [List.foldl_append, List.foldl_cons, List.foldl_nil, emaStep, emaFold_value]
    congr 3
    rw [List.map_append, List.map_singleton, emaAfter_concat (by simpa using hfull)]
    simp only [emaAfter, List.map_drop, List.map_take]

/-- There are points exactly when the seed is complete. -/
theorem emaPoints_of_short {period : ℕ} {data : List Candle} (h : data.length < period) :
    emaPoints period data = [] := by
  unfold emaPoints
  rw [if_pos (Or.inr h)]

/-- The incremental value is that of the last batch point. -/
theorem emaState_value {period : ℕ} (hp : 0 < period) (data : List Candle) :
    (emaState period (data.map Candle.close)).value =
      (emaPoints period data).getLast?.map Point.value := by
  rcases List.eq_nil_or_concat data with rfl | ⟨rows, c, rfl⟩
  · rw [emaPoints_of_short hp]
    simp [emaState, hp]
  · rw [List.concat_eq_append, emaPoints_concat hp]
    simp only [emaState, List.length_map, List.length_append, List.length_singleton]
    split_ifs with hshort
    · rw [List.append_nil, emaPoints_of_short (by omega)]
      rfl
    · simp

/-! ## True range -/

theorem mid_mono {bid ask bid' ask' : ℚ} (hbid : bid ≤ bid') (hask : ask ≤ ask') :
    mid bid ask ≤ mid bid' ask' := by
  have hp : 0 < prec := by norm_num
  have hsum : Rounding.add prec bid ask ≤ Rounding.add prec bid' ask' :=
    Rounding.fl_mono hp (by linarith)
  exact Rounding.fl_mono hp (by linarith)

/-- The gaps of an ordered candle from its own close lie inside its range. -/
theorem trueRange_own {c : Candle} (h : c.Ordered) :
    trueRange c.close c = Rounding.sub prec c.high c.low := by
  have hp : 0 < prec := by norm_num
  have hlow : c.low ≤ c.close := mid_mono h.bidLow h.askLow
  have hhigh : c.close ≤ c.high := mid_mono h.bidHigh h.askHigh
  have gapHigh : Rounding.abs prec (Rounding.sub prec c.high c.close) ≤
      Rounding.sub prec c.high c.low := by
    rw [Rounding.abs_sub_of_le hp hhigh]
    exact Rounding.sub_le_sub hp le_rfl hlow
  have gapLow : Rounding.abs prec (Rounding.sub prec c.low c.close) ≤
      Rounding.sub prec c.high c.low := by
    rw [Rounding.abs_sub_comm, Rounding.abs_sub_of_le hp hlow]
    exact Rounding.sub_le_sub hp hhigh le_rfl
  unfold trueRange
  rw [max_eq_left gapHigh, max_eq_left gapLow]

/-- One more candle adds one range, measured from the last close. -/
theorem trueRanges_concat (data : List Candle) (c : Candle) :
    trueRanges (data ++ [c]) =
      trueRanges data ++ [trueRange ((data.getLast?.map Candle.close).getD c.close) c] := by
  have hlast : (if data.length = 0 then c.close
      else (((data ++ [c])[data.length - 1]?).map Candle.close).getD 0) =
      (data.getLast?.map Candle.close).getD c.close := by
    rcases List.eq_nil_or_concat data with rfl | ⟨rows, last, rfl⟩
    · rfl
    · simp
  unfold trueRanges
  rw [List.mapIdx_concat, hlast]
  refine congrArg (· ++ [_]) ?_
  apply List.ext_getElem?
  intro i
  rw [List.getElem?_mapIdx, List.getElem?_mapIdx]
  rcases lt_or_ge i data.length with hi | hi
  · have hprev : (data ++ [c])[i - 1]? = data[i - 1]? := List.getElem?_append_left (by omega)
    rw [hprev]
  · rw [List.getElem?_eq_none hi, Option.map_none, Option.map_none]

@[simp]
theorem length_trueRanges (data : List Candle) : (trueRanges data).length = data.length := by
  simp [trueRanges]

/-! ## Average true range -/

/-- The average after the ranges: the mean of the first fourteen, moved by each later one. -/
def atrAfter (ranges : List ℚ) : ℚ :=
  (ranges.drop 14).foldl
    (fun value range => Rounding.div prec
      (Rounding.add prec (Rounding.mul prec value 13) range) 14)
    (Rounding.div prec (Rounding.sum prec (ranges.take 14)) 14)

theorem atrAfter_concat {ranges : List ℚ} (h : 14 ≤ ranges.length) (range : ℚ) :
    atrAfter (ranges ++ [range]) = Rounding.div prec
      (Rounding.add prec (Rounding.mul prec (atrAfter ranges) 13) range) 14 := by
  unfold atrAfter
  rw [List.drop_append_of_le_length h, List.take_append_of_le_length h, List.foldl_append]
  rfl

/-- The incremental average true range after the candles. -/
def atrState (data : List Candle) : IncrementalAtr :=
  ⟨14, (trueRanges data).take 14, data.getLast?.map Candle.close,
    if data.length < 14 then none else some (atrAfter (trueRanges data))⟩

/-- The incremental range is the batch range; of the first candle because it is ordered. -/
theorem atrState_trueRange (data : List Candle) {c : Candle} (hc : c.Ordered) :
    (atrState data).trueRange c.high c.low =
      trueRange ((data.getLast?.map Candle.close).getD c.close) c := by
  unfold atrState IncrementalAtr.trueRange
  cases hprev : data.getLast?.map Candle.close with
  | none => exact (trueRange_own hc).symm
  | some previousClose => rfl

theorem atrState_concat (data : List Candle) {c : Candle} (hc : c.Ordered) :
    (atrState data).update c.high c.low c.close = atrState (data ++ [c]) := by
  have hranges := trueRanges_concat data c
  have hrange := atrState_trueRange data hc
  have hlen := length_trueRanges data
  have hlast : (data ++ [c]).getLast?.map Candle.close = some c.close := by simp
  unfold IncrementalAtr.update
  rw [hrange]
  generalize trueRange ((data.getLast?.map Candle.close).getD c.close) c = range at hranges
  rcases lt_or_ge data.length 14 with hshort | hfull
  · have htake : (trueRanges data).take 14 = trueRanges data :=
      List.take_of_length_le (by omega)
    have htake' : (trueRanges (data ++ [c])).take 14 = trueRanges data ++ [range] := by
      rw [hranges]
      apply List.take_of_length_le
      simp
      omega
    have hval : (atrState data).value = none := by simp [atrState, hshort]
    rw [hval]
    simp only [atrState, htake, htake', hlast, List.length_append, List.length_singleton, hlen]
    by_cases hseed : data.length + 1 = 14
    · have hdrop : (trueRanges (data ++ [c])).drop 14 = [] := by
        apply List.drop_of_length_le
        simp
        omega
      rw [if_pos hseed, if_neg (by omega), atrAfter, hdrop, htake']
      rfl
    · rw [if_neg hseed, if_pos (by omega)]
  · have hval : (atrState data).value = some (atrAfter (trueRanges data)) := by
      simp [atrState, hfull]
    rw [hval]
    have hfull' : ¬ (data ++ [c]).length < 14 := by simp; omega
    simp only [atrState, hlast, if_neg hfull', hranges]
    rw [atrAfter_concat (by omega), List.take_append_of_le_length (by omega)]
    norm_num

theorem atrFold_value (rows : List (Candle × ℚ)) (s : ℚ × List Point) :
    (rows.foldl atrStep s).1 =
      (rows.map Prod.snd).foldl
        (fun value range => Rounding.div prec
          (Rounding.add prec (Rounding.mul prec value 13) range) 14) s.1 := by
  induction rows generalizing s with
  | nil => rfl
  | cons row rows ih =>
    rw [List.foldl_cons, ih]
    rfl

theorem atrPoints_of_short {data : List Candle} (h : data.length < 14) : atrPoints data = [] := by
  unfold atrPoints
  rw [if_pos h]

/-- **One more candle adds one point**, once there are fourteen. -/
theorem atrPoints_concat (data : List Candle) (c : Candle) :
    atrPoints (data ++ [c]) = atrPoints data ++
      if data.length + 1 < 14 then []
      else [⟨c.completedAt, atrAfter (trueRanges (data ++ [c]))⟩] := by
  have hranges := trueRanges_concat data c
  have hlen := length_trueRanges data
  generalize trueRange ((data.getLast?.map Candle.close).getD c.close) c = range at hranges
  rcases lt_trichotomy (data.length + 1) 14 with hlt | heq | hgt
  · rw [atrPoints_of_short (by simpa using hlt), atrPoints_of_short (by omega), if_pos hlt]
    rfl
  · have hget : (data ++ [c])[13]? = some c := by
      have : data.length = 13 := by omega
      rw [← this]
      simp
    have hdrop : (data ++ [c]).drop 14 = [] := by
      apply List.drop_of_length_le
      simp
      omega
    have hdrop' : (trueRanges (data ++ [c])).drop 14 = [] := by
      apply List.drop_of_length_le
      simp
      omega
    rw [atrPoints_of_short (show data.length < _ by omega), if_neg (by omega)]
    unfold atrPoints
    rw [if_neg (by simp; omega), hget, hdrop]
    simp only [List.zip_nil_left, List.foldl_nil, List.nil_append, atrAfter, hdrop']
  · have hget : (data ++ [c])[13]? = data[13]? := List.getElem?_append_left (by omega)
    obtain ⟨last, hlast⟩ : ∃ last, data[13]? = some last :=
      ⟨_, List.getElem?_eq_getElem (by omega)⟩
    have hzip : ((data.drop 14).zip ((trueRanges data).drop 14)).map Prod.snd =
        (trueRanges data).drop 14 := by
      apply List.map_snd_zip
      simp
    unfold atrPoints
    have hdata : (data ++ [c]).drop 14 = data.drop 14 ++ [c] :=
      List.drop_append_of_le_length (by omega)
    have hdrop : (trueRanges data ++ [range]).drop 14 = (trueRanges data).drop 14 ++ [range] :=
      List.drop_append_of_le_length (by omega)
    have htake : (trueRanges data ++ [range]).take 14 = (trueRanges data).take 14 :=
      List.take_append_of_le_length (by omega)
    have hpair : (data.drop 14 ++ [c]).zip ((trueRanges data).drop 14 ++ [range]) =
        (data.drop 14).zip ((trueRanges data).drop 14) ++ [(c, range)] :=
      List.zip_append (by simp)
    rw [if_neg (by simp; omega), if_neg (by omega), if_neg (by omega), hget, hlast, hranges,
      atrAfter_concat (by omega)]
    simp only [hdata, hdrop, htake, hpair, List.foldl_append, List.foldl_cons, List.foldl_nil,
      atrStep, atrFold_value, hzip, atrAfter]

/-- The incremental value is that of the last batch point. -/
theorem atrState_value (data : List Candle) :
    (atrState data).value = (atrPoints data).getLast?.map Point.value := by
  rcases List.eq_nil_or_concat data with rfl | ⟨rows, c, rfl⟩
  · rfl
  · rw [List.concat_eq_append, atrPoints_concat]
    simp only [atrState, List.length_append, List.length_singleton]
    split_ifs with hshort
    · rw [List.append_nil, atrPoints_of_short (by omega)]
      rfl
    · simp

/-! ## Pivots -/

theorem slice_append {data : List Candle} {start stop : ℕ} (h : stop ≤ data.length)
    (more : List Candle) : slice (data ++ more) start stop = slice data start stop := by
  unfold slice
  rcases le_or_gt start data.length with hs | hs
  · rw [List.drop_append_of_le_length hs, List.take_append_of_le_length]
    simp
    omega
  · have hzero : stop - start = 0 := by omega
    rw [hzero, List.take_zero, List.take_zero]

theorem slice_shift (front rows : List Candle) (start stop : ℕ) :
    slice (front ++ rows) (front.length + start) (front.length + stop) = slice rows start stop := by
  have hlen : front.length + stop - (front.length + start) = stop - start := by omega
  unfold slice
  rw [hlen, ← List.drop_drop, List.drop_left]

/-- The turn of the loop of `daily_pivots` at an index. -/
def pivotsAtIndex (data : List Candle) (index : ℕ) : List Pivot :=
  match data[index]?, data[index + 2]? with
  | some center, some last =>
    pivotsAt center (slice data (index - 2) index ++ slice data (index + 1) (index + 3))
      last.completedAt
  | _, _ => []

theorem pivotsOf_eq (data : List Candle) :
    pivotsOf data = (List.range' 2 (data.length - 4)).flatMap (pivotsAtIndex data) := rfl

theorem pivotsAtIndex_append {data : List Candle} {index : ℕ} (h : index + 2 < data.length)
    (more : List Candle) : pivotsAtIndex (data ++ more) index = pivotsAtIndex data index := by
  unfold pivotsAtIndex
  rw [slice_append (by omega), slice_append (by omega), List.getElem?_append_left (by omega),
    List.getElem?_append_left h]

/-- The last four rows of a list that has them. -/
theorem exists_last_four {α : Type} {rows : List α} (h : 4 ≤ rows.length) :
    ∃ front a b c d, rows = front ++ [a, b, c, d] := by
  have split := List.take_append_drop (rows.length - 4) rows
  have hlen : (rows.drop (rows.length - 4)).length = 4 := by simp; omega
  obtain ⟨a, b, c, d, hdrop⟩ := List.length_eq_four.mp hlen
  exact ⟨_, a, b, c, d, by rw [← hdrop, split]⟩

theorem windowPivots_of_short {rows : List Candle} (h : rows.length < 5) :
    windowPivots rows = [] := by
  unfold windowPivots
  split
  · simp at h
  · rfl

/-- **One more candle adds the pivots of the last five.** -/
theorem pivotsOf_concat (data : List Candle) (c : Candle) :
    pivotsOf (data ++ [c]) = pivotsOf data ++ windowPivots ((data ++ [c]).rtake 5) := by
  rw [pivotsOf_eq, pivotsOf_eq]
  rcases lt_or_ge data.length 4 with hshort | hfull
  · have hempty : data.length + 1 - 4 = 0 := by omega
    have hempty' : data.length - 4 = 0 := by omega
    rw [List.length_append, List.length_singleton, hempty, hempty', windowPivots_of_short]
    · rfl
    · simp [List.rtake]
      omega
  · have hnext : (data ++ [c]).length - 4 = data.length - 4 + 1 := by
      simp
      omega
    have hold : (List.range' 2 (data.length - 4)).flatMap (pivotsAtIndex (data ++ [c])) =
        (List.range' 2 (data.length - 4)).flatMap (pivotsAtIndex data) := by
      apply List.flatMap_congr
      intro index hindex
      rw [List.mem_range'_1] at hindex
      exact pivotsAtIndex_append (by omega) [c]
    have hnew : pivotsAtIndex (data ++ [c]) (2 + (data.length - 4)) =
        windowPivots ((data ++ [c]).rtake 5) := by
      obtain ⟨front, first, second, center, fourth, rfl⟩ := exists_last_four hfull
      have hindex : 2 + ((front ++ [first, second, center, fourth]).length - 4) =
          front.length + 2 := by
        simp
        omega
      have hwindow : (front ++ [first, second, center, fourth] ++ [c]).rtake 5 =
          [first, second, center, fourth, c] := by
        simp [List.rtake]
      have hget (k : ℕ) : (front ++ [first, second, center, fourth, c])[front.length + k]? =
          [first, second, center, fourth, c][k]? := by
        rw [List.getElem?_append_right (by omega), Nat.add_sub_cancel_left]
      rw [hindex, hwindow, List.append_assoc, List.cons_append, List.cons_append, List.cons_append,
        List.cons_append, List.nil_append]
      unfold pivotsAtIndex
      rw [hget 2, Nat.add_assoc, hget 4, Nat.add_sub_cancel, slice_shift front _ 3 5]
      have hbefore := slice_shift front [first, second, center, fourth, c] 0 2
      rw [Nat.add_zero] at hbefore
      rw [hbefore]
      rfl
    rw [hnext, List.range'_concat, List.flatMap_append, hold]
    simp only [one_mul, List.flatMap_cons, List.flatMap_nil, List.append_nil, hnew]

/-- Every pivot of a full window becomes available with the window's last candle, and there is one
of each kind at most. -/
theorem windowPivots_spec {rows : List Candle} {c : Candle} (hlast : rows.getLast? = some c) :
    (∀ pivot ∈ windowPivots rows, pivot.availableAt = c.completedAt) ∧
      (windowPivots rows).Pairwise fun a b => a.kind ≠ b.kind := by
  unfold windowPivots
  split
  · simp only [List.getLast?_cons_cons, List.getLast?_singleton, Option.some.injEq] at hlast
    subst hlast
    dsimp only
    split_ifs <;> simp
  · simp

theorem getLast?_rtake_concat {α : Type} (bound : ℕ) (rows : List α) (row : α) :
    ((rows ++ [row]).rtake (bound + 1)).getLast? = some row := by
  unfold List.rtake
  rw [List.drop_append_of_le_length (by simp), List.getLast?_append]
  rfl

/-- A pivot becomes available with a candle of the list. -/
theorem mem_pivotsOf {data : List Candle} {pivot : Pivot} (h : pivot ∈ pivotsOf data) :
    ∃ c ∈ data, pivot.availableAt = c.completedAt := by
  induction data using List.reverseRecOn with
  | nil => simp [pivotsOf] at h
  | append_singleton data c ih =>
    rw [pivotsOf_concat, List.mem_append] at h
    rcases h with h | h
    · obtain ⟨row, hrow, hat⟩ := ih h
      exact ⟨row, by simp [hrow], hat⟩
    · have hwindow := windowPivots_spec (getLast?_rtake_concat 4 data c)
      exact ⟨c, by simp, hwindow.1 pivot h⟩

/-- Pivots of one kind become available one after another. -/
theorem pivotsOf_ascending {data : List Candle} (hc : Chronological data) :
    (pivotsOf data).Pairwise fun a b => a.kind = b.kind → a.availableAt < b.availableAt := by
  induction data using List.reverseRecOn with
  | nil => simp [pivotsOf]
  | append_singleton data c ih =>
    have hwindow := windowPivots_spec (getLast?_rtake_concat 4 data c)
    rw [pivotsOf_concat, List.pairwise_append]
    refine ⟨ih hc.snoc.1, hwindow.2.imp fun h he => absurd he h, ?_⟩
    intro a ha b hb _
    obtain ⟨row, hrow, hat⟩ := mem_pivotsOf ha
    rw [hat, hwindow.1 b hb]
    exact (hc.snoc.2 row hrow).2

/-! ## The state of the loop -/

/-- The incremental state after the candles, from the batch functions of the same candles. -/
def stateAfter (data : List Candle) : IncrementalDailyState :=
  ⟨emaState 50 (data.map Candle.close), emaState 200 (data.map Candle.close), atrState data,
    data.rtake 5, data.rtake 20⟩

/-- The prior extreme of a window of twenty, when there is one. -/
def priorExtreme (extreme : List ℚ → Option ℚ) (side : Candle → ℚ) (data : List Candle) : Option ℚ :=
  if 20 ≤ data.length then extreme ((data.rtake 20).map side) else none

theorem stateAfter_update (data : List Candle) {c : Candle} (hc : c.Ordered) :
    (stateAfter data).update c = (stateAfter (data ++ [c]),
      ⟨(emaState 50 ((data ++ [c]).map Candle.close)).value,
        (emaState 200 ((data ++ [c]).map Candle.close)).value, (atrState (data ++ [c])).value,
        windowPivots ((data ++ [c]).rtake 5), priorExtreme List.max? Candle.high data,
        priorExtreme List.min? Candle.low data⟩) := by
  have hclose : (data ++ [c]).map Candle.close = data.map Candle.close ++ [c.close] := by simp
  unfold IncrementalDailyState.update stateAfter
  simp only [hclose, emaState_concat, atrState_concat data hc, Window.push_rtake,
    Window.length_rtake_eq_iff, priorExtreme]

/-- What the variables of the loop hold after the candles. -/
structure Tracks (data : List Candle) (s : DailyLoop) : Prop where
  state : s.state = stateAfter data
  daily : s.daily = data
  pivots : s.pivots = pivotsOf data
  history : s.ema50History = ((emaPoints 50 data).map Point.value).rtake 21

theorem tracks_init : Tracks [] .init where
  state := by
    unfold stateAfter
    rw [List.map_nil, emaState_nil (by norm_num), emaState_nil (by norm_num)]
    rfl
  daily := rfl
  pivots := rfl
  history := rfl

/-- One turn keeps the variables in step with the candles. -/
theorem tracks_step {data : List Candle} {s : DailyLoop} {c : Candle} (h : Tracks data s)
    (hc : c.Ordered) : Tracks (data ++ [c]) (s.step c) := by
  have hupdate := stateAfter_update data hc
  have hpoints := emaPoints_concat (show 0 < 50 by norm_num) data c
  have hvalue := emaState_value (show 0 < 50 by norm_num) (data ++ [c])
  constructor
  · simp only [DailyLoop.step, h.state, hupdate]
  · simp only [DailyLoop.step, h.daily]
  · simp only [DailyLoop.step, h.state, hupdate, h.pivots, pivotsOf_concat]
  · simp only [DailyLoop.step, h.state, hupdate, h.history, hvalue, hpoints]
    split_ifs with hshort
    · rw [List.append_nil, emaPoints_of_short (by omega)]
      rfl
    · simp

/-- **The loop tracks the batch functions** over every list of ordered candles. -/
theorem tracks_run {data : List Candle} (h : ∀ c ∈ data, c.Ordered) :
    Tracks data (DailyLoop.run data) := by
  induction data using List.reverseRecOn with
  | nil => exact tracks_init
  | append_singleton data c ih =>
    have hold := ih fun row hrow => h row (by simp [hrow])
    unfold DailyLoop.run at hold ⊢
    rw [List.foldl_append]
    exact tracks_step hold (h c (by simp))

/-! ## Bias and supporting swing -/

theorem pivots_visible {data : List Candle} {context : Context} (ha : Available data context) :
    (pivotsOf data).filter (fun pivot => pivot.availableAt ≤ context.asOf) = pivotsOf data := by
  rw [List.filter_eq_self]
  intro pivot hpivot
  obtain ⟨c, hc, hat⟩ := mem_pivotsOf hpivot
  simpa [hat] using (ha c hc).2

theorem marketStructure_eq {data : List Candle} {context context' : Context}
    (ha : Available data context) (ha' : Available data context') (close : ℚ) :
    marketStructure (pivotsOf data) close context =
      marketStructure (pivotsOf data) close context' := by
  unfold marketStructure
  rw [pivots_visible ha, pivots_visible ha']

/-- The bias read from the last values is the bias read from the points. -/
theorem bias_eq {data : List Candle} {c : Candle} {context : Context}
    (hc : Chronological (data ++ [c])) (ha : Available (data ++ [c]) context)
    (update : IncrementalDailyUpdate)
    (h50 : update.ema50 = (emaPoints 50 (data ++ [c])).getLast?.map Point.value)
    (h200 : update.ema200 = (emaPoints 200 (data ++ [c])).getLast?.map Point.value) :
    bias (data ++ [c]) (pivotsOf (data ++ [c])) update
        (((emaPoints 50 (data ++ [c])).map Point.value).rtake 21) =
      dailyBias (data ++ [c]) (pivotsOf (data ++ [c])) context := by
  have hown : Available (data ++ [c]) ⟨c.completedAt, "", ""⟩ := by
    intro row hrow
    refine ⟨(ha row hrow).1, ?_⟩
    rcases List.mem_append.mp hrow with hrow | hrow
    · exact (hc.snoc.2 row hrow).2.le
    · rw [List.mem_singleton.mp hrow]
  have hstructure := marketStructure_eq hown ha c.close
  unfold bias dailyBias ema50 ema200 ema
  simp only [completedCandles_eq hc ha, h50, h200]
  generalize emaPoints 50 (data ++ [c]) = fast
  generalize emaPoints 200 (data ++ [c]) = slow
  rw [List.getLast?_append, List.getLast?_singleton, Option.some_or]
  rcases List.eq_nil_or_concat fast with rfl | ⟨front, last, rfl⟩
  · rfl
  rcases List.eq_nil_or_concat slow with rfl | ⟨slowFront, slowLast, rfl⟩
  · simp
  simp only [List.concat_eq_append, List.getLast?_append, List.getLast?_singleton, Option.some_or,
    Option.map_some, List.reverse_append, List.reverse_singleton, List.singleton_append, hstructure]
  rcases lt_or_ge front.length 20 with hshort | hfull
  · have hnone : (last :: front.reverse)[20]? = none := by
      apply List.getElem?_eq_none
      simp
      omega
    have hlen : (((front ++ [last]).map Point.value).rtake 21).length < 21 := by
      simp [List.rtake]
      omega
    rw [hnone, if_pos hlen]
  · have hlen : ¬ (((front ++ [last]).map Point.value).rtake 21).length < 21 := by
      rw [(Window.length_rtake_eq_iff _).mpr (by simp; omega)]
      omega
    have hhead : (((front ++ [last]).map Point.value).rtake 21).head? =
        ((last :: front.reverse)[20]?).map Point.value := by
      rw [Window.head?_rtake (by simp; omega), ← List.map_reverse, List.getElem?_map]
      simp
    obtain ⟨prior, hprior⟩ : ∃ prior, (last :: front.reverse)[20]? = some prior :=
      ⟨_, List.getElem?_eq_getElem (by simp; omega)⟩
    rw [if_neg hlen, hhead, hprior]
    rfl

/-- Of pivots that become available one after another both maxima are the last. -/
theorem supporting_eq {data : List Candle} {context : Context} {at_ : Instant}
    (hc : Chronological data) (ha : Available data context)
    (hat : ∀ c ∈ data, c.completedAt ≤ at_) (current : Bias) :
    supporting (pivotsOf data) current at_ =
      supportingSwing (pivotsOf data) current context := by
  have hsame : (pivotsOf data).filter (fun pivot =>
        some pivot.kind = current.pivotKind ∧ pivot.availableAt ≤ at_) =
      (pivotsOf data).filter (fun pivot =>
        some pivot.kind = current.pivotKind ∧ pivot.availableAt ≤ context.asOf) := by
    apply List.filter_congr
    intro pivot hpivot
    obtain ⟨c, hmem, havail⟩ := mem_pivotsOf hpivot
    have early : pivot.availableAt ≤ at_ := by rw [havail]; exact hat c hmem
    have late : pivot.availableAt ≤ context.asOf := by rw [havail]; exact (ha c hmem).2
    simp [early, late]
  have ascending : ((pivotsOf data).filter (fun pivot =>
      some pivot.kind = current.pivotKind ∧ pivot.availableAt ≤ context.asOf)).Pairwise
        fun a b => a.availableAt < b.availableAt := by
    rw [List.pairwise_filter]
    refine (pivotsOf_ascending hc).imp ?_
    intro a b hab ha' hb'
    have hkind : some a.kind = some b.kind := by
      rw [(of_decide_eq_true ha').1, (of_decide_eq_true hb').1]
    exact hab (Option.some.inj hkind)
  unfold supporting supportingSwing
  rw [hsame, Window.firstMax_of_pairwise, Window.firstMax_of_pairwise]
  · exact ascending.imp fun h => by simpa using h
  · exact ascending.imp fun h => by simp [lexLt, h]

/-! ## Breakout levels -/

/-- `{point.at: point.value for point in points}`. -/
def byTime (points : List Point) (at_ : Instant) : Option ℚ :=
  (points.reverse.find? fun point => point.at_ = at_).map Point.value

theorem byTime_of_mem {points : List Point} (h : points.Pairwise fun a b => a.at_ < b.at_)
    {point : Point} (hmem : point ∈ points) : byTime points point.at_ = some point.value := by
  have hfind : ∃ found, points.reverse.find? (fun row => row.at_ = point.at_) = some found := by
    rw [← Option.isSome_iff_exists, List.find?_isSome]
    exact ⟨point, by simpa using hmem, by simp⟩
  obtain ⟨found, hfound⟩ := hfind
  have hat : found.at_ = point.at_ := by simpa using List.find?_some hfound
  have hin : found ∈ points := by simpa using List.mem_of_find?_eq_some hfound
  have distinct : (points.map Point.at_).Nodup := List.pairwise_map.mpr (h.imp ne_of_lt)
  have hsame : found = point := List.inj_on_of_nodup_map distinct hin hmem hat
  rw [byTime, hfound, hsame]
  rfl

theorem atrPoints_at {data : List Candle} {point : Point} (h : point ∈ atrPoints data) :
    ∃ c ∈ data, point.at_ = c.completedAt := by
  induction data using List.reverseRecOn with
  | nil => simp [atrPoints] at h
  | append_singleton data c ih =>
    rw [atrPoints_concat, List.mem_append] at h
    rcases h with h | h
    · obtain ⟨row, hrow, hat⟩ := ih h
      exact ⟨row, by simp [hrow], hat⟩
    · split_ifs at h with hshort
      · simp at h
      · rw [List.mem_singleton] at h
        exact ⟨c, by simp, by rw [h]⟩

theorem atrPoints_ascending {data : List Candle} (hc : Chronological data) :
    (atrPoints data).Pairwise fun a b => a.at_ < b.at_ := by
  induction data using List.reverseRecOn with
  | nil => simp [atrPoints]
  | append_singleton data c ih =>
    rw [atrPoints_concat, List.pairwise_append]
    refine ⟨ih hc.snoc.1, by split_ifs <;> simp, ?_⟩
    intro a ha b hb
    obtain ⟨row, hrow, hat⟩ := atrPoints_at ha
    split_ifs at hb with hshort
    · simp at hb
    · rw [List.mem_singleton] at hb
      rw [hat, hb]
      exact (hc.snoc.2 row hrow).2

/-- A level is made alike under every context late enough. -/
theorem makeLevel_context {key family : String} {role : Role} {price atr : ℚ}
    {activatedAt sourceAt : Instant} {precision : Quantum} {context context' : Context}
    {expiresAt : Option Instant} {sessions : Option ℕ} (h : activatedAt ≤ context.asOf)
    (h' : activatedAt ≤ context'.asOf) :
    makeLevel key family role price atr activatedAt sourceAt precision context expiresAt sessions =
      makeLevel key family role price atr activatedAt sourceAt precision context' expiresAt
        sessions := by
  have early : ¬ context.asOf < activatedAt := not_lt.mpr h
  have early' : ¬ context'.asOf < activatedAt := not_lt.mpr h'
  unfold makeLevel
  simp only [early, early']

theorem breakoutsAt_context {c : Candle} {priorHigh priorLow atr : ℚ} {precision : Quantum}
    {context context' : Context} (h : c.completedAt ≤ context.asOf)
    (h' : c.completedAt ≤ context'.asOf) :
    breakoutsAt c priorHigh priorLow atr precision context =
      breakoutsAt c priorHigh priorLow atr precision context' := by
  unfold breakoutsAt breakoutHigh breakoutLow
  simp only [makeLevel_context h h']

theorem updateBreakouts_of_none {c : Candle} {update : IncrementalDailyUpdate} (precision : Quantum)
    (hhigh : update.prior20High = none) (hlow : update.prior20Low = none) :
    updateBreakouts c update precision = pure [] := by
  unfold updateBreakouts
  rw [hhigh, hlow]
  cases update.atr14 <;> rfl

theorem updateBreakouts_of_some {c : Candle} {update : IncrementalDailyUpdate} (precision : Quantum)
    {atr priorHigh priorLow : ℚ} (hatr : update.atr14 = some atr)
    (hhigh : update.prior20High = some priorHigh) (hlow : update.prior20Low = some priorLow) :
    updateBreakouts c update precision =
      breakoutsAt c priorHigh priorLow atr precision ⟨c.completedAt, "", ""⟩ := by
  unfold updateBreakouts
  rw [hatr, hhigh, hlow]
  rfl

/-- The turn of the loop of `breakout_flip_levels` at an index. -/
def breakoutTurn (done : List Candle) (atrByTime : Instant → Option ℚ) (precision : Quantum)
    (context : Context) (levels : List LevelSpec) (index : ℕ) : Except Exc (List LevelSpec) :=
  match done[index]? with
  | none => pure levels
  | some candle =>
    let prior := slice done (index - 20) index
    match (prior.map Candle.high).max?, (prior.map Candle.low).min?,
      atrByTime candle.completedAt with
    | some priorHigh, some priorLow, some atr => do
      let found ← breakoutsAt candle priorHigh priorLow atr precision context
      pure (levels ++ found)
    | _, _, _ => pure levels

theorem breakoutFlipLevels_eq {data : List Candle} {context : Context} (hc : Chronological data)
    (ha : Available data context) (atrByTime : Instant → Option ℚ) (precision : Quantum) :
    breakoutFlipLevels data atrByTime precision context =
      (List.range' 20 (data.length - 20)).foldlM
        (breakoutTurn data atrByTime precision context) [] := by
  unfold breakoutFlipLevels
  rw [completedCandles_eq hc ha]
  rfl

theorem breakoutTurn_append {data : List Candle} {index : ℕ} (h : index < data.length)
    (more : List Candle) (atrByTime : Instant → Option ℚ) (precision : Quantum)
    (context : Context) (levels : List LevelSpec) :
    breakoutTurn (data ++ more) atrByTime precision context levels index =
      breakoutTurn data atrByTime precision context levels index := by
  unfold breakoutTurn
  rw [slice_append h.le, List.getElem?_append_left h]

theorem foldlM_congr {α σ : Type} {f g : σ → α → Except Exc σ} {rows : List α}
    (h : ∀ row ∈ rows, ∀ s, f s row = g s row) (s : σ) : rows.foldlM f s = rows.foldlM g s := by
  induction rows generalizing s with
  | nil => rfl
  | cons row rows ih =>
    rw [List.foldlM_cons, List.foldlM_cons, h row (by simp)]
    exact bind_congr fun s' => ih (fun other hother => h other (by simp [hother])) s'

/-- **One more candle adds the levels it breaks out of**, once there are twenty before it. -/
theorem breakoutFlipLevels_concat {data : List Candle} {c : Candle} {context : Context}
    (hc : Chronological (data ++ [c])) (ha : Available (data ++ [c]) context)
    (atrByTime : Instant → Option ℚ) (precision : Quantum) :
    breakoutFlipLevels (data ++ [c]) atrByTime precision context =
      (breakoutFlipLevels data atrByTime precision context).bind fun levels =>
        if data.length < 20 then pure levels
        else breakoutTurn (data ++ [c]) atrByTime precision context levels data.length := by
  have hold : ∀ levels, (List.range' 20 (data.length - 20)).foldlM
        (breakoutTurn (data ++ [c]) atrByTime precision context) levels =
      (List.range' 20 (data.length - 20)).foldlM
        (breakoutTurn data atrByTime precision context) levels := by
    refine foldlM_congr fun index hindex levels => ?_
    rw [List.mem_range'_1] at hindex
    exact breakoutTurn_append (by omega) [c] atrByTime precision context levels
  rw [breakoutFlipLevels_eq hc ha,
    breakoutFlipLevels_eq hc.snoc.1 (ha.of_prefix (List.prefix_append data [c]))]
  rcases lt_or_ge data.length 20 with hshort | hfull
  · have hempty : (data ++ [c]).length - 20 = 0 := by simp; omega
    have hempty' : data.length - 20 = 0 := by omega
    rw [hempty, hempty']
    simp only [hshort, if_true]
    rfl
  · have hnext : (data ++ [c]).length - 20 = data.length - 20 + 1 := by
      simp
      omega
    have hindex : 20 + 1 * (data.length - 20) = data.length := by omega
    have hnot : ¬ data.length < 20 := by omega
    rw [hnext, List.range'_concat, List.foldlM_append, hold, hindex]
    simp only [hnot, if_false, List.foldlM_cons, List.foldlM_nil, bind_pure]
    rfl

/-- With twenty candles before it, a candle's update and the batch loop's turn add one list. -/
theorem breakoutTurn_last {data : List Candle} {c : Candle} {context : Context}
    (hfull : 20 ≤ data.length) (hlate : c.completedAt ≤ context.asOf) (hc : c.Ordered)
    {atrByTime : Instant → Option ℚ}
    (hatr : ∀ point ∈ atrPoints (data ++ [c]), atrByTime point.at_ = some point.value)
    (precision : Quantum) (levels : List LevelSpec) :
    breakoutTurn (data ++ [c]) atrByTime precision context levels data.length =
      (updateBreakouts c ((stateAfter data).update c).2 precision).bind fun found =>
        pure (levels ++ found) := by
  have hprior : slice (data ++ [c]) (data.length - 20) data.length = data.rtake 20 := by
    rw [slice_append le_rfl]
    unfold slice List.rtake
    apply List.take_of_length_le
    simp
  have hwindow : (data.rtake 20).length = 20 := (Window.length_rtake_eq_iff data).mpr hfull
  have hne (side : Candle → ℚ) : (data.rtake 20).map side ≠ [] := by
    intro h
    rw [List.map_eq_nil_iff] at h
    rw [h] at hwindow
    simp at hwindow
  obtain ⟨priorHigh, hhigh⟩ := Option.ne_none_iff_exists'.mp
    (fun h => hne Candle.high (List.max?_eq_none_iff.mp h))
  obtain ⟨priorLow, hlow⟩ := Option.ne_none_iff_exists'.mp
    (fun h => hne Candle.low (List.min?_eq_none_iff.mp h))
  have hat : atrByTime c.completedAt = some (atrAfter (trueRanges (data ++ [c]))) := by
    refine hatr ⟨c.completedAt, atrAfter (trueRanges (data ++ [c]))⟩ ?_
    rw [atrPoints_concat, if_neg (by omega)]
    exact List.mem_append_right _ (List.mem_singleton.mpr rfl)
  have hvalue : (atrState (data ++ [c])).value = some (atrAfter (trueRanges (data ++ [c]))) := by
    unfold atrState
    rw [if_neg (by simp; omega)]
  have hextreme (extreme : List ℚ → Option ℚ) (side : Candle → ℚ) :
      priorExtreme extreme side data = extreme ((data.rtake 20).map side) := if_pos hfull
  have hlevels : updateBreakouts c ((stateAfter data).update c).2 precision =
      breakoutsAt c priorHigh priorLow (atrAfter (trueRanges (data ++ [c]))) precision
        ⟨c.completedAt, "", ""⟩ := by
    rw [stateAfter_update data hc]
    apply updateBreakouts_of_some precision hvalue
    · rw [← hhigh]
      exact hextreme _ _
    · rw [← hlow]
      exact hextreme _ _
  unfold breakoutTurn
  rw [hlevels, List.getElem?_append_right le_rfl, Nat.sub_self, List.getElem?_cons_zero, hprior,
    breakoutsAt_context (show c.completedAt ≤ (⟨c.completedAt, "", ""⟩ : Context).asOf from le_rfl)
      hlate]
  simp only [hhigh, hlow, hat]
  rfl

/-- **The loop's levels are the batch levels**, refusals included. -/
theorem projectDaily_eq {data : List Candle} {context : Context} (hc : Chronological data)
    (ha : Available data context) (ho : ∀ c ∈ data, c.Ordered) {atrByTime : Instant → Option ℚ}
    (hatr : ∀ point ∈ atrPoints data, atrByTime point.at_ = some point.value)
    (precision : Quantum) :
    projectDaily precision data =
      (breakoutFlipLevels data atrByTime precision context).map (DailyLoop.run data, ·) := by
  induction data using List.reverseRecOn with
  | nil =>
    rw [breakoutFlipLevels_eq hc ha]
    rfl
  | append_singleton data c ih =>
    have hpre := ha.of_prefix (List.prefix_append data [c])
    have ho' : ∀ row ∈ data, row.Ordered := fun row hrow => ho row (by simp [hrow])
    have hatr' : ∀ point ∈ atrPoints data, atrByTime point.at_ = some point.value := by
      intro point hpoint
      exact hatr point (by rw [atrPoints_concat]; simp [hpoint])
    have hprev := ih hc.snoc.1 hpre ho' hatr'
    have hcOrdered : c.Ordered := ho c (by simp)
    have hupdate := stateAfter_update data hcOrdered
    have htracks := (tracks_run ho').state
    have hrun : DailyLoop.run (data ++ [c]) = (DailyLoop.run data).step c := by
      unfold DailyLoop.run
      rw [List.foldl_append]
      rfl
    unfold projectDaily at hprev ⊢
    rw [List.foldlM_append, hprev, breakoutFlipLevels_concat hc ha, hrun]
    cases breakoutFlipLevels data atrByTime precision context with
    | error e => rfl
    | ok levels =>
      have hturn : projectCandle precision (DailyLoop.run data, levels) c =
          (updateBreakouts c ((stateAfter data).update c).2 precision).bind fun found =>
            pure ((DailyLoop.run data).step c, levels ++ found) := by
        unfold projectCandle
        rw [htracks]
        rfl
      have hlist : List.foldlM (projectCandle precision) (DailyLoop.run data, levels) [c] =
          projectCandle precision (DailyLoop.run data, levels) c := by
        rw [List.foldlM_cons]
        simp only [List.foldlM_nil, bind_pure]
      show List.foldlM (projectCandle precision) (DailyLoop.run data, levels) [c] = _
      rw [hlist, hturn]
      show _ = Except.map (fun x => ((DailyLoop.run data).step c, x))
        (if data.length < 20 then pure levels
          else breakoutTurn (data ++ [c]) atrByTime precision context levels data.length)
      rcases lt_or_ge data.length 20 with hshort | hfull
      · have hnone (extreme : List ℚ → Option ℚ) (side : Candle → ℚ) :
            priorExtreme extreme side data = none := by
          unfold priorExtreme
          rw [if_neg (by omega)]
        rw [hupdate, updateBreakouts_of_none precision (hnone _ _) (hnone _ _), if_pos hshort]
        show Except.ok ((DailyLoop.run data).step c, levels ++ []) = _
        rw [List.append_nil]
        rfl
      · have hlate : c.completedAt ≤ context.asOf := (ha c (by simp)).2
        rw [if_neg (by omega), breakoutTurn_last hfull hlate hcOrdered hatr]
        cases updateBreakouts c ((stateAfter data).update c).2 precision <;> rfl

/-! ## The indicators agree -/

/-- What one turn reads is what the batch functions read at that completion. -/
theorem step_bias {data : List Candle} {c : Candle} {s : DailyLoop} {context : Context}
    (h : Tracks data s) (hc : Chronological (data ++ [c]))
    (ha : Available (data ++ [c]) context) (ho : c.Ordered) :
    (s.step c).bias = dailyBias (data ++ [c]) (pivotsOf (data ++ [c])) context ∧
      (s.step c).supporting =
        supportingSwing (pivotsOf (data ++ [c])) (s.step c).bias context := by
  have hnext := tracks_step h ho
  have hupdate := stateAfter_update data ho
  have h50 := emaState_value (show 0 < 50 by norm_num) (data ++ [c])
  have h200 := emaState_value (show 0 < 200 by norm_num) (data ++ [c])
  have hbias : (s.step c).bias = bias (s.step c).daily (s.step c).pivots
      (s.state.update c).2 (s.step c).ema50History := rfl
  have hsupporting : (s.step c).supporting =
      supporting (s.step c).pivots (s.step c).bias c.completedAt := rfl
  constructor
  · rw [hbias, hnext.daily, hnext.pivots, hnext.history]
    apply bias_eq hc ha
    · rw [h.state, hupdate]
      exact h50
    · rw [h.state, hupdate]
      exact h200
  · rw [hsupporting, hnext.pivots]
    refine supporting_eq hc ha ?_ _
    intro row hrow
    rcases List.mem_append.mp hrow with hrow | hrow
    · exact (hc.snoc.2 row hrow).2.le
    · rw [List.mem_singleton.mp hrow]

theorem run_bias {data : List Candle} {context : Context} (hc : Chronological data)
    (ha : Available data context) (ho : ∀ c ∈ data, c.Ordered) :
    (DailyLoop.run data).bias = dailyBias data (pivotsOf data) context ∧
      (DailyLoop.run data).supporting =
        supportingSwing (pivotsOf data) (DailyLoop.run data).bias context := by
  rcases List.eq_nil_or_concat data with rfl | ⟨rows, c, rfl⟩
  · have hempty : dailyBias [] [] context = .neutral := by
      unfold dailyBias
      rw [completedCandles_eq hc ha]
      rfl
    exact ⟨hempty.symm, rfl⟩
  · rw [List.concat_eq_append] at hc ha ho ⊢
    have hrows : ∀ row ∈ rows, row.Ordered := fun row hrow => ho row (List.mem_append_left _ hrow)
    have hrun : DailyLoop.run (rows ++ [c]) = (DailyLoop.run rows).step c := by
      unfold DailyLoop.run
      rw [List.foldl_append]
      rfl
    rw [hrun]
    exact step_bias (tracks_run hrows) hc ha (ho c (by simp))

/-- **Incremental and batch indicators.** For every chronological list of completed candles and
every prefix of it, under any context late enough to see the prefix: the averages hold the last
batch points, the pivots gathered are the batch pivots, the breakout levels are the batch levels
with their refusals, and the bias and the supporting swing are the batch ones. -/
theorem incremental_eq_batch {data pre : List Candle} {context : Context} (precision : Quantum)
    (hc : Chronological data) (hcomplete : ∀ c ∈ data, c.complete = true)
    (ho : ∀ c ∈ data, c.Ordered) (hp : pre <+: data)
    (hlate : ∀ c ∈ pre, c.completedAt ≤ context.asOf) :
    let loop := DailyLoop.run pre
    loop.state.ema50.value = (ema50 pre context).getLast?.map Point.value ∧
    loop.state.ema200.value = (ema200 pre context).getLast?.map Point.value ∧
    loop.state.atr14.value = (atr14 pre context).getLast?.map Point.value ∧
    loop.pivots = dailyPivots pre context ∧
    projectDaily precision pre =
      (breakoutFlipLevels pre (byTime (atr14 pre context)) precision context).map (loop, ·) ∧
    loop.bias = dailyBias pre loop.pivots context ∧
    loop.supporting = supportingSwing loop.pivots loop.bias context := by
  have hcPre : Chronological pre := hc.sublist hp.sublist
  have hoPre : ∀ c ∈ pre, c.Ordered := fun c hmem => ho c (hp.subset hmem)
  have ha : Available pre context := fun c hmem => ⟨hcomplete c (hp.subset hmem), hlate c hmem⟩
  have htracks := tracks_run hoPre
  have hdone := completedCandles_eq hcPre ha
  have hpivots : (DailyLoop.run pre).pivots = dailyPivots pre context := by
    rw [htracks.pivots, dailyPivots, hdone]
  refine ⟨?_, ?_, ?_, hpivots, ?_, ?_, ?_⟩
  · rw [htracks.state, ema50, ema, hdone]
    exact emaState_value (by norm_num) pre
  · rw [htracks.state, ema200, ema, hdone]
    exact emaState_value (by norm_num) pre
  · rw [htracks.state, atr14, hdone]
    exact atrState_value pre
  · apply projectDaily_eq hcPre ha hoPre
    intro point hpoint
    rw [atr14, hdone]
    exact byTime_of_mem (atrPoints_ascending hcPre) hpoint
  · rw [htracks.pivots]
    exact (run_bias hcPre ha hoPre).1
  · rw [htracks.pivots]
    exact (run_bias hcPre ha hoPre).2

/-- A day's candle without a range. -/
def flatCandle (index : ℤ) (price : ℚ) : Candle :=
  ⟨index * Civil.day, (index + 1) * Civil.day, price, price, price, price, price, price, price,
    price, true⟩

theorem flatCandle_ordered (index : ℤ) (price : ℚ) : (flatCandle index price).Ordered :=
  ⟨le_rfl, le_rfl, le_rfl, le_rfl⟩

/-- Six days with one peak. -/
def peakDays : List Candle :=
  [flatCandle 0 1, flatCandle 1 2, flatCandle 2 3, flatCandle 3 2, flatCandle 4 1, flatCandle 5 1]

theorem incremental_eq_batch_peak :
    (DailyLoop.run peakDays).pivots = dailyPivots peakDays ⟨6 * Civil.day, "", ""⟩ ∧
      dailyPivots peakDays ⟨6 * Civil.day, "", ""⟩ =
        [⟨2 * Civil.day, 5 * Civil.day, 3, .high⟩] := by
  have ordered : ∀ c ∈ peakDays, c.Ordered := by
    intro c hc
    simp only [peakDays, List.mem_cons, List.not_mem_nil, or_false] at hc
    rcases hc with rfl | rfl | rfl | rfl | rfl | rfl <;> exact flatCandle_ordered _ _
  have chronological : Chronological peakDays := by
    unfold Chronological
    decide
  have peak : dailyPivots peakDays ⟨6 * Civil.day, "", ""⟩ =
      [⟨2 * Civil.day, 5 * Civil.day, 3, .high⟩] := by
    rw [dailyPivots, completedCandles_eq chronological (by unfold Available; decide)]
    decide +kernel
  have agree := @incremental_eq_batch peakDays peakDays
    ⟨6 * Civil.day, "", ""⟩ ⟨1, -5⟩ chronological (by decide)
    ordered List.prefix_rfl (by decide)
  exact ⟨agree.2.2.2.1, peak⟩

end TradeRecommender.Strategy
