import TradeRecommender.Strategy.DevelopmentCalendar

/-!
# Monthly results and month-end equity

The frozen policy groups by month the change between consecutive month-end equity marks; the
diagnostic books each result in the month of its exit. The two telescope against each other: they
agree exactly when, at every month's last mark, the open positions are worth what the month still
books after it.
-/

namespace TradeRecommender.Strategy.Returns

open Civil (Instant)
open Py (Exc)

/-! ## The governed definition -/

/-- The daily equity at the last mark of a month. -/
def monthEnd (daily : List (Instant × ℚ)) (month : Month) : Option ℚ :=
  (daily.filter fun row => monthOf (newYorkDay row.1) = month).getLast?.map Prod.snd

/-- The equity a month starts from: 10000, then the previous month's last mark. -/
def monthStart (d : Diagnostic) : ℕ → Option ℚ
  | 0 => some 10000
  | i + 1 => d.monthRows[i]?.bind fun before => monthEnd d.dailyEquity before.month

/-- `monthly_grouping`: a row for each month, its P&L the change between month-end marks. -/
def MonthlyGrouping (d : Diagnostic) : Prop :=
  d.monthRows.map MonthRow.month = monthKeys ∧
    ∀ i row, d.monthRows[i]? = some row → ∃ last previous,
      monthEnd d.dailyEquity row.month = some last ∧ monthStart d i = some previous ∧
        row.pnlCad = last - previous

/-! ## Amounts -/

/-- What the positions meeting a condition come to at a risk level. -/
def amountOver (positions : List Position) (risk : ℚ) (P : Position → Prop) [DecidablePred P] : ℚ :=
  ((positions.filter P).map fun p => p.r * risk).sum

/-- What has been realized by an instant. -/
def realized (positions : List Position) (risk : ℚ) (when_ : Instant) : ℚ :=
  amountOver positions risk fun p => p.result.exitAt ≤ when_

/-- What a month books after its last mark. -/
def late (positions : List Position) (risk : ℚ) (i : ℕ) : ℚ :=
  amountOver positions risk fun p =>
    p.exitMonth = monthOf (lastDay i) ∧ lastMark i < p.result.exitAt

/-- What an equity mark counts for the positions still open at it. -/
def carried (positions : List Position) (risk : ℚ) (when_ : Instant) : Except Exc ℚ :=
  (equityAt positions risk when_).map fun equity => equity - 10000 - realized positions risk when_

section
variable {positions : List Position} {risk : ℚ} {P Q R : Position → Prop}
variable [DecidablePred P] [DecidablePred Q] [DecidablePred R]

theorem amountOver_congr (h : ∀ p ∈ positions, P p ↔ Q p) :
    amountOver positions risk P = amountOver positions risk Q := by
  unfold amountOver
  rw [List.filter_congr fun p hp => decide_eq_decide.mpr (h p hp)]

/-- Amounts over a disjoint union add up. -/
theorem amountOver_union (h : ∀ p ∈ positions, R p ↔ P p ∨ Q p)
    (hdisjoint : ∀ p ∈ positions, ¬ (P p ∧ Q p)) :
    amountOver positions risk R = amountOver positions risk P + amountOver positions risk Q := by
  induction positions with
  | nil => simp [amountOver]
  | cons p positions ih =>
    have hrest := ih (fun q hq => h q (by simp [hq])) (fun q hq => hdisjoint q (by simp [hq]))
    have hp := h p (by simp)
    have hd := hdisjoint p (by simp)
    unfold amountOver at *
    simp only [List.filter_cons, decide_eq_true_eq]
    by_cases hP : P p
    · have hQ : ¬ Q p := fun hQ => hd ⟨hP, hQ⟩
      rw [if_pos (hp.mpr (.inl hP)), if_pos hP, if_neg hQ, List.map_cons, List.sum_cons, hrest,
        List.map_cons, List.sum_cons]
      ring
    · by_cases hQ : Q p
      · rw [if_pos (hp.mpr (.inr hQ)), if_neg hP, if_pos hQ, List.map_cons, List.sum_cons, hrest,
          List.map_cons, List.sum_cons]
        ring
      · rw [if_neg fun hR => (hp.mp hR).elim hP hQ, if_neg hP, if_neg hQ, hrest]

end

/-! ## Rendered returns -/

/-- The risk levels of the policy. -/
def riskLevels : List ℚ := [25, 50, 100]

/-- Returns as `ratio` renders them. -/
def Rendered (r : ℚ) : Prop := ∃ value, ratio value = .ok r

/-- Returns as rendered, whose amounts stay within the digits of the context. -/
structure Payable (positions : List Position) (risk : ℚ) : Prop where
  rendered : ∀ p ∈ positions, Rendered p.r
  size : (positions.map fun p => |p.r * risk|).sum ≤ 10 ^ 28

theorem money_eq_ok {value v : ℚ} (h : money value = .ok v) :
    v = Rounding.quantize Rounding.halfEven (-10) value := by
  unfold money at h
  split_ifs at h
  · cases h
  · cases h
    rfl

/-- An amount on the money grid is rendered as it is. -/
theorem money_of_grid {value v : ℚ} (hgrid : ∃ n : ℤ, value = n * 10 ^ (-10 : ℤ))
    (h : money value = .ok v) : v = value := by
  obtain ⟨n, rfl⟩ := hgrid
  rw [money_eq_ok h, Rounding.quantize_of_grid]

theorem Rendered.amount {r risk : ℚ} (h : Rendered r) (hrisk : risk ∈ riskLevels) :
    ∃ n : ℤ, r * risk = n * 10 ^ (-10 : ℤ) := by
  obtain ⟨value, hvalue⟩ := h
  have hr := money_eq_ok hvalue
  unfold Rounding.quantize at hr
  have hcases : risk = 25 ∨ risk = 50 ∨ risk = 100 := by simpa [riskLevels] using hrisk
  rcases hcases with rfl | rfl | rfl
  · refine ⟨Rounding.halfEven (value / 10 ^ (-10 : ℤ)) * 25, ?_⟩
    rw [hr]
    push_cast
    ring
  · refine ⟨Rounding.halfEven (value / 10 ^ (-10 : ℤ)) * 50, ?_⟩
    rw [hr]
    push_cast
    ring
  · refine ⟨Rounding.halfEven (value / 10 ^ (-10 : ℤ)) * 100, ?_⟩
    rw [hr]
    push_cast
    ring

theorem abs_amount_nonneg {positions : List Position} {risk x : ℚ}
    (hx : x ∈ positions.map fun p => |p.r * risk|) : 0 ≤ x := by
  obtain ⟨p, _, rfl⟩ := List.mem_map.mp hx
  exact abs_nonneg _

theorem Payable.sublist {xs ys : List Position} {risk : ℚ} (h : Payable ys risk)
    (hsub : xs.Sublist ys) : Payable xs risk where
  rendered p hp := h.rendered p (hsub.subset hp)
  size := by
    refine le_trans ?_ h.size
    exact List.Sublist.sum_le_sum (hsub.map _) fun x hx => abs_amount_nonneg hx

theorem Payable.perm {xs ys : List Position} {risk : ℚ} (h : Payable ys risk)
    (hperm : xs.Perm ys) : Payable xs risk where
  rendered p hp := h.rendered p (hperm.subset hp)
  size := by
    rw [(hperm.map _).sum_eq]
    exact h.size

/-- The product of a payable return is exact. -/
theorem Payable.mul_eq {positions : List Position} {risk : ℚ} (h : Payable positions risk)
    (hrisk : risk ∈ riskLevels) {p : Position} (hp : p ∈ positions) :
    Rounding.mul returnPrec p.r risk = p.r * risk := by
  obtain ⟨n, hn⟩ := (h.rendered p hp).amount hrisk
  have hle : |p.r * risk| ≤ 10 ^ 28 := by
    refine le_trans (List.single_le_sum ?_ _ (List.mem_map.mpr ⟨p, hp, rfl⟩)) h.size
    exact fun x hx => abs_amount_nonneg hx
  unfold Rounding.mul
  apply Rounding.fl_of_representable (by norm_num)
  refine ⟨n, -10, ?_, hn⟩
  rw [hn, abs_mul, abs_of_pos (Rounding.ten_zpow_pos _)] at hle
  have hcast : |(n : ℚ)| ≤ 10 ^ 38 := by
    have := mul_le_mul_of_nonneg_right hle (Rounding.ten_zpow_pos 10).le
    rw [mul_assoc, ← zpow_add₀ (by norm_num)] at this
    norm_num at this ⊢
    exact this
  exact_mod_cast hcast

/-- Payable results add up exactly. -/
theorem Payable.foldl_eq {positions : List Position} {risk : ℚ} (h : Payable positions risk)
    (hrisk : risk ∈ riskLevels) :
    (positions.map fun p => Rounding.mul returnPrec p.r risk).foldl (Rounding.add returnPrec) 0 =
      (positions.map fun p => p.r * risk).sum := by
  have hmap : (positions.map fun p => Rounding.mul returnPrec p.r risk) =
      positions.map fun p => p.r * risk :=
    List.map_congr_left fun p hp => h.mul_eq hrisk hp
  rw [hmap, Rounding.foldl_add_of_grid (e := -10) (by norm_num) ⟨0, by simp⟩]
  · rw [zero_add]
  · intro x hx
    obtain ⟨p, hp, rfl⟩ := List.mem_map.mp hx
    exact (h.rendered p hp).amount hrisk
  · rw [List.map_map, abs_zero, zero_add]
    refine le_trans h.size ?_
    norm_num

/-- Amounts on the grid add up to an amount on the grid. -/
theorem Payable.sum_grid {positions : List Position} {risk : ℚ} (h : Payable positions risk)
    (hrisk : risk ∈ riskLevels) :
    ∃ n : ℤ, (positions.map fun p => p.r * risk).sum = n * 10 ^ (-10 : ℤ) := by
  induction positions with
  | nil => exact ⟨0, by simp⟩
  | cons p positions ih =>
    obtain ⟨n, hn⟩ := (h.rendered p (by simp)).amount hrisk
    obtain ⟨m, hm⟩ := ih (h.sublist (List.sublist_cons_self p positions))
    refine ⟨n + m, ?_⟩
    rw [List.map_cons, List.sum_cons, hn, hm]
    push_cast
    ring

/-! ## Settled positions -/

variable {positions : List Position} {risk : ℚ}

/-- A position that an instant does not find open. -/
def Position.Settled (p : Position) (when_ : Instant) : Prop :=
  if p.result.exitAt ≤ when_ then p.event.entryAt ≤ when_ else when_ < p.event.entryAt

/-- Over settled positions the loop adds the realized results alone. -/
theorem foldlM_addPosition {when_ : Instant} (h : ∀ p ∈ positions, p.Settled when_) (pnl : ℚ) :
    positions.foldlM (addPosition risk when_) pnl =
      .ok (((positions.filter fun p => p.result.exitAt ≤ when_).map fun p =>
        Rounding.mul returnPrec p.r risk).foldl (Rounding.add returnPrec) pnl) := by
  induction positions generalizing pnl with
  | nil => rfl
  | cons p positions ih =>
    have hp := h p (by simp)
    have hrest := ih fun q hq => h q (by simp [hq])
    unfold Position.Settled at hp
    rw [List.foldlM_cons]
    unfold addPosition
    by_cases hexit : p.result.exitAt ≤ when_
    · rw [if_pos hexit] at hp
      rw [if_neg (not_lt.mpr hp), if_pos hexit, List.filter_cons, if_pos (by simpa using hexit)]
      exact hrest _
    · rw [if_neg hexit] at hp
      rw [if_pos hp, List.filter_cons, if_neg (by simpa using hexit)]
      exact hrest _

/-- A mark that finds no position open carries nothing. -/
theorem carried_of_settled {when_ : Instant} {value : ℚ} (hrisk : risk ∈ riskLevels)
    (hpay : Payable positions risk)
    (hsize : 10000 + (positions.map fun p => |p.r * risk|).sum ≤ 10 ^ 28)
    (hsettled : ∀ p ∈ positions, p.Settled when_)
    (h : carried positions risk when_ = .ok value) : value = 0 := by
  obtain ⟨equity, hequity, rfl⟩ := Py.map_eq_ok.mp h
  unfold equityAt at hequity
  rw [foldlM_addPosition hsettled] at hequity
  have hsub := hpay.sublist (List.filter_sublist (p := fun p => decide (p.result.exitAt ≤ when_)))
  rw [hsub.foldl_eq hrisk] at hequity
  change money (Rounding.add returnPrec 10000 (realized positions risk when_)) = _ at hequity
  obtain ⟨n, hn⟩ : ∃ n : ℤ, realized positions risk when_ = n * 10 ^ (-10 : ℤ) :=
    hsub.sum_grid hrisk
  have habs : |realized positions risk when_| ≤ (positions.map fun p => |p.r * risk|).sum := by
    refine le_trans (List.le_sum_of_subadditive (|·|) abs_zero.le abs_add_le _) ?_
    rw [List.map_map]
    exact List.Sublist.sum_le_sum (List.filter_sublist.map _) fun x hx => abs_amount_nonneg hx
  have hadd : Rounding.add returnPrec 10000 (realized positions risk when_) =
      10000 + realized positions risk when_ := by
    have hfold := @Rounding.foldl_add_of_grid returnPrec (by norm_num) (-10)
      [realized positions risk when_] 10000 ⟨10 ^ 14, by norm_num⟩
      (by simpa using ⟨n, hn⟩) (by norm_num; linarith)
    simpa using hfold
  rw [hadd] at hequity
  rw [money_of_grid ⟨10 ^ 14 + n, by rw [hn]; push_cast; norm_num; ring⟩ hequity]
  ring

/-! ## Booking -/

/-- The books after all positions: each month has added its own results in order. -/
theorem foldlM_bookPosition {risk : ℚ} {positions : List Position} {monthly booked : List (Month × ℚ)}
    (h : positions.foldlM (bookPosition risk) monthly = .ok booked) :
    (∀ p ∈ positions, p.exitMonth ∈ monthly.map Prod.fst) ∧
      booked = monthly.map fun entry => (entry.1,
        ((positions.filter fun p => p.exitMonth = entry.1).map fun p =>
          Rounding.mul returnPrec p.r risk).foldl (Rounding.add returnPrec) entry.2) := by
  induction positions generalizing monthly with
  | nil =>
    cases h
    simp
  | cons p positions ih =>
    rw [List.foldlM_cons] at h
    obtain ⟨next, hnext, h⟩ := Py.bind_eq_ok.mp h
    obtain ⟨_, hmem, hnext⟩ := Py.bind_eq_ok.mp hnext
    rw [require_eq_ok] at hmem
    cases hnext
    obtain ⟨hrest, hbooked⟩ := ih h
    have hkeys : (bookMonth p.exitMonth (Rounding.mul returnPrec p.r risk) monthly).map Prod.fst =
        monthly.map Prod.fst := by
      unfold bookMonth
      rw [List.map_map]
      apply List.map_congr_left
      intro entry _
      simp only [Function.comp_apply]
      split_ifs <;> rfl
    constructor
    · intro q hq
      rcases List.mem_cons.mp hq with rfl | hq
      · exact hmem
      · rw [← hkeys]
        exact hrest q hq
    · rw [hbooked]
      unfold bookMonth
      rw [List.map_map]
      apply List.map_congr_left
      intro entry _
      simp only [Function.comp_apply, List.filter_cons, decide_eq_true_eq]
      by_cases hkey : p.exitMonth = entry.1
      · rw [if_pos hkey.symm, if_pos hkey, List.map_cons, List.foldl_cons]
      · rw [if_neg (Ne.symm hkey), if_neg hkey]

/-- The rows render the books month by month. -/
theorem monthRows_forall₂ {equity : ℚ} {monthly : List (Month × ℚ)} {rows : List MonthRow}
    (h : monthRows equity monthly = .ok rows) :
    List.Forall₂ (fun entry row => row.month = entry.1 ∧ money entry.2 = .ok row.pnlCad)
      monthly rows := by
  induction monthly generalizing equity rows with
  | nil =>
    cases h
    exact .nil
  | cons entry monthly ih =>
    obtain ⟨month, pnl⟩ := entry
    unfold monthRows at h
    obtain ⟨pnlCad, hpnl, h⟩ := Py.bind_eq_ok.mp h
    obtain ⟨equityCad, _, h⟩ := Py.bind_eq_ok.mp h
    obtain ⟨rest, hrest, h⟩ := Py.bind_eq_ok.mp h
    cases h
    exact .cons ⟨rfl, hpnl⟩ (ih hrest)

/-! ## Month-end marks -/

/-- The last element a filter keeps, after which it keeps none. -/
theorem getLast?_filter {α : Type} {p : α → Bool} {xs : List α} {k : ℕ} {x : α}
    (h : xs[k]? = some x) (hx : p x = true)
    (hlater : ∀ j y, k < j → xs[j]? = some y → p y = false) :
    (xs.filter p).getLast? = some x := by
  obtain ⟨hk, hget⟩ := List.getElem?_eq_some_iff.mp h
  have hsplit : xs = xs.take k ++ x :: xs.drop (k + 1) := by
    rw [← hget, List.getElem_cons_drop, List.take_append_drop]
  have hnone : (xs.drop (k + 1)).filter p = [] := by
    rw [List.filter_eq_nil_iff]
    intro y hy
    obtain ⟨j, hj⟩ := List.getElem?_of_mem hy
    rw [List.getElem?_drop] at hj
    rw [hlater _ y (by omega) hj]
    simp
  rw [hsplit, List.filter_append, List.filter_cons, if_pos hx, hnone]
  simp

theorem calendarMarks_getElem? {k : ℕ} {when_ : Instant} :
    calendarMarks[k]? = some when_ ↔ k < dayCount ∧ when_ = markAt (firstDay + k) := by
  unfold calendarMarks
  rw [List.getElem?_map]
  constructor
  · intro h
    obtain ⟨j, hj, hwhen⟩ := Option.map_eq_some_iff.mp h
    obtain ⟨hlt, hjk⟩ := List.getElem?_eq_some_iff.mp hj
    rw [List.getElem_range] at hjk
    rw [List.length_range] at hlt
    subst hjk
    exact ⟨hlt, hwhen.symm⟩
  · rintro ⟨hlt, rfl⟩
    rw [List.getElem?_range hlt]
    rfl

/-- The equity at a month's end is the equity at its last mark. -/
theorem monthEnd_eq {positions : List Position} {risk : ℚ} {daily : List (Instant × ℚ)} {i : ℕ}
    (hi : i < 108) (h : dailyEquitySeries positions risk = .ok daily) :
    ∃ equity, equityAt positions risk (lastMark i) = .ok equity ∧
      monthEnd daily (monthOf (lastDay i)) = some equity := by
  unfold dailyEquitySeries at h
  obtain ⟨hlength, hget⟩ := List.forall₂_iff_get.mp (Py.mapE_eq_ok_iff.mp h)
  have hrow : ∀ k (row : Instant × ℚ), daily[k]? = some row → k < dayCount ∧
      row.1 = markAt (firstDay + k) ∧ equityAt positions risk row.1 = .ok row.2 := by
    intro k row hk
    obtain ⟨hlt, rfl⟩ := List.getElem?_eq_some_iff.mp hk
    have hmarks : k < calendarMarks.length := by
      rw [hlength]
      exact hlt
    obtain ⟨hlt', hmark⟩ := calendarMarks_getElem?.mp (List.getElem?_eq_getElem hmarks)
    have heq := hget k hmarks hlt
    simp only [List.get_eq_getElem] at heq
    obtain ⟨equity, hequity, heq⟩ := Py.map_eq_ok.mp heq
    rw [← heq]
    exact ⟨hlt', hmark, hequity⟩
  obtain ⟨hlow, hhigh⟩ := lastDay_development hi
  obtain ⟨k, hk⟩ : ∃ k : ℕ, lastDay i = firstDay + k := ⟨(lastDay i - firstDay).toNat, by omega⟩
  have hkcount : k < dayCount := by omega
  have hklength : k < daily.length := by
    rw [← hlength]
    exact (List.getElem?_eq_some_iff.mp (calendarMarks_getElem?.mpr ⟨hkcount, rfl⟩)).1
  have hlast := List.getElem?_eq_getElem hklength
  obtain ⟨_, hat, hequity⟩ := hrow k _ hlast
  refine ⟨daily[k].2, ?_, ?_⟩
  · rw [hat, ← hk] at hequity
    exact hequity
  · unfold monthEnd
    rw [getLast?_filter hlast]
    · rfl
    · rw [hat, newYorkDay_markAt, ← hk]
      simp
    · intro j row hkj hj
      obtain ⟨hjcount, hjat, _⟩ := hrow j row hj
      have hlater := lt_dayIndex_of_lastDay_lt (d := firstDay + j) hi (by omega) (by omega)
      rw [hjat, newYorkDay_markAt, decide_eq_false_iff_not]
      intro hmonth
      have hindex := congrArg monthIndex hmonth
      change dayIndex _ = dayIndex _ at hindex
      rw [dayIndex_lastDay hi] at hindex
      omega

/-! ## The diagnostic -/

/-- What a finished diagnostic shows of its positions. -/
structure Booked (positions : List Position) (risk : ℚ) (d : Diagnostic) : Prop where
  exits : ∀ p ∈ positions, p.exitMonth ∈ monthKeys
  months : d.monthRows.map MonthRow.month = monthKeys
  pnl : ∀ i row, i < 108 → d.monthRows[i]? = some row → row.pnlCad =
    amountOver positions risk fun p => p.exitMonth = monthOf (lastDay i)
  equity : ∀ i < 108, ∃ equity, equityAt positions risk (lastMark i) = .ok equity ∧
    monthEnd d.dailyEquity (monthOf (lastDay i)) = some equity

variable {d : Diagnostic}

theorem fixedCapitalDiagnostic_booked {events : List Event} {resolutions : List Resolution}
    {scenario : String → Option ℚ} (hrisk : risk ∈ riskLevels)
    (hpositions : Py.mapE (position resolutions scenario) events = .ok positions)
    (hpay : Payable positions risk)
    (h : fixedCapitalDiagnostic events resolutions scenario risk = .ok d) :
    Booked positions risk d := by
  unfold fixedCapitalDiagnostic at h
  obtain ⟨_, hsame, h⟩ := Py.bind_eq_ok.mp h
  rw [hpositions] at hsame
  cases hsame
  obtain ⟨booked, hbooked, h⟩ := Py.bind_eq_ok.mp h
  obtain ⟨daily, hdaily, h⟩ := Py.bind_eq_ok.mp h
  obtain ⟨_, _, h⟩ := Py.bind_eq_ok.mp h
  obtain ⟨rows, hrows, h⟩ := Py.bind_eq_ok.mp h
  cases h
  have hperm := List.perm_insertionSort Position.before positions
  obtain ⟨hexits, hbooked⟩ := foldlM_bookPosition hbooked
  rw [List.map_map] at hbooked
  have hkeys : (monthKeys.map fun key => (key, (0 : ℚ))).map Prod.fst = monthKeys := by
    rw [List.map_map]
    exact List.map_id _
  rw [hkeys] at hexits
  have hforall := monthRows_forall₂ hrows
  rw [hbooked, List.forall₂_map_left_iff] at hforall
  refine ⟨fun p hp => hexits p (hperm.mem_iff.mpr hp), ?_, ?_, fun i hi => monthEnd_eq hi hdaily⟩
  · have hmonths : List.Forall₂ (fun key row => MonthRow.month row = key) monthKeys rows :=
      hforall.imp fun _ _ hrow => hrow.1
    rw [← List.forall₂_eq_eq_eq, List.forall₂_map_left_iff]
    exact hmonths.flip
  · intro i row hi hrow
    obtain ⟨hlength, hget⟩ := List.forall₂_iff_get.mp hforall
    obtain ⟨hlt, rfl⟩ := List.getElem?_eq_some_iff.mp hrow
    have hkey := monthKeys_lastDay hi
    obtain ⟨hkeylt, hkeyget⟩ := List.getElem?_eq_some_iff.mp hkey
    obtain ⟨_, hmoney⟩ := hget i hkeylt hlt
    simp only [List.get_eq_getElem, Function.comp_apply, hkeyget] at hmoney
    -- the month's fold is the exact sum of its results
    have hsub := hpay.perm hperm
    have hfiltered := hsub.sublist (List.filter_sublist
      (p := fun p => decide (p.exitMonth = monthOf (lastDay i))))
    rw [hfiltered.foldl_eq hrisk] at hmoney
    rw [money_of_grid (hfiltered.sum_grid hrisk) hmoney]
    unfold amountOver
    exact ((hperm.filter _).map _).sum_eq

/-- What is booked in a month and those before it. -/
def bookedThrough (positions : List Position) (risk : ℚ) (i : ℕ) : ℚ :=
  amountOver positions risk fun p => dayIndex (newYorkDay p.result.exitAt) ≤ i

theorem exitMonth_eq_iff {p : Position} {i : ℕ} (hi : i < 108) (hp : p.exitMonth ∈ monthKeys) :
    p.exitMonth = monthOf (lastDay i) ↔ dayIndex (newYorkDay p.result.exitAt) = i := by
  constructor
  · intro h
    have hindex := congrArg monthIndex h
    change dayIndex _ = dayIndex _ at hindex
    rw [hindex, dayIndex_lastDay hi]
  · intro h
    apply monthIndex_injOn hp (mem_monthKeys_lastDay hi)
    change dayIndex _ = dayIndex _
    rw [h, dayIndex_lastDay hi]

theorem bookedThrough_zero (h : Booked positions risk d) :
    bookedThrough positions risk 0 =
      amountOver positions risk fun p => p.exitMonth = monthOf (lastDay 0) := by
  apply amountOver_congr
  intro p hp
  obtain ⟨_, _, _, _⟩ := mem_monthKeys (h.exits p hp)
  have hindex : dayIndex (newYorkDay p.result.exitAt) =
    (p.exitMonth.1 - 2010) * 12 + p.exitMonth.2 - 1 := rfl
  rw [exitMonth_eq_iff (by norm_num) (h.exits p hp)]
  omega

/-- Each month adds what it books. -/
theorem bookedThrough_succ (h : Booked positions risk d) {i : ℕ} (hi : i + 1 < 108) :
    bookedThrough positions risk (i + 1) = bookedThrough positions risk i +
      amountOver positions risk fun p => p.exitMonth = monthOf (lastDay (i + 1)) := by
  apply amountOver_union
  · intro p hp
    rw [exitMonth_eq_iff hi (h.exits p hp)]
    omega
  · intro p hp
    rw [exitMonth_eq_iff hi (h.exits p hp)]
    omega

/-- What a month and those before it book is realized by its last mark or booked after it. -/
theorem bookedThrough_eq (h : Booked positions risk d) {i : ℕ} (hi : i < 108) :
    bookedThrough positions risk i =
      realized positions risk (lastMark i) + late positions risk i := by
  apply amountOver_union
  · intro p hp
    have hexit := h.exits p hp
    rw [exitMonth_eq_iff hi hexit]
    by_cases hmark : p.result.exitAt ≤ lastMark i
    · have := dayIndex_le_of_le_lastMark hi hexit hmark
      simp only [hmark, true_or, iff_true]
      exact this
    · have := le_dayIndex_of_lastMark_lt hi hexit (not_le.mp hmark)
      simp only [hmark, not_le.mp hmark, false_or, and_true]
      omega
  · rintro p _ ⟨hle, _, hlt⟩
    exact absurd hle (not_le.mpr hlt)

/-- A month's last mark carries what the month still books exactly when it equals the books. -/
theorem carried_eq_late_iff (h : Booked positions risk d) {i : ℕ} (hi : i < 108) {equity : ℚ}
    (hequity : equityAt positions risk (lastMark i) = .ok equity) :
    carried positions risk (lastMark i) = .ok (late positions risk i) ↔
      equity = 10000 + bookedThrough positions risk i := by
  unfold carried
  rw [hequity, bookedThrough_eq h hi]
  simp only [Except.map, Except.ok.injEq]
  constructor <;> intro heq <;> linarith

/-- A Friday at 10:00 in New York, 2010-01-29. -/
def carriedEntry : Instant := 14638 * Civil.day + 15 * Civil.hour

/-- The hour of Monday 2010-02-01 in which the target is reached. -/
def carriedTouch : Instant := 14641 * Civil.day + 19 * Civil.hour

/-- Ten daily completions at 17:00, the last of them the horizon. -/
def carriedDays : List Instant :=
  (List.range 10).map fun (k : ℕ) => (14639 + k) * Civil.day + 22 * Civil.hour

def carriedBar (start : Instant) (high : ℚ) : Bar :=
  ⟨start, true, true, false, 100, high, 100, 101, 100, high, 100, 101⟩

/-- A long of USD_CAD from 100 with its stop at 99 and its target at 102, marked at 101. -/
def carriedEvent : Event where
  physicalEventKey := "event"
  books := ["book"]
  instrument := .usdCad
  direction := .long
  entryAt := carriedEntry
  horizonAt := 14648 * Civil.day + 22 * Civil.hour
  entryBid := 100
  entryAsk := 100
  stop := 99
  target := 102
  supportingSwing := 99
  pipSize := 1
  riskPerUnitCad := 1
  expectedH1Starts := [carriedEntry, carriedTouch, 14648 * Civil.day + 22 * Civil.hour]
  dCompletions := carriedDays
  h1 := [carriedBar carriedEntry 101, carriedBar carriedTouch 102,
    carriedBar (14648 * Civil.day + 22 * Civil.hour) 101]
  daily := carriedDays.map fun completed => ⟨completed, true, true, false, 101⟩
  conversion := [(carriedTouch + Civil.hour, ⟨.cad, carriedTouch + Civil.hour, []⟩)]
  rollovers := []
  marks := (List.range 3).map fun (k : ℕ) => ⟨markAt (14638 + k), 101, ⟨.cad, markAt (14638 + k), []⟩⟩

/-- Whether an event is resolved, with a result that passes a test. -/
def resolvesTo (test : Resolved → Bool) : Except Exc Resolution → Bool
  | .ok (.resolved result) => test result
  | _ => false

theorem resolvesTo_iff {test : Resolved → Bool} {outcome : Except Exc Resolution} :
    resolvesTo test outcome = true ↔ ∃ result, outcome = .ok (.resolved result) ∧
      test result = true := by
  constructor
  · intro passes
    unfold resolvesTo at passes
    split at passes
    · exact ⟨_, rfl, passes⟩
    · cases passes
  · rintro ⟨result, rfl, passes⟩
    exact passes

/-- The books of the position alone, at a return. -/
def carriedBooks (r : ℚ) : List (Month × ℚ) :=
  bookMonth (monthOf (newYorkDay (carriedTouch + Civil.hour))) (Rounding.mul returnPrec r 25)
    (monthKeys.map fun key => (key, 0))

-- evaluated once: apart, each of these waits for the others
theorem carried_evaluated :
    resolvesTo (fun result => decide (result.physicalEventKey = "event" ∧
      result.exitAt = carriedTouch + Civil.hour ∧ result.entryPrice = 100 ∧ result.grossR = 2))
      (resolveEvent carriedEvent) = true ∧
    money (Rounding.add returnPrec 10000
      (Rounding.add returnPrec 0 (Rounding.mul returnPrec 2 25))) = .ok 10050 ∧
    (monthRows 10000 (carriedBooks 2)).toBool = true ∧ ratio 2 = .ok 2 := by
  decide +kernel

/-- It gains two initial risks, on the first of February. -/
theorem carriedEvent_resolves : ∃ result, resolveEvent carriedEvent = .ok (.resolved result) ∧
    result.physicalEventKey = "event" ∧ result.exitAt = carriedTouch + Civil.hour ∧
      result.entryPrice = 100 ∧ result.grossR = 2 := by
  obtain ⟨result, resolved, right⟩ := resolvesTo_iff.mp carried_evaluated.1
  exact ⟨result, resolved, of_decide_eq_true right⟩

/-- The position of the event at its gross return. -/
def carriedPosition (result : Resolved) : Position := ⟨carriedEvent, result, 2⟩

section
variable {result : Resolved}

/-- With any later bars its equity is 10000 before the entry, 10025 at the three marks, and from the
exit on what its return makes of 10000. -/
theorem carried_equityAt_of (bars : List Bar) {r settled : ℚ}
    (hsettled : money (Rounding.add returnPrec 10000
      (Rounding.add returnPrec 0 (Rounding.mul returnPrec r 25))) = .ok settled)
    (hexit : result.exitAt = carriedTouch + Civil.hour)
    (hentry : result.entryPrice = 100) (day : ℤ) :
    equityAt [⟨{ carriedEvent with h1 := bars }, result, r⟩] 25 (markAt day) =
      .ok (if day < 14638 then 10000 else if day < 14641 then 10025 else settled) := by
  obtain ⟨mark, hmark, hlow, hhigh⟩ := markAt_bounds day
  have hfold : ∀ when_ p, [p].foldlM (addPosition 25 when_) 0 = addPosition 25 when_ 0 p := by
    intro when_ p
    rw [List.foldlM_cons]
    cases addPosition 25 when_ 0 p <;> rfl
  unfold equityAt
  rw [hfold]
  unfold addPosition
  dsimp only
  rw [hexit]
  by_cases hbefore : day < 14638
  · have hwhen : markAt day < carriedEvent.entryAt := by
      rw [hmark]
      change mark < 14638 * Civil.day + 15 * Civil.hour
      simp only [Civil.day, Civil.hour] at *
      omega
    rw [if_pos hwhen, if_pos hbefore]
    decide +kernel
  · have hwhen : ¬ markAt day < carriedEvent.entryAt := by
      rw [hmark]
      change ¬ mark < 14638 * Civil.day + 15 * Civil.hour
      simp only [Civil.day, Civil.hour] at *
      omega
    rw [if_neg hwhen, if_neg hbefore]
    by_cases hopen : day < 14641
    · have hwhen : ¬ carriedTouch + Civil.hour ≤ markAt day := by
        rw [hmark]
        change ¬ 14641 * Civil.day + 19 * Civil.hour + Civil.hour ≤ mark
        simp only [Civil.day, Civil.hour] at *
        omega
      rw [if_neg hwhen, if_pos hopen]
      have hsame : eventMarkR { carriedEvent with h1 := bars } result (markAt day) =
        eventMarkR carriedEvent result (markAt day) := rfl
      rw [hsame]
      unfold eventMarkR
      rw [hentry]
      rcases (by omega : day = 14638 ∨ day = 14639 ∨ day = 14640) with rfl | rfl | rfl <;>
        decide +kernel
    · have hwhen : carriedTouch + Civil.hour ≤ markAt day := by
        rw [hmark]
        change 14641 * Civil.day + 19 * Civil.hour + Civil.hour ≤ mark
        simp only [Civil.day, Civil.hour] at *
        omega
      rw [if_pos hwhen, if_neg hopen]
      exact hsettled

theorem settled_two : money (Rounding.add returnPrec 10000
    (Rounding.add returnPrec 0 (Rounding.mul returnPrec 2 25))) = .ok 10050 :=
  carried_evaluated.2.1

/-- From the exit on it is 10050. -/
theorem carried_equityAt (hexit : result.exitAt = carriedTouch + Civil.hour)
    (hentry : result.entryPrice = 100) (day : ℤ) :
    equityAt [carriedPosition result] 25 (markAt day) =
      .ok (if day < 14638 then 10000 else if day < 14641 then 10025 else 10050) :=
  carried_equityAt_of carriedEvent.h1 settled_two hexit hentry day

theorem carriedBooks_rows {r : ℚ} (run : (monthRows 10000 (carriedBooks r)).toBool = true) :
    ∃ rows, monthRows 10000 (carriedBooks r) = .ok rows := by
  cases h : monthRows 10000 (carriedBooks r) with
  | error e =>
    rw [h] at run
    cases run
  | ok rows => exact ⟨rows, rfl⟩

/-- The daily equity of such a position. -/
def carriedDaily (settled : ℚ) : List (Instant × ℚ) :=
  (List.range dayCount).map fun (k : ℕ) => (markAt (firstDay + k),
    if firstDay + k < 14638 then 10000 else if firstDay + k < 14641 then 10025 else settled)

theorem carriedDaily_positive {settled : ℚ} (positive : 0 < settled) :
    ∀ row ∈ carriedDaily settled, 0 < row.2 := by
  intro row hrow
  obtain ⟨k, _, rfl⟩ := List.mem_map.mp hrow
  dsimp only
  split_ifs
  · norm_num
  · norm_num
  · exact positive

/-- The diagnostic of such a position runs through. -/
theorem carried_diagnostic_of (bars : List Bar) {r settled : ℚ}
    (hsettled : money (Rounding.add returnPrec 10000
      (Rounding.add returnPrec 0 (Rounding.mul returnPrec r 25))) = .ok settled)
    (positive : 0 < settled) (hrows : ∃ rows, monthRows 10000 (carriedBooks r) = .ok rows)
    (hkey : result.physicalEventKey = "event")
    (hexit : result.exitAt = carriedTouch + Civil.hour) (hentry : result.entryPrice = 100) :
    ∃ rows, fixedCapitalDiagnostic [{ carriedEvent with h1 := bars }] [.resolved result]
      (fun _ => some r) 25 = .ok ⟨carriedDaily settled, rows⟩ := by
  have hposition : Py.mapE (position [.resolved result] fun _ => some r)
      [{ carriedEvent with h1 := bars }] = .ok [⟨{ carriedEvent with h1 := bars }, result, r⟩] := by
    simp [position, Resolution.key, hkey, carriedEvent, Py.mapE, bind, Except.bind]
  have hbooks : ([(⟨{ carriedEvent with h1 := bars }, result, r⟩ : Position)].insertionSort
      Position.before).foldlM (bookPosition 25) (monthKeys.map fun key => (key, 0)) =
        .ok (carriedBooks r) := by
    rw [List.insertionSort_cons, List.insertionSort_nil, List.orderedInsert_nil, List.foldlM_cons]
    have hmonth : Position.exitMonth ⟨{ carriedEvent with h1 := bars }, result, r⟩ =
        monthOf (newYorkDay (carriedTouch + Civil.hour)) := by
      unfold Position.exitMonth
      rw [hexit]
    unfold bookPosition
    rw [hmonth, require_bind (by decide)]
    rfl
  have hdaily : dailyEquitySeries [⟨{ carriedEvent with h1 := bars }, result, r⟩] 25 =
      .ok (carriedDaily settled) := by
    unfold dailyEquitySeries calendarMarks carriedDaily
    rw [Py.mapE_eq_ok_iff, List.forall₂_map_left_iff, List.forall₂_map_right_iff, List.forall₂_same]
    intro k _
    rw [carried_equityAt_of bars hsettled hexit hentry]
    rfl
  have hne : (carriedDaily settled).map Prod.snd ≠ [] := by
    have hcount : dayCount ≠ 0 := by decide
    simpa [carriedDaily] using hcount
  obtain ⟨rows, hrows⟩ := hrows
  refine ⟨rows, ?_⟩
  unfold fixedCapitalDiagnostic
  rw [hposition]
  refine Py.bind_eq_ok.mpr ⟨_, rfl, ?_⟩
  refine Py.bind_eq_ok.mpr ⟨_, hbooks, ?_⟩
  refine Py.bind_eq_ok.mpr ⟨_, hdaily, ?_⟩
  refine Py.bind_eq_ok.mpr ⟨(), ?_, Py.bind_eq_ok.mpr ⟨_, hrows, rfl⟩⟩
  unfold dailyPerformance
  rw [require_bind hne, require_eq_ok]
  intro previous hprevious
  rcases List.mem_cons.mp hprevious with rfl | hprevious
  · norm_num
  · obtain ⟨row, hrow, rfl⟩ := List.mem_map.mp (List.dropLast_subset _ hprevious)
    exact carriedDaily_positive positive row hrow

theorem carried_position (hkey : result.physicalEventKey = "event") :
    Py.mapE (position [.resolved result] fun _ => some 2) [carriedEvent] =
      .ok [carriedPosition result] := by
  simp [position, Resolution.key, hkey, carriedEvent, carriedPosition, Py.mapE, bind, Except.bind]

theorem carried_diagnostic (hkey : result.physicalEventKey = "event")
    (hexit : result.exitAt = carriedTouch + Civil.hour) (hentry : result.entryPrice = 100) :
    ∃ d, fixedCapitalDiagnostic [carriedEvent] [.resolved result] (fun _ => some 2) 25 = .ok d := by
  obtain ⟨rows, h⟩ := carried_diagnostic_of carriedEvent.h1 settled_two (by norm_num)
    (carriedBooks_rows carried_evaluated.2.2.1) hkey hexit hentry
  exact ⟨_, h⟩

theorem carried_payable : Payable [carriedPosition result] 25 where
  rendered p hp := by
    obtain rfl := List.mem_singleton.mp hp
    show Rendered 2
    exact ⟨2, carried_evaluated.2.2.2⟩
  size := by
    show ([|(2 : ℚ) * 25|] : List ℚ).sum ≤ 10 ^ 28
    norm_num

end

end TradeRecommender.Strategy.Returns
