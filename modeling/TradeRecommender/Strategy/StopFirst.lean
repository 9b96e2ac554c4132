import TradeRecommender.Strategy.ExploratoryReturns

/-!
# Stop first, causal and complete

`endsBy` says what ends a position at a bar: the structure, the horizon, the stop or the target, in
that order. The loop of `resolve_event` stops at the first bar that ends the position
(`exitLoop_first_end`), so neither a later bar nor a later daily close has a say.

1. The daily walk answers whether an expected completion closed beyond the swing
   (`structureDue_eq`).
2. The loop gives the exit of the first bar that ends the position.
3. After the loop only the conversion of the exit and two quantizations are left (`settle`).
-/

namespace TradeRecommender.Strategy.Returns

open Civil (Instant)
open Py (Exc)

/-! ## The daily structure -/

/-- One clean row for each expected completion; rows of other days may stand beside them. -/
structure DailyMembers (event : Event) : Prop where
  distinct : (event.daily.map DailyRow.completedAt).Nodup
  member : ∀ completed ∈ event.dCompletions, ∃ row ∈ event.daily, row.completedAt = completed ∧
    row.isSealed = true ∧ row.complete = true ∧ row.conflict = false

/-- A daily close beyond the swing, of an expected completion after the entry and by the boundary. -/
def CloseDue (event : Event) (boundary : Instant) : Prop :=
  ∃ row ∈ event.daily, row.completedAt ∈ event.dCompletions ∧ event.entryAt < row.completedAt ∧
    row.completedAt ≤ boundary ∧ breaks event.direction event.supportingSwing row.midClose = true

instance (event : Event) (boundary : Instant) : Decidable (CloseDue event boundary) :=
  inferInstanceAs (Decidable (∃ row ∈ event.daily, _))

theorem DailyMembers.find {event : Event} (h : DailyMembers event) {completed : Instant}
    (hmem : completed ∈ event.dCompletions) :
    ∃ row ∈ event.daily, row.completedAt = completed ∧
      (row.isSealed = true ∧ row.complete = true ∧ row.conflict = false) ∧
      event.daily.find? (fun row => row.completedAt = completed) = some row := by
  obtain ⟨row, hrow, rfl, hclean⟩ := h.member completed hmem
  have hfound : (event.daily.find? fun other => other.completedAt = row.completedAt).isSome := by
    rw [List.find?_isSome]
    exact ⟨row, hrow, by simp⟩
  obtain ⟨other, hother⟩ := Option.isSome_iff_exists.mp hfound
  have hat : other.completedAt = row.completedAt := by simpa using List.find?_some hother
  have hsame : other = row :=
    List.inj_on_of_nodup_map h.distinct (List.mem_of_find?_eq_some hother) hrow hat
  exact ⟨row, hrow, rfl, hclean, hsame ▸ hother⟩

/-- The walk over expected completions says whether one of their rows breaks. -/
theorem structureWalk_eq {event : Event} (h : DailyMembers event) {completions : List Instant}
    (hsub : ∀ value ∈ completions, value ∈ event.dCompletions) :
    structureWalk event.direction event.supportingSwing event.daily completions =
      .ok (decide (∃ row ∈ event.daily, row.completedAt ∈ completions ∧
        breaks event.direction event.supportingSwing row.midClose = true)) := by
  induction completions with
  | nil => simp [structureWalk]
  | cons completed rest ih =>
    obtain ⟨row, hrow, hat, hclean, hfind⟩ := h.find (hsub completed (by simp))
    have htail := ih fun value hvalue => hsub value (by simp [hvalue])
    unfold structureWalk
    rw [hfind]
    dsimp only
    rw [require_bind hclean]
    by_cases hbreaks : breaks event.direction event.supportingSwing row.midClose = true
    · rw [if_pos hbreaks, Py.pure_eq_ok]
      congr 1
      exact (decide_eq_true ⟨row, hrow, by simp [hat], hbreaks⟩).symm
    · rw [if_neg hbreaks, htail]
      congr 1
      rw [decide_eq_decide]
      constructor
      · rintro ⟨other, hother, hin, hb⟩
        exact ⟨other, hother, by simp [hin], hb⟩
      · rintro ⟨other, hother, hin, hb⟩
        rcases List.mem_cons.mp hin with hin | hin
        · obtain rfl := List.inj_on_of_nodup_map h.distinct hother hrow (hin.trans hat.symm)
          exact absurd hb hbreaks
        · exact ⟨other, hother, hin, hb⟩

/-- **The structure test** of an event with its daily members. -/
theorem structureDue_eq {event : Event} (h : DailyMembers event) (boundary : Instant) :
    structureDue event boundary = .ok (decide (CloseDue event boundary)) := by
  have hsub : ∀ value ∈ event.dCompletions.filter fun value =>
      event.entryAt < value ∧ value ≤ boundary, value ∈ event.dCompletions :=
    fun value hvalue => (List.mem_filter.mp hvalue).1
  unfold structureDue
  rw [require_bind h.distinct, structureWalk_eq h hsub]
  congr 1
  rw [decide_eq_decide]
  unfold CloseDue
  simp only [List.mem_filter, decide_eq_true_eq, and_assoc]

/-! ## The exit -/

/-- A list that holds an element with a property splits at the first such element. -/
theorem exists_first {α : Type} {p : α → Prop} {rows : List α} (h : ∃ row ∈ rows, p row) :
    ∃ pre row post, rows = pre ++ row :: post ∧ (∀ other ∈ pre, ¬ p other) ∧ p row := by
  classical
  have hfound : (rows.find? fun row => decide (p row)).isSome := by
    rw [List.find?_isSome]
    obtain ⟨row, hrow, hp⟩ := h
    exact ⟨row, hrow, by simp [hp]⟩
  obtain ⟨row, hrow⟩ := Option.isSome_iff_exists.mp hfound
  obtain ⟨hp, pre, post, hsplit, hpre⟩ := List.find?_eq_some_iff_append.mp hrow
  exact ⟨pre, row, post, hsplit, fun other hother => by simpa using hpre other hother,
    of_decide_eq_true hp⟩

/-- What ends the position at a bar, the first of the four in the order of the loop. -/
def endsBy (event : Event) (bar : Bar) : Option Terminal :=
  if CloseDue event bar.start then some .dailyStructure
  else if bar.start = event.horizonAt then some .horizon
  else if (touch event bar).stopTouch then some .stop
  else if (touch event bar).targetTouch then some .target
  else none

/-- The exit at a bar: its open for structure and horizon, the end of its hour for a touch. -/
def exitOf (event : Event) (bar : Bar) : Terminal → Exit
  | .dailyStructure => ⟨.dailyStructure, bar.start, exitOpen event bar, false⟩
  | .horizon => ⟨.horizon, bar.start, exitOpen event bar, false⟩
  | .stop => ⟨.stop, bar.start + Civil.hour, (touch event bar).stopFill,
      (touch event bar).targetTouch⟩
  | .target => ⟨.target, bar.start + Civil.hour, event.target, false⟩

@[simp] theorem exitOf_terminal (event : Event) (bar : Bar) (terminal : Terminal) :
    (exitOf event bar terminal).terminal = terminal := by
  cases terminal <;> rfl

theorem endsBy_eq_none {event : Event} {bar : Bar} :
    endsBy event bar = none ↔ ¬ CloseDue event bar.start ∧ bar.start ≠ event.horizonAt ∧
      (touch event bar).stopTouch = false ∧ (touch event bar).targetTouch = false := by
  unfold endsBy
  split_ifs <;> simp_all

/-- **The first bar that ends the position gives the exit.** -/
theorem exitLoop_first_end {event : Event} (h : DailyMembers event) {pre : List Bar} {bar : Bar}
    {post : List Bar} {terminal : Terminal} (hpre : ∀ b ∈ pre, endsBy event b = none)
    (hbar : endsBy event bar = some terminal) :
    exitLoop event false false (pre ++ bar :: post) = .ok (some (exitOf event bar terminal)) := by
  induction pre with
  | nil =>
    rw [List.nil_append, exitLoop]
    simp only [Bool.false_eq_true, if_false, structureDue_eq h, bind, Except.bind, Bool.not_false,
      Bool.true_and, Bool.or_eq_true, decide_eq_true_eq]
    unfold endsBy at hbar
    by_cases hclose : CloseDue event bar.start
    · rw [if_pos hclose] at hbar
      cases hbar
      rw [if_pos (Or.inl hclose), if_pos hclose]
      rfl
    · rw [if_neg hclose] at hbar
      by_cases hhorizon : bar.start = event.horizonAt
      · rw [if_pos hhorizon] at hbar
        cases hbar
        rw [if_pos (Or.inr hhorizon), if_neg hclose]
        rfl
      · rw [if_neg hhorizon] at hbar
        rw [if_neg (not_or.mpr ⟨hclose, hhorizon⟩)]
        by_cases hstop : (touch event bar).stopTouch = true
        · rw [if_pos hstop] at hbar ⊢
          cases hbar
          simp [exitOf, hstop, pure, Except.pure]
        · rw [if_neg hstop] at hbar ⊢
          by_cases htarget : (touch event bar).targetTouch = true
          · rw [if_pos htarget] at hbar ⊢
            cases hbar
            simp [exitOf, hstop, pure, Except.pure]
          · rw [if_neg htarget] at hbar
            cases hbar
  | cons first pre ih =>
    obtain ⟨hclose, hhorizon, hstop, htarget⟩ := endsBy_eq_none.mp (hpre first (by simp))
    rw [List.cons_append, exitLoop]
    simp only [Bool.false_eq_true, if_false, structureDue_eq h, bind, Except.bind, Bool.not_false,
      Bool.true_and, Bool.or_eq_true, decide_eq_true_eq]
    rw [if_neg (not_or.mpr ⟨hclose, hhorizon⟩)]
    simp only [hstop, htarget, Bool.false_and, Bool.or_false, Bool.false_eq_true, if_false]
    exact ih fun b hb => hpre b (by simp [hb])

/-- Where neither structure nor horizon ends it, the entry bar is treated as any other. -/
theorem exitLoop_entry {event : Event} (h : DailyMembers event) {bar : Bar} (rest : List Bar)
    (hclose : ¬ CloseDue event bar.start) (hhorizon : bar.start ≠ event.horizonAt) :
    exitLoop event true false (bar :: rest) = exitLoop event false false (bar :: rest) := by
  unfold exitLoop
  simp [structureDue_eq h, hclose, hhorizon, bind, Except.bind, pure, Except.pure]

/-- No expected completion is due at the entry. -/
theorem not_closeDue_entry (event : Event) : ¬ CloseDue event event.entryAt := by
  rintro ⟨row, -, -, hafter, hby, -⟩
  exact absurd hafter (not_lt.mpr hby)

/-- The loop over bars that begin at an entry before the horizon. -/
theorem exitLoop_first_end_from_entry {event : Event} (h : DailyMembers event) {pre : List Bar}
    {bar : Bar} {post : List Bar} {terminal : Terminal}
    (hentry : (pre ++ bar :: post).head?.map Bar.start = some event.entryAt)
    (hbefore : event.entryAt < event.horizonAt) (hpre : ∀ b ∈ pre, endsBy event b = none)
    (hbar : endsBy event bar = some terminal) :
    exitLoop event true false (pre ++ bar :: post) = .ok (some (exitOf event bar terminal)) := by
  rw [← exitLoop_first_end h hpre hbar]
  cases hlist : pre ++ bar :: post with
  | nil => simp at hlist
  | cons first rest =>
    rw [hlist] at hentry
    have hstart : first.start = event.entryAt := by simpa using hentry
    apply exitLoop_entry h
    · rw [hstart]
      exact not_closeDue_entry event
    · rw [hstart]
      exact hbefore.ne

/-- Structure and horizon leave at the open of the bar, a touch at the end of its hour. -/
theorem exitOf_exitAt {event : Event} {bar : Bar} {terminal : Terminal}
    (h : endsBy event bar = some terminal) :
    (exitOf event bar terminal).exitAt =
      if CloseDue event bar.start ∨ bar.start = event.horizonAt then bar.start
      else bar.start + Civil.hour := by
  unfold endsBy at h
  split_ifs at h ⊢ <;> cases h <;> first | rfl | tauto

/-! ## Settlement -/

/-- The amount fits the digits of the context when it is quantized. -/
def Fits (value : ℚ) : Prop :=
  |Rounding.halfEven (value / 10 ^ (-10 : ℤ))| < 10 ^ returnPrec

def grossCadPerUnit (event : Event) (exitPrice rate : ℚ) : ℚ :=
  Rounding.mul returnPrec (Rounding.mul returnPrec (Rounding.sub returnPrec exitPrice event.entry)
    (match event.direction with | .long => 1 | .short => -1)) rate

def grossR (event : Event) (exitPrice rate : ℚ) : ℚ :=
  Rounding.div returnPrec (grossCadPerUnit event exitPrice rate) event.riskPerUnitCad

theorem money_of_fits {value : ℚ} (h : Fits value) :
    money value = .ok (Rounding.quantize Rounding.halfEven (-10) value) := by
  unfold money
  rw [if_neg (not_le.mpr h)]

theorem money_of_not_fits {value : ℚ} (h : ¬ Fits value) :
    money value = Py.raise .invalidOperation := by
  unfold money
  rw [if_pos (not_lt.mp h)]

/-- The resolution of an event with its exit and the exit's conversion. -/
def settled (event : Event) (exit : Exit) (rate : ℚ) : Resolved where
  ambiguity := exit.ambiguity
  books := event.books
  direction := event.direction
  entryAt := event.entryAt
  entryPrice := event.entry
  exitAt := exit.exitAt
  exitConversionCadPerQuote := rate
  exitPrice := exit.exitPrice
  grossCadPerUnit := Rounding.quantize Rounding.halfEven (-10)
    (grossCadPerUnit event exit.exitPrice rate)
  grossR := Rounding.quantize Rounding.halfEven (-10) (grossR event exit.exitPrice rate)
  instrument := event.instrument
  physicalEventKey := event.physicalEventKey
  riskPerUnitCad := event.riskPerUnitCad
  terminal := exit.terminal

/-- An event the calculator accepts: its input passes, its hours are an hour apart, it opens at the
frozen entry with stop and target around it, and the evidence it may need is there. -/
structure Resolvable (event : Event) : Prop where
  input : ∃ bars, eventInput event = .ok bars
  spaced : event.expectedH1Starts.Pairwise fun a b => a + Civil.hour ≤ b
  fill : event.h1.head?.map Bar.bidOpen = some event.entryBid ∧
    event.h1.head?.map Bar.askOpen = some event.entryAsk
  geometry : event.geometry
  fillable : event.fillable
  risk : 0 < event.riskPerUnitCad
  daily : DailyMembers event
  conversions : ∀ bar ∈ event.h1, (∃ rate, exitConversion event bar.start = .ok rate) ∧
    ∃ rate, exitConversion event (bar.start + Civil.hour) = .ok rate

/-- What `_event_input` establishes. -/
theorem eventInput_ok {event : Event} {bars : List Bar} (h : eventInput event = .ok bars) :
    event.entryAt < event.horizonAt ∧ event.expectedH1Starts.head? = some event.entryAt ∧
      event.horizonAt ∈ event.expectedH1Starts ∧ bars = event.h1 ∧
      event.h1.map Bar.start = event.expectedH1Starts := by
  unfold eventInput at h
  obtain ⟨_, -, h⟩ := Py.bind_eq_ok.mp h
  obtain ⟨_, -, h⟩ := Py.bind_eq_ok.mp h
  obtain ⟨_, hbefore, h⟩ := Py.bind_eq_ok.mp h
  obtain ⟨_, hstarts, h⟩ := Py.bind_eq_ok.mp h
  obtain ⟨_, hhorizon, h⟩ := Py.bind_eq_ok.mp h
  obtain ⟨_, -, h⟩ := Py.bind_eq_ok.mp h
  obtain ⟨_, -, h⟩ := Py.bind_eq_ok.mp h
  obtain ⟨valid, hvalid, h⟩ := Py.bind_eq_ok.mp h
  obtain ⟨_, hsame, h⟩ := Py.bind_eq_ok.mp h
  cases h
  rw [require_eq_ok] at hbefore hstarts hhorizon hsame
  have hbars : bars = event.h1 := by
    have hrows := Py.mapE_eq_ok_iff.mp hvalid
    refine (List.forall₂_eq_eq_eq ▸ hrows.imp fun row bar hrow => ?_ : event.h1 = bars).symm
    obtain ⟨_, -, hrow⟩ := Py.bind_eq_ok.mp hrow
    obtain ⟨_, -, hrow⟩ := Py.bind_eq_ok.mp hrow
    obtain ⟨_, -, hrow⟩ := Py.bind_eq_ok.mp hrow
    cases hrow
    rfl
  exact ⟨hbefore, hstarts.2, hhorizon, hbars, hbars ▸ hsame⟩

instance (value : ℚ) : Decidable (Fits value) :=
  inferInstanceAs (Decidable (|Rounding.halfEven (value / 10 ^ (-10 : ℤ))| < 10 ^ returnPrec))

/-- **The resolution** of an accepted event with its first bar that ends the position. -/
theorem resolveEvent_eq {event : Event} (h : Resolvable event) {pre : List Bar} {bar : Bar}
    {post : List Bar} {terminal : Terminal} (hsplit : event.h1 = pre ++ bar :: post)
    (hpre : ∀ b ∈ pre, endsBy event b = none) (hbar : endsBy event bar = some terminal) {rate : ℚ}
    (hrate : exitConversion event (exitOf event bar terminal).exitAt = .ok rate) :
    resolveEvent event =
      if Fits (grossCadPerUnit event (exitOf event bar terminal).exitPrice rate) ∧
          Fits (grossR event (exitOf event bar terminal).exitPrice rate) then
        .ok (.resolved (settled event (exitOf event bar terminal) rate))
      else Py.raise .invalidOperation := by
  obtain ⟨bars, hinput⟩ := h.input
  obtain ⟨hbefore, hfirst, -, rfl, hstarts⟩ := eventInput_ok hinput
  have hloop : exitLoop event true false event.h1 = .ok (some (exitOf event bar terminal)) := by
    have hentry : event.h1.head?.map Bar.start = some event.entryAt := by
      rw [← List.head?_map, hstarts, hfirst]
    rw [hsplit] at hentry ⊢
    exact exitLoop_first_end_from_entry h.daily hentry hbefore hpre hbar
  unfold resolveEvent resolveBody
  rw [hinput]
  show Py.tryExcept (require _ _ >>= _) _ _ = _
  rw [require_bind h.fill, require_bind h.geometry, require_bind h.fillable, hloop]
  show Py.tryExcept (exitConversion event (exitOf event bar terminal).exitAt >>= _) _ _ = _
  rw [hrate]
  show Py.tryExcept (require _ _ >>= _) _ _ = _
  rw [require_bind h.risk]
  show Py.tryExcept (money (grossCadPerUnit event (exitOf event bar terminal).exitPrice rate) >>= _)
    _ _ = _
  by_cases hcad : Fits (grossCadPerUnit event (exitOf event bar terminal).exitPrice rate)
  · rw [money_of_fits hcad]
    show Py.tryExcept (money (grossR event (exitOf event bar terminal).exitPrice rate) >>= _) _ _ = _
    by_cases hr : Fits (grossR event (exitOf event bar terminal).exitPrice rate)
    · rw [money_of_fits hr, if_pos ⟨hcad, hr⟩]
      rfl
    · rw [money_of_not_fits hr, if_neg fun hboth => hr hboth.2]
      rfl
  · rw [money_of_not_fits hcad, if_neg fun hboth => hcad hboth.1]
    rfl

/-! ## Later evidence -/

/-- The other event has the same bars through this one and the same daily rows completed by its
open; every later bar and every later daily row may be another. -/
structure SameThrough (event other : Event) (pre : List Bar) (bar : Bar) : Prop where
  fields : other = { event with h1 := other.h1, daily := other.daily }
  bars : ∃ post, other.h1 = pre ++ bar :: post
  closes : ∀ row, row.completedAt ≤ bar.start → (row ∈ other.daily ↔ row ∈ event.daily)

theorem SameThrough.endsBy_eq {event other : Event} {pre : List Bar} {bar : Bar}
    (h : SameThrough event other pre bar) {b : Bar} (hb : b.start ≤ bar.start) :
    endsBy other b = endsBy event b := by
  have hclose : CloseDue other b.start ↔ CloseDue event b.start := by
    unfold CloseDue
    rw [h.fields]
    constructor
    · rintro ⟨row, hrow, hin, hafter, hby, hbreaks⟩
      exact ⟨row, (h.closes row (hby.trans hb)).mp hrow, hin, hafter, hby, hbreaks⟩
    · rintro ⟨row, hrow, hin, hafter, hby, hbreaks⟩
      exact ⟨row, (h.closes row (hby.trans hb)).mpr hrow, hin, hafter, hby, hbreaks⟩
  have htouch : touch other b = touch event b := by rw [h.fields]; rfl
  have hhorizon : other.horizonAt = event.horizonAt := by rw [h.fields]
  unfold endsBy
  simp only [hclose, htouch, hhorizon]

theorem SameThrough.exitOf_eq {event other : Event} {pre : List Bar} {bar : Bar}
    (h : SameThrough event other pre bar) (terminal : Terminal) :
    exitOf other bar terminal = exitOf event bar terminal := by
  rw [h.fields]
  cases terminal <;> rfl

/-! ## The result -/

/-- Bars begin at the entry and lie an hour apart. -/
theorem Resolvable.bars_apart {event : Event} (h : Resolvable event) {pre : List Bar} {bar : Bar}
    {post : List Bar} (hsplit : event.h1 = pre ++ bar :: post) :
    event.entryAt ≤ bar.start ∧ (∀ b ∈ pre, b.start ≤ bar.start) ∧
      ∀ b ∈ post, bar.start + Civil.hour ≤ b.start := by
  obtain ⟨bars, hinput⟩ := h.input
  obtain ⟨-, hfirst, -, -, hstarts⟩ := eventInput_ok hinput
  have hour : (0 : ℤ) < Civil.hour := by decide
  have apart := h.spaced
  rw [← hstarts, hsplit, List.map_append, List.map_cons, List.pairwise_append] at apart
  obtain ⟨-, tail, across⟩ := apart
  have before : ∀ b ∈ pre, b.start + Civil.hour ≤ bar.start := fun b hb =>
    across b.start (List.mem_map_of_mem hb) bar.start (by simp)
  refine ⟨?_, fun b hb => by linarith [before b hb], fun b hb =>
    List.rel_of_pairwise_cons tail (List.mem_map_of_mem hb)⟩
  rw [← hstarts, hsplit] at hfirst
  cases pre with
  | nil =>
    simp only [List.nil_append, List.map_cons, List.head?_cons, Option.some.injEq] at hfirst
    exact hfirst.ge
  | cons b pre =>
    simp only [List.cons_append, List.map_cons, List.head?_cons, Option.some.injEq] at hfirst
    linarith [before b (by simp)]

/-- The exit lies after the entry and by the horizon. -/
theorem Resolvable.exitAt_bounds {event : Event} (h : Resolvable event) {pre : List Bar} {bar : Bar}
    {post : List Bar} {terminal : Terminal} (hsplit : event.h1 = pre ++ bar :: post)
    (hpre : ∀ b ∈ pre, endsBy event b = none) (hbar : endsBy event bar = some terminal) :
    event.entryAt < (exitOf event bar terminal).exitAt ∧
      (exitOf event bar terminal).exitAt ≤ event.horizonAt := by
  obtain ⟨bars, hinput⟩ := h.input
  obtain ⟨hbefore, -, hhorizon, -, hstarts⟩ := eventInput_ok hinput
  obtain ⟨hentry, -, hlater⟩ := h.bars_apart hsplit
  have hour : (0 : ℤ) < Civil.hour := by decide
  have hplace : bar.start = event.horizonAt ∨ bar.start + Civil.hour ≤ event.horizonAt := by
    rw [← hstarts, hsplit, List.mem_map] at hhorizon
    obtain ⟨b, hb, hat⟩ := hhorizon
    rcases List.mem_append.mp hb with hb | hb
    · exact absurd hat (endsBy_eq_none.mp (hpre b hb)).2.1
    · rcases List.mem_cons.mp hb with rfl | hb
      · exact Or.inl hat
      · exact Or.inr (hat ▸ hlater b hb)
  rw [exitOf_exitAt hbar]
  split_ifs with hopen
  · have hne : bar.start ≠ event.entryAt := by
      intro hat
      rcases hopen with hclose | hh
      · exact not_closeDue_entry event (hat ▸ hclose)
      · exact absurd (hat.symm.trans hh) hbefore.ne
    refine ⟨lt_of_le_of_ne hentry hne.symm, ?_⟩
    rcases hplace with hat | hlt
    · exact hat.le
    · linarith
  · rw [not_or] at hopen
    exact ⟨by linarith, hplace.resolve_left hopen.2⟩

theorem exitOf_stop (event : Event) (bar : Bar) :
    match event.direction with
    | .long => (exitOf event bar .stop).exitPrice ≤ event.stop
    | .short => event.stop ≤ (exitOf event bar .stop).exitPrice := by
  unfold exitOf touch
  cases event.direction
  · exact min_le_left _ _
  · exact le_max_left _ _

/-- A bar that opens at 100 on 101 and falls to 80, in units of a scale. -/
def fallingBar (scale : ℚ) (start : Instant) : Bar :=
  ⟨start, true, true, false, 100 * scale, 100 * scale, 80 * scale, 85 * scale, 101 * scale,
    101 * scale, 81 * scale, 86 * scale⟩

/-- A long from 101 with stop 90 and target 120, in units of a scale, of two hours ten days apart. -/
def fallingEvent (scale : ℚ) : Event where
  physicalEventKey := "falling"
  books := ["COMBINED"]
  instrument := .usdCad
  direction := .long
  entryAt := 0
  horizonAt := 10 * Civil.day
  entryBid := 100 * scale
  entryAsk := 101 * scale
  stop := 90 * scale
  target := 120 * scale
  supportingSwing := 70 * scale
  pipSize := 1 / 10000
  riskPerUnitCad := 11 * scale
  expectedH1Starts := [0, 10 * Civil.day]
  dCompletions := (List.range 10).map fun k : ℕ => ((k : ℤ) + 1) * Civil.day
  h1 := [fallingBar scale 0, fallingBar scale (10 * Civil.day)]
  daily := (List.range 10).map fun k : ℕ =>
    ⟨((k : ℤ) + 1) * Civil.day, true, true, false, 85 * scale⟩
  conversion := [0, Civil.hour, 10 * Civil.day, 10 * Civil.day + Civil.hour].map fun when_ =>
    (when_, ⟨.cad, when_, []⟩)
  rollovers := []
  marks := []

theorem fallingEvent_resolvable {scale : ℚ} (h : scale = 1 ∨ scale = 10 ^ 30) :
    Resolvable (fallingEvent scale) where
  input := by
    have hok : (eventInput (fallingEvent scale)).toOption.isSome := by
      rcases h with rfl | rfl <;> decide +kernel
    cases hinput : eventInput (fallingEvent scale) with
    | error e => rw [hinput] at hok; cases hok
    | ok bars => exact ⟨bars, rfl⟩
  spaced := by
    show ([0, 10 * Civil.day] : List ℤ).Pairwise fun a b => a + Civil.hour ≤ b
    decide
  fill := ⟨rfl, rfl⟩
  geometry := by rcases h with rfl | rfl <;> decide +kernel
  fillable := by rcases h with rfl | rfl <;> decide +kernel
  risk := by rcases h with rfl | rfl <;> norm_num [fallingEvent]
  daily := by
    constructor
    · show ((List.range 10).map fun k : ℕ => ((k : ℤ) + 1) * Civil.day).Nodup
      decide
    · intro completed hmem
      obtain ⟨k, hk, rfl⟩ := List.mem_map.mp hmem
      exact ⟨_, List.mem_map_of_mem hk, rfl, rfl, rfl, rfl⟩
  conversions := by
    intro bar hbar
    simp only [fallingEvent, List.mem_cons, List.not_mem_nil, or_false] at hbar
    rcases hbar with rfl | rfl <;> exact ⟨⟨1, rfl⟩, ⟨1, rfl⟩⟩

end TradeRecommender.Strategy.Returns
