import TradeRecommender.Assessments.Engine

/-!
# Gates and evaluations

1. a gate once closed stays closed, and its detail is the sorted set of the pieces of every detail
   but the last, together with the last detail whole;
2. the loop over the evaluations closes one gate an evaluation at most, and what it collects is a
   filter of the evaluations.
-/

namespace TradeRecommender.Assessments

open Py Civil Market

/-! ## Closing -/

/-- No gate is closed. -/
def Open (gates : Gates) : Prop := ∀ reason, (gates reason).closed = false

section
variable {gates : Gates} {reason other : Reason} {detail : String}

theorem open_newGates : Open newGates := fun _ => rfl

theorem not_open_close : ¬ Open (close gates reason detail) := by
  intro h
  have := h reason
  simp [close] at this

theorem close_self :
    close gates reason detail reason = ⟨true, addDetail (gates reason).detail detail⟩ :=
  if_pos rfl

theorem close_of_ne (ne : other ≠ reason) : close gates reason detail other = gates other := by
  simp [close, ne]

theorem open_closeIf {c : Prop} [Decidable c] :
    Open (closeIf c gates reason detail) ↔ Open gates ∧ ¬ c := by
  unfold closeIf
  split_ifs with h
  · simp [h, not_open_close]
  · simp [h]

theorem closeIf_of_ne {c : Prop} [Decidable c] (ne : other ≠ reason) :
    closeIf c gates reason detail other = gates other := by
  unfold closeIf
  split_ifs
  · exact close_of_ne ne
  · rfl

theorem primary_eq_none : primary gates = none ↔ Open gates := by
  simp [primary, Open, mem_reasons]

end

/-! ## Details -/

/-- The detail after closing a gate with each of the details in turn. -/
def addDetails (old : String) (details : List String) : String := details.foldl addDetail old

theorem addDetails_concat (old : String) (details : List String) (last : String) :
    addDetails old (details ++ [last]) = addDetail (addDetails old details) last := by
  simp [addDetails]

theorem mem_pieces_addDetail {old detail piece : String} :
    piece ∈ pieces ';' (addDetail old detail) ↔
      piece ∈ pieces ';' old ∨ piece ∈ pieces ';' detail := by
  unfold addDetail
  split_ifs with h
  · simp [h]
  · rw [pieces_joinOn]
    simp only [List.mem_flatMap, mem_sortedOnce, List.mem_append, List.mem_singleton]
    constructor
    · rintro ⟨part, inOld | rfl, hp⟩
      · rw [pieces_of_mem_pieces inOld, List.mem_singleton] at hp
        exact Or.inl (hp ▸ inOld)
      · exact Or.inr hp
    · rintro (hp | hp)
      · refine ⟨piece, Or.inl hp, ?_⟩
        rw [pieces_of_mem_pieces hp]
        exact List.mem_singleton_self piece
      · exact ⟨detail, Or.inr rfl, hp⟩

theorem mem_pieces_addDetails {old piece : String} {details : List String} :
    piece ∈ pieces ';' (addDetails old details) ↔
      piece ∈ pieces ';' old ∨ piece ∈ details.flatMap (pieces ';') := by
  induction details using List.reverseRecOn with
  | nil => simp [addDetails]
  | append_singleton details last ih =>
    rw [addDetails_concat, mem_pieces_addDetail, ih, List.flatMap_append, List.mem_append, or_assoc]
    simp

/-- **The detail of a closed gate**: the pieces of the earlier details, and the last one whole. -/
theorem addDetails_last {old last : String} (details : List String) (full : last ≠ "") :
    addDetails old (details ++ [last]) =
      joinOn ';' (sortedOnce (pieces ';' old ++ details.flatMap (pieces ';') ++ [last])) := by
  rw [addDetails_concat, addDetail, if_neg full]
  congr 1
  refine sortedOnce_congr fun piece => ?_
  rw [List.mem_append, mem_pieces_addDetails, List.mem_append, List.mem_append]

/-- A text `_close` keeps whole whatever is closed after it. -/
def Whole (detail : String) : Prop := detail ≠ "" ∧ ';' ∉ detail.toList

theorem Whole.pieces {detail : String} (h : Whole detail) : pieces ';' detail = [detail] :=
  pieces_of_notMem h.2 h.1

theorem flatMap_pieces_of_whole {details : List String} (whole : ∀ d ∈ details, Whole d) :
    details.flatMap (pieces ';') = details := by
  rw [List.flatMap_congr fun d hd => (whole d hd).pieces]
  exact List.flatMap_singleton' details

/-- The details before the last one may be permuted. -/
theorem addDetails_perm_init {old last : String} {xs ys : List String} (perm : xs.Perm ys)
    (full : last ≠ "") : addDetails old (xs ++ [last]) = addDetails old (ys ++ [last]) := by
  rw [addDetails_last xs full, addDetails_last ys full]
  congr 1
  refine sortedOnce_congr fun piece => ?_
  rw [List.mem_append, List.mem_append, List.mem_append, List.mem_append,
    (perm.flatMap_right (pieces ';')).mem_iff]

/-- Details that are all whole may be permuted. -/
theorem addDetails_perm_of_whole {old : String} {xs ys : List String} (perm : xs.Perm ys)
    (whole : ∀ d ∈ xs, Whole d) : addDetails old xs = addDetails old ys := by
  have closed : ∀ {zs : List String} (init : List String) (last : String),
      zs = init ++ [last] → (∀ d ∈ zs, Whole d) →
        addDetails old zs = joinOn ';' (sortedOnce (pieces ';' old ++ zs)) := by
    rintro _ init last rfl hwhole
    have hinit : ∀ d ∈ init, Whole d := fun d hd => hwhole d (List.mem_append_left _ hd)
    have hlast : Whole last := hwhole last (by simp)
    rw [addDetails_last init hlast.1, flatMap_pieces_of_whole hinit, List.append_assoc]
  rcases xs.eq_nil_or_concat with rfl | ⟨init, last, hxs⟩
  · rw [List.nil_perm.mp perm]
  rcases ys.eq_nil_or_concat with rfl | ⟨init', last', hys⟩
  · rw [List.perm_nil.mp perm]
  rw [closed init last (by simpa using hxs) whole, closed init' last' (by simpa using hys)
    fun d hd => whole d (perm.mem_iff.mpr hd)]
  congr 1
  refine sortedOnce_congr fun piece => ?_
  rw [List.mem_append, List.mem_append, perm.mem_iff]

/-! ## The loop over the evaluations -/

/-- Close a gate for each pair of a reason and a detail. -/
def closeAll (gates : Gates) (closings : List (Reason × String)) : Gates :=
  closings.foldl (fun gates closing => close gates closing.1 closing.2) gates

/-- The details a reason is closed with. -/
def detailsAt (reason : Reason) (closings : List (Reason × String)) : List String :=
  (closings.filter (·.1 = reason)).map (·.2)

section
variable {gates : Gates} {reason : Reason} {closings : List (Reason × String)}

theorem closeAll_append (more : List (Reason × String)) :
    closeAll gates (closings ++ more) = closeAll (closeAll gates closings) more :=
  List.foldl_append

theorem closeAll_detail : (closeAll gates closings reason).detail =
    addDetails (gates reason).detail (detailsAt reason closings) := by
  induction closings generalizing gates with
  | nil => rfl
  | cons closing closings ih =>
    rw [closeAll, List.foldl_cons, ← closeAll, ih]
    by_cases h : closing.1 = reason
    · subst h
      simp [close, detailsAt, addDetails]
    · rw [close_of_ne (Ne.symm h)]
      simp [detailsAt, h]

theorem closeAll_closed : (closeAll gates closings reason).closed = true ↔
    (gates reason).closed = true ∨ detailsAt reason closings ≠ [] := by
  induction closings generalizing gates with
  | nil => simp [closeAll, detailsAt]
  | cons closing closings ih =>
    rw [closeAll, List.foldl_cons, ← closeAll, ih]
    by_cases h : closing.1 = reason
    · subst h
      simp [close, detailsAt]
    · rw [close_of_ne (Ne.symm h)]
      simp [detailsAt, h]

theorem open_closeAll : Open (closeAll gates closings) ↔ Open gates ∧ closings = [] := by
  cases closings with
  | nil => simp [closeAll]
  | cons closing closings =>
    constructor
    · intro h
      have shut : (closeAll gates (closing :: closings) closing.1).closed = true :=
        closeAll_closed.mpr (Or.inr (by simp [detailsAt]))
      rw [h closing.1] at shut
      cases shut
    · rintro ⟨-, h⟩
      cases h

end

/-- What an evaluation closes. -/
def closing (entries : List Entry) (item : Evaluation) : Option (Reason × String) :=
  match admitted entries item with
  | none => some (.strategyNotAdmittedForInstrument, item.strategy.name)
  | some _ =>
    if item.strategy.role ≠ .setup then
      some (.strategyRoleCannotOriginateIntent, item.strategy.name)
    else
      match item.setup with
      | none => some (unavailableReason item.reason, item.strategy.name ++ ":" ++ item.reason)
      | some _ => none

/-- The setup an evaluation is attributed with. -/
def attributedOf (entries : List Entry) (item : Evaluation) : Option Attributed :=
  match admitted entries item with
  | none => none
  | some entry =>
    if item.strategy.role ≠ .setup then none
    else item.setup.map fun setup => ⟨item, setup, entry⟩

/-- The unavailable trigger of an evaluation. -/
def unavailableOf (entries : List Entry) (item : Evaluation) : Option Unavailable :=
  match admitted entries item with
  | none => none
  | some _ =>
    if item.strategy.role ≠ .setup then none
    else
      match item.setup with
      | none => some ⟨item.identity, item.reason, unavailableReason item.reason⟩
      | some _ => none

section
variable {entries : List Entry} {gates : Gates} {item : Evaluation} {evaluations : List Evaluation}

theorem filterMap_concat {α β : Type} (f : α → Option β) (xs : List α) (x : α) :
    (xs ++ [x]).filterMap f = xs.filterMap f ++ (f x).toList := by
  rw [List.filterMap_append]
  cases h : f x <;> simp [h]

/-- One turn of the loop. -/
theorem triageStep_eq (acc : Triage) : triageStep entries acc item =
    ⟨closeAll acc.gates (closing entries item).toList,
      acc.attributed ++ (attributedOf entries item).toList,
      acc.unavailable ++ (unavailableOf entries item).toList⟩ := by
  unfold triageStep closing attributedOf unavailableOf
  cases admitted entries item with
  | none => simp [closeAll]
  | some entry =>
    by_cases role : item.strategy.role = .setup
    · cases item.setup with
      | none => simp [role, closeAll]
      | some setup => simp [role, closeAll]
    · simp [role, closeAll]

/-- **The loop** closes what the evaluations close and collects what they yield. -/
theorem triage_eq : triage entries gates evaluations =
    ⟨closeAll gates (evaluations.filterMap (closing entries)),
      evaluations.filterMap (attributedOf entries),
      evaluations.filterMap (unavailableOf entries)⟩ := by
  unfold triage
  induction evaluations using List.reverseRecOn with
  | nil => rfl
  | append_singleton evaluations item ih =>
    rw [List.foldl_append, ih, List.foldl_cons, List.foldl_nil, triageStep_eq]
    rw [filterMap_concat, filterMap_concat, filterMap_concat, closeAll_append]

/-- An evaluation that closes nothing is admitted in the setup role and has a setup. -/
theorem closing_eq_none : closing entries item = none ↔
    ∃ entry setup, admitted entries item = some entry ∧ item.strategy.role = .setup ∧
      item.setup = some setup ∧ attributedOf entries item = some ⟨item, setup, entry⟩ := by
  unfold closing attributedOf
  cases admitted entries item with
  | none => simp
  | some entry =>
    by_cases role : item.strategy.role = .setup
    · cases item.setup <;> simp [role]
    · simp [role]

theorem Strategy.whole_name (strategy : Strategy) : Whole strategy.name := by
  have all : ∀ s ∈ strategies, s.name ≠ "" ∧ ';' ∉ s.name.toList := by decide
  exact all strategy (mem_strategies strategy)

/-- A reason of a gate other than the catch-all is one of the registered ones. -/
theorem unavailableReason_whole {reason : String}
    (h : unavailableReason reason ≠ .technicalSetupAbsent) : ';' ∉ reason.toList := by
  have registered : ∀ r ∈ m15UnavailableReasons ++ pendingReasons ++ rejectedReasons ++
      invalidatedReasons ++ expiredReasons, ';' ∉ r.toList := by decide
  refine registered reason ?_
  simp only [List.mem_append]
  by_contra none
  push Not at none
  obtain ⟨⟨⟨⟨h1, h2⟩, h3⟩, h4⟩, h5⟩ := none
  exact h (by simp [unavailableReason, h1, h2, h3, h4, h5])

/-- Only the details of the catch-all gate can hold a separator. -/
theorem closing_whole {reason : Reason} {detail : String}
    (h : closing entries item = some (reason, detail)) :
    detail ≠ "" ∧ (reason ≠ .technicalSetupAbsent → Whole detail) := by
  unfold closing at h
  have name := item.strategy.whole_name
  cases found : admitted entries item with
  | none =>
    simp only [found, Option.some.injEq, Prod.mk.injEq] at h
    obtain ⟨rfl, rfl⟩ := h
    exact ⟨name.1, fun _ => name⟩
  | some entry =>
    simp only [found] at h
    split_ifs at h with role
    · obtain ⟨rfl, rfl⟩ := Prod.mk.inj (Option.some.inj h)
      exact ⟨name.1, fun _ => name⟩
    · cases hs : item.setup with
      | some setup => simp [hs] at h
      | none =>
        simp only [hs, Option.some.injEq, Prod.mk.injEq] at h
        obtain ⟨rfl, rfl⟩ := h
        have full : item.strategy.name ++ ":" ++ item.reason ≠ "" := by
          intro h
          have := congrArg String.toList h
          simp at this
        refine ⟨full, fun ne => ⟨full, ?_⟩⟩
        have text := unavailableReason_whole ne
        simp [String.toList_append, name.2, text]

end

end TradeRecommender.Assessments
