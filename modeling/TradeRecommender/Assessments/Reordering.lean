import TradeRecommender.Assessments.Gates

/-!
# Reordered evaluations

1. every gate but the catch-all one is the same in every order of the evaluations;
2. the detail of the catch-all gate depends on which evaluation comes last, unless its details have
   one reading;
3. the rest of the assessment is a function of the gates and of what was collected, in any order.
-/

namespace TradeRecommender.Assessments

open Py Civil Market

/-! ## Permuted evaluations -/

section
variable {i : Inputs} {evaluations : List Evaluation}

theorem missingEvaluations_perm {entries : List Entry} {xs ys : List Evaluation}
    (perm : xs.Perm ys) : missingEvaluations entries xs = missingEvaluations entries ys := by
  unfold missingEvaluations
  have names : ∀ name, name ∈ xs.map (·.strategy.name) ↔ name ∈ ys.map (·.strategy.name) :=
    fun name => (perm.map _).mem_iff
  simp only [names]

/-- What the loop over the evaluations closes. -/
def closings (i : Inputs) : List (Reason × String) :=
  i.evaluations.filterMap (closing i.eligibility.entries)

/-- The details the evaluations close the catch-all gate with. -/
def absentDetails (i : Inputs) : List String := detailsAt .technicalSetupAbsent (closings i)

/-- The entries without an evaluation. -/
def missing (i : Inputs) : List String :=
  missingEvaluations i.eligibility.entries i.evaluations

/-- The gates before the loop. -/
def entryGates (i : Inputs) : Gates :=
  closeIf (i.eligibility.entries = []) newGates .noEconomicallyAdmittedStrategy
    "canonical eligibility is empty"

/-- The attributed setups. -/
def attributed (i : Inputs) : List Attributed :=
  i.evaluations.filterMap (attributedOf i.eligibility.entries)

/-- The evaluations that have no setup. -/
def unavailable (i : Inputs) : List Unavailable :=
  i.evaluations.filterMap (unavailableOf i.eligibility.entries)

/-- The detail that names the entries without an evaluation. -/
def missingDetail (i : Inputs) : String :=
  "missing evaluations:" ++ ",".intercalate (missing i)

theorem missingDetail_ne (i : Inputs) : missingDetail i ≠ "" := by
  intro h
  exact absurd (String.append_eq_empty_iff.mp h).1 (by decide)

/-- The gates after the loop. -/
def loopGates (i : Inputs) : Gates := closeAll (entryGates i) (closings i)

theorem evaluationGates_eq (i : Inputs) : evaluationGates i =
    ⟨closeIf (missing i ≠ []) (loopGates i) .technicalSetupAbsent (missingDetail i), attributed i,
      unavailable i⟩ := by
  simp only [evaluationGates, triage_eq]
  rfl

theorem gates_of_missing {i : Inputs} (ne : missing i ≠ []) : (evaluationGates i).gates =
    close (loopGates i) .technicalSetupAbsent (missingDetail i) := by
  rw [evaluationGates_eq]
  exact if_pos ne

theorem gates_of_evaluated {i : Inputs} (none : missing i = []) :
    (evaluationGates i).gates = loopGates i := by
  rw [evaluationGates_eq]
  exact if_neg (not_not.mpr none)

theorem gates_of_ne {i : Inputs} {reason : Reason} (ne : reason ≠ .technicalSetupAbsent) :
    (evaluationGates i).gates reason = loopGates i reason := by
  rw [evaluationGates_eq]
  exact closeIf_of_ne ne

theorem mem_detailsAt {reason : Reason} {cs : List (Reason × String)} {detail : String} :
    detail ∈ detailsAt reason cs ↔ (reason, detail) ∈ cs := by
  simp only [detailsAt, List.mem_map, List.mem_filter, decide_eq_true_eq]
  constructor
  · rintro ⟨⟨r, d⟩, ⟨h, rfl⟩, rfl⟩
    exact h
  · intro h
    exact ⟨_, ⟨h, rfl⟩, rfl⟩

theorem full_of_mem_closings {reason : Reason} {detail : String}
    (h : detail ∈ detailsAt reason (closings i)) : detail ≠ "" := by
  obtain ⟨item, -, hitem⟩ := List.mem_filterMap.mp (mem_detailsAt.mp h)
  exact (closing_whole hitem).1

theorem whole_of_mem_closings {reason : Reason} (ne : reason ≠ .technicalSetupAbsent)
    {detail : String} (h : detail ∈ detailsAt reason (closings i)) : Whole detail := by
  obtain ⟨item, -, hitem⟩ := List.mem_filterMap.mp (mem_detailsAt.mp h)
  exact (closing_whole hitem).2 ne

/-- The inputs with the evaluations in another order. -/
def Inputs.reordered (i : Inputs) (evaluations : List Evaluation) : Inputs :=
  { i with evaluations := evaluations }

variable (perm : evaluations.Perm i.evaluations)

include perm

theorem detailsAt_perm (reason : Reason) :
    (detailsAt reason (closings (i.reordered evaluations))).Perm
      (detailsAt reason (closings i)) := by
  have := perm.filterMap (closing i.eligibility.entries)
  exact (this.filter _).map _

theorem missing_perm : missing (i.reordered evaluations) = missing i :=
  missingEvaluations_perm perm

/-- The closed state of a gate is the same in every order. -/
theorem closed_perm (reason : Reason) :
    (loopGates (i.reordered evaluations) reason).closed = (loopGates i reason).closed := by
  rw [loopGates, loopGates, Bool.eq_iff_iff, closeAll_closed, closeAll_closed, ne_eq, ne_eq,
    ← List.length_eq_zero_iff, ← List.length_eq_zero_iff, (detailsAt_perm perm reason).length_eq]
  rfl

/-- Reordering leaves every gate but the catch-all as it is. -/
theorem evaluationGates_of_ne {reason : Reason} (ne : reason ≠ .technicalSetupAbsent) :
    (evaluationGates (i.reordered evaluations)).gates reason =
      (evaluationGates i).gates reason := by
  have hperm := detailsAt_perm perm reason
  rw [gates_of_ne ne, gates_of_ne ne]
  refine Gate.ext (closed_perm perm reason) ?_
  rw [loopGates, loopGates, closeAll_detail, closeAll_detail]
  exact addDetails_perm_of_whole hperm fun d hd => whole_of_mem_closings ne (hperm.mem_iff.mp hd)

/-- An entry without an evaluation closes the catch-all gate last, in every order. -/
theorem absent_of_missing (ne : missing i ≠ []) :
    (evaluationGates (i.reordered evaluations)).gates .technicalSetupAbsent =
      (evaluationGates i).gates .technicalSetupAbsent := by
  have listed := missing_perm perm
  have ne' : missing (i.reordered evaluations) ≠ [] := fun h => ne (listed.symm.trans h)
  have same : missingDetail (i.reordered evaluations) = missingDetail i := by
    unfold missingDetail
    rw [listed]
  have full := missingDetail_ne i
  rw [gates_of_missing ne', gates_of_missing ne, same]
  -- the text of the detail is of no interest from here on
  generalize missingDetail i = last at full
  rw [close_self, close_self]
  refine Gate.ext rfl ?_
  show addDetail (loopGates (i.reordered evaluations) .technicalSetupAbsent).detail last =
    addDetail (loopGates i .technicalSetupAbsent).detail last
  rw [loopGates, loopGates, closeAll_detail, closeAll_detail, ← addDetails_concat,
    ← addDetails_concat]
  exact addDetails_perm_init (detailsAt_perm perm _) full

end

/-! ## The detail of the catch-all gate -/

/-- The detail when `last` is closed after all the others. -/
def lastDetail (details : List String) (last : String) : String :=
  joinOn ';' (sortedOnce ((details.erase last).flatMap (pieces ';') ++ [last]))

/-- Whichever evaluation comes last, the catch-all gate reads the same. -/
def OneReading (i : Inputs) : Prop :=
  missing i ≠ [] ∨ ∀ x ∈ absentDetails i, ∀ y ∈ absentDetails i,
    lastDetail (absentDetails i) x = lastDetail (absentDetails i) y

instance (i : Inputs) : Decidable (OneReading i) := by
  unfold OneReading
  infer_instance

/-- A detail without a separator reads the same wherever it comes. -/
theorem oneReading_of_whole {i : Inputs} (whole : ∀ d ∈ absentDetails i, Whole d) :
    OneReading i := by
  have joined : ∀ x ∈ absentDetails i, lastDetail (absentDetails i) x =
      joinOn ';' (sortedOnce (absentDetails i)) := by
    intro x hx
    unfold lastDetail
    rw [flatMap_pieces_of_whole fun d hd => whole d (List.mem_of_mem_erase hd)]
    congr 1
    refine sortedOnce_congr fun piece => ?_
    have split := List.perm_cons_erase hx
    rw [List.mem_append, split.mem_iff, List.mem_singleton, List.mem_cons]
    exact or_comm
  exact Or.inr fun x hx y hy => (joined x hx).trans (joined y hy).symm

section
variable {i : Inputs} {evaluations : List Evaluation}

theorem addDetails_eq_lastDetail {details init : List String} {last : String}
    (perm : (init ++ [last]).Perm details) (full : last ≠ "") :
    addDetails "" (init ++ [last]) = lastDetail details last := by
  have hinit : init.Perm (details.erase last) := by
    have := (List.perm_append_singleton last init).symm.trans perm
    have := this.erase last
    rwa [List.erase_cons_head] at this
  rw [addDetails_last init full, lastDetail]
  congr 1
  refine sortedOnce_congr fun piece => ?_
  rw [pieces_empty, List.nil_append, List.mem_append, List.mem_append,
    (hinit.flatMap_right (pieces ';')).mem_iff]

/-- The detail of the catch-all gate when every entry has an evaluation. -/
theorem absent_detail (none : missing i = []) :
    ((evaluationGates i).gates .technicalSetupAbsent).detail =
      addDetails "" (absentDetails i) := by
  rw [gates_of_evaluated none, loopGates, closeAll_detail, entryGates, closeIf_of_ne (by decide)]
  rfl

/-- With one reading, no order changes the catch-all gate. -/
theorem absent_of_oneReading (perm : evaluations.Perm i.evaluations) (one : OneReading i) :
    (evaluationGates (i.reordered evaluations)).gates .technicalSetupAbsent =
      (evaluationGates i).gates .technicalSetupAbsent := by
  by_cases ne : missing i = []
  swap
  · exact absent_of_missing perm ne
  have same := one.resolve_left (by simp [ne])
  have hperm := detailsAt_perm perm .technicalSetupAbsent
  have ne' : missing (i.reordered evaluations) = [] := by rw [missing_perm perm, ne]
  refine Gate.ext ?_ ?_
  · rw [gates_of_evaluated ne', gates_of_evaluated ne]
    exact closed_perm perm _
  · rw [absent_detail ne', absent_detail ne]
    show addDetails "" (detailsAt _ _) = addDetails "" (detailsAt _ _)
    have full : ∀ d ∈ absentDetails i, d ≠ "" := fun d hd => full_of_mem_closings hd
    rcases (absentDetails i).eq_nil_or_concat with hnil | ⟨init, last, hxs⟩
    · have : detailsAt .technicalSetupAbsent (closings i) = [] := hnil
      rw [this] at hperm ⊢
      rw [List.perm_nil.mp hperm]
    rcases (absentDetails (i.reordered evaluations)).eq_nil_or_concat with hnil | ⟨init', last', hys⟩
    · have : detailsAt .technicalSetupAbsent (closings (i.reordered evaluations)) = [] := hnil
      rw [this] at hperm ⊢
      rw [List.nil_perm.mp hperm]
    rw [List.concat_eq_append] at hxs hys
    have hlast : last ∈ absentDetails i := by rw [hxs]; simp
    have hlast' : last' ∈ absentDetails i :=
      hperm.mem_iff.mp (show last' ∈ absentDetails (i.reordered evaluations) by rw [hys]; simp)
    calc addDetails "" (absentDetails (i.reordered evaluations))
        = lastDetail (absentDetails i) last' := by
          rw [hys]
          exact addDetails_eq_lastDetail (hys ▸ hperm) (full _ hlast')
      _ = lastDetail (absentDetails i) last := same last' hlast' last hlast
      _ = addDetails "" (absentDetails i) := by
          conv_rhs => rw [hxs]
          exact (addDetails_eq_lastDetail (hxs ▸ List.Perm.refl _) (full _ hlast)).symm

end

/-! ## The rest of the assessment -/

section
variable {digests : Digests} {i : Inputs} {t t' : Triage}

/-- Lists that are not singletons have no only setup and no candidate. -/
theorem perm_cases {xs ys : List Attributed} (perm : xs.Perm ys) :
    xs = ys ∨ 2 ≤ xs.length ∧ 2 ≤ ys.length := by
  by_cases two : 2 ≤ xs.length
  · exact Or.inr ⟨two, perm.length_eq ▸ two⟩
  · left
    rcases xs with _ | ⟨x, _ | ⟨x', xs⟩⟩
    · exact (List.nil_perm.mp perm).symm
    · exact (List.perm_singleton.mp perm.symm).symm
    · simp at two

theorem onlySetup_of_two {xs : List Attributed} (two : 2 ≤ xs.length) : onlySetup xs = none := by
  rcases xs with _ | ⟨x, _ | ⟨x', xs⟩⟩
  · rfl
  · simp at two
  · rfl

theorem candidate_of_two {xs : List Attributed} (two : 2 ≤ xs.length) (gates : Gates) :
    candidate digests i xs gates = none := by
  rcases xs with _ | ⟨x, _ | ⟨x', xs⟩⟩
  · simp at two
  · simp at two
  · unfold candidate
    cases primary gates <;> rfl

theorem onlySetup_perm {xs ys : List Attributed} (perm : xs.Perm ys) :
    onlySetup xs = onlySetup ys := by
  rcases perm_cases perm with rfl | ⟨two, two'⟩
  · rfl
  · rw [onlySetup_of_two two, onlySetup_of_two two']

theorem candidate_perm {xs ys : List Attributed} (perm : xs.Perm ys) (gates : Gates) :
    candidate digests i xs gates = candidate digests i ys gates := by
  rcases perm_cases perm with rfl | ⟨two, two'⟩
  · rfl
  · rw [candidate_of_two two, candidate_of_two two']

theorem triggerSides_perm {xs ys : List Attributed} {us vs : List Unavailable}
    (setups : xs.Perm ys) (triggers : us.Perm vs) : triggerSides xs us = triggerSides ys vs := by
  have identities : ∀ direction, identitiesOf direction xs = identitiesOf direction ys :=
    fun direction => sorted_perm ((setups.filter _).map _)
  have at_ : ∀ gates, triggersAt gates us = triggersAt gates vs := by
    intro gates
    refine sortedBy_perm ((triggers.filter _).map _) fun a _ b _ same => ?_
    obtain ⟨identity, reason⟩ := Prod.mk.inj (toLex.injective same)
    cases a
    cases b
    simp_all
  simp only [triggerSides, identities, at_]

/-- **The assessment** is a function of the gates and of what was collected, in whatever order. -/
theorem conclude_perm (gates : t.gates = t'.gates) (setups : t.attributed.Perm t'.attributed)
    (triggers : t.unavailable.Perm t'.unavailable) :
    conclude digests i t = conclude digests i t' := by
  have m15 : (m15Setups t.attributed).Perm (m15Setups t'.attributed) := setups.filter _
  have only := onlySetup_perm m15
  have required : requiredIds t.attributed = requiredIds t'.attributed :=
    sortedOnce_congr fun id => (setups.flatMap_right _).mem_iff
  have envelope : ∀ market event, envelopeGates i t.attributed market event t.gates =
      envelopeGates i t'.attributed market event t'.gates := by
    intro market event
    have shape : ∀ gates, setupGates gates t.attributed (m15Setups t.attributed) =
        setupGates gates t'.attributed (m15Setups t'.attributed) := by
      intro gates
      rw [setupGates, setupGates, m15.length_eq, setups.length_eq]
    rw [envelopeGates, envelopeGates, gates, shape, only, required]
  have output : ∀ market gates figures, assessmentOutput i t market gates figures =
      assessmentOutput i t' market gates figures := by
    intro market gates figures
    simp only [assessmentOutput, only, triggerSides_perm setups triggers]
  unfold conclude
  simp only [envelope, output, only, m15.length_eq, candidate_perm m15]

end

end TradeRecommender.Assessments
