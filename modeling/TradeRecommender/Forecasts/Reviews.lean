import TradeRecommender.Lib.Civil
import TradeRecommender.Lib.Python
import TradeRecommender.Lib.Window

/-!
# Deterministic reviews

`forecasts/reviews.py` and `_current_reviews` of `forecasts/interpretations.py`: the reviews of the
members of a cohort, each superseding another or none.

1. projections and reviews;
2. building a cohort, reassessing it, and reading the reviews in force.

`_projections` is a parameter, of all facts that have arrived, a member and a time.
-/

namespace TradeRecommender.Forecasts.Reviews

open Civil (Instant)
open Py

/-! ## Reviews -/

/-- `DeterministicReview.Kind` -/
inductive Kind
  | thesis | execution | reconciliation
  deriving DecidableEq

/-- `DeterministicReview.Coverage` -/
inductive Coverage
  | complete | notApplicable | missing
  deriving DecidableEq

/-- A projection, with its facts and its source lineage as the content. -/
structure Projection (V : Type) where
  kind : Kind
  coverage : Coverage
  content : V

/-- What `_projections` returns: one of each kind, in this order. -/
structure Projections (V : Type) where
  thesis : Coverage × V
  execution : Coverage × V
  reconciliation : Coverage × V

/-- The projections in turn. -/
def Projections.each {V : Type} (p : Projections V) : List (Projection V) :=
  [⟨.thesis, p.thesis.1, p.thesis.2⟩, ⟨.execution, p.execution.1, p.execution.2⟩,
    ⟨.reconciliation, p.reconciliation.1, p.reconciliation.2⟩]

/-- `DeterministicReview` -/
structure Review (V K : Type) where
  id : ℕ
  member : ℕ
  kind : Kind
  supersedes : Option ℕ
  inputSha256 : K
  coverage : Coverage
  content : V
  assessedAt : Instant

/-- The reviews, and the least number their sequence has not given out. -/
structure ReviewTable (V K : Type) where
  rows : List (Review V K) := []
  nextId : ℕ := 1

/-- `ReviewCohort` with its members. -/
structure Cohort where
  cutoffAt : Instant
  members : List ℕ

section
variable {V K : Type}

/-- `member.reviews.filter(kind=kind)` -/
def ReviewTable.of (t : ReviewTable V K) (member : ℕ) (kind : Kind) : List (Review V K) :=
  t.rows.filter fun review => review.member = member ∧ review.kind = kind

/-- Earlier by `assessed_at` and then by `id`. -/
def Review.earlier (a b : Review V K) : Bool :=
  decide (a.assessedAt < b.assessedAt) ||
    decide (a.assessedAt = b.assessedAt) && decide (a.id < b.id)

/-- `.first()`, where reviews are ordered by `-assessed_at, -id` -/
def newest (reviews : List (Review V K)) : Option (Review V K) :=
  Window.firstMax Review.earlier reviews

/-! ## Operations -/

section
variable [DecidableEq K] (digest : Projection V → K)

/-- The row a new projection of a member becomes, after the latest of its kind. -/
def newReview (latest : Option (Review V K)) (member : ℕ) (projection : Projection V)
    (assessedAt : Instant) (id : ℕ) : Review V K where
  id := id
  member := member
  kind := projection.kind
  supersedes := latest.map Review.id
  inputSha256 := digest projection
  coverage := projection.coverage
  content := projection.content
  assessedAt := assessedAt

/-- `_create_or_reuse_review` -/
def createOrReuseReview (t : ReviewTable V K) (member : ℕ) (projection : Projection V)
    (assessedAt : Instant) : Review V K × Bool × ReviewTable V K :=
  match (t.of member projection.kind).find? fun review =>
      review.inputSha256 = digest projection with
  | some existing => (existing, false, t)
  | none =>
    let latest := newest (t.of member projection.kind)
    let review := newReview digest latest member projection assessedAt t.nextId
    (review, true, { rows := t.rows ++ [review], nextId := t.nextId + 1 })

/-- The loop over members and their projections, with the reviews it creates. -/
def assessAll (assessedAt : Instant) :
    List (ℕ × Projection V) → ReviewTable V K → List (Review V K) × ReviewTable V K
  | [], t => ([], t)
  | (member, projection) :: rest, t =>
    let (review, wasCreated, t) := createOrReuseReview digest t member projection assessedAt
    let (created, t) := assessAll assessedAt rest t
    (if wasCreated then review :: created else created, t)

end

/-- The projections of the members that have them. -/
def projectionsOf (read : ℕ → Option (Projections V)) (members : List ℕ) :
    List (ℕ × Projection V) :=
  members.flatMap fun member =>
    match read member with
    | none => []
    | some values => values.each.map fun projection => (member, projection)

section
variable {F : Type} [DecidableEq K] (digest : Projection V → K)
  (read : F → Instant → ℕ → Option (Projections V))

/-- `build_due_review_cohort` for candidates that are in no cohort yet. -/
def buildDueReviewCohort (facts : F) (cutoffAt : Instant) (candidates : List ℕ) :
    Option (Cohort × ReviewTable V K) :=
  let members := candidates.filter fun member => (read facts cutoffAt member).isSome
  if members = [] then none
  else
    let (_, t) := assessAll digest cutoffAt (projectionsOf (read facts cutoffAt) members) {}
    some ({ cutoffAt := cutoffAt, members := members }, t)

/-- A call of `reassess_review_cohort`, with the facts that have arrived by then and how many
numbers of the sequence have gone elsewhere. -/
structure Correction (F : Type) where
  asOf : Instant
  facts : F
  skipped : ℕ := 0

/-- The table a correction finds. -/
def Correction.opens (c : Correction F) (t : ReviewTable V K) : ReviewTable V K :=
  { t with nextId := t.nextId + c.skipped }

/-- `reassess_review_cohort` -/
def reassessReviewCohort (cohort : Cohort) (t : ReviewTable V K) (c : Correction F) :
    Except Exc (List (Review V K) × ReviewTable V K) :=
  if c.asOf ≤ cohort.cutoffAt then
    raise .validationError "A correction assessment must occur after the frozen cutoff"
  else
    .ok (assessAll digest c.asOf (projectionsOf (read c.facts c.asOf) cohort.members) (c.opens t))

/-- What a correction leaves behind. -/
def correct (cohort : Cohort) (t : ReviewTable V K) (c : Correction F) : ReviewTable V K :=
  match reassessReviewCohort digest read cohort t c with
  | .ok (_, t) => t
  | .error _ => t

/-- What corrections leave behind, one by one. -/
def correctAll (cohort : Cohort) (t : ReviewTable V K) (corrections : List (Correction F)) :
    ReviewTable V K :=
  corrections.foldl (correct digest read cohort) t

end

/-- The reviews in force, one of each kind. -/
structure CurrentReviews (V K : Type) where
  thesis : Review V K
  execution : Review V K
  reconciliation : Review V K

/-- The review of a kind. -/
def CurrentReviews.of (current : CurrentReviews V K) : Kind → Review V K
  | .thesis => current.thesis
  | .execution => current.execution
  | .reconciliation => current.reconciliation

/-- `_current_reviews` -/
def currentReviews (t : ReviewTable V K) (member : ℕ) : Except Exc (CurrentReviews V K) :=
  match newest (t.of member .thesis), newest (t.of member .execution),
    newest (t.of member .reconciliation) with
  | some thesis, some execution, some reconciliation => .ok ⟨thesis, execution, reconciliation⟩
  | _, _, _ => raise .validationError "All deterministic review dimensions must exist first"

end

end TradeRecommender.Forecasts.Reviews
