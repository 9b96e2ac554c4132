import TradeRecommender.Lib.Calls
import TradeRecommender.Lib.IsoFormat
import TradeRecommender.Lib.Sorted

/-!
# The checkpoint catalog

Checkpoints of a registered population are rows of an append-only table, one for each UTC day.  A
row is admitted where it is what replay derives from the chain before it; what replay derived is kept
as proofs in the memory of a catalog.

1. registrations, checkpoints and proofs;
2. replay and verification of a chain;
3. admission, and the calls that write;
4. catalogs opened on one file, and runs of calls.

Row contents are of any type; `Library` holds what computes and digests them.
-/

namespace TradeRecommender.Validation

open Py Civil

/-! ## Registrations, checkpoints and proofs -/

/-- `STRATEGIES` -/
def strategies : List String :=
  ["ewmac-d-v1", "breakout-d-v1", "fast-mr-h1-v1", "pullback-m15-v1", "pullback-h1-v1",
    "range-m15-v1", "phase5-sweep-reversal-v1", "phase5-acceptance-continuation-v1",
    "carry-readiness-v1", "macro-risk-v1", "fixed-risk-v1", "ewma-risk-v1", "garch-t-risk-v1",
    "orb-m15-wick-v1:london", "orb-m15-wick-v1:new_york", "orb-m15-confirmed-v1:london",
    "orb-m15-confirmed-v1:new_york", "orb-m15-fvg-v1:london", "orb-m15-fvg-v1:new_york"]

/-- `OVERLAYS` -/
def overlays : List String := ["fixed-risk-v1", "ewma-risk-v1", "garch-t-risk-v1", "macro-risk-v1"]

/-- `canonical_pairs` -/
def canonicalPairs : List String :=
  ["EUR_USD", "GBP_USD", "EUR_GBP", "USD_CAD", "USD_JPY", "AUD_USD", "USD_CHF", "NZD_USD",
    "EUR_JPY", "GBP_JPY", "AUD_JPY", "AUD_CAD"]

/-- `DEVELOPMENT` -/
def development : String × String := ("2019-01-07T00:00:00+00:00", "2025-01-06T00:00:00+00:00")

/-- A registration's body; `provenance` is the canonical text of its other fields (audit, manifest,
runner sources, runtime, costs), which no function below takes apart. -/
structure Registration where
  strategies : List String
  instruments : List String
  development : String × String
  provenance : String
  deriving DecidableEq

/-- `contract`, in a process of this provenance. -/
def contract (provenance : String) : Registration :=
  ⟨strategies, canonicalPairs, development, provenance⟩

/-- A checkpoint's key.  (A dict of other names is refused by the first line of
`replay_checkpoint`.) -/
structure Key (δ : Type) where
  registration : δ
  strategy : String
  instrument : String
  start : String
  end_ : String
  deriving DecidableEq

/-- The active exits, one for each of `SCENARIOS`. -/
structure EndState where
  baseline : Option String
  adverseCost : Option String
  extraIntervalLatency : Option String
  deriving DecidableEq

/-- `{s: None for s in scenarios}` -/
def noExits : EndState := ⟨none, none, none⟩

/-- A checkpoint's body. -/
structure Body (δ ρ : Type) where
  registration : δ
  key : Key δ
  rows : List ρ
  endState : EndState
  predecessor : Option δ
  deriving DecidableEq

/-- A row of `checkpoint`. -/
structure Stored (δ ρ : Type) where
  identity : δ
  registrationId : δ
  body : Body δ ρ
  bodySha256 : δ

/-- A value of `_proofs`. -/
structure Proof (δ : Type) where
  predecessor : Option δ
  digest : δ
  state : EndState

/-- What the catalog calls: `identity_digest` at its three uses, `data_for` with `day_rows` over the
acquisition cache, and the conditions of `_admit_checkpoint` on a body's rows and end state. -/
structure Library (δ ρ : Type) where
  keyDigest : Key δ → δ
  bodyDigest : Body δ ρ → δ
  registrationDigest : Registration → δ
  dayRows : Registration → String → String → Instant → EndState →
    Except Exc (List ρ × EndState)
  closedRows : Registration → Body δ ρ → Bool

/-- Digests tell their inputs apart. -/
structure Library.CollisionFree {δ ρ : Type} (L : Library δ ρ) : Prop where
  key : Function.Injective L.keyDigest
  body : Function.Injective L.bodyDigest
  registration : Function.Injective L.registrationDigest

/-- What a catalog reads and writes: the two tables of its file, and the memory of its process. -/
structure Catalog (δ ρ : Type) where
  registrations : List (δ × Registration)
  checkpoints : List (Stored δ ρ)
  provenance : String
  proofs : δ → Option (Proof δ)

section
variable {δ ρ : Type} [DecidableEq δ]

/-- `self._proofs[identity] = proof` -/
def Catalog.prove (s : Catalog δ ρ) (identity : δ) (proof : Proof δ) : Catalog δ ρ :=
  { s with proofs := Function.update s.proofs identity (some proof) }

/-- A row at the end of `checkpoint`. -/
def Catalog.insert (s : Catalog δ ρ) (row : Stored δ ρ) : Catalog δ ρ :=
  { s with checkpoints := s.checkpoints ++ [row] }

/-- The row `_write_replayed` inserts. -/
def Stored.of (L : Library δ ρ) (body : Body δ ρ) : Stored δ ρ :=
  ⟨L.keyDigest body.key, body.key.registration, body, L.bodyDigest body⟩

/-- The condition of `verify_chain`'s queries on the population. -/
def Stored.ofPopulation (registration : δ) (strategy instrument : String) (row : Stored δ ρ) :
    Bool :=
  row.registrationId = registration && row.body.key.strategy = strategy &&
    row.body.key.instrument = instrument

end

/-! ## Replay and verification -/

section
variable {δ ρ : Type} [DecidableEq δ] [DecidableEq ρ] (L : Library δ ρ)

/-- An instant, where the datetime has an offset to compare by. -/
def aware (stamp : Stamp) : Except Exc Instant :=
  match stamp.offset with
  | some offset => .ok (stamp.wall - offset)
  | none => raise .typeError "can't compare offset-naive and offset-aware datetimes"

/-- `map(datetime.fromisoformat, registration["development"])` -/
def period (registration : Registration) : Except Exc (Instant × Instant) := do
  let a ← fromisoformat registration.development.1
  let b ← fromisoformat registration.development.2
  let a ← aware a
  let b ← aware b
  return (a, b)

/-- `load` -/
def load (identity : δ) : Call (Catalog δ ρ) Registration := do
  let table ← Call.read Catalog.registrations
  let provenance ← Call.read Catalog.provenance
  match table.lookup identity with
  | none => Call.ofExcept (raise .valueError "registration_missing_or_corrupt")
  | some body =>
    Call.refuseIf (L.registrationDigest body ≠ identity) .valueError
      "registration_missing_or_corrupt"
    Call.refuseIf (body ≠ contract provenance) .valueError "validation_registration_drift"
    return body

/-- The population and period conditions of `replay_checkpoint`. -/
def outsidePeriod (key : Key δ) (registration : Registration) (start end_ : Stamp)
    (a b : Instant) : Prop :=
  key.registration ≠ L.registrationDigest registration ∨ key.strategy ∉ registration.strategies ∨
    key.strategy ∈ overlays ∨ key.instrument ∉ registration.instruments ∨
    start.offset ≠ some 0 ∨ end_.offset ≠ some 0 ∨ start.wall % day ≠ 0 ∨
    end_.wall - start.wall ≠ day ∨ ¬ (a ≤ start.wall ∧ start.wall < end_.wall ∧ end_.wall ≤ b)

instance (key : Key δ) (registration : Registration) (start end_ : Stamp) (a b : Instant) :
    Decidable (outsidePeriod L key registration start end_ a b) := by
  unfold outsidePeriod
  infer_instance

/-- The key of the day before. -/
def priorKey (key : Key δ) (start : Instant) : Key δ :=
  { key with start := isoformat (start - day), end_ := key.start }

/-- `valid_state`: the state a replay resumes from is the blank one on the first day, and else the
state a proof of the day before holds. -/
def validState (proofs : δ → Option (Proof δ)) (key : Key δ) (start a : Instant)
    (active : EndState) (predecessor : Option δ) : Bool :=
  if start = a then predecessor = none && active = noExits
  else
    match proofs (L.keyDigest (priorKey key start)) with
    | none => false
    | some proof => predecessor = some proof.digest && proof.state = active

/-- `replay_checkpoint` -/
def replayCheckpoint (key : Key δ) (registration : Registration) (active : EndState)
    (predecessor : Option δ) : Call (Catalog δ ρ) (Body δ ρ) := do
  let start ← Call.ofExcept (fromisoformat key.start)
  let end_ ← Call.ofExcept (fromisoformat key.end_)
  let span ← Call.ofExcept (period registration)
  Call.refuseIf (outsidePeriod L key registration start end_ span.1 span.2) .valueError
    "checkpoint_sealed_population_or_period"
  let proofs ← Call.read Catalog.proofs
  Call.refuseIf (validState L proofs key start.wall span.1 active predecessor = false) .valueError
    "resume_state_not_derived_from_verified_prefix"
  let day ← Call.ofExcept (L.dayRows registration key.strategy key.instrument start.wall active)
  let body : Body δ ρ := ⟨key.registration, key, day.1, day.2, predecessor⟩
  Call.write fun s => s.prove (L.keyDigest key) ⟨predecessor, L.bodyDigest body, day.2⟩
  return body

/-- The key `verify_chain` and `run` write for a day. -/
def dayKey (registration : δ) (strategy instrument : String) (start : Instant) : Key δ :=
  ⟨registration, strategy, instrument, isoformat start, isoformat (start + day)⟩

/-- The proof of a record: the one in memory where its predecessor is the chain's, else the one
replay makes. -/
def proofOf (row : Stored δ ρ) (key : Key δ) (registration : Registration) (active : EndState)
    (predecessor : Option δ) : Call (Catalog δ ρ) (Option (Proof δ)) := do
  let proofs ← Call.read Catalog.proofs
  match proofs row.identity with
  | some proof =>
    if proof.predecessor = predecessor then return some proof
    else
      let _ ← replayCheckpoint L key registration active predecessor
      Call.read fun s => s.proofs row.identity
  | none =>
    let _ ← replayCheckpoint L key registration active predecessor
    Call.read fun s => s.proofs row.identity

/-- The loop of `verify_chain` over its records. -/
def verifyRecords (registration : Registration) (identity : δ) (strategy instrument : String)
    (collect : Bool) : List (Stored δ ρ) → Instant → EndState → Option δ →
      Call (Catalog δ ρ) (List ρ × EndState × Option δ)
  | [], _, active, predecessor => return ([], active, predecessor)
  | row :: records, start, active, predecessor => do
    let key := dayKey identity strategy instrument start
    Call.refuseIf (L.keyDigest key ≠ row.identity ∨ row.body.key ≠ key ∨
      L.bodyDigest row.body ≠ row.bodySha256 ∨ row.body.predecessor ≠ predecessor) .valueError
      "checkpoint_chain_identity_or_ancestry"
    let proof ← proofOf L row key registration active predecessor
    match proof with
    | none => Call.ofExcept (raise .keyError "identity")
    | some proof =>
      Call.refuseIf (proof.digest ≠ row.bodySha256 ∨ row.body.endState ≠ proof.state) .valueError
        "checkpoint_semantic_replay_mismatch"
      let rest ← verifyRecords registration identity strategy instrument collect records
        (start + day) proof.state (some row.bodySha256)
      return (if collect then row.body.rows ++ rest.1 else rest.1, rest.2)

/-- The population and period conditions of `verify_chain`. -/
def outsideChain (registration : Registration) (strategy instrument : String) (stop : Stamp)
    (start end_ : Instant) : Prop :=
  strategy ∉ registration.strategies ∨ strategy ∈ overlays ∨
    instrument ∉ registration.instruments ∨ stop.offset ≠ some 0 ∨ stop.wall % day ≠ 0 ∨
    ¬ (start ≤ stop.wall ∧ stop.wall ≤ end_)

instance (registration : Registration) (strategy instrument : String) (stop : Stamp)
    (start end_ : Instant) :
    Decidable (outsideChain registration strategy instrument stop start end_) := by
  unfold outsideChain
  infer_instance

/-- `SELECT … WHERE … AND json_extract(body,'$.key.start')<? ORDER BY … LIMIT ?` -/
def selectRecords (population : List (Stored δ ρ)) (start stop : Instant) : List (Stored δ ρ) :=
  (sortedBy (fun row => row.body.key.start)
    (population.filter fun row => row.body.key.start < isoformat stop)).take
    ((stop - start) / day + 1).toNat

/-- `verify_chain` up to its loop: the registration, its first day and the records to walk. -/
def chainRecords (identity : δ) (strategy instrument : String) (stop : Option Stamp) :
    Call (Catalog δ ρ) (Registration × Instant × List (Stored δ ρ)) := do
  let registration ← load L identity
  let span ← Call.ofExcept (period registration)
  let stop := stop.getD ⟨span.2, some 0⟩
  Call.refuseIf (outsideChain registration strategy instrument stop span.1 span.2) .valueError
    "chain_sealed_population_or_period"
  let table ← Call.read Catalog.checkpoints
  let population := table.filter (Stored.ofPopulation identity strategy instrument)
  Call.refuseIf (stop.wall = span.2 ∧ (population.length : ℤ) ≠ (span.2 - span.1) / day) .valueError
    "complete_population_incomplete_or_extra_period"
  let records := selectRecords population span.1 stop.wall
  Call.refuseIf ((records.length : ℤ) ≠ (stop.wall - span.1) / day) .valueError
    "previous_checkpoint_required_chain_incomplete"
  return (registration, span.1, records)

/-- `verify_chain` -/
def verifyChain (identity : δ) (strategy instrument : String) (stop : Option Stamp)
    (collect : Bool) : Call (Catalog δ ρ) (List ρ × EndState × Option δ) := do
  let chain ← chainRecords L identity strategy instrument stop
  verifyRecords L chain.1 identity strategy instrument collect chain.2.2 chain.2.1 noExits none

/-! ## Admission and writing -/

/-- `except (ValueError, TypeError, KeyError, AttributeError, ArithmeticError)` -/
def refusals : List ExcClass :=
  [.valueError, .typeError, .keyError, .attributeError, .overflowError, .invalidOperation]

/-- The admission of an insertion whose digest is pending and proven. -/
def admitPending (table : List (Stored δ ρ)) (body : Body δ ρ) (proof : Proof δ)
    (start a : Instant) : Bool :=
  if proof.digest ≠ L.bodyDigest body ∨ proof.predecessor ≠ body.predecessor then false
  else if start = a then body.predecessor = none
  else
    match table.find? fun row => row.identity = L.keyDigest (priorKey body.key start) with
    | none => false
    | some prior =>
      L.bodyDigest prior.body = prior.bodySha256 && body.predecessor = some prior.bodySha256

/-- The admission of any other insertion: the chain before it is verified and its day replayed. -/
def admitRaw (body : Body δ ρ) (registration : Registration) (start : Stamp) :
    Call (Catalog δ ρ) Bool := do
  let _ ← load L body.key.registration
  let chain ← verifyChain L body.key.registration body.key.strategy body.key.instrument
    (some start) false
  let expected ← replayCheckpoint L body.key registration chain.2.1 chain.2.2
  return expected = body

/-- `_admit_checkpoint`, on a body and the registration its row names. -/
def admitCheckpoint (pending : Option δ) (body : Body δ ρ) (registration : Registration) :
    Call (Catalog δ ρ) Bool :=
  Call.orReturn (do
    let start ← Call.ofExcept (fromisoformat body.key.start)
    let end_ ← Call.ofExcept (fromisoformat body.key.end_)
    let span ← Call.ofExcept (period registration)
    if outsidePeriod L body.key registration start end_ span.1 span.2 ∨
        body.registration ≠ body.key.registration ∨ 2000 < body.rows.length ∨
        L.closedRows registration body = false then return false
    else
      let proofs ← Call.read Catalog.proofs
      match proofs (L.keyDigest body.key) with
      | none => admitRaw L body registration start
      | some proof =>
        if pending = some (L.bodyDigest body) then
          Call.read fun s => admitPending L s.checkpoints body proof start.wall span.1
        else admitRaw L body registration start)
    refusals false

/-- The trigger on insertions: `admit_checkpoint(NEW.body, registration)`, with the body's digest
pending. -/
def insertTrigger (body : Body δ ρ) : Call (Catalog δ ρ) Bool := do
  let registrations ← Call.read Catalog.registrations
  match registrations.lookup body.key.registration with
  | none => return false
  | some registration => admitCheckpoint L (some (L.bodyDigest body)) body registration

/-- `_write_replayed`: the trigger admits the row before `INSERT OR IGNORE` looks for its identity;
what an exception leaves of the transaction is rolled back, which is nothing. -/
def writeReplayed (body : Body δ ρ) : Call (Catalog δ ρ) δ := do
  let identity := L.keyDigest body.key
  let table ← Call.read Catalog.checkpoints
  let prior := table.find? fun row => row.identity = identity
  Call.refuseIf ((prior.any fun row => row.body ≠ body) = true) .valueError
    "checkpoint_retry_conflict"
  let admitted ← insertTrigger L body
  Call.refuseIf (admitted = false) .databaseError "checkpoint_admission"
  Call.write fun s => if prior.isSome then s else s.insert (Stored.of L body)
  return identity

/-- `checkpoint` -/
def checkpoint (key : Key δ) (rows : List ρ) (endState : EndState) (predecessor : Option δ) :
    Call (Catalog δ ρ) δ := do
  let body : Body δ ρ := ⟨key.registration, key, rows, endState, predecessor⟩
  Call.refuseIf (key.strategy ∉ strategies ∨ key.instrument ∉ canonicalPairs ∨
    2000 < rows.length) .valueError "checkpoint_population_or_bound"
  let registration ← load L key.registration
  let start ← Call.ofExcept (fromisoformat key.start)
  let chain ← verifyChain L key.registration key.strategy key.instrument (some start) false
  let expected ← replayCheckpoint L key registration chain.2.1 chain.2.2
  Call.refuseIf (expected ≠ body) .databaseError "checkpoint_semantic_replay_mismatch"
  writeReplayed L body

/-- `admit_period` -/
def admitPeriod (registration : Registration) (start end_ : Stamp) :
    Call (Catalog δ ρ) Unit := do
  let provenance ← Call.read Catalog.provenance
  Call.refuseIf (registration ≠ contract provenance) .valueError "validation_registration_drift"
  Call.refuseIf (start.offset ≠ some 0 ∨ end_.offset ≠ some 0 ∨ end_.wall ≤ start.wall) .valueError
    "validation_period_invalid"
  let span ← Call.ofExcept (period (contract provenance))
  Call.refuseIf (¬ (span.1 ≤ start.wall ∧ start.wall < end_.wall ∧ end_.wall ≤ span.2)) .valueError
    "sealed_or_unregistered_period"

/-- The loop of `run`, `days` days from `start`. -/
def runDays (registration : Registration) (identity : δ) (strategy instrument : String) :
    ℕ → Instant → EndState → Option δ → Call (Catalog δ ρ) (List δ)
  | 0, _, _, _ => return []
  | days + 1, start, active, predecessor => do
    let key := dayKey identity strategy instrument start
    let expected ← replayCheckpoint L key registration active predecessor
    let written ← writeReplayed L expected
    let rest ← runDays registration identity strategy instrument days (start + day)
      expected.endState (some (L.bodyDigest expected))
    return written :: rest

/-- The strategy a batch runs: the baseline of an overlay, else the strategy itself. -/
def pairedStrategy (strategy : String) (baseline : Option String) : Except Exc String :=
  if strategy ∈ overlays then
    match baseline with
    | none => raise .valueError "overlay_requires_paired_baseline"
    | some baseline =>
      if baseline ∉ strategies ∨ baseline ∈ overlays then
        raise .valueError "overlay_requires_paired_baseline"
      else .ok baseline
  else if baseline.isSome then raise .valueError "baseline_only_for_overlay"
  else .ok strategy

/-- `validation_batch.run` -/
def run (identity : δ) (strategy instrument : String) (start end_ : Stamp)
    (baseline : Option String) : Call (Catalog δ ρ) (List δ) := do
  let registration ← load L identity
  admitPeriod registration start end_
  Call.refuseIf (strategy ∉ strategies ∨ instrument ∉ registration.instruments) .valueError
    "unregistered_population"
  Call.refuseIf (start.wall % day ≠ 0 ∨ end_.wall % day ≠ 0 ∨
    32 * day < end_.wall - start.wall) .valueError "batch_requires_1_to_32_whole_UTC_days"
  let strategy ← Call.ofExcept (pairedStrategy strategy baseline)
  let chain ← verifyChain L identity strategy instrument (some start) false
  runDays L registration identity strategy instrument ((end_.wall - start.wall) / day).toNat
    start.wall chain.2.1 chain.2.2

/-! ## Catalogs on one file -/

variable (δ ρ) in
/-- The tables of the file, and the memory of each catalog opened on it. -/
structure World where
  registrations : List (δ × Registration)
  checkpoints : List (Stored δ ρ)
  provenance : ℕ → String
  proofs : ℕ → δ → Option (Proof δ)

variable (δ ρ) in
/-- A call on a catalog, or its restart as a new one in a process of some provenance. -/
inductive Op
  | run (catalog : ℕ) (identity : δ) (strategy instrument : String) (start end_ : Stamp)
      (baseline : Option String)
  | checkpoint (catalog : ℕ) (key : Key δ) (rows : List ρ) (endState : EndState)
      (predecessor : Option δ)
  | verifyChain (catalog : ℕ) (identity : δ) (strategy instrument : String) (stop : Option Stamp)
      (collect : Bool)
  | restart (catalog : ℕ) (provenance : String)

/-- A catalog's view of the world. -/
def World.catalog (w : World δ ρ) (c : ℕ) : Catalog δ ρ :=
  ⟨w.registrations, w.checkpoints, w.provenance c, w.proofs c⟩

/-- A call of a catalog writes to the file and to its own memory. -/
def World.call {α : Type} (w : World δ ρ) (c : ℕ) (x : Call (Catalog δ ρ) α) : World δ ρ :=
  let after := (x (w.catalog c)).2
  { w with checkpoints := after.checkpoints, proofs := Function.update w.proofs c after.proofs }

/-- One operation; what a call returns or raises is its caller's. -/
def step (w : World δ ρ) : Op δ ρ → World δ ρ
  | .run c identity strategy instrument start end_ baseline =>
    w.call c (run L identity strategy instrument start end_ baseline)
  | .checkpoint c key rows endState predecessor =>
    w.call c (checkpoint L key rows endState predecessor)
  | .verifyChain c identity strategy instrument stop collect =>
    w.call c (verifyChain L identity strategy instrument stop collect)
  | .restart c provenance =>
    { w with provenance := Function.update w.provenance c provenance,
             proofs := Function.update w.proofs c fun _ => none }

/-- A run of operations. -/
def exec (w : World δ ρ) (ops : List (Op δ ρ)) : World δ ρ := ops.foldl (step L) w

end

end TradeRecommender.Validation
