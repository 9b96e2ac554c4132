import Mathlib.Data.List.Nodup
import TradeRecommender.Operations.BackupRecords

/-!
# Finished attempts and their assessment

Attempts that finished one after the other, as the state files show them, have no verdict against
them.

1. finished attempts in the order of the clock, and the files that show them;
2. the assessment of such files.
-/

namespace TradeRecommender.Operations

open Py Civil

/-! ## Finished attempts -/

/-- An attempt that committed and published its terminal record. -/
structure Finished where
  attempt : Attempt
  success : Bool
  record : Record

/-- Finished attempts, the latest first: each began after the one before it ended. -/
structure Chronicle (done : List Finished) : Prop where
  lawful : ∀ x ∈ done, x.attempt.Lawful
  terminal : ∀ x ∈ done, Terminal x.attempt x.success x.record
  ordered : done.Pairwise fun newer older =>
    older.attempt.finishedAt < newer.attempt.attemptedAt
  distinct : (done.map fun x => x.attempt.attemptId).Nodup

/-- The latest success. -/
def latestSuccess (done : List Finished) : Option Finished := done.find? fun x => x.success

/-- The latest failure. -/
def latestFailure (done : List Finished) : Option Finished := done.find? fun x => !x.success

/-- The attempt in progress began after all others ended. -/
structure Current (a : Attempt) (done : List Finished) : Prop where
  lawful : a.Lawful
  after : ∀ x ∈ done, x.attempt.finishedAt < a.attemptedAt
  own : ∀ x ∈ done, x.attempt.attemptId ≠ a.attemptId

/-- The parsed files that show finished attempts and the one in progress. -/
def shown (done : List Finished) (current : Option Attempt) (marker : Option Instant) : BackupState :=
  ⟨done.head?.map Finished.record, (latestSuccess done).map Finished.record,
    (latestFailure done).map Finished.record, current.map progressRecord, marker⟩

section
variable {done : List Finished} {x y : Finished} {a : Attempt}

theorem lookup_self {record : Record} (keys : (record.map Prod.fst).Nodup)
    {entry : String × String} (h : entry ∈ record) : record.lookup entry.1 = some entry.2 := by
  induction record with
  | nil => cases h
  | cons first record ih =>
    rw [List.map_cons, List.nodup_cons] at keys
    rcases List.mem_cons.mp h with rfl | behind
    · exact List.lookup_cons_self
    · have differ : entry.1 ≠ first.1 := by
        intro same
        exact keys.1 (same ▸ List.mem_map_of_mem behind)
      obtain ⟨key, text⟩ := first
      rw [List.lookup_cons, beq_eq_false_iff_ne.mpr differ]
      exact ih keys.2 behind

theorem sameRecord_self {record : Record} (writable : Writable record) :
    sameRecord record record = true := by
  simp only [sameRecord, decide_true, Bool.true_and, List.all_eq_true, decide_eq_true_eq]
  exact fun entry h => lookup_self writable.keys h

theorem attemptId_ne_empty (lawful : a.Lawful) : a.attemptId ≠ "" := by
  intro empty
  have := (canonicalUuid_safe lawful.uuid).1
  rw [empty] at this
  cases this

/-- Identifiers tell attempts apart, and so do object keys. -/
theorem objectKey_ne {b : Attempt} (h : a.attemptId ≠ b.attemptId) :
    objectKey a ≠ objectKey b := by
  intro same
  have lists := congrArg String.toList same
  simp only [objectKey, String.toList_append, List.append_assoc] at lists
  exact h (String.toList_inj.mp (List.append_cancel_right (List.append_cancel_left lists)))

/-- Two finished attempts of one identifier are one. -/
theorem Chronicle.eq_of_id (chronicle : Chronicle done) (hx : x ∈ done) (hy : y ∈ done)
    (same : x.attempt.attemptId = y.attempt.attemptId) : x = y :=
  List.inj_on_of_nodup_map chronicle.distinct hx hy same

/-- `sameAttempt` of finished attempts compares their identifiers. -/
theorem Chronicle.sameAttempt_iff (chronicle : Chronicle done) (hx : x ∈ done) (hy : y ∈ done) :
    sameAttempt x.record y.record = true ↔ x = y := by
  have hid := (chronicle.terminal x hx).id
  have nonempty := attemptId_ne_empty (chronicle.lawful x hx)
  rw [sameAttempt, hid, (chronicle.terminal y hy).id, Bool.and_eq_true, decide_eq_true_eq,
    decide_eq_true_eq]
  constructor
  · exact fun h => chronicle.eq_of_id hx hy h.2
  · rintro rfl
    exact ⟨nonempty, rfl⟩

theorem mem_latestSuccess (h : latestSuccess done = some x) : x ∈ done ∧ x.success = true :=
  ⟨List.mem_of_find?_eq_some h, List.find?_some h⟩

theorem mem_latestFailure (h : latestFailure done = some x) : x ∈ done ∧ x.success = false := by
  refine ⟨List.mem_of_find?_eq_some h, ?_⟩
  have := List.find?_some h
  simpa using this

end

/-! ## The assessment of finished attempts -/

section
variable {done : List Finished} {x y : Finished} {a : Attempt} {now : Instant}

theorem Chronicle.older (chronicle : Chronicle (x :: done)) (h : y ∈ done) :
    y.attempt.finishedAt < x.attempt.attemptedAt :=
  (List.pairwise_cons.mp chronicle.ordered).1 y h

theorem Chronicle.attempted (chronicle : Chronicle done) (h : x ∈ done) :
    parseTimestamp (x.record.get "attempted_at") = some x.attempt.attemptedAt :=
  (chronicle.terminal x h).attempted

/-- The latest success is the last attempt, or the last attempt failed. -/
theorem latestSuccess_cons (h : x.success = true) : latestSuccess (x :: done) = some x := by
  rw [latestSuccess, List.find?_cons_of_pos h]

theorem latestFailure_cons (h : x.success = false) : latestFailure (x :: done) = some x := by
  rw [latestFailure, List.find?_cons_of_pos (by rw [h]; rfl)]

theorem earlier_eq_false {s t : Instant} (h : t ≤ s) : earlier (some s) (some t) = false := by
  rw [earlier, decide_eq_false_iff_not, not_lt]
  exact h

theorem Terminal.outcome_success {record : Record} (terminal : Terminal a true record) :
    record.get "outcome" = "success" := terminal.outcome

theorem Terminal.outcome_failure {record : Record} (terminal : Terminal a false record) :
    record.get "outcome" = "failure" := terminal.outcome

/-- The latest published success agrees with the last attempt. -/
theorem Chronicle.successProblem (chronicle : Chronicle (x :: done)) :
    successProblem (some x.record) ((latestSuccess (x :: done)).map Finished.record) = none := by
  have terminal := chronicle.terminal x List.mem_cons_self
  cases success : x.success with
  | true =>
    rw [latestSuccess_cons success, Option.map_some, Operations.successProblem,
      if_pos ((chronicle.sameAttempt_iff List.mem_cons_self List.mem_cons_self).mpr rfl),
      if_pos (sameRecord_self terminal.writable)]
  | false =>
    rw [success] at terminal
    have failed := terminal.outcome_failure
    cases latest : latestSuccess (x :: done) with
    | none =>
      rw [Option.map_none, Operations.successProblem, failed, if_neg (by decide)]
    | some y =>
      obtain ⟨hy, succeeded⟩ := mem_latestSuccess latest
      have differ : y ≠ x := by
        rintro rfl
        rw [success] at succeeded
        cases succeeded
      have older := chronicle.older ((List.mem_cons.mp hy).resolve_left differ)
      have completed := (chronicle.terminal y hy).finished
      rw [succeeded, if_pos rfl] at completed
      rw [Option.map_some, Operations.successProblem,
        if_neg (by rw [chronicle.sameAttempt_iff hy List.mem_cons_self]; exact differ), if_neg]
      rw [failed, terminal.attempted, completed, earlier_eq_false older.le]
      decide

/-- The latest failure agrees with the last attempt. -/
theorem Chronicle.failureProblem (chronicle : Chronicle (x :: done)) :
    failureProblem (some x.record) ((latestFailure (x :: done)).map Finished.record) = none := by
  have terminal := chronicle.terminal x List.mem_cons_self
  cases latest : latestFailure (x :: done) with
  | none => rw [Option.map_none, Operations.failureProblem]
  | some y =>
    obtain ⟨hy, failed⟩ := mem_latestFailure latest
    rw [Option.map_some, Operations.failureProblem]
    by_cases same : y = x
    · subst same
      rw [if_pos ((chronicle.sameAttempt_iff hy hy).mpr rfl),
        if_pos (sameRecord_self terminal.writable)]
    · have older := chronicle.older ((List.mem_cons.mp hy).resolve_left same)
      have finished := (chronicle.terminal y hy).finished
      rw [failed, if_neg (by decide)] at finished
      rw [if_neg (by rw [chronicle.sameAttempt_iff hy List.mem_cons_self]; exact same), if_neg]
      rw [terminal.attempted, finished, earlier_eq_false older.le]
      decide

/-- A failed attempt published its failure. -/
theorem Chronicle.missingFailure (chronicle : Chronicle (x :: done)) :
    missingFailure (some x.record) ((latestFailure (x :: done)).map Finished.record) = none := by
  have terminal := chronicle.terminal x List.mem_cons_self
  have self := (chronicle.sameAttempt_iff List.mem_cons_self List.mem_cons_self).mpr
    (rfl : x = x)
  rw [Operations.missingFailure, if_neg]
  rintro ⟨failed, absent⟩
  cases success : x.success with
  | true =>
    rw [success] at terminal
    rw [terminal.outcome_success] at failed
    exact absurd failed (by decide)
  | false =>
    rw [latestFailure_cons success, Option.map_some, Option.any_some, self] at absent
    cases absent

/-- A record with an attempt's own identifier and object key. -/
structure Identified (record : Record) (a : Attempt) : Prop where
  id : record.get "attempt_id" = a.attemptId
  key : record.get "object_key" = objectKey a
  nonempty : a.attemptId ≠ ""

theorem Chronicle.identified (chronicle : Chronicle done) (h : x ∈ done) :
    Identified x.record x.attempt :=
  ⟨(chronicle.terminal x h).id, (chronicle.terminal x h).key,
    attemptId_ne_empty (chronicle.lawful x h)⟩

theorem identified_progress (lawful : a.Lawful) : Identified (progressRecord a) a := by
  refine ⟨?_, ?_, attemptId_ne_empty lawful⟩
  · simp [progressRecord, identityOf, Record.get]
  · simp [progressRecord, identityOf, Record.get, List.lookup_cons, objectKey]

theorem Identified.apart {first second : Record} {b : Attempt} (hf : Identified first a)
    (hs : Identified second b) :
    sameAttempt first second = true ∨ first.get "object_key" ≠ second.get "object_key" := by
  by_cases same : a.attemptId = b.attemptId
  · left
    rw [sameAttempt, hf.id, hs.id, ← same]
    simp [hf.nonempty]
  · right
    rw [hf.key, hs.key]
    exact objectKey_ne same

theorem keyProblem_of_identified {records : List Record}
    (identified : ∀ record ∈ records, ∃ a, Identified record a) : keyProblem records = none := by
  rw [keyProblem, if_pos]
  refine List.pairwise_of_forall_mem_list fun first hf second hs => ?_
  obtain ⟨a, ha⟩ := identified first hf
  obtain ⟨b, hb⟩ := identified second hs
  exact ha.apart hb

/-- The attempt in progress is none that finished. -/
theorem Current.not_sameAttempt (current : Current a done) (chronicle : Chronicle done)
    (h : x ∈ done) : sameAttempt (progressRecord a) x.record = false ∧
      sameAttempt x.record (progressRecord a) = false := by
  have own := current.own x h
  rw [sameAttempt, sameAttempt, (identified_progress current.lawful).id,
    (chronicle.terminal x h).id]
  simp [own, own.symm]

/-- No record that is shown has a problem of its own. -/
theorem Chronicle.firstProblem (chronicle : Chronicle done) {current : Option Attempt}
    {marker : Option Instant} (ended : ∀ x ∈ done, x.attempt.finishedAt ≤ now)
    (inProgress : ∀ a, current = some a → Current a done ∧ a.attemptedAt ≤ now) :
    firstProblem (shown done current marker) now = none := by
  have success : (((latestSuccess done).map Finished.record).bind
      (recordProblem · .success now)) = none := by
    cases latest : latestSuccess done with
    | none => rfl
    | some x =>
      obtain ⟨hx, succeeded⟩ := mem_latestSuccess latest
      exact (chronicle.terminal x hx).sound now (ended x hx) .success (.inr (by rw [succeeded]; rfl))
  have attempt : ((done.head?.map Finished.record).bind (recordProblem · .attempt now)) = none := by
    cases done with
    | nil => rfl
    | cons x done =>
      exact (chronicle.terminal x List.mem_cons_self).sound now (ended x List.mem_cons_self)
        .attempt (.inl rfl)
  have failure : (((latestFailure done).map Finished.record).bind
      (recordProblem · .failure now)) = none := by
    cases latest : latestFailure done with
    | none => rfl
    | some x =>
      obtain ⟨hx, failed⟩ := mem_latestFailure latest
      exact (chronicle.terminal x hx).sound now (ended x hx) .failure (.inr (by rw [failed]; rfl))
  have progress : ((current.map progressRecord).bind (recordProblem · .progress now)) = none := by
    cases current with
    | none => rfl
    | some a =>
      obtain ⟨own, started⟩ := inProgress a rfl
      rw [Option.map_some, Option.bind_some]
      exact recordProblem_progress own.lawful started
  rw [Operations.firstProblem]
  simp only [shown, success, attempt, failure, progress, Option.map_none, Option.none_or]

/-- The attempt in progress is not the one published. -/
theorem Chronicle.successIsUncommitted (chronicle : Chronicle done) {current : Option Attempt}
    {marker : Option Instant} (inProgress : ∀ a, current = some a → Current a done) :
    successIsUncommitted (shown done current marker) = false := by
  rw [Operations.successIsUncommitted]
  cases latest : latestSuccess done with
  | none => simp only [shown, latest, Option.map_none]
  | some x =>
    cases current with
    | none => simp only [shown, latest, Option.map_some, Option.map_none]
    | some a =>
      simp only [shown, latest, Option.map_some]
      exact ((inProgress a rfl).not_sameAttempt chronicle (mem_latestSuccess latest).1).2

/-- Nothing contradicts the published success. -/
theorem Chronicle.notContradicted (chronicle : Chronicle done) {current : Option Attempt}
    {marker : Option Instant} :
    publishedSuccessIsContradicted (shown done current marker) = false := by
  rw [publishedSuccessIsContradicted]
  cases latest : latestSuccess done with
  | none => simp only [shown, latest, Option.map_none]
  | some x =>
    obtain ⟨hx, succeeded⟩ := mem_latestSuccess latest
    simp only [shown, latest, Option.map_some, Bool.or_eq_false_iff]
    constructor
    · cases done with
      | nil => rfl
      | cons y done =>
        rw [List.head?_cons, Option.map_some, Option.any_some, Bool.and_eq_false_iff]
        by_cases same : x = y
        · right
          subst same
          have terminal := chronicle.terminal x List.mem_cons_self
          rw [succeeded] at terminal
          rw [terminal.outcome_success]
          decide
        · left
          rw [← Bool.not_eq_true, chronicle.sameAttempt_iff hx List.mem_cons_self]
          exact same
    · cases latest' : latestFailure done with
      | none => rfl
      | some y =>
        obtain ⟨hy, failed⟩ := mem_latestFailure latest'
        rw [Option.map_some, Option.any_some, ← Bool.not_eq_true, chronicle.sameAttempt_iff hx hy]
        rintro rfl
        rw [succeeded] at failed
        cases failed

/-- The records shown agree with each other, as soon as an attempt has finished. -/
theorem Chronicle.coherenceProblem (chronicle : Chronicle (x :: done)) {current : Option Attempt}
    {marker : Option Instant} (inProgress : ∀ a, current = some a → Current a (x :: done)) :
    coherenceProblem (shown (x :: done) current marker) = none := by
  have keys : keyProblem ([((latestSuccess (x :: done)).map Finished.record), some x.record,
      ((latestFailure (x :: done)).map Finished.record),
      (current.map progressRecord)].filterMap id) = none := by
    refine keyProblem_of_identified fun record h => ?_
    rw [List.mem_filterMap] at h
    obtain ⟨shown, hs, rfl⟩ := h
    have finished : ∀ y ∈ x :: done, ∃ a, Identified y.record a :=
      fun y hy => ⟨_, chronicle.identified hy⟩
    simp only [List.mem_cons, List.not_mem_nil, or_false] at hs
    rcases hs with h | h | h | h
    · obtain ⟨y, latest, rfl⟩ := Option.map_eq_some_iff.mp h.symm
      exact finished y (mem_latestSuccess latest).1
    · cases h
      exact finished x List.mem_cons_self
    · obtain ⟨y, latest, rfl⟩ := Option.map_eq_some_iff.mp h.symm
      exact finished y (mem_latestFailure latest).1
    · obtain ⟨a, own, rfl⟩ := Option.map_eq_some_iff.mp h.symm
      exact ⟨a, identified_progress (inProgress a own).lawful⟩
  have overlap : overlapProblem (some x.record) (current.map progressRecord) = none := by
    cases current with
    | none => rfl
    | some a =>
      have own := inProgress a rfl
      have ranges := own.lawful.ranges
      have attempted : parseTimestamp ((progressRecord a).get "attempted_at") =
          some a.attemptedAt := by
        rw [show (progressRecord a).get "attempted_at" = isoformat a.attemptedAt by
          simp [progressRecord, identityOf, Record.get, List.lookup_cons]]
        exact parseTimestamp_isoformat own.lawful.started ranges.1
      rw [Option.map_some, overlapProblem, Option.any_some,
        (own.not_sameAttempt chronicle List.mem_cons_self).1, if_neg (by decide), Option.bind_some,
        attempted, (chronicle.terminal x List.mem_cons_self).ended,
        earlier_eq_false (own.after x List.mem_cons_self).le, if_neg (by decide)]
  rw [Operations.coherenceProblem]
  simp only [shown, List.head?_cons, Option.map_some]
  rw [chronicle.successProblem, keys, chronicle.failureProblem, chronicle.missingFailure, overlap]
  rfl

/-- The verdicts on a state directory in which nothing is malformed, contradicted, incoherent or
uncommitted: no success yet, a fresh or stale one, an attempt that started too long ago, a first
attempt still running, or a legacy marker of the future. -/
def orderly : List Verdict :=
  [.missing, .fresh, .stale, .attemptStale, .attemptRecordMissing, .futureDated]

theorem judgeAge_state (detail : Detail) (successAt : Instant) (maxAgeHours : ℤ) :
    (judgeAge detail successAt now maxAgeHours).2.state ∈ orderly := by
  rw [judgeAge]
  dsimp only
  split_ifs
  · exact List.mem_of_elem_eq_true rfl
  · exact List.mem_of_elem_eq_true rfl

/-- A verdict on what finished attempts and the one in progress show is orderly. -/
theorem Chronicle.orderly (chronicle : Chronicle done) {current : Option Attempt}
    {marker : Option Instant} {maxAgeHours : ℤ} (ended : ∀ x ∈ done, x.attempt.finishedAt ≤ now)
    (inProgress : ∀ a, current = some a → Current a done ∧ a.attemptedAt ≤ now) :
    (backupAssessment (shown done current marker) now maxAgeHours).2.state ∈ orderly := by
  have own : ∀ a, current = some a → Current a done := fun a h => (inProgress a h).1
  rw [backupAssessment]
  simp only [chronicle.successIsUncommitted own, chronicle.notContradicted,
    chronicle.firstProblem ended inProgress, Bool.false_eq_true, if_false]
  cases tooLong : progressProblem (shown done current marker) now maxAgeHours with
  | some problem =>
    rw [progressProblem, Option.bind_eq_some_iff] at tooLong
    obtain ⟨since, -, judged⟩ := tooLong
    split_ifs at judged
    all_goals
      cases judged
      exact List.mem_of_elem_eq_true rfl
  | none =>
    dsimp only
    by_cases modern : (shown done current marker).modernStatePresent = false
    · rw [if_pos modern]
      cases (shown done current marker).lastSuccessAt with
      | none => exact List.mem_of_elem_eq_true rfl
      | some successAt =>
        dsimp only
        split_ifs
        · exact List.mem_of_elem_eq_true rfl
        · exact judgeAge_state _ _ _
    · rw [if_neg modern]
      cases done with
      | nil =>
        have first : Operations.coherenceProblem (shown [] current marker) =
            some .attemptRecordMissing := rfl
        rw [first]
        exact List.mem_of_elem_eq_true rfl
      | cons x done =>
        rw [chronicle.coherenceProblem own]
        dsimp only
        cases (shown (x :: done) current marker).lastSuccess.bind fun success =>
            parseTimestamp (success.get "completed_at") with
        | none => exact List.mem_of_elem_eq_true rfl
        | some successAt =>
          dsimp only
          split_ifs
          · exact judgeAge_state _ _ _
          · exact judgeAge_state _ _ _
          · exact judgeAge_state _ _ _
          · exact judgeAge_state _ _ _

end

end TradeRecommender.Operations
