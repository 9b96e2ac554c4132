import Mathlib.Data.List.Infix
import TradeRecommender.Lib.IsoRoundTrip
import TradeRecommender.Lib.Lines

/-!
# Judging the backup state

The state files of the backup are read defensively and judged together.

1. a state file, parsed;
2. one record against its schema;
3. the records against each other: `backup_assessment`.
-/

namespace TradeRecommender.Operations

open Py Civil

/-! ## State files -/

/-- A parsed state file, in the order of its lines. -/
abbrev Record := List (String × String)

/-- `record.get(key, "")`.  No reader below tells an absent value from an empty one. -/
def Record.get (record : Record) (key : String) : String := (record.lookup key).getD ""

/-- The files of the state directory; `None` for an absent one, else the text of a regular, readable
file.  `marker` is the modification time of the legacy marker. -/
structure Directory where
  lastAttempt : Option String
  lastSuccess : Option String
  lastFailure : Option String
  inProgress : Option String
  marker : Option Instant

/-- `_ALLOWED_KEYS` -/
def allowedKeys : List String :=
  ["attempt_id", "attempted_at", "started_at", "completed_at", "failed_at", "object_key", "outcome",
    "stage", "category", "exit_status", "sha256", "size_bytes", "version_id", "interval_seconds"]

/-- A character of `_SAFE_VALUE`. -/
def isSafe (c : Char) : Bool := c.isAlphanum || c ∈ ['_', '.', ':', '/', '+', '=', '-']

/-- `_SAFE_VALUE.fullmatch(value)` -/
def safeValue (value : List Char) : Bool := value.length ≤ 1024 && value.all isSafe

/-- The loop of `_parse_state_file` over its lines; `none` where it returns `{}`. -/
def parseLines : List (List Char) → Record → Option Record
  | [], values => some values
  | line :: lines, values =>
    match splitOnce '=' line with
    | none => none
    | some (key, value) =>
      if (values.any fun entry => entry.1 = String.ofList key) ∨ String.ofList key ∉ allowedKeys ∨
          safeValue value = false then none
      else parseLines lines (values ++ [(String.ofList key, String.ofList value)])

/-- `_parse_state_file`: nothing of an absent file, the empty record of an unusable one. -/
def parseStateFile (file : Option String) : Option Record :=
  file.map fun text =>
    if 16384 < text.toList.length then [] else (parseLines (splitlines text.toList) []).getD []

/-- `value.replace("Z", "+00:00")` -/
def replaceZulu (value : String) : String :=
  String.ofList (value.toList.flatMap fun c => if c = 'Z' then "+00:00".toList else [c])

/-- `_parse_timestamp` -/
def parseTimestamp (value : String) : Option Instant :=
  if value = "" then none
  else
    match fromisoformat (replaceZulu value) with
    | .ok ⟨wall, some offset⟩ => (toUtc wall offset).toOption
    | _ => none

/-- `BackupState` -/
structure BackupState where
  lastAttempt : Option Record
  lastSuccess : Option Record
  lastFailure : Option Record
  inProgress : Option Record
  legacyMarkerAt : Option Instant

namespace BackupState

variable (state : BackupState)

/-- A record that is there and not empty. -/
def usable (record : Option Record) : Option Record := record.filter fun r => !r.isEmpty

def lastSuccessAt : Option Instant :=
  match usable state.lastSuccess with
  | some success => parseTimestamp (success.get "completed_at")
  | none => state.legacyMarkerAt

def lastFailureAt : Option Instant :=
  (usable state.lastFailure).bind fun failure => parseTimestamp (failure.get "failed_at")

def lastAttemptOutcome : String :=
  match usable state.lastAttempt with
  | some attempt => (attempt.lookup "outcome").getD "unknown"
  | none => if state.legacyMarkerAt.isSome then "success" else "unknown"

/-- When the current attempt started, from its durable in-progress record. -/
def inProgressSince : Option Instant :=
  (usable state.inProgress).bind fun progress => parseTimestamp (progress.get "started_at")

def source : String :=
  if (usable state.lastSuccess).isSome then "state_file"
  else if state.legacyMarkerAt.isSome then "legacy_marker"
  else "none"

/-- `_modern_state_present` -/
def modernStatePresent : Bool :=
  state.lastAttempt.isSome || state.lastSuccess.isSome || state.lastFailure.isSome ||
    state.inProgress.isSome

end BackupState

/-- `read_backup_state` -/
def readBackupState (directory : Directory) : BackupState :=
  let lastAttempt := parseStateFile directory.lastAttempt
  let lastSuccess := parseStateFile directory.lastSuccess
  let lastFailure := parseStateFile directory.lastFailure
  let inProgress := parseStateFile directory.inProgress
  ⟨lastAttempt, lastSuccess, lastFailure, inProgress,
    if lastAttempt.isNone && lastSuccess.isNone && lastFailure.isNone && inProgress.isNone then
      directory.marker
    else none⟩

/-! ## One record -/

/-- The values of `detail["state"]`. -/
inductive Verdict
  | missing | fresh | stale | futureDated | attemptStale
  | successPartial | successMalformed | attemptMalformed | failureMalformed | progressMalformed
  | successIncoherent | attemptIncoherent
  | uncommitted | successUncommitted
  | contradicted | successContradicted | failureContradicted
  | attemptRecordMissing | successMissing | failureMissing
  deriving DecidableEq

/-- Which file a record was read from. -/
inductive Kind
  | success | attempt | failure | progress
  deriving DecidableEq

/-- `malformed` -/
def Kind.malformed : Kind → Verdict
  | .success => .successPartial
  | .attempt => .attemptMalformed
  | .failure => .failureMalformed
  | .progress => .progressMalformed

/-- `_same_attempt`: modern identity is UUID-based. -/
def sameAttempt (first second : Record) : Bool :=
  first.get "attempt_id" ≠ "" && first.get "attempt_id" = second.get "attempt_id"

/-- `_STAGES` -/
def stages : List String :=
  ["configure", "dump", "compress", "validate", "checksum", "upload", "verify_upload", "record"]

/-- `_CATEGORIES` -/
def categories : List (String × String) :=
  [("configuration_missing", "configure"), ("configuration_invalid", "configure"),
    ("workdir_unwritable", "configure"), ("dump_failed", "dump"),
    ("compression_failed", "compress"), ("archive_unreadable", "validate"),
    ("archive_too_small", "validate"), ("archive_content_invalid", "validate"),
    ("checksum_failed", "checksum"), ("upload_failed", "upload"), ("upload_unversioned", "upload"),
    ("upload_unverified", "verify_upload"), ("state_failed", "record")]

/-- A lowercase hexadecimal digit. -/
def isHex (c : Char) : Bool := c.isDigit || c ∈ ['a', 'b', 'c', 'd', 'e', 'f']

/-- `str(UUID(text)) == text` -/
def canonicalUuid (text : String) : Bool :=
  text.toList.length = 36 && text.toList.zipIdx.all fun (c, i) =>
    if i = 8 ∨ i = 13 ∨ i = 18 ∨ i = 23 then c = '-' else isHex c

/-- `[1-9][0-9]*` -/
def isPositive (text : List Char) : Bool :=
  match text with
  | [] => false
  | c :: rest => c.isDigit && c ≠ '0' && rest.all Char.isDigit

/-- `-?[1-9][0-9]*` -/
def isNonzero (text : List Char) : Bool :=
  match text with
  | '-' :: rest => isPositive rest
  | _ => isPositive text

/-- Whether a failure's category is one of its stage. -/
def validCategory (category stage : String) : Bool :=
  if category = "upload_checksum_mismatch" then stage = "upload" || stage = "verify_upload"
  else category ∈ ["interrupted", "supervision_failed", "command_output_invalid"] ||
    categories.lookup category = some stage

/-- `set(record) == fields` -/
def hasFields (record : Record) (fields : List String) : Bool :=
  record.all (fun entry => entry.1 ∈ fields) && fields.all fun field => record.any (·.1 = field)

/-- The fields a record of the kind and outcome has. -/
def requiredFields (kind : Kind) (outcome finish : String) : List String :=
  ["attempt_id", "attempted_at", "object_key", "stage", finish] ++
    if kind = .progress then []
    else ["outcome", "category"] ++
      if outcome = "success" then ["version_id", "sha256", "size_bytes"] else ["exit_status"]

/-- The conditions on an outcome's own fields. -/
def validOutcome (record : Record) : Bool :=
  if record.get "outcome" = "success" then
    record.get "stage" = "record" && record.get "category" = "none" &&
      ((record.get "sha256").toList.length = 64 && (record.get "sha256").toList.all isHex) &&
      isPositive (record.get "size_bytes").toList &&
      !(record.get "version_id" ∈ ["", "None", "null"])
  else
    validCategory (record.get "category") (record.get "stage") &&
      isNonzero (record.get "exit_status").toList

/-- Where a record ends. -/
def finishField (kind : Kind) (outcome : String) : String :=
  if kind = .progress then "started_at"
  else if outcome = "success" then "completed_at" else "failed_at"

/-- The conditions `_record_problem` checks before the times. -/
def wellShaped (record : Record) (kind : Kind) : Bool :=
  !record.isEmpty && canonicalUuid (record.get "attempt_id") &&
    "postgres/".toList.isPrefixOf (record.get "object_key").toList &&
    ".sql.gz".toList.isSuffixOf (record.get "object_key").toList &&
    record.get "stage" ∈ stages &&
    (kind = .progress || record.get "outcome" ∈ ["success", "failure"]) &&
    (kind = .success → record.get "outcome" = "success") &&
    (kind = .failure → record.get "outcome" = "failure")

/-- `_record_problem` -/
def recordProblem (record : Record) (kind : Kind) (now : Instant) : Option Verdict :=
  let finish := finishField kind (record.get "outcome")
  if wellShaped record kind = false then some kind.malformed
  else
    match parseTimestamp (record.get "attempted_at"), parseTimestamp (record.get finish) with
    | some start, some stop =>
      if now < start ∨ now < stop then some .futureDated
      else if stop < start then
        some (if kind = .success then .successIncoherent else kind.malformed)
      else if kind ≠ .progress ∧ validOutcome record = false then some kind.malformed
      else if hasFields record (requiredFields kind (record.get "outcome") finish) then none
      else some kind.malformed
    | _, _ => some (if kind = .success then .successMalformed else kind.malformed)

/-! ## The assessment -/

/-- `detail` -/
structure Detail where
  source : String
  lastSuccessAge : Option ℤ
  lastAttemptOutcome : String
  lastFailureCategory : Option String
  lastFailureStage : Option String
  attemptInProgress : Bool
  attemptStartedAt : Option Instant
  state : Verdict
  warning : Option String

/-- `_success_is_uncommitted` -/
def successIsUncommitted (state : BackupState) : Bool :=
  match state.lastSuccess, state.inProgress with
  | some success, some progress => sameAttempt success progress
  | _, _ => false

/-- `_published_success_is_contradicted` -/
def publishedSuccessIsContradicted (state : BackupState) : Bool :=
  match state.lastSuccess with
  | none => false
  | some success =>
    (state.lastAttempt.any fun attempt =>
      sameAttempt success attempt && attempt.get "outcome" ≠ "success") ||
    state.lastFailure.any fun failure => sameAttempt success failure

/-- The first problem of a single record; the progress record's is reported as the attempt's. -/
def firstProblem (state : BackupState) (now : Instant) : Option Verdict :=
  (state.lastSuccess.bind (recordProblem · .success now)).or <|
  (state.lastAttempt.bind (recordProblem · .attempt now)).or <|
  (state.lastFailure.bind (recordProblem · .failure now)).or <|
  (state.inProgress.bind (recordProblem · .progress now)).map fun problem =>
    if problem = .progressMalformed then .attemptMalformed else problem

/-- `<` on two timestamps, which the records' schemas promise to be there. -/
def earlier (first second : Option Instant) : Bool :=
  match first, second with
  | some a, some b => a < b
  | _, _ => false

/-- A current attempt that started too long ago. -/
def progressProblem (state : BackupState) (now : Instant) (maxAgeHours : ℤ) : Option Verdict :=
  state.inProgressSince.bind fun since =>
    if now < since then some .futureDated
    else if maxAgeHours * hour < now - since then some .attemptStale
    else none

/-- `first == second` on dicts. -/
def sameRecord (first second : Record) : Bool :=
  first.length = second.length && first.all fun entry => second.lookup entry.1 = some entry.2

/-- The published success against the last attempt. -/
def successProblem (attempt success : Option Record) : Option Verdict :=
  match success, attempt with
  | some _, none => some .successUncommitted
  | some success, some attempt =>
    if sameAttempt success attempt then
      if sameRecord success attempt then none else some .successContradicted
    else if attempt.get "outcome" ≠ "failure" ∨
        earlier (parseTimestamp (attempt.get "attempted_at"))
          (parseTimestamp (success.get "completed_at")) then some .successUncommitted
    else none
  | none, none => some .attemptRecordMissing
  | none, some attempt => if attempt.get "outcome" = "success" then some .successMissing else none

/-- Records of different attempts with one object key. -/
def keyProblem (records : List Record) : Option Verdict :=
  if records.Pairwise fun first second =>
      sameAttempt first second = true ∨ first.get "object_key" ≠ second.get "object_key" then none
  else some .attemptIncoherent

/-- The last failure against the last attempt. -/
def failureProblem (attempt failure : Option Record) : Option Verdict :=
  match failure, attempt with
  | some _, none => some .attemptRecordMissing
  | some failure, some attempt =>
    if sameAttempt failure attempt then
      if sameRecord failure attempt then none else some .failureContradicted
    else if earlier (parseTimestamp (attempt.get "attempted_at"))
        (parseTimestamp (failure.get "failed_at")) then some .failureContradicted
    else none
  | none, _ => none

/-- A failed attempt that published no failure. -/
def missingFailure (attempt failure : Option Record) : Option Verdict :=
  match attempt with
  | some attempt =>
    if attempt.get "outcome" = "failure" ∧ (failure.any (sameAttempt attempt ·)) = false then
      some .failureMissing
    else none
  | none => none

/-- When an attempt ended. -/
def terminalAt (attempt : Record) : Option Instant :=
  parseTimestamp (if attempt.get "completed_at" ≠ "" then attempt.get "completed_at"
    else attempt.get "failed_at")

/-- The current attempt against the last one. -/
def overlapProblem (attempt progress : Option Record) : Option Verdict :=
  match progress with
  | none => none
  | some progress =>
    if attempt.any (sameAttempt progress ·) then some .uncommitted
    else if earlier (parseTimestamp (progress.get "attempted_at")) (attempt.bind terminalAt) then
      some .attemptIncoherent
    else none

/-- The first problem of the records against each other. -/
def coherenceProblem (state : BackupState) : Option Verdict :=
  (successProblem state.lastAttempt state.lastSuccess).or <|
  (keyProblem ([state.lastSuccess, state.lastAttempt, state.lastFailure,
    state.inProgress].filterMap id)).or <|
  (failureProblem state.lastAttempt state.lastFailure).or <|
  (missingFailure state.lastAttempt state.lastFailure).or <|
  overlapProblem state.lastAttempt state.inProgress

/-- The verdict on a success of an age, and the detail it leaves. -/
def judgeAge (detail : Detail) (successAt now : Instant) (maxAgeHours : ℤ) : Bool × Detail :=
  let detail := { detail with lastSuccessAge := some ((now - successAt) / 1000000) }
  if maxAgeHours * hour < now - successAt then (false, { detail with state := .stale })
  else (true, { detail with state := .fresh })

/-- `backup_assessment` -/
def backupAssessment (state : BackupState) (now : Instant) (maxAgeHours : ℤ) : Bool × Detail :=
  let detail : Detail :=
    { source := state.source
      lastSuccessAge := none
      lastAttemptOutcome := state.lastAttemptOutcome
      lastFailureCategory := state.lastFailure.bind (List.lookup "category")
      lastFailureStage := state.lastFailure.bind (List.lookup "stage")
      attemptInProgress := state.inProgress.isSome
      attemptStartedAt := none
      state := .missing
      warning := none }
  let unhealthy (detail : Detail) (verdict : Verdict) := (false, { detail with state := verdict })
  if successIsUncommitted state then unhealthy detail .uncommitted
  else if publishedSuccessIsContradicted state then unhealthy detail .contradicted
  else
    match firstProblem state now with
    | some problem => unhealthy detail problem
    | none =>
      let detail := { detail with attemptStartedAt := state.inProgressSince }
      match progressProblem state now maxAgeHours with
      | some problem => unhealthy detail problem
      | none =>
        if state.modernStatePresent = false then
          -- the only case in which the legacy marker may be trusted on its own
          match state.lastSuccessAt with
          | none => (false, detail)
          | some successAt =>
            if now < successAt then unhealthy detail .futureDated
            else judgeAge detail successAt now maxAgeHours
        else
          match coherenceProblem state with
          | some problem => unhealthy detail problem
          | none =>
            match state.lastSuccess.bind fun success =>
              parseTimestamp (success.get "completed_at") with
            | none => (false, detail)
            | some successAt =>
              let (ready, detail) := judgeAge detail successAt now maxAgeHours
              (ready,
                if ready = false then detail
                else if earlier (some successAt) state.lastFailureAt then
                  { detail with warning := some "last_attempt_failed" }
                else if state.inProgress.isSome then
                  { detail with warning := some "attempt_in_progress" }
                else detail)

end TradeRecommender.Operations
