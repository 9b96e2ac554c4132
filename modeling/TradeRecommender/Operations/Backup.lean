import TradeRecommender.Operations.HostHealth

/-!
# The backup engine

One attempt reads what its commands and its files give it, and commits one terminal record.

1. what the surroundings of an attempt give it;
2. `perform`, stage by stage;
3. the records of an attempt;
4. the durable writes of `once`, with a kill possible between any two.
-/

namespace TradeRecommender.Operations

open Py Civil

/-! ## The surroundings of an attempt -/

abbrev Bytes := List UInt8

/-- `self.stage` -/
inductive Stage
  | configure | dump | compress | validate | checksum | upload | verifyUpload | record
  deriving DecidableEq

/-- A stage's text. -/
def Stage.text : Stage → String
  | .configure => "configure"
  | .dump => "dump"
  | .compress => "compress"
  | .validate => "validate"
  | .checksum => "checksum"
  | .upload => "upload"
  | .verifyUpload => "verify_upload"
  | .record => "record"

/-- The categories `Failed` is raised with. -/
inductive Category
  | configurationMissing | configurationInvalid | archiveUnreadable | archiveTooSmall
  | archiveContentInvalid | uploadUnversioned | uploadChecksumMismatch | supervisionFailed
  | commandOutputInvalid
  deriving DecidableEq

/-- A category's text. -/
def Category.text : Category → String
  | .configurationMissing => "configuration_missing"
  | .configurationInvalid => "configuration_invalid"
  | .archiveUnreadable => "archive_unreadable"
  | .archiveTooSmall => "archive_too_small"
  | .archiveContentInvalid => "archive_content_invalid"
  | .uploadUnversioned => "upload_unversioned"
  | .uploadChecksumMismatch => "upload_checksum_mismatch"
  | .supervisionFailed => "supervision_failed"
  | .commandOutputInvalid => "command_output_invalid"

/-- An exit status or signal, as `returncode` gives it. -/
structure ExitStatus where
  code : ℤ
  fits : -2147483648 ≤ code ∧ code ≤ 2147483647

/-- What a stage raises: `Interrupted`, `Failed`, an `OSError`, a `SubprocessError` (a timeout has no
return code), or an exception `once` does not catch. -/
inductive Raised
  | interrupted
  | failed (category : Category)
  | osError
  | calledProcess (status : ExitStatus) (nonzero : status.code ≠ 0)
  | timeout
  | uncaught

/-- What supervision of a command breaks on. -/
inductive Broken
  | interrupted | osError | timeout | undrained

/-- What became of a command: supervision broke, or it exited, with an output (none where it is not
UTF-8). -/
inductive Command
  | broken (reason : Broken)
  | exited (status : ExitStatus) (output : Option String)

/-- White space of `str.split()`. -/
def isSpace (c : Char) : Bool :=
  c ∈ ['\t', '\n', '\x0b', '\x0c', '\r', '\x1c', '\x1d', '\x1e', '\x1f', ' ', '\u0085', '\u00a0',
    '\u1680', '\u2000', '\u2001', '\u2002', '\u2003', '\u2004', '\u2005', '\u2006', '\u2007',
    '\u2008', '\u2009', '\u200a', '\u2028', '\u2029', '\u202f', '\u205f', '\u3000']

/-- `text.split()` -/
def words (text : String) : List String :=
  ((text.toList.splitOnP isSpace).filter fun word => !word.isEmpty).map String.ofList

/-- `Commands.run` -/
def Command.run : Command → Except Raised (List String)
  | .broken .interrupted => .error .interrupted
  | .broken .osError => .error .osError
  | .broken .timeout => .error .timeout
  | .broken .undrained => .error (.failed .supervisionFailed)
  | .exited status output =>
    if nonzero : status.code ≠ 0 then .error (.calledProcess status nonzero)
    else
      match output with
      | none => .error .uncaught
      | some text =>
        if 16384 < text.toList.length then .error (.failed .commandOutputInvalid)
        else .ok (words text)

/-- What became of reading or writing a file in chunks. -/
inductive Reading
  | done | interrupted | osError | uncaught

def Reading.result : Reading → Except Raised Unit
  | .done => .ok ()
  | .interrupted => .error .interrupted
  | .osError => .error .osError
  | .uncaught => .error .uncaught

/-- What became of a durable write: done, refused, or replaced but not reported as done. -/
inductive Write
  | done | refused | unreported
  deriving DecidableEq

/-- What an attempt's commands, files and clock give it. -/
structure Attempt where
  /-- the lock is acquired, and both tools are on the path -/
  ready : Bool
  attemptId : String
  attemptedAt : Instant
  beginWrite : Write
  workDir : Bool
  configured : Bool
  /-- `int(os.environ.get("BACKUP_MIN_BYTES", "1024"))`, where it is an integer -/
  minimum : Option ℤ
  dump : Command
  compress : Reading
  validate : Reading
  archive : Bytes
  archiveFits : archive.length < 2 ^ 63
  checksum : Reading
  upload : Command
  verify : Command
  /-- a signal arrived before the result is recorded -/
  interrupted : Bool
  cleanup : Bool
  /-- `self.commands.stopped` -/
  stopped : ℕ
  stoppedFits : stopped ≤ 2147483647
  finishedAt : Instant
  commitWrite : Write
  publishWrite : Write
  /-- `self.commands.child is not None` after cleanup -/
  childLeft : Bool
  unlinked : Bool
  markerWrite : Write
  /-- the modification time of the legacy marker, where it is written -/
  markerAt : Instant

/-- `hashlib` and `gzip`. -/
structure Library where
  /-- `hexdigest` -/
  hex : Bytes → String
  /-- `b64encode` of the digest -/
  base64 : Bytes → String
  gunzip : Bytes → Bytes

/-- A digest is 64 lowercase hexadecimal digits, and nothing decompresses to nothing. -/
structure Library.Lawful (L : Library) : Prop where
  length_hex : ∀ bytes, (L.hex bytes).toList.length = 64
  all_hex : ∀ bytes, (L.hex bytes).toList.all isHex = true
  gunzip_nil : L.gunzip [] = []

/-! ## The stages -/

section
variable (L : Library)

/-- What a stage raises, with the stage. -/
def atStage {α : Type} (stage : Stage) (result : Except Raised α) : Except (Stage × Raised) α :=
  result.mapError fun raised => (stage, raised)

/-- `if condition: raise Failed(category)` -/
def failIf (condition : Prop) [Decidable condition] (category : Category) : Except Raised Unit :=
  if condition then .error (.failed category) else .ok ()

/-- ASCII bytes. -/
def bytesOf (text : String) : Bytes := text.toList.map fun c => UInt8.ofNat c.toNat

/-- The content conditions on the decompressed archive. -/
def completeDump (content : Bytes) : Prop :=
  bytesOf "PostgreSQL database dump" <:+: content.take 65536 ∧
    bytesOf "PostgreSQL database dump complete" <:+: content.drop (content.length - 4096)

instance (content : Bytes) : Decidable (completeDump content) := by
  unfold completeDump
  infer_instance

/-- `uploaded`: a version and the checksum of what was stored. -/
def uploadedVersion (L : Library) (archive : Bytes) (uploaded : List String) :
    Except Raised String := do
  match uploaded with
  | [version, remote] =>
    failIf (version ∈ ["None", "null", ""]) .uploadUnversioned
    failIf (remote ≠ L.base64 archive) .uploadChecksumMismatch
    return version
  | _ => .error (.failed .uploadUnversioned)

/-- `BACKUP_MIN_BYTES` as a size. -/
def minimumBytes (minimum : Option ℤ) : Except Raised ℤ :=
  match minimum with
  | none => .error (.failed .configurationInvalid)
  | some n => if n < 0 then .error (.failed .configurationInvalid) else .ok n

/-- `except (OSError, EOFError): raise Failed("archive_unreadable")` -/
def readArchive : Reading → Except Raised Unit
  | .osError => .error (.failed .archiveUnreadable)
  | reading => reading.result

/-- `if self.stopped: raise Interrupted` -/
def checkpoint (interrupted : Bool) : Except Raised Unit :=
  if interrupted then .error .interrupted else .ok ()

/-- `Backup.perform`: the version of the verified upload. -/
def perform (a : Attempt) : Except (Stage × Raised) String := do
  atStage .configure (failIf (a.configured = false) .configurationMissing)
  let minimum ← atStage .configure (minimumBytes a.minimum)
  let _ ← atStage .dump a.dump.run
  atStage .compress a.compress.result
  atStage .validate (readArchive a.validate)
  atStage .validate (failIf ((a.archive.length : ℤ) < minimum) .archiveTooSmall)
  atStage .validate (failIf (¬ completeDump (L.gunzip a.archive)) .archiveContentInvalid)
  atStage .checksum a.checksum.result
  let uploaded ← atStage .upload a.upload.run
  let version ← atStage .upload (uploadedVersion L a.archive uploaded)
  let verified ← atStage .verifyUpload a.verify.run
  atStage .verifyUpload (failIf (verified ≠ [toString a.archive.length, L.base64 a.archive,
    L.hex a.archive]) .uploadChecksumMismatch)
  atStage .verifyUpload (checkpoint a.interrupted)
  return version

/-- `perform` in its temporary directory, which has to be made and removed. -/
def performed (a : Attempt) : Except (Stage × Raised) String :=
  if a.workDir = false then .error (.configure, .osError)
  else
    match perform L a with
    | .ok version => if a.cleanup then .ok version else .error (.record, .osError)
    | .error (stage, raised) => .error (stage, if a.cleanup then raised else .osError)

/-! ## Records -/

/-- The first entries of every record of an attempt. -/
def identityOf (a : Attempt) : Record :=
  [("attempt_id", a.attemptId), ("attempted_at", isoformat a.attemptedAt),
    ("object_key", "postgres/" ++ a.attemptId ++ ".sql.gz")]

/-- The in-progress record. -/
def progressRecord (a : Attempt) : Record :=
  identityOf a ++ [("started_at", isoformat a.attemptedAt), ("stage", Stage.configure.text)]

/-- The terminal record of a success. -/
def successRecord (a : Attempt) (version : String) : Record :=
  identityOf a ++ [("outcome", "success"), ("stage", "record"), ("category", "none"),
    ("completed_at", isoformat a.finishedAt), ("version_id", version), ("sha256", L.hex a.archive),
    ("size_bytes", toString a.archive.length)]

/-- The category of a stage, for what is no `Failed` and no interruption. -/
def stageCategory : Stage → String
  | .configure => "workdir_unwritable"
  | .dump => "dump_failed"
  | .compress => "compression_failed"
  | .validate => "archive_unreadable"
  | .checksum => "checksum_failed"
  | .upload => "upload_failed"
  | .verifyUpload => "upload_unverified"
  | .record => "state_failed"

/-- `category` -/
def categoryOf (stage : Stage) : Raised → String
  | .interrupted => "interrupted"
  | .failed category => category.text
  | _ => stageCategory stage

/-- `str(getattr(exc, "returncode", status))` -/
def exitText (a : Attempt) : Raised → String
  | .calledProcess status _ => toString status.code
  | _ => toString (if a.stopped ≠ 0 then a.stopped else 1)

/-- The terminal record of a failure. -/
def failureRecord (a : Attempt) (stage : Stage) (raised : Raised) : Record :=
  identityOf a ++ [("outcome", "failure"), ("stage", stage.text),
    ("category", categoryOf stage raised), ("failed_at", isoformat a.finishedAt),
    ("exit_status", exitText a raised)]

/-- The terminal record of an attempt, and whether it is a success; none where the exception is not
caught. -/
def terminal (a : Attempt) : Option (Bool × Record) :=
  match performed L a with
  | .ok version => some (true, successRecord L a version)
  | .error (_, .uncaught) => none
  | .error (stage, raised) => some (false, failureRecord a stage raised)

/-! ## Durable writes -/

/-- Where the process that holds the lock is between its durable writes. -/
inductive Phase
  | idle
  | running (a : Attempt)
  | committed (a : Attempt) (success : Bool) (record : Record)
  | published (a : Attempt) (success : Bool) (record : Record)

/-- The state directory, the process that holds the lock, and what is remembered of the run: the
last reading of the clock, the attempts begun and the successes published, the latest ones first,
and whether an attempt was killed or left unresolved. -/
structure Host where
  directory : Directory
  phase : Phase
  clock : Instant
  begun : List Attempt
  publications : List Record
  unresolved : Bool

/-- What happens next.  The lock is held by one process at a time, so attempts do not interleave. -/
inductive Event
  | start (a : Attempt)
  | advance
  | kill

/-- An attempt that ends without clearing its in-progress record. -/
def Host.leave (h : Host) : Host := { h with phase := .idle, unresolved := true }

/-- A durable write: the text of the file after it, and whether `once` goes on. -/
def Write.apply (w : Write) (before : Option String) (text : String) : Option String × Bool :=
  match w with
  | .done => (some text, true)
  | .refused => (before, false)
  | .unreported => (some text, false)

/-- `once` up to its in-progress record.  A process that finds the lock held, a tool missing or an
earlier record in place returns. -/
def start (h : Host) (a : Attempt) : Host :=
  match h.phase with
  | .idle =>
    if a.ready = false ∨ h.directory.inProgress.isSome then h
    else
      let (file, goesOn) := a.beginWrite.apply none (keyedText (progressRecord a))
      let h := { h with
        directory := { h.directory with inProgress := file }
        clock := a.attemptedAt
        begun := a :: h.begun }
      if goesOn then { h with phase := .running a }
      else if file.isSome then h.leave else h
  | _ => h

/-- The attempt runs, and its terminal record is committed. -/
def commit (h : Host) (a : Attempt) : Host :=
  match terminal L a with
  | none => h.leave
  | some (success, record) =>
    let (file, goesOn) := a.commitWrite.apply h.directory.lastAttempt (keyedText record)
    let h := { h with
      directory := { h.directory with lastAttempt := file }
      clock := a.finishedAt }
    if goesOn then { h with phase := .committed a success record } else h.leave

/-- The committed record is published as the last success or the last failure. -/
def publish (h : Host) (a : Attempt) (success : Bool) (record : Record) : Host :=
  let before := if success then h.directory.lastSuccess else h.directory.lastFailure
  let (file, goesOn) := a.publishWrite.apply before (keyedText record)
  let h := { h with
    directory :=
      if success then { h.directory with lastSuccess := file }
      else { h.directory with lastFailure := file }
    publications :=
      if success ∧ a.publishWrite ≠ Write.refused then record :: h.publications
      else h.publications }
  if goesOn then { h with phase := .published a success record } else h.leave

/-- `f"attempt_id={record['attempt_id']}\n" in progress.read_text()` -/
def ownProgress (a : Attempt) (text : String) : Bool :=
  decide (("attempt_id=" ++ a.attemptId ++ "\n").toList <:+: text.toList)

/-- The in-progress record is removed and, after a success, the legacy marker touched. -/
def clear (h : Host) (a : Attempt) (success : Bool) : Host :=
  if a.childLeft then h.leave
  else
    match h.directory.inProgress with
    | none => h.leave
    | some text =>
      if ownProgress a text ∧ a.unlinked = false then h.leave
      else
        let inProgress := if ownProgress a text then none else some text
        let marker := if success ∧ a.markerWrite ≠ Write.refused then some a.markerAt
          else h.directory.marker
        { h with
          directory := { h.directory with inProgress := inProgress, marker := marker }
          phase := .idle }

/-- One event. -/
def step (h : Host) : Event → Host
  | .start a => start h a
  | .advance =>
    match h.phase with
    | .idle => h
    | .running a => commit L h a
    | .committed a success record => publish h a success record
    | .published a success _ => clear h a success
  | .kill =>
    match h.phase with
    | .idle => h
    | _ => h.leave

/-- `once`, undisturbed: its durable writes one after the other. -/
def once (h : Host) (a : Attempt) : Host :=
  step L (step L (step L (step L h (.start a)) .advance) .advance) .advance

end

end TradeRecommender.Operations
