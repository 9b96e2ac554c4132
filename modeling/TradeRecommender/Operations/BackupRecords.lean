import Mathlib.Data.Bool.AllAny
import Mathlib.Data.List.Perm.Subperm
import TradeRecommender.Operations.Backup

/-!
# The records of an attempt, read back

Each record an attempt writes is read back from its text as it was, and passes the schema of its
file.

1. safe values and the round trip of a state file;
2. the values of the records are safe;
3. every stage raises categories of its own;
4. the records pass their schemas.
-/

namespace TradeRecommender.Operations

open Py Civil

/-! ## The round trip of a state file -/

theorem isLineBreak_of_isSafe {c : Char} (h : isSafe c = true) : isLineBreak c = false := by
  by_contra broken
  rw [Bool.not_eq_false, isLineBreak, decide_eq_true_eq] at broken
  simp only [List.mem_cons, List.not_mem_nil, or_false] at broken
  rcases broken with rfl | rfl | rfl | rfl | rfl | rfl | rfl | rfl | rfl | rfl <;>
    exact absurd h (by decide)

/-- A record whose text is read back: different allowed keys, and safe values. -/
structure Writable (record : Record) : Prop where
  keys : (record.map Prod.fst).Nodup
  allowed : ∀ entry ∈ record, entry.1 ∈ allowedKeys
  safe : ∀ entry ∈ record, safeValue entry.2.toList = true

theorem allowedKeys_plain : ∀ key ∈ allowedKeys, '=' ∉ key.toList ∧
    (∀ c ∈ key.toList, isLineBreak c = false) ∧ key.toList.length ≤ 16 := by
  have plain : ∀ key ∈ allowedKeys, '=' ∉ key.toList ∧
      (key.toList.all fun c => decide (isLineBreak c = false)) = true ∧
      key.toList.length ≤ 16 := by
    decide
  intro key mem
  obtain ⟨equals, breaks, short⟩ := plain key mem
  exact ⟨equals, List.all_iff_forall_prop.mp breaks, short⟩

theorem safe_of_safeValue {value : List Char} (h : safeValue value = true) :
    value.length ≤ 1024 ∧ ∀ c ∈ value, isSafe c = true := by
  rw [safeValue, Bool.and_eq_true, decide_eq_true_eq, List.all_eq_true] at h
  exact h

theorem parseLines_writable {record : Record} (read : Record) (writable : Writable (read ++ record)) :
    parseLines (record.map fun e => e.1.toList ++ ('=' :: e.2.toList)) read =
      some (read ++ record) := by
  induction record generalizing read with
  | nil => rw [List.append_nil]; rfl
  | cons e record ih =>
    have mem : e ∈ read ++ e :: record := List.mem_append_right _ List.mem_cons_self
    have key := allowedKeys_plain e.1 (writable.allowed e mem)
    have fresh : (read.any fun entry => entry.1 = e.1) = false := by
      have nodup := writable.keys
      rw [List.map_append, List.map_cons, List.nodup_append] at nodup
      rw [List.any_eq_false]
      intro entry h
      simpa using nodup.2.2 entry.1 (List.mem_map_of_mem h) e.1 List.mem_cons_self
    rw [List.map_cons, parseLines, splitOnce_append key.1]
    simp only [String.ofList_toList, fresh, writable.allowed e mem, writable.safe e mem,
      Bool.false_eq_true, not_true_eq_false, Bool.true_eq_false, or_self, if_false]
    rw [ih _ (by rwa [List.append_assoc, List.singleton_append]), List.append_assoc,
      List.singleton_append]

theorem length_keyedText {record : Record} (writable : Writable record) :
    (keyedText record).toList.length ≤ 16384 := by
  have few : record.length ≤ 14 := by
    rw [← List.length_map Prod.fst]
    show _ ≤ allowedKeys.length
    refine (List.subperm_of_subset writable.keys fun key h => ?_).length_le
    obtain ⟨entry, hentry, rfl⟩ := List.mem_map.mp h
    exact writable.allowed entry hentry
  have lines : ∀ entry ∈ record, (keyedLine entry).length ≤ 1042 := by
    intro entry h
    have key := (allowedKeys_plain entry.1 (writable.allowed entry h)).2.2
    have value := (safe_of_safeValue (writable.safe entry h)).1
    simp only [keyedLine, List.length_append, List.length_cons, List.length_nil]
    omega
  rw [keyedText, String.toList_ofList]
  have total : ∀ entries : Record, (∀ entry ∈ entries, (keyedLine entry).length ≤ 1042) →
      (entries.flatMap keyedLine).length ≤ 1042 * entries.length := by
    intro entries
    induction entries with
    | nil => exact fun _ => Nat.le_refl 0
    | cons entry entries ih =>
      intro h
      have first := h entry List.mem_cons_self
      have rest := ih fun other ho => h other (List.mem_cons_of_mem _ ho)
      rw [List.flatMap_cons, List.length_append, List.length_cons]
      omega
  have := total record lines
  omega

/-- A writable record is read back from its text. -/
theorem parseStateFile_keyedText {record : Record} (writable : Writable record) :
    parseStateFile (some (keyedText record)) = some record := by
  have plain : ∀ e ∈ record, ∀ c ∈ e.1.toList ++ ('=' :: e.2.toList), isLineBreak c = false := by
    intro e he c hc
    rcases List.mem_append.mp hc with hc | hc
    · exact (allowedKeys_plain e.1 (writable.allowed e he)).2.1 c hc
    · rcases List.mem_cons.mp hc with rfl | hc
      · decide
      · exact isLineBreak_of_isSafe ((safe_of_safeValue (writable.safe e he)).2 c hc)
  have short : ¬ 16384 < (keyedText record).toList.length := by
    have := length_keyedText writable
    omega
  have lines := parseLines_writable [] writable
  rw [parseStateFile, Option.map_some, if_neg short, splitlines_keyedText plain, lines]
  rfl

/-- A record of allowed keys and of values without line breaks. -/
def Plain (record : Record) : Prop :=
  ∀ entry ∈ record, entry.1 ∈ allowedKeys ∧ ∀ c ∈ entry.2.toList, isLineBreak c = false

theorem parseLines_plain {record result : Record} (read : Record) (plain : Plain record)
    (h : parseLines (record.map fun e => e.1.toList ++ ('=' :: e.2.toList)) read = some result) :
    result = read ++ record := by
  induction record generalizing read with
  | nil =>
    cases h
    rw [List.append_nil]
  | cons e record ih =>
    have key := allowedKeys_plain e.1 (plain e List.mem_cons_self).1
    rw [List.map_cons, parseLines, splitOnce_append key.1] at h
    dsimp only at h
    split_ifs at h
    rw [ih _ (fun entry he => plain entry (List.mem_cons_of_mem _ he)) h, String.ofList_toList,
      String.ofList_toList, List.append_assoc, List.singleton_append]

/-- Whatever its values, a record is read back as it was or not at all. -/
theorem parseStateFile_plain {record result : Record} (plain : Plain record)
    (h : parseStateFile (some (keyedText record)) = some result) :
    result = [] ∨ result = record := by
  have lines : ∀ e ∈ record, ∀ c ∈ e.1.toList ++ ('=' :: e.2.toList), isLineBreak c = false := by
    intro e he c hc
    rcases List.mem_append.mp hc with hc | hc
    · exact (allowedKeys_plain e.1 (plain e he).1).2.1 c hc
    · rcases List.mem_cons.mp hc with rfl | hc
      · decide
      · exact (plain e he).2 c hc
  rw [parseStateFile, Option.map_some, splitlines_keyedText lines] at h
  split_ifs at h
  · cases h
    exact .inl rfl
  · cases parsed : parseLines (record.map fun e => e.1.toList ++ ('=' :: e.2.toList)) [] with
    | none =>
      rw [parsed] at h
      cases h
      exact .inl rfl
    | some read =>
      rw [parsed] at h
      cases h
      exact .inr (parseLines_plain [] plain parsed)

/-! ## Safe values -/

section
variable {t : Instant}

theorem isSafe_of_isDigit {c : Char} (h : c.isDigit = true) : isSafe c = true := by
  simp [isSafe, Char.isAlphanum, h]

theorem isSafe_of_isHex {c : Char} (h : isHex c = true) : isSafe c = true := by
  rw [isHex, Bool.or_eq_true, decide_eq_true_eq] at h
  rcases h with h | h
  · exact isSafe_of_isDigit h
  · have : ∀ c ∈ ['a', 'b', 'c', 'd', 'e', 'f'], isSafe c = true :=
      List.all_iff_forall_prop.mp (by decide)
    exact this c h

theorem safeValue_of {value : List Char} (short : value.length ≤ 1024)
    (safe : ∀ c ∈ value, isSafe c = true) : safeValue value = true := by
  rw [safeValue, Bool.and_eq_true, decide_eq_true_eq, List.all_eq_true]
  exact ⟨short, safe⟩

theorem safeValue_isoformat (low : minInstant ≤ t) (high : t < endInstant) :
    safeValue (isoformat t).toList = true := by
  refine safeValue_of ((length_isoformat_le low high).trans (by decide)) fun c hc => ?_
  rcases mem_isoformat low high hc with digit | rfl | rfl | rfl | rfl | rfl
  · exact isSafe_of_isDigit digit
  all_goals decide

theorem parseTimestamp_isoformat (low : minInstant ≤ t) (high : t < endInstant) :
    parseTimestamp (isoformat t) = some t := by
  have noZulu : replaceZulu (isoformat t) = isoformat t := by
    have kept : ∀ chars : List Char, 'Z' ∉ chars →
        (chars.flatMap fun c => if c = 'Z' then "+00:00".toList else [c]) = chars := by
      intro chars
      induction chars with
      | nil => exact fun _ => rfl
      | cons c chars ih =>
        intro h
        rw [List.mem_cons, not_or] at h
        rw [List.flatMap_cons, ih h.2, if_neg fun same => h.1 same.symm, List.singleton_append]
    have absent : 'Z' ∉ (isoformat t).toList := by
      intro h
      rcases mem_isoformat low high h with h | h | h | h | h | h <;> exact absurd h (by decide)
    rw [replaceZulu, kept _ absent, String.ofList_toList]
  have read := fromisoformat_isoformat low high
  have nonempty : isoformat t ≠ "" := by
    intro h
    have refused : fromisoformat "" = invalidIso := rfl
    rw [h, refused] at read
    cases read
  have inRange : toUtc t 0 = .ok t := by
    rw [toUtc, sub_zero, if_pos ⟨low, high⟩]
  rw [parseTimestamp, if_neg nonempty, noZulu, read]
  show (toUtc t 0).toOption = _
  rw [inRange]
  rfl

theorem canonicalUuid_safe {id : String} (h : canonicalUuid id = true) :
    id.toList.length = 36 ∧ ∀ c ∈ id.toList, isSafe c = true := by
  rw [canonicalUuid, Bool.and_eq_true, decide_eq_true_eq, List.all_eq_true] at h
  refine ⟨h.1, fun c hc => ?_⟩
  obtain ⟨i, hi, rfl⟩ := List.getElem_of_mem hc
  have at_i := h.2 (id.toList[i], i) (List.mem_zipIdx_iff_getElem?.mpr (by simp [hi]))
  dsimp only at at_i
  split_ifs at at_i
  · rw [of_decide_eq_true at_i]
    decide
  · exact isSafe_of_isHex at_i

/-- A natural number's digits. -/
theorem safeValue_toString {n : ℕ} (h : n < 2 ^ 63) : safeValue (toString n).toList = true := by
  have digits : (toString n).toList = Nat.toDigits 10 n := Nat.toList_repr
  refine safeValue_of ?_ fun c hc => ?_
  · have short : (Nat.toDigits 10 n).length ≤ 19 :=
      (Nat.length_toDigits_le_iff (by decide) (by decide)).mpr (h.trans (by norm_num))
    rw [digits]
    omega
  · rw [digits] at hc
    exact isSafe_of_isDigit (Nat.isDigit_of_mem_toDigits (by decide) (by decide) hc)

/-- A positive number is written without a leading zero. -/
theorem isPositive_toDigits {n : ℕ} (h : 0 < n) : isPositive (Nat.toDigits 10 n) = true := by
  have first : ∀ n : ℕ, 0 < n → ∃ c rest, Nat.toDigits 10 n = c :: rest ∧ c ≠ '0' := by
    intro n
    induction n using Nat.strongRecOn with
    | ind n ih =>
      intro h
      by_cases small : n < 10
      · refine ⟨n.digitChar, [], Nat.toDigits_of_lt_base small, ?_⟩
        interval_cases n <;> decide
      · obtain ⟨c, rest, split, nonzero⟩ := ih (n / 10) (by omega) (by omega)
        rw [Nat.toDigits_of_base_le (by decide) (by omega), split]
        exact ⟨c, rest ++ [(n % 10).digitChar], rfl, nonzero⟩
  obtain ⟨c, rest, split, nonzero⟩ := first n h
  have digits : ∀ d ∈ c :: rest, d.isDigit = true := by
    rw [← split]
    exact fun d hd => Nat.isDigit_of_mem_toDigits (by decide) (by decide) hd
  rw [split, isPositive, digits c List.mem_cons_self]
  simp only [ne_eq, nonzero, not_false_eq_true, decide_true, Bool.and_self, Bool.true_and,
    List.all_eq_true]
  exact fun d hd => digits d (List.mem_cons_of_mem _ hd)

theorem isNonzero_of_isPositive {text : List Char} (h : isPositive text = true) :
    isNonzero text = true := by
  unfold isNonzero
  split
  · rw [isPositive] at h
    exact absurd h (by simp)
  · exact h

/-- An exit status that is not zero is written as one, in few safe characters. -/
theorem exitStatus_text {n : ℤ} (nonzero : n ≠ 0) (low : -2147483648 ≤ n) (high : n ≤ 2147483647) :
    isNonzero (toString n).toList = true ∧ safeValue (toString n).toList = true := by
  have small : ∀ m : ℕ, m ≤ 2147483648 → (Nat.toDigits 10 m).length ≤ 10 := fun m h =>
    (Nat.length_toDigits_le_iff (by decide) (by decide)).mpr (h.trans_lt (by norm_num))
  have safe : ∀ m : ℕ, ∀ c ∈ Nat.toDigits 10 m, isSafe c = true := fun m c hc =>
    isSafe_of_isDigit (Nat.isDigit_of_mem_toDigits (by decide) (by decide) hc)
  cases n with
  | ofNat m =>
    have digits : (toString (Int.ofNat m)).toList = Nat.toDigits 10 m := Nat.toList_repr
    have bound := small m (by simp only [Int.ofNat_eq_natCast] at high; omega)
    rw [digits]
    refine ⟨isNonzero_of_isPositive (isPositive_toDigits ?_), safeValue_of (by omega) (safe m)⟩
    simp only [Int.ofNat_eq_natCast] at nonzero
    omega
  | negSucc m =>
    have digits : (toString (Int.negSucc m)).toList = '-' :: Nat.toDigits 10 (m + 1) := by
      show ("-" ++ Nat.repr (m + 1)).toList = _
      rw [String.toList_append, Nat.toList_repr]
      rfl
    have bound := small (m + 1) (by rw [Int.negSucc_eq] at low; omega)
    rw [digits]
    refine ⟨isPositive_toDigits (Nat.succ_pos m), safeValue_of ?_ fun c hc => ?_⟩
    · rw [List.length_cons]
      omega
    · rcases List.mem_cons.mp hc with rfl | hc
      · decide
      · exact safe (m + 1) c hc

end

/-! ## Stages and their categories -/

/-- A failure at the stage has a category of the stage. -/
def StageSound {α : Type} (result : Except (Stage × Raised) α) : Prop :=
  ∀ stage raised, result = .error (stage, raised) → raised ≠ .uncaught →
    validCategory (categoryOf stage raised) stage.text = true

section
variable {α β : Type}

theorem StageSound.ok (a : α) : StageSound (.ok a) := fun _ _ h => by cases h

theorem StageSound.bind {x : Except (Stage × Raised) α} {f : α → Except (Stage × Raised) β}
    (first : StageSound x) (next : ∀ a, StageSound (f a)) : StageSound (x >>= f) := by
  intro stage raised h
  cases x with
  | error e =>
    cases h
    exact first stage raised rfl
  | ok a => exact next a stage raised h

/-- What is no `Failed` gets the stage's own category. -/
theorem validCategory_of_not_failed (stage : Stage) {raised : Raised}
    (h : ∀ category, raised ≠ .failed category) :
    validCategory (categoryOf stage raised) stage.text = true := by
  have own : validCategory (stageCategory stage) stage.text = true := by
    cases stage <;> decide
  have interrupted : validCategory "interrupted" stage.text = true := by
    cases stage <;> decide
  cases raised with
  | failed category => exact absurd rfl (h category)
  | interrupted => exact interrupted
  | _ => exact own

/-- A stage whose `Failed`s are of its own. -/
theorem stageSound_atStage {stage : Stage} {result : Except Raised α}
    (own : ∀ category, result = .error (.failed category) →
      validCategory category.text stage.text = true) : StageSound (atStage stage result) := by
  intro stage' raised h _
  cases result with
  | ok a => cases h
  | error raised' =>
    cases h
    by_cases failed : ∃ category, raised = .failed category
    · obtain ⟨category, rfl⟩ := failed
      exact own category rfl
    · exact validCategory_of_not_failed stage fun category same => failed ⟨category, same⟩

theorem stageSound_failIf {stage : Stage} {condition : Prop} [Decidable condition]
    {category : Category} (own : validCategory category.text stage.text = true) :
    StageSound (atStage stage (failIf condition category)) := by
  refine stageSound_atStage fun other h => ?_
  unfold failIf at h
  split_ifs at h
  cases h
  exact own

theorem stageSound_run (stage : Stage) (command : Command) :
    StageSound (atStage stage command.run) := by
  refine stageSound_atStage fun category h => ?_
  have supervised : category = .supervisionFailed ∨ category = .commandOutputInvalid := by
    unfold Command.run at h
    split at h
    · cases h
    · cases h
    · cases h
    · cases h
      exact .inl rfl
    · split_ifs at h
      · cases h
      · split at h
        · cases h
        · split_ifs at h
          cases h
          exact .inr rfl
  rcases supervised with rfl | rfl <;> cases stage <;> decide

theorem stageSound_reading (stage : Stage) (reading : Reading) :
    StageSound (atStage stage reading.result) := by
  refine stageSound_atStage fun category h => ?_
  cases reading <;> cases h

variable {L : Library}

theorem perform_stageSound (a : Attempt) : StageSound (perform L a) := by
  unfold perform
  refine .bind (stageSound_failIf (by decide)) fun _ => ?_
  refine .bind (stageSound_atStage fun category h => ?_) fun _ => ?_
  · have own : category = .configurationInvalid := by
      unfold minimumBytes at h
      split at h
      · cases h
        rfl
      · split_ifs at h
        cases h
        rfl
    subst own
    decide
  refine .bind (stageSound_run _ _) fun _ => ?_
  refine .bind (stageSound_reading _ _) fun _ => ?_
  refine .bind (stageSound_atStage fun category h => ?_) fun _ => ?_
  · generalize a.validate = reading at h
    cases reading <;> cases h
    decide
  refine .bind (stageSound_failIf (by decide)) fun _ => ?_
  refine .bind (stageSound_failIf (by decide)) fun _ => ?_
  refine .bind (stageSound_reading _ _) fun _ => ?_
  refine .bind (stageSound_run _ _) fun uploaded => ?_
  refine .bind (stageSound_atStage fun category h => ?_) fun _ => ?_
  · have own : category = .uploadUnversioned ∨ category = .uploadChecksumMismatch := by
      unfold uploadedVersion failIf at h
      split at h
      · next version remote =>
        by_cases h1 : version ∈ ["None", "null", ""]
        · rw [if_pos h1] at h
          cases h
          exact .inl rfl
        · by_cases h2 : remote ≠ L.base64 a.archive
          · rw [if_neg h1, if_pos h2] at h
            cases h
            exact .inr rfl
          · rw [if_neg h1, if_neg h2] at h
            cases h
      · cases h
        exact .inl rfl
    rcases own with rfl | rfl <;> decide
  refine .bind (stageSound_run _ _) fun verified => ?_
  refine .bind (stageSound_failIf (by decide)) fun _ => ?_
  refine .bind (stageSound_atStage fun category h => ?_) fun _ => .ok _
  unfold checkpoint at h
  split_ifs at h
  cases h

theorem performed_stageSound (a : Attempt) : StageSound (performed L a) := by
  intro stage raised h caught
  rw [performed] at h
  by_cases unmade : a.workDir = false
  · rw [if_pos unmade] at h
    cases h
    decide
  · rw [if_neg unmade] at h
    cases outcome : perform L a with
    | ok version =>
      rw [outcome] at h
      dsimp only at h
      split_ifs at h
      cases h
      decide
    | error failure =>
      rw [outcome] at h
      dsimp only at h
      split_ifs at h
      · cases h
        exact perform_stageSound a _ _ outcome caught
      · cases h
        exact validCategory_of_not_failed _ fun _ same => by cases same

end

/-! ## The records pass their schemas -/

/-- What an attempt's identifier and clock are: a `uuid4`, and readings that advance. -/
structure Attempt.Lawful (a : Attempt) : Prop where
  uuid : canonicalUuid a.attemptId = true
  started : minInstant ≤ a.attemptedAt
  advancing : a.attemptedAt < a.finishedAt
  ended : a.finishedAt < endInstant

/-- The version an upload returns is of the characters a state file admits. -/
def Attempt.VersionSafe (a : Attempt) : Prop :=
  ∀ version remote, a.upload.run = .ok [version, remote] → safeValue version.toList = true

section
variable {α β ε : Type}

theorem bind_ok {x : Except ε α} {f : α → Except ε β} {b : β} (h : x >>= f = .ok b) :
    ∃ a, x = .ok a ∧ f a = .ok b := by
  cases x with
  | error e => cases h
  | ok a => exact ⟨a, rfl, h⟩

theorem atStage_ok {stage : Stage} {result : Except Raised α} {a : α}
    (h : atStage stage result = .ok a) : result = .ok a := by
  cases result with
  | error raised => cases h
  | ok b => cases h; rfl

theorem failIf_ok {condition : Prop} [Decidable condition] {category : Category}
    (h : failIf condition category = .ok ()) : ¬ condition := by
  intro hc
  rw [failIf, if_pos hc] at h
  cases h

end

/-- The upload was verified: the store returned the version with the archive's checksum, and then
the archive's size and both its digests. -/
structure Verified (L : Library) (a : Attempt) (version : String) : Prop where
  uploaded : a.upload.run = .ok [version, L.base64 a.archive]
  named : version ∉ ["None", "null", ""]
  headed : a.verify.run = .ok [toString a.archive.length, L.base64 a.archive, L.hex a.archive]
  complete : completeDump (L.gunzip a.archive)

section
variable {L : Library} {a : Attempt} {version : String}

/-- `perform` returns the version of a verified upload. -/
theorem verified_of_perform (h : perform L a = .ok version) : Verified L a version := by
  unfold perform at h
  obtain ⟨_, -, h⟩ := bind_ok h
  obtain ⟨_, -, h⟩ := bind_ok h
  obtain ⟨_, -, h⟩ := bind_ok h
  obtain ⟨_, -, h⟩ := bind_ok h
  obtain ⟨_, -, h⟩ := bind_ok h
  obtain ⟨_, -, h⟩ := bind_ok h
  obtain ⟨_, content, h⟩ := bind_ok h
  obtain ⟨_, -, h⟩ := bind_ok h
  obtain ⟨uploaded, put, h⟩ := bind_ok h
  obtain ⟨version', named, h⟩ := bind_ok h
  obtain ⟨verified, head, h⟩ := bind_ok h
  obtain ⟨_, same, h⟩ := bind_ok h
  obtain ⟨_, -, h⟩ := bind_ok h
  cases h
  have head := atStage_ok head
  have put := atStage_ok put
  have named := atStage_ok named
  have same := not_not.mp (failIf_ok (atStage_ok same))
  have content := not_not.mp (failIf_ok (atStage_ok content))
  unfold uploadedVersion at named
  split at named
  · next version' remote =>
    obtain ⟨_, notNone, named⟩ := bind_ok named
    obtain ⟨_, checksum, named⟩ := bind_ok named
    cases named
    have checksum := not_not.mp (failIf_ok checksum)
    exact ⟨by rw [put, checksum], failIf_ok notNone, by rw [head, same], content⟩
  · cases named

theorem verified_of_performed (h : performed L a = .ok version) : Verified L a version := by
  rw [performed] at h
  by_cases unmade : a.workDir = false
  · rw [if_pos unmade] at h
    cases h
  · rw [if_neg unmade] at h
    cases outcome : perform L a with
    | error failure =>
      rw [outcome] at h
      cases h
    | ok version' =>
      rw [outcome] at h
      dsimp only at h
      split_ifs at h
      cases h
      exact verified_of_perform outcome

/-- The object of an attempt. -/
def objectKey (a : Attempt) : String := "postgres/" ++ a.attemptId ++ ".sql.gz"

theorem Attempt.Lawful.ranges (lawful : a.Lawful) : a.attemptedAt < endInstant ∧
    minInstant ≤ a.finishedAt :=
  ⟨lawful.advancing.trans lawful.ended, lawful.started.trans lawful.advancing.le⟩

/-- The entries every record of an attempt starts with are safe. -/
theorem safe_identity (lawful : a.Lawful) :
    ∀ entry ∈ identityOf a, safeValue entry.2.toList = true := by
  obtain ⟨length, safe⟩ := canonicalUuid_safe lawful.uuid
  have key : safeValue (objectKey a).toList = true := by
    have front : ∀ c ∈ "postgres/".toList ++ ".sql.gz".toList, isSafe c = true :=
      List.all_iff_forall_prop.mp (by decide)
    refine safeValue_of ?_ fun c hc => ?_
    · simp only [objectKey, String.toList_append, List.length_append, length]
      decide
    · simp only [objectKey, String.toList_append, List.mem_append] at hc
      rcases hc with (hc | hc) | hc
      · exact front c (List.mem_append_left _ hc)
      · exact safe c hc
      · exact front c (List.mem_append_right _ hc)
  have id : safeValue a.attemptId.toList = true := safeValue_of (by omega) safe
  have at_ : safeValue (isoformat a.attemptedAt).toList = true :=
    safeValue_isoformat lawful.started lawful.ranges.1
  intro entry h
  simp only [identityOf, List.mem_cons, List.not_mem_nil, or_false] at h
  rcases h with rfl | rfl | rfl
  · exact id
  · exact at_
  · exact key

theorem writable_progress (lawful : a.Lawful) : Writable (progressRecord a) := by
  refine ⟨?_, ?_, ?_⟩
  · show ["attempt_id", "attempted_at", "object_key", "started_at", "stage"].Nodup
    decide
  · have : ∀ key ∈ ["attempt_id", "attempted_at", "object_key", "started_at", "stage"],
        key ∈ allowedKeys := by decide
    exact fun entry h => this entry.1 (List.mem_map_of_mem (f := Prod.fst) h)
  · intro entry h
    rcases List.mem_append.mp h with h | h
    · exact safe_identity lawful entry h
    · simp only [List.mem_cons, List.not_mem_nil, or_false] at h
      rcases h with rfl | rfl
      · exact safeValue_isoformat lawful.started lawful.ranges.1
      · decide

theorem writable_success (lawful : a.Lawful) (lib : L.Lawful)
    (safe : safeValue version.toList = true) : Writable (successRecord L a version) := by
  refine ⟨?_, ?_, ?_⟩
  · show ["attempt_id", "attempted_at", "object_key", "outcome", "stage", "category",
      "completed_at", "version_id", "sha256", "size_bytes"].Nodup
    decide
  · have : ∀ key ∈ ["attempt_id", "attempted_at", "object_key", "outcome", "stage", "category",
        "completed_at", "version_id", "sha256", "size_bytes"], key ∈ allowedKeys := by decide
    exact fun entry h => this entry.1 (List.mem_map_of_mem (f := Prod.fst) h)
  · intro entry h
    rcases List.mem_append.mp h with h | h
    · exact safe_identity lawful entry h
    · simp only [List.mem_cons, List.not_mem_nil, or_false] at h
      rcases h with rfl | rfl | rfl | rfl | rfl | rfl | rfl
      · decide
      · decide
      · decide
      · exact safeValue_isoformat lawful.ranges.2 lawful.ended
      · exact safe
      · refine safeValue_of ?_ fun c hc => ?_
        · rw [lib.length_hex]
          decide
        · exact isSafe_of_isHex (List.all_eq_true.mp (lib.all_hex a.archive) c hc)
      · exact safeValue_toString a.archiveFits

theorem isSpace_of_isLineBreak {c : Char} (h : isLineBreak c = true) : isSpace c = true := by
  rw [isLineBreak, decide_eq_true_eq] at h
  simp only [List.mem_cons, List.not_mem_nil, or_false] at h
  rcases h with rfl | rfl | rfl | rfl | rfl | rfl | rfl | rfl | rfl | rfl <;> decide

/-- Words have no line breaks. -/
theorem plain_words {text word : String} (h : word ∈ words text) :
    ∀ c ∈ word.toList, isLineBreak c = false := by
  obtain ⟨chars, hc, rfl⟩ := List.mem_map.mp h
  intro c hw
  rw [String.toList_ofList] at hw
  have plain := plain_of_mem_splitOnP (List.mem_filter.mp hc).1 c hw
  by_contra broken
  rw [isSpace_of_isLineBreak (Bool.of_not_eq_false broken)] at plain
  cases plain

/-- What a command returns are words of its output. -/
theorem words_of_run {command : Command} {result : List String} (h : command.run = .ok result) :
    ∃ text, result = words text := by
  unfold Command.run at h
  split at h
  · cases h
  · cases h
  · cases h
  · cases h
  · split_ifs at h
    split at h
    · cases h
    · split_ifs at h
      cases h
      exact ⟨_, rfl⟩

/-- The record of a verified upload has no line breaks. -/
theorem plain_success (lawful : a.Lawful) (lib : L.Lawful) (verified : Verified L a version) :
    Plain (successRecord L a version) := by
  have unbroken : ∀ text : String, safeValue text.toList = true →
      ∀ c ∈ text.toList, isLineBreak c = false :=
    fun text safe c hc => isLineBreak_of_isSafe ((safe_of_safeValue safe).2 c hc)
  have written : Writable (successRecord L a "") := writable_success lawful lib (by decide)
  intro entry h
  rcases List.mem_append.mp h with h | h
  · have h' : entry ∈ successRecord L a "" := List.mem_append_left _ h
    exact ⟨written.allowed entry h', unbroken _ (written.safe entry h')⟩
  · by_cases own : entry = ("version_id", version)
    · subst own
      obtain ⟨text, split⟩ := words_of_run verified.uploaded
      have allowed : "version_id" ∈ allowedKeys := by decide
      exact ⟨allowed, plain_words (split ▸ List.mem_cons_self)⟩
    · have h' : entry ∈ successRecord L a "" := by
        refine List.mem_append_right _ ?_
        simp only [List.mem_cons, List.not_mem_nil, or_false, own, false_or] at h ⊢
        tauto
      exact ⟨written.allowed entry h', unbroken _ (written.safe entry h')⟩

/-- The exit status of a failure is not zero, and safe. -/
theorem exitText_nonzero (a : Attempt) (raised : Raised) :
    isNonzero (exitText a raised).toList = true ∧
      safeValue (exitText a raised).toList = true := by
  have signalled : isNonzero (toString (if a.stopped ≠ 0 then a.stopped else 1)).toList = true ∧
      safeValue (toString (if a.stopped ≠ 0 then a.stopped else 1)).toList = true := by
    have fits := a.stoppedFits
    split_ifs with h
    · exact exitStatus_text (n := (a.stopped : ℤ)) (by exact_mod_cast h) (by omega) (by omega)
    · decide
  cases raised with
  | calledProcess status nonzero => exact exitStatus_text nonzero status.fits.1 status.fits.2
  | _ => exact signalled

theorem writable_failure (lawful : a.Lawful) (stage : Stage) (raised : Raised) :
    Writable (failureRecord a stage raised) := by
  refine ⟨?_, ?_, ?_⟩
  · show ["attempt_id", "attempted_at", "object_key", "outcome", "stage", "category", "failed_at",
      "exit_status"].Nodup
    decide
  · have : ∀ key ∈ ["attempt_id", "attempted_at", "object_key", "outcome", "stage", "category",
        "failed_at", "exit_status"], key ∈ allowedKeys := by decide
    exact fun entry h => this entry.1 (List.mem_map_of_mem (f := Prod.fst) h)
  · intro entry h
    rcases List.mem_append.mp h with h | h
    · exact safe_identity lawful entry h
    · simp only [List.mem_cons, List.not_mem_nil, or_false] at h
      rcases h with rfl | rfl | rfl | rfl | rfl
      · decide
      · show safeValue stage.text.toList = true
        cases stage <;> decide
      · show safeValue (categoryOf stage raised).toList = true
        have own : safeValue (stageCategory stage).toList = true := by
          cases stage <;> decide
        have interrupted : safeValue "interrupted".toList = true := by decide
        cases raised with
        | failed category =>
          have named : safeValue category.text.toList = true := by
            cases category <;> decide
          exact named
        | interrupted => exact interrupted
        | _ => exact own
      · exact safeValue_isoformat lawful.ranges.2 lawful.ended
      · exact (exitText_nonzero a raised).2

/-- The object key of an attempt passes its schema. -/
theorem objectKey_shaped (a : Attempt) :
    "postgres/".toList.isPrefixOf (objectKey a).toList = true ∧
      ".sql.gz".toList.isSuffixOf (objectKey a).toList = true := by
  rw [List.isPrefixOf_iff_prefix, List.isSuffixOf_iff_suffix]
  simp only [objectKey, String.toList_append, List.append_assoc]
  exact ⟨List.prefix_append _ _, List.suffix_append_of_suffix (List.suffix_append _ _)⟩

/-- What the readers take from the terminal record of an attempt. -/
structure Terminal (a : Attempt) (success : Bool) (record : Record) : Prop where
  writable : Writable record
  id : record.get "attempt_id" = a.attemptId
  key : record.get "object_key" = objectKey a
  attempted : parseTimestamp (record.get "attempted_at") = some a.attemptedAt
  outcome : record.get "outcome" = if success then "success" else "failure"
  finished : parseTimestamp (record.get (if success then "completed_at" else "failed_at")) =
    some a.finishedAt
  ended : terminalAt record = some a.finishedAt
  sound : ∀ now, a.finishedAt ≤ now → ∀ kind,
    kind = .attempt ∨ kind = (if success then .success else .failure) →
      recordProblem record kind now = none

/-- The conditions before the times, of a record with an attempt's own identity. -/
theorem wellShaped_of {record : Record} {kind : Kind} (lawful : a.Lawful)
    (some : record ≠ []) (id : record.get "attempt_id" = a.attemptId)
    (key : record.get "object_key" = objectKey a) (stage : record.get "stage" ∈ stages)
    (outcome : kind = .progress ∨ record.get "outcome" ∈ ["success", "failure"])
    (ofSuccess : kind = .success → record.get "outcome" = "success")
    (ofFailure : kind = .failure → record.get "outcome" = "failure") :
    wellShaped record kind = true := by
  have shaped := objectKey_shaped a
  have nonempty : record.isEmpty = false := by
    rw [List.isEmpty_eq_false_iff]
    exact some
  simp only [wellShaped, nonempty, id, key, lawful.uuid, shaped, stage, Bool.not_false,
    Bool.and_true, Bool.true_and, decide_true, Bool.or_eq_true, Bool.and_eq_true,
    decide_eq_true_eq]
  exact ⟨⟨outcome, ofSuccess⟩, ofFailure⟩

/-- The in-progress record passes its schema from the start of its attempt. -/
theorem recordProblem_progress (lawful : a.Lawful) {now : Instant} (h : a.attemptedAt ≤ now) :
    recordProblem (progressRecord a) .progress now = none := by
  have stamp := parseTimestamp_isoformat lawful.started lawful.ranges.1
  have id : (progressRecord a).get "attempt_id" = a.attemptId := by
    simp [progressRecord, identityOf, Record.get]
  have key : (progressRecord a).get "object_key" = objectKey a := by
    simp [progressRecord, identityOf, Record.get, List.lookup_cons, objectKey]
  have stage : (progressRecord a).get "stage" = "configure" := by
    simp [progressRecord, identityOf, Record.get, List.lookup_cons, Stage.text]
  have attempted : (progressRecord a).get "attempted_at" = isoformat a.attemptedAt := by
    simp [progressRecord, identityOf, Record.get, List.lookup_cons]
  have started : (progressRecord a).get "started_at" = isoformat a.attemptedAt := by
    simp [progressRecord, identityOf, Record.get, List.lookup_cons]
  have shaped : wellShaped (progressRecord a) .progress = true :=
    wellShaped_of lawful (by simp [progressRecord, identityOf]) id key (by rw [stage]; decide)
      (.inl rfl) (fun h => by cases h) (fun h => by cases h)
  have fields : hasFields (progressRecord a) (requiredFields .progress
      ((progressRecord a).get "outcome") "started_at") = true := by
    simp [hasFields, progressRecord, identityOf, requiredFields]
  have inTime : ¬ (now < a.attemptedAt ∨ now < a.attemptedAt) := by
    rw [or_self, not_lt]
    exact h
  rw [recordProblem]
  simp only [shaped, finishField, attempted, started, stamp, inTime, fields, if_true, if_false,
    Bool.true_eq_false, lt_irrefl, ne_eq, not_true_eq_false, false_and]

/-- An archive that holds a complete dump is not empty. -/
theorem archive_ne_nil (lib : L.Lawful) (complete : completeDump (L.gunzip a.archive)) :
    a.archive ≠ [] := by
  intro empty
  rw [empty, lib.gunzip_nil] at complete
  exact absurd (List.infix_nil.mp (by simpa using complete.1)) (by decide)

/-- A record whose conditions on its own fields hold has no problem once it has ended. -/
theorem recordProblem_of {record : Record} {kind : Kind} {now : Instant} (lawful : a.Lawful)
    (late : a.finishedAt ≤ now)
    (shaped : wellShaped record kind = true)
    (attempted : parseTimestamp (record.get "attempted_at") = some a.attemptedAt)
    (finished : parseTimestamp (record.get (finishField kind (record.get "outcome"))) =
      some a.finishedAt)
    (own : validOutcome record = true)
    (fields : hasFields record (requiredFields kind (record.get "outcome")
      (finishField kind (record.get "outcome"))) = true) :
    recordProblem record kind now = none := by
  have order := lawful.advancing
  have inTime : ¬ (now < a.attemptedAt ∨ now < a.finishedAt) := by
    rw [not_or, not_lt, not_lt]
    exact ⟨order.le.trans late, late⟩
  have later : ¬ a.finishedAt < a.attemptedAt := not_lt.mpr order.le
  rw [recordProblem]
  simp only [shaped, attempted, finished, inTime, later, own, fields, if_true, if_false,
    Bool.true_eq_false, and_false]

theorem terminal_success (lawful : a.Lawful) (lib : L.Lawful) (verified : Verified L a version)
    (safe : safeValue version.toList = true) : Terminal a true (successRecord L a version) := by
  have attempted := parseTimestamp_isoformat lawful.started lawful.ranges.1
  have finished := parseTimestamp_isoformat lawful.ranges.2 lawful.ended
  have get : ∀ field value, (successRecord L a version).lookup field = some value →
      (successRecord L a version).get field = value := by
    intro field value h
    rw [Record.get, h]
    rfl
  have id := get "attempt_id" a.attemptId (by simp [successRecord, identityOf])
  have key := get "object_key" (objectKey a) (by
    simp [successRecord, identityOf, List.lookup_cons, objectKey])
  have stage := get "stage" "record" (by simp [successRecord, identityOf, List.lookup_cons])
  have category := get "category" "none" (by simp [successRecord, identityOf, List.lookup_cons])
  have attemptedAt := get "attempted_at" (isoformat a.attemptedAt) (by
    simp [successRecord, identityOf, List.lookup_cons])
  have outcome := get "outcome" "success" (by simp [successRecord, identityOf, List.lookup_cons])
  have completed := get "completed_at" (isoformat a.finishedAt) (by
    simp [successRecord, identityOf, List.lookup_cons])
  have versionId := get "version_id" version (by simp [successRecord, identityOf, List.lookup_cons])
  have sha := get "sha256" (L.hex a.archive) (by simp [successRecord, identityOf, List.lookup_cons])
  have size := get "size_bytes" (toString a.archive.length) (by
    simp [successRecord, identityOf, List.lookup_cons])
  have notEmpty : isoformat a.finishedAt ≠ "" := by
    intro h
    rw [h] at finished
    cases finished
  have positive : isPositive (toString a.archive.length).toList = true := by
    have digits : (toString a.archive.length).toList = Nat.toDigits 10 a.archive.length :=
      Nat.toList_repr
    rw [digits]
    exact isPositive_toDigits (List.length_pos_of_ne_nil (archive_ne_nil lib verified.complete))
  have named : version ∉ ["", "None", "null"] := by
    have := verified.named
    simp only [List.mem_cons, List.not_mem_nil, or_false, not_or] at this ⊢
    exact ⟨this.2.2, this.1, this.2.1⟩
  have own : validOutcome (successRecord L a version) = true := by
    simp only [validOutcome, outcome, stage, category, sha, size, versionId, lib.length_hex,
      lib.all_hex, positive, named, if_true, decide_true, decide_false, Bool.and_self, Bool.not_false]
  have ended : terminalAt (successRecord L a version) = some a.finishedAt := by
    rw [terminalAt, completed, if_pos notEmpty, finished]
  refine ⟨writable_success lawful lib safe, id, key, by rw [attemptedAt, attempted], outcome,
    by rw [if_pos rfl, completed, finished], ended, fun now late kind ofKind => ?_⟩
  have shaped : wellShaped (successRecord L a version) kind = true :=
    wellShaped_of lawful (by simp [successRecord, identityOf]) id key (by rw [stage]; decide)
      (.inr (by rw [outcome]; decide)) (fun _ => outcome) (fun h => by
        rcases ofKind with rfl | rfl <;> cases h)
  have field : finishField kind ((successRecord L a version).get "outcome") = "completed_at" := by
    rw [outcome]
    rcases ofKind with rfl | rfl <;> rfl
  refine recordProblem_of lawful late shaped (by rw [attemptedAt, attempted])
    (by rw [field, completed, finished]) own ?_
  rw [field, outcome]
  rcases ofKind with rfl | rfl <;>
    simp [hasFields, successRecord, identityOf, requiredFields]

theorem terminal_failure (lawful : a.Lawful) {stage : Stage} {raised : Raised}
    (sound : validCategory (categoryOf stage raised) stage.text = true) :
    Terminal a false (failureRecord a stage raised) := by
  have attempted := parseTimestamp_isoformat lawful.started lawful.ranges.1
  have finished := parseTimestamp_isoformat lawful.ranges.2 lawful.ended
  have get : ∀ field value, (failureRecord a stage raised).lookup field = some value →
      (failureRecord a stage raised).get field = value := by
    intro field value h
    rw [Record.get, h]
    rfl
  have id := get "attempt_id" a.attemptId (by simp [failureRecord, identityOf])
  have key := get "object_key" (objectKey a) (by
    simp [failureRecord, identityOf, List.lookup_cons, objectKey])
  have stageText := get "stage" stage.text (by simp [failureRecord, identityOf, List.lookup_cons])
  have category := get "category" (categoryOf stage raised) (by
    simp [failureRecord, identityOf, List.lookup_cons])
  have attemptedAt := get "attempted_at" (isoformat a.attemptedAt) (by
    simp [failureRecord, identityOf, List.lookup_cons])
  have outcome := get "outcome" "failure" (by simp [failureRecord, identityOf, List.lookup_cons])
  have failed := get "failed_at" (isoformat a.finishedAt) (by
    simp [failureRecord, identityOf, List.lookup_cons])
  have exit_ := get "exit_status" (exitText a raised) (by
    simp [failureRecord, identityOf, List.lookup_cons])
  have absent : (failureRecord a stage raised).get "completed_at" = "" := by
    simp [failureRecord, identityOf, Record.get, List.lookup_cons]
  have own : validOutcome (failureRecord a stage raised) = true := by
    have failedSo : ("failure" : String) ≠ "success" := by decide
    simp only [validOutcome, outcome, failedSo, if_false, category, stageText, sound, exit_,
      (exitText_nonzero a raised).1, Bool.and_self]
  have ended : terminalAt (failureRecord a stage raised) = some a.finishedAt := by
    rw [terminalAt, absent, if_neg (by decide), failed, finished]
  have known : stage.text ∈ stages := by cases stage <;> decide
  refine ⟨writable_failure lawful stage raised, id, key, by rw [attemptedAt, attempted], outcome,
    by rw [if_neg (by decide), failed, finished], ended, fun now late kind ofKind => ?_⟩
  have shaped : wellShaped (failureRecord a stage raised) kind = true :=
    wellShaped_of lawful (by simp [failureRecord, identityOf]) id key (by rw [stageText]; exact known)
      (.inr (by rw [outcome]; decide)) (fun h => by
        rcases ofKind with rfl | rfl <;> cases h) (fun _ => outcome)
  have field : finishField kind ((failureRecord a stage raised).get "outcome") = "failed_at" := by
    rw [outcome]
    rcases ofKind with rfl | rfl <;> rfl
  refine recordProblem_of lawful late shaped (by rw [attemptedAt, attempted])
    (by rw [field, failed, finished]) own ?_
  rw [field, outcome]
  rcases ofKind with rfl | rfl <;>
    simp [hasFields, failureRecord, identityOf, requiredFields]

/-- The terminal record of an attempt, where it reaches one. -/
theorem terminal_of (lawful : a.Lawful) (lib : L.Lawful) (safe : a.VersionSafe) {success : Bool}
    {record : Record} (h : terminal L a = some (success, record)) : Terminal a success record := by
  rw [terminal] at h
  split at h
  · next version performed =>
    cases h
    have verified := verified_of_performed performed
    exact terminal_success lawful lib verified (safe version _ verified.uploaded)
  · cases h
  · next stage raised caught performed =>
    cases h
    exact terminal_failure lawful (performed_stageSound a stage raised performed caught)

end

end TradeRecommender.Operations
