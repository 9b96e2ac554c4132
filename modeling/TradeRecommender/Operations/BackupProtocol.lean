import TradeRecommender.Operations.BackupChronicle

/-!
# The backup protocol

Every run of attempts, each of which succeeds, fails, is interrupted, or is killed between any two
of its durable writes.

1. reachable hosts;
2. what one event keeps, whatever became of the attempts before it;
3. what a run without a killed or unresolved attempt keeps;
4. the verdicts on every reachable host.
-/

namespace TradeRecommender.Operations

open Py Civil

/-! ## Reachable hosts -/

/-- What may happen next: an attempt starts later than everything before it, under an identifier
of its own. -/
def Admissible (h : Host) : Event → Prop
  | .start a => a.Lawful ∧ h.clock < a.attemptedAt ∧ ∀ b ∈ h.begun, b.attemptId ≠ a.attemptId
  | .advance => True
  | .kill => True

/-- The hosts of all runs, from a directory without state files. -/
inductive Reachable (L : Library) : Host → Prop
  | empty (marker : Option Instant) (clock : Instant) :
      Reachable L ⟨⟨none, none, none, none, marker⟩, .idle, clock, [], [], false⟩
  | step {h : Host} {event : Event} : Reachable L h → Admissible h event →
      Reachable L (step L h event)

/-- The attempt that holds the lock. -/
def Phase.attempt : Phase → Option Attempt
  | .idle => none
  | .running a => some a
  | .committed a _ _ => some a
  | .published a _ _ => some a

/-- The record a phase committed. -/
def Phase.record : Phase → Option (Attempt × Bool × Record)
  | .committed a success record => some (a, success, record)
  | .published a success record => some (a, success, record)
  | _ => none

/-! ## What one event keeps -/

/-- What holds on every host: the attempt that holds the lock has its own in-progress record in
place, without one the record of an earlier attempt is in place just if that is unresolved, and
what is published is of verified uploads. -/
structure Sound (L : Library) (h : Host) : Prop where
  lawful : ∀ a ∈ h.begun, a.Lawful
  began : ∀ a, h.phase.attempt = some a → a ∈ h.begun
  progress : ∀ a, h.phase.attempt = some a →
    h.directory.inProgress = some (keyedText (progressRecord a))
  resolved : h.phase = .idle → h.directory.inProgress.isSome = h.unresolved
  active : ∀ a, h.phase.attempt = some a → h.unresolved = false
  committed : ∀ a success record, h.phase.record = some (a, success, record) →
    terminal L a = some (success, record)
  published : ∀ record ∈ h.publications, ∃ a ∈ h.begun, ∃ version,
    Verified L a version ∧ record = successRecord L a version
  latest : h.directory.lastSuccess = h.publications.head?.map keyedText

section
variable {L : Library} {h : Host} {a : Attempt} {success : Bool} {record : Record}

/-- A terminal record that is a success is of a verified upload. -/
theorem verified_of_terminal (ended : terminal L a = some (true, record)) :
    ∃ version, Verified L a version ∧ record = successRecord L a version := by
  rw [terminal] at ended
  split at ended
  · next version performed =>
    cases ended
    exact ⟨version, verified_of_performed performed, rfl⟩
  · cases ended
  · cases ended

theorem ownProgress_self (a : Attempt) : ownProgress a (keyedText (progressRecord a)) = true := by
  rw [ownProgress, decide_eq_true_eq]
  refine List.IsPrefix.isInfix ⟨(progressRecord a).tail.flatMap keyedLine, ?_⟩
  rw [keyedText, String.toList_ofList]
  simp [progressRecord, identityOf, keyedLine]

/-! ### What each durable write can do -/

/-- A host with an attempt begun. -/
def Host.begin (h : Host) (a : Attempt) (file : Option String) : Host :=
  { h with
    directory := { h.directory with inProgress := file }
    clock := a.attemptedAt
    begun := a :: h.begun }

/-- A host with a terminal record committed. -/
def Host.commit (h : Host) (a : Attempt) (file : Option String) : Host :=
  { h with
    directory := { h.directory with lastAttempt := file }
    clock := a.finishedAt }

/-- A host with a terminal record published. -/
def Host.show (h : Host) (success : Bool) (record : Record) : Host :=
  if success then
    { h with
      directory := { h.directory with lastSuccess := some (keyedText record) }
      publications := record :: h.publications }
  else { h with directory := { h.directory with lastFailure := some (keyedText record) } }

theorem start_cases (h : Host) (a : Attempt) :
    start h a = h ∨
    (h.phase = .idle ∧ h.directory.inProgress = none ∧
      (start h a = h.begin a none ∨
        start h a = (h.begin a (some (keyedText (progressRecord a)))).leave ∨
        start h a =
          { h.begin a (some (keyedText (progressRecord a))) with phase := .running a })) := by
  rw [start]
  split
  · next idle =>
    by_cases held : a.ready = false ∨ h.directory.inProgress.isSome
    · exact .inl (if_pos held)
    · rw [if_neg held]
      rw [not_or, Bool.not_eq_true, Option.isSome_eq_false_iff, Option.isNone_iff_eq_none] at held
      refine .inr ⟨idle, held.2, ?_⟩
      cases a.beginWrite with
      | done => exact .inr (.inr rfl)
      | refused => exact .inl rfl
      | unreported => exact .inr (.inl rfl)
  · exact .inl rfl

theorem commit_cases (L : Library) (h : Host) (a : Attempt) :
    commit L h a = h.leave ∨
    ∃ success record, terminal L a = some (success, record) ∧
      ((∃ file, commit L h a = (h.commit a file).leave) ∨
        commit L h a =
          { h.commit a (some (keyedText record)) with phase := .committed a success record }) := by
  rw [commit]
  cases ended : terminal L a with
  | none => exact .inl rfl
  | some result =>
    obtain ⟨success, record⟩ := result
    refine .inr ⟨success, record, rfl, ?_⟩
    cases a.commitWrite with
    | done => exact .inr rfl
    | refused => exact .inl ⟨_, rfl⟩
    | unreported => exact .inl ⟨_, rfl⟩

theorem publish_cases (h : Host) (a : Attempt) (success : Bool) (record : Record) :
    publish h a success record = h.leave ∨
    publish h a success record = (h.show success record).leave ∨
    publish h a success record =
      { h.show success record with phase := .published a success record } := by
  rw [publish]
  cases write : a.publishWrite with
  | done => cases success <;> exact .inr (.inr rfl)
  | refused => cases success <;> exact .inl rfl
  | unreported => cases success <;> exact .inr (.inl rfl)

theorem clear_cases {h : Host} {a : Attempt} (success : Bool)
    (own : h.directory.inProgress = some (keyedText (progressRecord a))) :
    clear h a success = h.leave ∨
    ∃ marker, clear h a success =
      { h with
        directory := { h.directory with inProgress := none, marker := marker }
        phase := .idle } := by
  rw [clear]
  by_cases left : a.childLeft = true
  · exact .inl (if_pos left)
  · rw [if_neg left, own]
    dsimp only
    by_cases kept : ownProgress a (keyedText (progressRecord a)) = true ∧ a.unlinked = false
    · exact .inl (if_pos kept)
    · rw [if_neg kept, ownProgress_self]
      exact .inr ⟨_, rfl⟩

/-! ### What each durable write keeps -/

/-- Leaving an attempt unresolved keeps its in-progress record. -/
theorem Sound.leave (sound : Sound L h) (there : h.directory.inProgress.isSome = true) :
    Sound L h.leave where
  lawful := sound.lawful
  began := fun _ none => by cases none
  progress := fun _ none => by cases none
  resolved := fun _ => there
  active := fun _ none => by cases none
  committed := fun _ _ _ none => by cases none
  published := sound.published
  latest := sound.latest

/-- An attempt begun, with its in-progress record in place or without. -/
theorem Sound.begin (sound : Sound L h) (lawful : a.Lawful) :
    (∀ b ∈ (h.begin a none).begun, b.Lawful) ∧
      ∀ record ∈ h.publications, ∃ b ∈ a :: h.begun, ∃ version,
        Verified L b version ∧ record = successRecord L b version := by
  constructor
  · intro b hb
    rcases List.mem_cons.mp hb with rfl | hb
    · exact lawful
    · exact sound.lawful b hb
  · intro record hr
    obtain ⟨b, hb, version⟩ := sound.published record hr
    exact ⟨b, List.mem_cons_of_mem _ hb, version⟩

theorem Sound.start (sound : Sound L h) (lawful : a.Lawful) : Sound L (start h a) := by
  rcases start_cases h a with same | ⟨idle, absent, refused | left | running⟩
  · rw [same]
    exact sound
  all_goals
    obtain ⟨attempts, published⟩ := sound.begin lawful
    have resolved := sound.resolved idle
    rw [absent] at resolved
  · rw [refused]
    have still : (h.begin a none).phase = .idle := idle
    have nobody : ∀ b, (h.begin a none).phase.attempt ≠ some b := by
      rw [still]
      exact fun b none => by cases none
    have nothing : ∀ result, (h.begin a none).phase.record ≠ some result := by
      rw [still]
      exact fun result none => by cases none
    exact
      { lawful := attempts
        began := fun b hb => absurd hb (nobody b)
        progress := fun b hb => absurd hb (nobody b)
        resolved := fun _ => resolved
        active := fun b hb => absurd hb (nobody b)
        committed := fun _ _ _ hr => absurd hr (nothing _)
        published := published
        latest := sound.latest }
  · rw [left]
    exact
      { lawful := attempts
        began := fun _ none => by cases none
        progress := fun _ none => by cases none
        resolved := fun _ => rfl
        active := fun _ none => by cases none
        committed := fun _ _ _ none => by cases none
        published := published
        latest := sound.latest }
  · rw [running]
    exact
      { lawful := attempts
        began := fun b hb => by
          cases hb
          exact List.mem_cons_self
        progress := fun b hb => by
          cases hb
          rfl
        resolved := fun idle => by cases idle
        active := fun _ _ => resolved.symm
        committed := fun _ _ _ none => by cases none
        published := published
        latest := sound.latest }

theorem Sound.commit (sound : Sound L h) (running : h.phase = .running a) :
    Sound L (commit L h a) := by
  have holds : h.phase.attempt = some a := by rw [running]; rfl
  have own := sound.progress a holds
  have there : h.directory.inProgress.isSome = true := by rw [own]; rfl
  rcases commit_cases L h a with left | ⟨success, record, ended, ⟨file, left⟩ | committed⟩
  · rw [left]
    exact sound.leave there
  · rw [left]
    exact
      { lawful := sound.lawful
        began := fun _ none => by cases none
        progress := fun _ none => by cases none
        resolved := fun _ => there
        active := fun _ none => by cases none
        committed := fun _ _ _ none => by cases none
        published := sound.published
        latest := sound.latest }
  · rw [committed]
    exact
      { lawful := sound.lawful
        began := fun b hb => by
          cases hb
          exact sound.began a holds
        progress := fun b hb => by
          cases hb
          exact own
        resolved := fun idle => by cases idle
        active := fun _ _ => sound.active a holds
        committed := fun b s r hr => by
          cases hr
          exact ended
        published := sound.published
        latest := sound.latest }

theorem Host.show_phase : (h.show success record).phase = h.phase := by
  cases success <;> rfl

theorem Host.show_inProgress :
    (h.show success record).directory.inProgress = h.directory.inProgress := by
  cases success <;> rfl

/-- A committed record, published. -/
theorem Sound.show (sound : Sound L h) (committed : h.phase = .committed a success record) :
    Sound L (h.show success record) := by
  have ended := sound.committed a success record (by rw [committed]; rfl)
  have began := sound.began a (by rw [committed]; rfl)
  cases success with
  | false =>
    exact ⟨sound.lawful, sound.began, sound.progress, sound.resolved, sound.active,
      sound.committed, sound.published, sound.latest⟩
  | true =>
    refine ⟨sound.lawful, sound.began, sound.progress, sound.resolved, sound.active,
      sound.committed, fun other ho => ?_, rfl⟩
    rcases List.mem_cons.mp ho with rfl | ho
    · obtain ⟨version, verified, same⟩ := verified_of_terminal ended
      exact ⟨a, began, version, verified, same⟩
    · exact sound.published other ho

theorem Sound.publish (sound : Sound L h) (committed : h.phase = .committed a success record) :
    Sound L (publish h a success record) := by
  have own := sound.progress a (by rw [committed]; rfl)
  have shown := sound.show committed
  have held : (h.show success record).phase = .committed a success record := by
    rw [Host.show_phase, committed]
  have there : (h.show success record).directory.inProgress.isSome = true := by
    rw [Host.show_inProgress, own]
    rfl
  rcases publish_cases h a success record with left | left | published
  · rw [left]
    exact sound.leave (by rw [own]; rfl)
  · rw [left]
    exact shown.leave there
  · rw [published]
    exact
      { lawful := shown.lawful
        began := fun b hb => by
          cases hb
          exact shown.began a (by rw [held]; rfl)
        progress := fun b hb => by
          cases hb
          exact shown.progress a (by rw [held]; rfl)
        resolved := fun idle => by cases idle
        active := fun _ _ => shown.active a (by rw [held]; rfl)
        committed := fun b s r hr => by
          cases hr
          exact shown.committed a success record (by rw [held]; rfl)
        published := shown.published
        latest := shown.latest }

theorem Sound.clear (sound : Sound L h) (published : h.phase = .published a success record) :
    Sound L (clear h a success) := by
  have holds : h.phase.attempt = some a := by rw [published]; rfl
  have own := sound.progress a holds
  rcases clear_cases success own with left | ⟨marker, cleared⟩
  · rw [left]
    exact sound.leave (by rw [own]; rfl)
  · rw [cleared]
    exact
      { lawful := sound.lawful
        began := fun _ none => by cases none
        progress := fun _ none => by cases none
        resolved := fun _ => (sound.active a holds).symm
        active := fun _ none => by cases none
        committed := fun _ _ _ none => by cases none
        published := sound.published
        latest := sound.latest }

theorem Sound.step (sound : Sound L h) {event : Event} (admissible : Admissible h event) :
    Sound L (step L h event) := by
  cases event with
  | start a => exact sound.start admissible.1
  | advance =>
    cases phase : h.phase with
    | idle =>
      rw [show Operations.step L h .advance = h by rw [Operations.step, phase]]
      exact sound
    | running a =>
      rw [show Operations.step L h .advance = Operations.commit L h a by rw [Operations.step, phase]]
      exact sound.commit phase
    | committed a success record =>
      rw [show Operations.step L h .advance = Operations.publish h a success record by
        rw [Operations.step, phase]]
      exact sound.publish phase
    | published a success record =>
      rw [show Operations.step L h .advance = Operations.clear h a success by rw [Operations.step, phase]]
      exact sound.clear phase
  | kill =>
    have killed : ∀ a, h.phase.attempt = some a → Sound L h.leave := by
      intro a holds
      refine sound.leave ?_
      rw [sound.progress a holds]
      rfl
    cases phase : h.phase with
    | idle =>
      rw [show Operations.step L h .kill = h by rw [Operations.step, phase]]
      exact sound
    | running a =>
      rw [show Operations.step L h .kill = h.leave by rw [Operations.step, phase]]
      exact killed a (by rw [phase]; rfl)
    | committed a success record =>
      rw [show Operations.step L h .kill = h.leave by rw [Operations.step, phase]]
      exact killed a (by rw [phase]; rfl)
    | published a success record =>
      rw [show Operations.step L h .kill = h.leave by rw [Operations.step, phase]]
      exact killed a (by rw [phase]; rfl)

theorem Reachable.sound (reachable : Reachable L h) : Sound L h := by
  induction reachable with
  | empty marker clock =>
    exact
      { lawful := fun a h => by cases h
        began := fun _ none => by cases none
        progress := fun _ none => by cases none
        resolved := fun _ => rfl
        active := fun _ none => by cases none
        committed := fun _ _ _ none => by cases none
        published := fun record h => by cases h
        latest := rfl }
  | step _ admissible ih => exact ih.step admissible

end

/-! ## Runs without an unresolved attempt -/

/-- The finished attempts of a run up to the host's clock. -/
structure History (h : Host) (done : List Finished) : Prop where
  chronicle : Chronicle done
  ended : ∀ x ∈ done, x.attempt.finishedAt ≤ h.clock
  begun : ∀ x ∈ done, x.attempt ∈ h.begun

/-- The files that show finished attempts. -/
structure Files (d : Directory) (done : List Finished) : Prop where
  attempt : d.lastAttempt = done.head?.map fun x => keyedText x.record
  success : d.lastSuccess = (latestSuccess done).map fun x => keyedText x.record
  failure : d.lastFailure = (latestFailure done).map fun x => keyedText x.record

/-- The files of a run none of whose attempts was left unresolved, at each phase of the current
attempt.  In between its two records, the last attempt is not yet the last success or failure. -/
def Told (h : Host) : Phase → Prop
  | .idle => ∃ done, History h done ∧ Files h.directory done
  | .running a =>
    ∃ done, History h done ∧ Files h.directory done ∧ Current a done ∧ h.clock = a.attemptedAt
  | .committed a success record =>
    ∃ done, History h (⟨a, success, record⟩ :: done) ∧
      h.directory.lastAttempt = some (keyedText record) ∧
      h.directory.lastSuccess = ((latestSuccess done).map fun x => keyedText x.record) ∧
      h.directory.lastFailure = (latestFailure done).map fun x => keyedText x.record
  | .published a success record =>
    ∃ done, History h (⟨a, success, record⟩ :: done) ∧
      Files h.directory (⟨a, success, record⟩ :: done)

section
variable {L : Library} {h : Host} {a : Attempt} {success : Bool} {record : Record}
  {done : List Finished}

/-- An attempt begins after all that have finished. -/
theorem History.begin (history : History h done) {file : Option String}
    (late : h.clock < a.attemptedAt) : History (h.begin a file) done where
  chronicle := history.chronicle
  ended := fun x hx => (history.ended x hx).trans late.le
  begun := fun x hx => List.mem_cons_of_mem _ (history.begun x hx)

theorem History.current (history : History h done) (lawful : a.Lawful)
    (late : h.clock < a.attemptedAt) (fresh : ∀ b ∈ h.begun, b.attemptId ≠ a.attemptId) :
    Current a done where
  lawful := lawful
  after := fun x hx => (history.ended x hx).trans_lt late
  own := fun x hx => fresh x.attempt (history.begun x hx)

/-- The attempt in progress becomes the latest that finished. -/
theorem History.finish (history : History h done) (current : Current a done)
    (terminal : Terminal a success record) (began : a ∈ h.begun) {file : Option String}
    (started : h.clock ≤ a.finishedAt) :
    History (h.commit a file) (⟨a, success, record⟩ :: done) where
  chronicle :=
    { lawful := by
        intro x hx
        rcases List.mem_cons.mp hx with rfl | hx
        · exact current.lawful
        · exact history.chronicle.lawful x hx
      terminal := by
        intro x hx
        rcases List.mem_cons.mp hx with rfl | hx
        · exact terminal
        · exact history.chronicle.terminal x hx
      ordered := List.pairwise_cons.mpr ⟨current.after, history.chronicle.ordered⟩
      distinct := by
        rw [List.map_cons, List.nodup_cons]
        refine ⟨fun same => ?_, history.chronicle.distinct⟩
        obtain ⟨x, hx, same⟩ := List.mem_map.mp same
        exact current.own x hx same }
  ended := by
    intro x hx
    rcases List.mem_cons.mp hx with rfl | hx
    · exact le_refl _
    · exact (history.ended x hx).trans started
  begun := by
    intro x hx
    rcases List.mem_cons.mp hx with rfl | hx
    · exact began
    · exact history.begun x hx

theorem Told.start (told : Told h h.phase) (lawful : a.Lawful) (late : h.clock < a.attemptedAt)
    (fresh : ∀ b ∈ h.begun, b.attemptId ≠ a.attemptId)
    (resolved : (start h a).unresolved = false) : Told (start h a) (start h a).phase := by
  rcases start_cases h a with same | ⟨idle, absent, refused | left | running⟩
  · rw [same]
    exact told
  · rw [idle] at told
    obtain ⟨done, history, files⟩ := told
    rw [refused, show (h.begin a none).phase = .idle from idle]
    exact ⟨done, history.begin late, files.attempt, files.success, files.failure⟩
  · rw [left] at resolved
    cases resolved
  · rw [idle] at told
    obtain ⟨done, history, files⟩ := told
    rw [running]
    have history' : History (h.begin a (some (keyedText (progressRecord a)))) done :=
      history.begin late
    exact ⟨done, ⟨history'.chronicle, history'.ended, history'.begun⟩,
      ⟨files.attempt, files.success, files.failure⟩, history.current lawful late fresh,
      rfl⟩

theorem Told.commit (told : Told h h.phase) (running : h.phase = .running a)
    (began : a ∈ h.begun) (lib : L.Lawful) (safe : a.VersionSafe)
    (resolved : (commit L h a).unresolved = false) :
    Told (commit L h a) (commit L h a).phase := by
  rw [running] at told
  obtain ⟨done, history, files, current, now⟩ := told
  rcases commit_cases L h a with left | ⟨success, record, ended, ⟨file, left⟩ | committed⟩
  · rw [left] at resolved
    cases resolved
  · rw [left] at resolved
    cases resolved
  · rw [committed]
    have history' : History (h.commit a (some (keyedText record)))
        (⟨a, success, record⟩ :: done) :=
      history.finish current (terminal_of current.lawful lib safe ended) began
        (now.le.trans current.lawful.advancing.le)
    exact ⟨done, ⟨history'.chronicle, history'.ended, history'.begun⟩, rfl, files.success,
      files.failure⟩

theorem Told.publish (told : Told h h.phase) (committed : h.phase = .committed a success record)
    (resolved : (publish h a success record).unresolved = false) :
    Told (publish h a success record) (publish h a success record).phase := by
  rw [committed] at told
  obtain ⟨done, history, attempt, latest, failure⟩ := told
  rcases publish_cases h a success record with left | left | published
  · rw [left] at resolved
    cases resolved
  · rw [left] at resolved
    cases resolved
  · rw [published]
    cases success with
    | true =>
      refine ⟨done, ⟨history.chronicle, history.ended, history.begun⟩, attempt, ?_, ?_⟩
      · rw [latestSuccess_cons (x := ⟨a, true, record⟩) rfl]
        rfl
      · exact failure
    | false =>
      refine ⟨done, ⟨history.chronicle, history.ended, history.begun⟩, attempt, ?_, ?_⟩
      · exact latest
      · rw [latestFailure_cons (x := ⟨a, false, record⟩) rfl]
        rfl

theorem Told.clear (told : Told h h.phase) (published : h.phase = .published a success record)
    (own : h.directory.inProgress = some (keyedText (progressRecord a)))
    (resolved : (clear h a success).unresolved = false) :
    Told (clear h a success) (clear h a success).phase := by
  rw [published] at told
  obtain ⟨done, history, files⟩ := told
  rcases clear_cases success own with left | ⟨marker, cleared⟩
  · rw [left] at resolved
    cases resolved
  · rw [cleared]
    exact ⟨⟨a, success, record⟩ :: done, ⟨history.chronicle, history.ended, history.begun⟩,
      files.attempt, files.success, files.failure⟩

/-- An event leaves what is unresolved so, and forgets no attempt. -/
theorem step_mono (L : Library) (h : Host) (event : Event) :
    ((step L h event).unresolved = false → h.unresolved = false) ∧
      ∀ a ∈ h.begun, a ∈ (step L h event).begun := by
  have same : ∀ h' : Host, h'.unresolved = h.unresolved → h'.begun = h.begun →
      (h'.unresolved = false → h.unresolved = false) ∧ ∀ a ∈ h.begun, a ∈ h'.begun := by
    intro h' unresolved begun
    rw [unresolved, begun]
    exact ⟨id, fun a ha => ha⟩
  have left : ∀ h' : Host, h'.begun = h.begun →
      (h'.leave.unresolved = false → h.unresolved = false) ∧ ∀ a ∈ h.begun, a ∈ h'.leave.begun := by
    intro h' begun
    rw [show h'.leave.begun = h.begun from begun]
    exact ⟨fun resolved => (by cases resolved), fun a ha => ha⟩
  cases event with
  | start a =>
    show ((start h a).unresolved = false → _) ∧ ∀ b ∈ h.begun, b ∈ (start h a).begun
    rcases start_cases h a with kept | ⟨-, -, refused | unreported | running⟩
    · rw [kept]
      exact same h rfl rfl
    · rw [refused]
      exact ⟨id, fun b hb => List.mem_cons_of_mem _ hb⟩
    · rw [unreported]
      exact ⟨fun resolved => (by cases resolved), fun b hb => List.mem_cons_of_mem _ hb⟩
    · rw [running]
      exact ⟨id, fun b hb => List.mem_cons_of_mem _ hb⟩
  | advance =>
    rw [step]
    cases h.phase with
    | idle => exact same h rfl rfl
    | running a =>
      dsimp only
      rcases commit_cases L h a with lost | ⟨success, record, -, ⟨file, lost⟩ | committed⟩
      · rw [lost]
        exact left h rfl
      · rw [lost]
        exact left _ rfl
      · rw [committed]
        exact same _ rfl rfl
    | committed a success record =>
      dsimp only
      have shown : (h.show success record).unresolved = h.unresolved ∧
          (h.show success record).begun = h.begun := by
        cases success <;> exact ⟨rfl, rfl⟩
      rcases publish_cases h a success record with lost | lost | published
      · rw [lost]
        exact left h rfl
      · rw [lost]
        exact left _ shown.2
      · rw [published]
        exact same _ shown.1 shown.2
    | published a success record =>
      dsimp only
      rw [clear]
      split
      · exact left h rfl
      · split
        · exact left h rfl
        · split
          · exact left h rfl
          · exact same _ rfl rfl
  | kill =>
    rw [step]
    cases h.phase with
    | idle => exact same h rfl rfl
    | _ => exact left h rfl

theorem Told.step (told : Told h h.phase) (sound : Sound L h) (lib : L.Lawful) {event : Event}
    (admissible : Admissible h event) (safe : ∀ a ∈ h.begun, a.VersionSafe)
    (resolved : (step L h event).unresolved = false) :
    Told (step L h event) (step L h event).phase := by
  cases event with
  | start a => exact told.start admissible.1 admissible.2.1 admissible.2.2 resolved
  | advance =>
    cases phase : h.phase with
    | idle =>
      rw [show Operations.step L h .advance = h by rw [Operations.step, phase]]
      exact told
    | running a =>
      have began := sound.began a (by rw [phase]; rfl)
      rw [show Operations.step L h .advance = Operations.commit L h a by
        rw [Operations.step, phase]] at resolved ⊢
      exact told.commit phase began lib (safe a began) resolved
    | committed a success record =>
      rw [show Operations.step L h .advance = Operations.publish h a success record by
        rw [Operations.step, phase]] at resolved ⊢
      exact told.publish phase resolved
    | published a success record =>
      rw [show Operations.step L h .advance = Operations.clear h a success by
        rw [Operations.step, phase]] at resolved ⊢
      exact told.clear phase (sound.progress a (by rw [phase]; rfl)) resolved
  | kill =>
    cases phase : h.phase with
    | idle =>
      rw [show Operations.step L h .kill = h by rw [Operations.step, phase]]
      exact told
    | _ =>
      rw [Operations.step, phase] at resolved
      cases resolved

/-- Without a killed or unresolved attempt, the files tell of the attempts that finished. -/
theorem Reachable.told (reachable : Reachable L h) (lib : L.Lawful)
    (resolved : h.unresolved = false) (safe : ∀ a ∈ h.begun, a.VersionSafe) : Told h h.phase := by
  induction reachable with
  | empty marker clock =>
    have nothing : Chronicle [] :=
      ⟨fun _ h => (by cases h), fun _ h => (by cases h), List.Pairwise.nil, List.nodup_nil⟩
    exact ⟨[], ⟨nothing, fun _ h => (by cases h), fun _ h => (by cases h)⟩, rfl, rfl, rfl⟩
  | @step h event before admissible ih =>
    have mono := step_mono L h event
    have safeBefore : ∀ a ∈ h.begun, a.VersionSafe := fun a ha => safe a (mono.2 a ha)
    exact (ih (mono.1 resolved) safeBefore).step before.sound lib admissible safeBefore resolved

end

/-! ## Verdicts on reachable hosts -/

section
variable {L : Library} {h : Host} {a : Attempt} {done : List Finished} {now : Instant}
  {maxAgeHours : ℤ}

/-- The files of finished attempts are read as what they show. -/
theorem readBackupState_files {d : Directory} (current : Option Attempt)
    (files : Files d done) (chronicle : Chronicle done)
    (lawful : ∀ a, current = some a → a.Lawful)
    (progress : d.inProgress = current.map fun a => keyedText (progressRecord a)) :
    ∃ marker, readBackupState d = shown done current marker := by
  have readBack : ∀ found : Option Finished, (∀ x, found = some x → x ∈ done) →
      parseStateFile (found.map fun x => keyedText x.record) = found.map Finished.record := by
    intro found mem
    cases found with
    | none => rfl
    | some x => exact parseStateFile_keyedText (chronicle.terminal x (mem x rfl)).writable
  have attempt : parseStateFile d.lastAttempt = done.head?.map Finished.record := by
    rw [files.attempt]
    exact readBack _ fun x hx => List.mem_of_mem_head? hx
  have success : parseStateFile d.lastSuccess = (latestSuccess done).map Finished.record := by
    rw [files.success]
    exact readBack _ fun x hx => (mem_latestSuccess hx).1
  have failure : parseStateFile d.lastFailure = (latestFailure done).map Finished.record := by
    rw [files.failure]
    exact readBack _ fun x hx => (mem_latestFailure hx).1
  have running : parseStateFile d.inProgress = current.map progressRecord := by
    rw [progress]
    cases current with
    | none => rfl
    | some a => exact parseStateFile_keyedText (writable_progress (lawful a rfl))
  rw [readBackupState, attempt, success, failure, running]
  exact ⟨_, rfl⟩

/-- Between the durable writes of one attempt's end, and only there, the attempt's terminal record
and its in-progress record are both in place. -/
def Phase.ending : Phase → Bool
  | .idle => false
  | .running _ => false
  | .committed _ _ _ => true
  | .published _ _ _ => true

/-- Without a killed or unresolved attempt, and with no attempt at its end, the verdict is
orderly. -/
theorem Reachable.orderly (reachable : Reachable L h) (lib : L.Lawful)
    (resolved : h.unresolved = false) (safe : ∀ a ∈ h.begun, a.VersionSafe)
    (settled : h.phase.ending = false) (late : h.clock ≤ now) :
    (backupAssessment (readBackupState h.directory) now maxAgeHours).2.state ∈ orderly := by
  have told := reachable.told lib resolved safe
  have sound := reachable.sound
  cases phase : h.phase with
  | idle =>
    rw [phase] at told
    obtain ⟨done, history, files⟩ := told
    have absent := sound.resolved phase
    rw [resolved, Option.isSome_eq_false_iff, Option.isNone_iff_eq_none] at absent
    obtain ⟨marker, read⟩ := readBackupState_files none files history.chronicle
      (fun a h => by cases h) absent
    rw [read]
    exact history.chronicle.orderly (fun x hx => (history.ended x hx).trans late)
      (fun a h => by cases h)
  | running a =>
    rw [phase] at told
    obtain ⟨done, history, files, current, started⟩ := told
    obtain ⟨marker, read⟩ := readBackupState_files (some a) files history.chronicle
      (fun b h => by cases h; exact current.lawful) (sound.progress a (by rw [phase]; rfl))
    rw [read]
    refine history.chronicle.orderly (fun x hx => (history.ended x hx).trans late) fun b own => ?_
    cases own
    exact ⟨current, started.symm.le.trans late⟩
  | committed a success record =>
    rw [phase] at settled
    cases settled
  | published a success record =>
    rw [phase] at settled
    cases settled

/-- While a success is published and its attempt not yet ended, the verdict is that it is
uncommitted. -/
theorem Reachable.uncommitted (reachable : Reachable L h) (lib : L.Lawful)
    (resolved : h.unresolved = false) (safe : ∀ a ∈ h.begun, a.VersionSafe) {record : Record}
    (published : h.phase = .published a true record) :
    (backupAssessment (readBackupState h.directory) now maxAgeHours).2.state = .uncommitted := by
  have told := reachable.told lib resolved safe
  rw [published] at told
  obtain ⟨done, history, files⟩ := told
  have lawful := history.chronicle.lawful ⟨a, true, record⟩ List.mem_cons_self
  obtain ⟨marker, read⟩ := readBackupState_files (some a) files history.chronicle
    (fun b h => by cases h; exact lawful) (reachable.sound.progress a (by rw [published]; rfl))
  have same : sameAttempt record (progressRecord a) = true := by
    rw [sameAttempt, (history.chronicle.identified List.mem_cons_self).id,
      (identified_progress lawful).id]
    simp [attemptId_ne_empty lawful]
  have latest : latestSuccess (⟨a, true, record⟩ :: done) = some ⟨a, true, record⟩ :=
    latestSuccess_cons rfl
  have own : successIsUncommitted (shown (⟨a, true, record⟩ :: done) (some a) marker) = true := by
    simp only [successIsUncommitted, shown, latest, Option.map_some]
    exact same
  rw [read, backupAssessment]
  simp only [own, if_true]

/-- Ready means a recent success: that of the success file, or, with no state file at all, that of
the legacy marker. -/
theorem ready_recent {state : BackupState}
    (ready : (backupAssessment state now maxAgeHours).1 = true) :
    (∃ success t, state.lastSuccess = some success ∧
      parseTimestamp (success.get "completed_at") = some t ∧ now - t ≤ maxAgeHours * hour) ∨
    (state.modernStatePresent = false ∧
      ∃ t, state.lastSuccessAt = some t ∧ t ≤ now ∧ now - t ≤ maxAgeHours * hour) := by
  have young : ∀ detail t, (judgeAge detail t now maxAgeHours).1 = true →
      now - t ≤ maxAgeHours * hour := by
    intro detail t h
    rw [judgeAge] at h
    dsimp only at h
    split_ifs at h with old
    exact not_lt.mp old
  rw [backupAssessment] at ready
  dsimp only at ready
  by_cases uncommitted : successIsUncommitted state = true
  · rw [if_pos uncommitted] at ready
    cases ready
  by_cases contradicted : publishedSuccessIsContradicted state = true
  · rw [if_neg uncommitted, if_pos contradicted] at ready
    cases ready
  rw [if_neg uncommitted, if_neg contradicted] at ready
  cases first : firstProblem state now with
  | some problem =>
    rw [first] at ready
    cases ready
  | none =>
    rw [first] at ready
    dsimp only at ready
    cases current : progressProblem state now maxAgeHours with
    | some problem =>
      rw [current] at ready
      cases ready
    | none =>
      rw [current] at ready
      dsimp only at ready
      by_cases modern : state.modernStatePresent = false
      · rw [if_pos modern] at ready
        refine .inr ⟨modern, ?_⟩
        cases marker : state.lastSuccessAt with
        | none =>
          rw [marker] at ready
          cases ready
        | some t =>
          rw [marker] at ready
          dsimp only at ready
          split_ifs at ready with future
          exact ⟨t, rfl, not_lt.mp future, young _ t ready⟩
      · rw [if_neg modern] at ready
        left
        cases coherent : Operations.coherenceProblem state with
        | some problem =>
          rw [coherent] at ready
          cases ready
        | none =>
          rw [coherent] at ready
          dsimp only at ready
          cases completed : state.lastSuccess.bind fun success =>
              parseTimestamp (success.get "completed_at") with
          | none =>
            rw [completed] at ready
            cases ready
          | some t =>
            rw [completed] at ready
            obtain ⟨success, there, read⟩ := Option.bind_eq_some_iff.mp completed
            exact ⟨success, t, there, read, young _ t ready⟩

/-- On every reachable host, ready means that the latest published success is recent; where no
attempt has published or committed anything, the legacy marker is. -/
theorem Reachable.recent (reachable : Reachable L h) (lib : L.Lawful)
    (ready : (backupAssessment (readBackupState h.directory) now maxAgeHours).1 = true) :
    (∃ a ∈ h.begun, ∃ version, Verified L a version ∧
      h.publications.head? = some (successRecord L a version) ∧
      now - a.finishedAt ≤ maxAgeHours * hour) ∨
    (h.publications = [] ∧ ∃ t, h.directory.marker = some t ∧ t ≤ now ∧
      now - t ≤ maxAgeHours * hour) := by
  have sound := reachable.sound
  rcases ready_recent ready with ⟨success, t, there, completed, young⟩ | ⟨legacy, t, at_, past, young⟩
  · left
    have file : parseStateFile h.directory.lastSuccess = some success := there
    rw [sound.latest] at file
    cases head : h.publications.head? with
    | none =>
      rw [head] at file
      cases file
    | some record =>
      rw [head] at file
      obtain ⟨a, began, version, verified, rfl⟩ :=
        sound.published record (List.mem_of_mem_head? head)
      have lawful := sound.lawful a began
      refine ⟨a, began, version, verified, rfl, ?_⟩
      rcases parseStateFile_plain (plain_success lawful lib verified) file with rfl | rfl
      · rw [show Record.get [] "completed_at" = "" from rfl] at completed
        cases completed
      · rw [show (successRecord L a version).get "completed_at" = isoformat a.finishedAt by
          simp [successRecord, identityOf, Record.get, List.lookup_cons],
          parseTimestamp_isoformat lawful.ranges.2 lawful.ended] at completed
        cases completed
        exact young
  · right
    have absent : parseStateFile h.directory.lastSuccess = none ∧
        (readBackupState h.directory).legacyMarkerAt = h.directory.marker := by
      rw [BackupState.modernStatePresent, readBackupState] at legacy
      simp only [Bool.or_eq_false_iff, Option.isSome_eq_false_iff, Option.isNone_iff_eq_none]
        at legacy
      obtain ⟨⟨⟨attempt, success⟩, failure⟩, progress⟩ := legacy
      refine ⟨success, ?_⟩
      rw [readBackupState]
      simp only [attempt, success, failure, progress, Option.isNone_none, Bool.and_self, if_true]
    constructor
    · have file := absent.1
      rw [sound.latest, parseStateFile, Option.map_eq_none_iff, Option.map_eq_none_iff,
        List.head?_eq_none_iff] at file
      exact file
    · refine ⟨t, ?_, past, young⟩
      rw [← absent.2, ← at_, BackupState.lastSuccessAt,
        show (readBackupState h.directory).lastSuccess = none from absent.1]
      rfl

end

/-- What the protocol promises on a host: the success file holds the record of a verified upload, no
attempt begins beside an in-progress record and an unresolved attempt leaves its own, the verdict is
orderly while no attempt is unresolved or at its end, and ready means a recent success. -/
structure Protocol (L : Library) (h : Host) : Prop where
  verified : ∀ text, h.directory.lastSuccess = some text → ∃ a ∈ h.begun, ∃ version,
    Verified L a version ∧ text = keyedText (successRecord L a version)
  blocked : h.directory.inProgress.isSome = true →
    ∀ event, (step L h event).begun = h.begun
  unresolved : h.unresolved = true → h.directory.inProgress.isSome = true
  orderly : h.unresolved = false → h.phase.ending = false → (∀ a ∈ h.begun, a.VersionSafe) →
    ∀ now maxAgeHours, h.clock ≤ now →
      (backupAssessment (readBackupState h.directory) now maxAgeHours).2.state ∈ orderly
  recent : ∀ now maxAgeHours,
    (backupAssessment (readBackupState h.directory) now maxAgeHours).1 = true →
      (∃ a ∈ h.begun, ∃ version, Verified L a version ∧
        h.publications.head? = some (successRecord L a version) ∧
        h.directory.lastSuccess = some (keyedText (successRecord L a version)) ∧
        now - a.finishedAt ≤ maxAgeHours * hour) ∨
      (h.directory.lastSuccess = none ∧ ∃ t, h.directory.marker = some t ∧ t ≤ now ∧
        now - t ≤ maxAgeHours * hour)

section
variable {L : Library} {h : Host}

/-- No event begins an attempt beside an in-progress record. -/
theorem begun_of_inProgress (there : h.directory.inProgress.isSome = true) (event : Event) :
    (step L h event).begun = h.begun := by
  cases event with
  | start a =>
    show (start h a).begun = h.begun
    rcases start_cases h a with same | ⟨-, absent, -⟩
    · rw [same]
    · rw [absent] at there
      cases there
  | advance =>
    rw [step]
    cases h.phase with
    | idle => rfl
    | running a =>
      dsimp only
      rcases commit_cases L h a with left | ⟨success, record, -, ⟨file, left⟩ | committed⟩
      · rw [left]
        rfl
      · rw [left]
        rfl
      · rw [committed]
        rfl
    | committed a success record =>
      dsimp only
      have shown : (h.show success record).begun = h.begun := by
        cases success <;> rfl
      rcases publish_cases h a success record with left | left | published
      · rw [left]
        rfl
      · rw [left]
        exact shown
      · rw [published]
        exact shown
    | published a success record =>
      dsimp only
      rw [clear]
      split
      · rfl
      · split
        · rfl
        · split <;> rfl
  | kill =>
    rw [step]
    cases h.phase <;> rfl

/-- The backup protocol, on the hosts of all runs. -/
theorem protocol (lib : L.Lawful) (reachable : Reachable L h) : Protocol L h where
  verified := by
    intro text file
    have sound := reachable.sound
    rw [sound.latest] at file
    obtain ⟨record, head, rfl⟩ := Option.map_eq_some_iff.mp file
    obtain ⟨a, began, version, verified, rfl⟩ :=
      sound.published record (List.mem_of_mem_head? head)
    exact ⟨a, began, version, verified, rfl⟩
  blocked := fun there event => begun_of_inProgress there event
  unresolved := by
    intro unresolved
    have sound := reachable.sound
    cases holder : h.phase.attempt with
    | none =>
      have idle : h.phase = .idle := by
        cases phase : h.phase with
        | idle => rfl
        | _ =>
          rw [phase] at holder
          cases holder
      rw [sound.resolved idle, unresolved]
    | some a =>
      rw [sound.active a holder] at unresolved
      cases unresolved
  orderly := fun resolved settled safe now maxAgeHours late =>
    reachable.orderly lib resolved safe settled late
  recent := by
    intro now maxAgeHours ready
    have latest := reachable.sound.latest
    rcases reachable.recent lib ready with
      ⟨a, began, version, verified, head, young⟩ | ⟨nothing, t, marker, past, young⟩
    · rw [head] at latest
      exact .inl ⟨a, began, version, verified, head, latest, young⟩
    · rw [nothing] at latest
      exact .inr ⟨latest, t, marker, past, young⟩

end

/-! ### One backup -/

/-- A dump of one line, compressed. -/
def sampleArchive : Bytes :=
  [31, 139, 8, 0, 0, 0, 0, 0, 2, 3, 211, 213, 85, 8, 200, 47, 46, 73, 47, 74, 13, 14, 244, 81, 72,
    73, 44, 73, 76, 74, 44, 78, 85, 72, 41, 205, 45, 80, 72, 206, 207, 45, 200, 73, 45, 73, 229, 2,
    0, 24, 190, 120, 7, 37, 0, 0, 0]

/-- The digests of the sample archive, and its content. -/
def sampleLibrary : Library where
  hex := fun _ => "277ed9b9fcdc307e5ba69155faa123d5a30e230e368100955ee5dba1c6b73e87"
  base64 := fun _ => "J37ZufzcMH5bppFV+qEj1aMOIw42gQCVXuXboca3Poc="
  gunzip := fun bytes =>
    if bytes = sampleArchive then bytesOf "-- PostgreSQL database dump complete\n" else []

/-- An attempt in which nothing fails. -/
def sampleAttempt : Attempt where
  ready := true
  attemptId := "6f1c2a52-6a6e-4d47-9f3b-0d9f4b6c1a2e"
  attemptedAt := 1735786800000000
  beginWrite := .done
  workDir := true
  configured := true
  minimum := some 32
  dump := .exited ⟨0, by decide⟩ (some "")
  compress := .done
  validate := .done
  archive := sampleArchive
  archiveFits := by decide
  checksum := .done
  upload := .exited ⟨0, by decide⟩
    (some "3sL4kqtJlcpXroDT\tJ37ZufzcMH5bppFV+qEj1aMOIw42gQCVXuXboca3Poc=\n")
  verify := .exited ⟨0, by decide⟩ (some
    ("57\tJ37ZufzcMH5bppFV+qEj1aMOIw42gQCVXuXboca3Poc=\t" ++
      "277ed9b9fcdc307e5ba69155faa123d5a30e230e368100955ee5dba1c6b73e87\n"))
  interrupted := false
  cleanup := true
  stopped := 0
  stoppedFits := by decide
  finishedAt := 1735786860000000
  commitWrite := .done
  publishWrite := .done
  childLeft := false
  unlinked := true
  markerWrite := .done
  markerAt := 1735786860000000

/-- A host on which nothing has happened. -/
def emptyHost : Host := ⟨⟨none, none, none, none, none⟩, .idle, 0, [], [], false⟩

theorem sampleLibrary_lawful : sampleLibrary.Lawful := by
  refine ⟨fun _ => ?_, fun _ => ?_, rfl⟩
  · show ("277ed9b9fcdc307e5ba69155faa123d5a30e230e368100955ee5dba1c6b73e87" : String).toList.length =
      64
    decide
  · show ("277ed9b9fcdc307e5ba69155faa123d5a30e230e368100955ee5dba1c6b73e87" : String).toList.all
      isHex = true
    decide

theorem sampleAttempt_lawful : sampleAttempt.Lawful := by
  refine ⟨?_, ?_, ?_, ?_⟩ <;> decide

theorem sampleAttempt_terminal : terminal sampleLibrary sampleAttempt =
    some (true, successRecord sampleLibrary sampleAttempt "3sL4kqtJlcpXroDT") := by
  decide +kernel

theorem sampleAttempt_versionSafe : sampleAttempt.VersionSafe := by
  intro version remote run
  obtain ⟨text, output⟩ : ∃ text : String, text =
      "3sL4kqtJlcpXroDT\tJ37ZufzcMH5bppFV+qEj1aMOIw42gQCVXuXboca3Poc=\n" := ⟨_, rfl⟩
  have split : words text = ["3sL4kqtJlcpXroDT", "J37ZufzcMH5bppFV+qEj1aMOIw42gQCVXuXboca3Poc="] := by
    rw [output]
    decide
  have short : ¬ 16384 < text.toList.length := by
    rw [output]
    decide
  have exited : sampleAttempt.upload = .exited ⟨0, by decide⟩ (some text) := by
    rw [output]
    rfl
  rw [exited, Command.run, dif_neg (not_not.mpr rfl), if_neg short, split] at run
  cases run
  decide

/-- The sample attempt, up to the publication of its record. -/
def publishedHost : Host :=
  step sampleLibrary (step sampleLibrary (step sampleLibrary emptyHost (.start sampleAttempt))
    .advance) .advance

/-- What the sample attempt's second durable write leaves. -/
theorem sample_committed :
    step sampleLibrary (step sampleLibrary emptyHost (.start sampleAttempt)) .advance =
      { (emptyHost.begin sampleAttempt (some (keyedText (progressRecord sampleAttempt)))).commit
          sampleAttempt (some (keyedText
            (successRecord sampleLibrary sampleAttempt "3sL4kqtJlcpXroDT"))) with
        phase := .committed sampleAttempt true
          (successRecord sampleLibrary sampleAttempt "3sL4kqtJlcpXroDT") } := by
  show commit sampleLibrary (start emptyHost sampleAttempt) sampleAttempt = _
  rw [commit, sampleAttempt_terminal]
  rfl

theorem reachable_publishedHost : Reachable sampleLibrary publishedHost := by
  have admissible : Admissible emptyHost (.start sampleAttempt) :=
    ⟨sampleAttempt_lawful, by decide, fun b hb => by cases hb⟩
  have began := (Reachable.empty none 0 : Reachable sampleLibrary emptyHost).step admissible
  have committed := began.step (show Admissible _ .advance from trivial)
  exact committed.step (show Admissible _ .advance from trivial)

/-- The whole of the sample attempt, undisturbed. -/
theorem protocol_once : Protocol sampleLibrary (once sampleLibrary emptyHost sampleAttempt) :=
  protocol sampleLibrary_lawful
    (reachable_publishedHost.step (show Admissible _ .advance from trivial))

/-- A published success is judged uncommitted until its attempt's in-progress record is removed. -/
theorem publishedHost_uncommitted :
    ¬ ∀ (L : Library) (h : Host), L.Lawful → Reachable L h → h.unresolved = false →
      (∀ a ∈ h.begun, a.VersionSafe) → ∀ now maxAgeHours, h.clock ≤ now →
        (backupAssessment (readBackupState h.directory) now maxAgeHours).2.state ≠
          .uncommitted := by
  intro claimed
  have published : publishedHost.phase = .published sampleAttempt true
      (successRecord sampleLibrary sampleAttempt "3sL4kqtJlcpXroDT") := by
    rw [publishedHost, sample_committed]
    rfl
  have resolved : publishedHost.unresolved = false := by
    rw [publishedHost, sample_committed]
    rfl
  have begun : publishedHost.begun = [sampleAttempt] := by
    rw [publishedHost, sample_committed]
    rfl
  have safe : ∀ a ∈ publishedHost.begun, a.VersionSafe := by
    intro a ha
    rw [begun, List.mem_singleton] at ha
    rw [ha]
    exact sampleAttempt_versionSafe
  exact claimed sampleLibrary publishedHost sampleLibrary_lawful reachable_publishedHost resolved
    safe publishedHost.clock 48 (le_refl _)
    (reachable_publishedHost.uncommitted sampleLibrary_lawful resolved safe published)

end TradeRecommender.Operations
