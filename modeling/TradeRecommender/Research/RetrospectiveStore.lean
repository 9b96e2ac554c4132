import TradeRecommender.Lib.Runs
import TradeRecommender.Lib.Tables
import TradeRecommender.Research.RetrospectiveFetch

/-!
# The retrospective acquisition cache

`Store` of `research/validation_acquisition.py`: the tables of its file, the memory of the process
that holds its lock, and what any sequence of openings, acquisitions, closings and kills leaves.

1. the source's functions;
2. the invariant of the file and of the memory;
3. each event keeps it;
4. an honest provider's candles, chunk by chunk.
-/

namespace TradeRecommender.Research.Acquisition

open Py Civil Market

/-! ## The source's functions -/

/-- A row of `chunk`. -/
structure ChunkRow (δ : Type) where
  identity : δ
  metadata : Metadata δ
  metadataSha256 : δ
  blob : Blob
  deriving DecidableEq

/-- The tables a `Store` reads. -/
structure File (δ : Type) where
  registrations : List (δ × String)
  chunks : List (ChunkRow δ)

/-- `identity_digest` and `canonical_json` of `plan()` and of `predecessor_plan()`. -/
structure Plans (δ : Type) where
  current : δ
  currentBody : String
  predecessor : δ
  predecessorBody : String

/-- `self.requests` and `self.chunk_registrations` -/
structure Memory (δ : Type) where
  requests : Request → Option δ
  chunkRegistrations : Request → Option δ

/-- What a call to the provider gives, with the readings of the clock around it. -/
structure Reply (δ : Type) where
  started : Instant
  acquired : Instant
  response : Except Exc (Response δ)

section
variable {δ : Type} [DecidableEq δ] (R : Plans δ) (L : Library δ)

/-- `accepted.get(key)` -/
def accepted (key : δ) : Option String :=
  if key = R.current then some R.currentBody
  else if key = R.predecessor then some R.predecessorBody
  else none

/-- `self.requests` before the stored chunks are read. -/
def registeredRequests (request : Request) : Option δ :=
  if request ∈ chunks then some (L.requestDigest R.current request) else none

/-- The memory with a stored chunk. -/
def Memory.remember (memory : Memory δ) (row : ChunkRow δ) : Memory δ :=
  ⟨Function.update memory.requests row.metadata.request (some row.identity),
    Function.update memory.chunkRegistrations row.metadata.request
      (some row.metadata.registration)⟩

/-- The loop of `__init__` over the stored chunks. -/
def loadChunks (registered : List δ) : List (ChunkRow δ) → Memory δ → Except Exc (Memory δ)
  | [], memory => .ok memory
  | row :: rows, memory =>
    let request := row.metadata.request
    let registration := row.metadata.registration
    if memory.requests request = none ∨ memory.chunkRegistrations request ≠ none ∨
        registration ∉ registered ∨ L.metadataDigest row.metadata ≠ row.metadataSha256 ∨
        row.identity ≠ L.requestDigest registration request then
      raise .valueError "acquisition_lineage_corrupt"
    else
      loadChunks registered rows (memory.remember row)

/-- `INSERT OR IGNORE INTO registration` -/
def register (file : File δ) : File δ :=
  if R.current ∈ file.registrations.map Prod.fst then file
  else ⟨file.registrations ++ [(R.current, R.currentBody)], file.chunks⟩

/-- `Store.__init__`, with the lock held -/
def openStore (file : File δ) : Except Exc (Memory δ × File δ) :=
  if file.registrations.any fun entry => accepted R entry.1 ≠ some entry.2 then
    raise .valueError "acquisition_registration_drift"
  else do
    let memory ← loadChunks L (file.registrations.map Prod.fst) file.chunks
      ⟨registeredRequests R L, fun _ => none⟩
    return (memory, register R file)

/-- `Store.identity` -/
def identity (memory : Memory δ) (request : Request) : Except Exc δ :=
  match memory.requests request with
  | some key => .ok key
  | none => raise .valueError "unregistered_chunk"

/-- The row of an identity, checked against the request. -/
def containsAt (memory : Memory δ) (file : File δ) (request : Request) (key : δ) :
    Except Exc Bool :=
  match file.chunks.find? fun row => row.identity = key with
  | none => .ok false
  | some row =>
    if L.metadataDigest row.metadata ≠ row.metadataSha256 ∨ row.metadata.request ≠ request ∨
        row.metadata.registration ≠ (memory.chunkRegistrations request).getD R.current ∨
        L.blobDigest row.blob ≠ row.metadata.blobSha256 then
      raise .valueError "acquisition_chunk_corrupt"
    else .ok true

/-- `Store.contains` -/
def contains (memory : Memory δ) (file : File δ) (request : Request) : Except Exc Bool := do
  let key ← identity memory request
  containsAt R L memory file request key

/-- `fetch`, with the registration and the digest that `acquire` adds -/
def fetch (request : Request) (reply : Reply δ) : Except Exc (Metadata δ × Blob) := do
  let response ← reply.response
  let (kept, excluded) ← readResponse L request response
  let blob := kept.map normalize
  return (describe L request reply.started reply.acquired response kept excluded R.current
    (L.blobDigest blob), blob)

/-- `INSERT INTO chunk` -/
def insertChunk (file : File δ) (row : ChunkRow δ) : Except Exc (File δ) :=
  if row.identity ∈ file.chunks.map ChunkRow.identity then
    raise .databaseError "UNIQUE constraint failed: chunk.identity"
  else .ok ⟨file.registrations, file.chunks ++ [row]⟩

/-- `Store.acquire`: whether a chunk was stored, and the file after it -/
def acquire (memory : Memory δ) (file : File δ) (request : Request) (reply : Reply δ) :
    Except Exc (Bool × File δ) := do
  if ← contains R L memory file request then return (false, file)
  else do
    let (metadata, blob) ← fetch R L request reply
    let key ← identity memory request
    let file ← insertChunk file ⟨key, metadata, L.metadataDigest metadata, blob⟩
    return (true, file)

end

/-- The file, and the memory of the process that holds the lock. -/
structure State (δ : Type) where
  file : File δ
  process : Option (Memory δ)

/-- What may happen; a process that is killed inside a call leaves the file as before the call or,
behind its commit, as after it. -/
inductive Event (δ : Type)
  | open
  | acquire (request : Request) (reply : Reply δ)
  | close
  | kill

section
variable {δ : Type} [DecidableEq δ] (R : Plans δ) (L : Library δ)

/-- What an event makes of the state; an opening behind the lock of another and a call that raises
leave it. -/
def step (s : State δ) : Event δ → State δ
  | .open =>
    match s.process, openStore R L s.file with
    | none, .ok (memory, file) => ⟨file, some memory⟩
    | _, _ => s
  | .acquire request reply =>
    match s.process with
    | none => s
    | some memory =>
      match acquire R L memory s.file request reply with
      | .ok (_, file) => ⟨file, some memory⟩
      | .error _ => s
  | .close => ⟨s.file, none⟩
  | .kill => ⟨s.file, none⟩

/-! ## The invariant -/

/-- A row that its own digests and the registrations of its file bear out. -/
structure RowSound (registered : List δ) (row : ChunkRow δ) : Prop where
  request : row.metadata.request ∈ chunks
  registration : row.metadata.registration ∈ registered
  metadata : L.metadataDigest row.metadata = row.metadataSha256
  identity : row.identity = L.requestDigest row.metadata.registration row.metadata.request
  blob : L.blobDigest row.blob = row.metadata.blobSha256

/-- A file with accepted registrations, sound rows and at most one of them for a request. -/
structure Sound (file : File δ) : Prop where
  registrations : ∀ entry ∈ file.registrations, accepted R entry.1 = some entry.2
  rows : ∀ row ∈ file.chunks, RowSound L (file.registrations.map Prod.fst) row
  single : (file.chunks.map fun row => row.metadata.request).Nodup

/-- The row of a request. -/
def stored (rows : List (ChunkRow δ)) (request : Request) : Option (ChunkRow δ) :=
  rows.find? fun row => row.metadata.request = request

/-- A memory that agrees with the file. -/
structure Loaded (memory : Memory δ) (file : File δ) : Prop where
  current : R.current ∈ file.registrations.map Prod.fst
  requests : ∀ request, memory.requests request = if request ∈ chunks then
    some (((stored file.chunks request).map ChunkRow.identity).getD (L.requestDigest R.current request))
    else none
  registrations : ∀ request, (memory.chunkRegistrations request).getD R.current =
    ((stored file.chunks request).map fun row => row.metadata.registration).getD R.current

/-- What holds of every state. -/
structure Coherent (s : State δ) : Prop where
  sound : Sound R L s.file
  loaded : ∀ memory ∈ s.process, Loaded R L memory s.file

/-- The digests of requests tell them and their registrations apart. -/
def Library.CollisionFree {δ : Type} (L : Library δ) : Prop :=
  ∀ registration registration' request request', L.requestDigest registration request =
    L.requestDigest registration' request' → registration = registration' ∧ request = request'

end

section
variable {δ : Type} {rows : List (ChunkRow δ)} {row : ChunkRow δ} {request : Request}

theorem stored_eq_some (single : (rows.map fun row => row.metadata.request).Nodup) :
    stored rows request = some row ↔ row ∈ rows ∧ row.metadata.request = request := by
  constructor
  · intro h
    rw [stored] at h
    have same := List.find?_some h
    exact ⟨List.mem_of_find?_eq_some h, of_decide_eq_true same⟩
  · rintro ⟨mem, rfl⟩
    rw [stored]
    cases found : rows.find? fun other => other.metadata.request = row.metadata.request with
    | none => exact absurd (decide_eq_true rfl) (List.find?_eq_none.mp found row mem)
    | some other =>
      have same := List.find?_some found
      rw [Tables.eq_of_key single (List.mem_of_find?_eq_some found) mem (of_decide_eq_true same)]

theorem stored_eq_none :
    stored rows request = none ↔ ∀ row ∈ rows, row.metadata.request ≠ request := by
  rw [stored, List.find?_eq_none]
  simp only [decide_eq_true_eq, ne_eq]

theorem stored_cons_self : stored (row :: rows) row.metadata.request = some row :=
  List.find?_cons_of_pos (decide_eq_true rfl)

theorem stored_cons_of_ne (differ : row.metadata.request ≠ request) :
    stored (row :: rows) request = stored rows request :=
  List.find?_cons_of_neg (by simpa using differ)

theorem remember_self (memory : Memory δ) :
    (memory.remember row).requests row.metadata.request = some row.identity ∧
      (memory.remember row).chunkRegistrations row.metadata.request =
        some row.metadata.registration :=
  ⟨Function.update_self .., Function.update_self ..⟩

theorem remember_of_ne (memory : Memory δ) (differ : request ≠ row.metadata.request) :
    (memory.remember row).requests request = memory.requests request ∧
      (memory.remember row).chunkRegistrations request = memory.chunkRegistrations request :=
  ⟨Function.update_of_ne differ .., Function.update_of_ne differ ..⟩

end

/-! ## Opening -/

section
variable {δ : Type} [DecidableEq δ] {R : Plans δ} {L : Library δ} {file : File δ}
  {memory : Memory δ} {request : Request}

/-- Sound rows that are read are remembered under their requests. -/
theorem loadChunks_spec (memory : Memory δ) {registered : List δ} {rows : List (ChunkRow δ)}
    (sound : ∀ row ∈ rows, RowSound L registered row)
    (single : (rows.map fun row => row.metadata.request).Nodup)
    (known : ∀ row ∈ rows, memory.requests row.metadata.request ≠ none)
    (fresh : ∀ row ∈ rows, memory.chunkRegistrations row.metadata.request = none) :
    ∃ memory', loadChunks L registered rows memory = .ok memory' ∧ ∀ request,
      memory'.requests request =
        ((stored rows request).map ChunkRow.identity).or (memory.requests request) ∧
      memory'.chunkRegistrations request =
        ((stored rows request).map fun row => row.metadata.registration).or
          (memory.chunkRegistrations request) := by
  induction rows generalizing memory with
  | nil => exact ⟨memory, rfl, fun request => ⟨rfl, rfl⟩⟩
  | cons row rows ih =>
    obtain ⟨apart, single⟩ := List.nodup_cons.mp single
    have own := sound row List.mem_cons_self
    have differ : ∀ other ∈ rows, other.metadata.request ≠ row.metadata.request := by
      intro other mem same
      exact apart (List.mem_map.mpr ⟨other, mem, same⟩)
    have others : ∀ other ∈ rows, (memory.remember row).requests other.metadata.request ≠ none := by
      intro other mem
      rw [(remember_of_ne memory (differ other mem)).1]
      exact known other (List.mem_cons_of_mem _ mem)
    have freshOthers : ∀ other ∈ rows,
        (memory.remember row).chunkRegistrations other.metadata.request = none := by
      intro other mem
      rw [(remember_of_ne memory (differ other mem)).2]
      exact fresh other (List.mem_cons_of_mem _ mem)
    obtain ⟨memory', loaded, remembered⟩ :=
      ih (memory.remember row) (fun other mem => sound other (List.mem_cons_of_mem _ mem)) single others freshOthers
    refine ⟨memory', ?_, fun request => ?_⟩
    · rw [loadChunks, if_neg]
      · exact loaded
      rintro (h | h | h | h | h)
      · exact known row List.mem_cons_self h
      · exact h (fresh row List.mem_cons_self)
      · exact h own.registration
      · exact h own.metadata
      · exact h own.identity
    · obtain ⟨requests, registrations⟩ := remembered request
      by_cases same : row.metadata.request = request
      · subst same
        have absent : stored rows row.metadata.request = none := stored_eq_none.mpr differ
        rw [absent, (remember_self memory).1] at requests
        rw [absent, (remember_self memory).2] at registrations
        rw [stored_cons_self]
        exact ⟨requests, registrations⟩
      · rw [(remember_of_ne memory (Ne.symm same)).1] at requests
        rw [(remember_of_ne memory (Ne.symm same)).2] at registrations
        rw [stored_cons_of_ne same]
        exact ⟨requests, registrations⟩

theorem chunks_register : (register R file).chunks = file.chunks := by
  rw [register]
  split_ifs <;> rfl

theorem mem_register : R.current ∈ (register R file).registrations.map Prod.fst := by
  rw [register]
  split_ifs with there
  · exact there
  · simp

theorem Sound.register (sound : Sound R L file) : Sound R L (register R file) := by
  refine ⟨?_, ?_, ?_⟩
  · rw [Acquisition.register]
    split_ifs with there
    · exact sound.registrations
    · intro entry mem
      rcases List.mem_append.mp mem with mem | mem
      · exact sound.registrations entry mem
      · rw [List.mem_singleton.mp mem, accepted, if_pos rfl]
  · rw [chunks_register]
    intro row mem
    have own := sound.rows row mem
    refine ⟨own.request, ?_, own.metadata, own.identity, own.blob⟩
    rw [Acquisition.register]
    split_ifs
    · exact own.registration
    · rw [List.map_append]
      exact List.mem_append_left _ own.registration
  · rw [chunks_register]
    exact sound.single

/-- A sound file opens, and the memory agrees with it. -/
theorem openStore_spec (sound : Sound R L file) :
    ∃ memory, openStore R L file = .ok (memory, register R file) ∧
      Loaded R L memory (register R file) := by
  have known : ∀ row ∈ file.chunks, registeredRequests R L row.metadata.request ≠ none := by
    intro row mem
    rw [registeredRequests, if_pos (sound.rows row mem).request]
    exact Option.some_ne_none _
  let start : Memory δ := ⟨registeredRequests R L, fun _ => none⟩
  obtain ⟨memory, loaded, remembered⟩ :=
    loadChunks_spec start sound.rows sound.single known (fun _ _ => rfl)
  refine ⟨memory, ?_, ⟨mem_register, fun request => ?_, fun request => ?_⟩⟩
  · rw [openStore, if_neg]
    · rw [loaded]
      rfl
    · rw [List.any_eq_true]
      rintro ⟨entry, mem, drift⟩
      exact of_decide_eq_true drift (sound.registrations entry mem)
  · rw [(remembered request).1, chunks_register]
    show (Option.map _ (stored file.chunks request)).or (registeredRequests R L request) = _
    rw [registeredRequests]
    cases found : stored file.chunks request with
    | none => rfl
    | some row =>
      obtain ⟨mem, rfl⟩ := (stored_eq_some sound.single).mp found
      rw [if_pos (sound.rows row mem).request, if_pos (sound.rows row mem).request]
      rfl
  · rw [(remembered request).2, chunks_register, Option.or_none]

/-! ## Looking a request up -/

omit [DecidableEq δ] in
theorem identity_eq (loaded : Loaded R L memory file) (registered : request ∈ chunks) :
    identity memory request = .ok (((stored file.chunks request).map ChunkRow.identity).getD
      (L.requestDigest R.current request)) := by
  rw [identity, loaded.requests, if_pos registered]

/-- A registered request is contained exactly when a row of it is stored. -/
theorem contains_spec (free : L.CollisionFree) (sound : Sound R L file)
    (loaded : Loaded R L memory file) (registered : request ∈ chunks) :
    contains R L memory file request = .ok (stored file.chunks request).isSome := by
  rw [contains, identity_eq loaded registered]
  show containsAt R L memory file request _ = _
  rw [containsAt]
  cases here : stored file.chunks request with
  | some row =>
    obtain ⟨mem, rfl⟩ := (stored_eq_some sound.single).mp here
    have own := sound.rows row mem
    rw [Option.map_some, Option.getD_some]
    cases found : file.chunks.find? fun other => other.identity = row.identity with
    | none => exact absurd (decide_eq_true rfl) (List.find?_eq_none.mp found row mem)
    | some other =>
      have there := List.mem_of_find?_eq_some found
      have same := List.find?_some found
      have equal : other.identity = row.identity := of_decide_eq_true same
      rw [own.identity, (sound.rows other there).identity] at equal
      have one : other = row := Tables.eq_of_key sound.single there mem (free _ _ _ _ equal).2
      have registration := loaded.registrations row.metadata.request
      rw [here] at registration
      dsimp only
      rw [if_neg]
      · rfl
      · rw [one, registration]
        rintro (h | h | h | h)
        · exact h own.metadata
        · exact h rfl
        · exact h rfl
        · exact h own.blob
  | none =>
    rw [Option.map_none, Option.getD_none]
    have absent : file.chunks.find? (fun other =>
        other.identity = L.requestDigest R.current request) = none := by
      refine List.find?_eq_none.mpr fun other mem h => ?_
      have equal : other.identity = _ := of_decide_eq_true h
      rw [(sound.rows other mem).identity] at equal
      exact stored_eq_none.mp here other mem (free _ _ _ _ equal).2
    rw [absent]
    rfl

/-- A request that is not registered is refused. -/
theorem contains_unregistered (loaded : Loaded R L memory file) (unregistered : request ∉ chunks) :
    contains R L memory file request = raise .valueError "unregistered_chunk" := by
  rw [contains, identity, loaded.requests, if_neg unregistered]
  rfl

/-! ## Acquiring -/

/-- An acquisition that returns either found its chunk or appended what was fetched. -/
theorem acquire_cases (free : L.CollisionFree) (sound : Sound R L file)
    (loaded : Loaded R L memory file) {reply : Reply δ} {result : Bool × File δ}
    (h : acquire R L memory file request reply = .ok result) :
    request ∈ chunks ∧
      ((stored file.chunks request ≠ none ∧ result = (false, file)) ∨
        ∃ metadata blob, stored file.chunks request = none ∧
          fetch R L request reply = .ok (metadata, blob) ∧
          result = (true, ⟨file.registrations, file.chunks ++
            [⟨L.requestDigest R.current request, metadata, L.metadataDigest metadata, blob⟩]⟩)) := by
  by_cases registered : request ∈ chunks
  · refine ⟨registered, ?_⟩
    rw [acquire, contains_spec free sound loaded registered] at h
    cases here : stored file.chunks request with
    | some row =>
      rw [here] at h
      cases h
      exact .inl ⟨Option.some_ne_none _, rfl⟩
    | none =>
      rw [here] at h
      obtain ⟨known, checked, h⟩ := bind_eq_ok.mp h
      cases checked
      rw [Option.isSome_none, if_neg (by decide)] at h
      obtain ⟨⟨metadata, blob⟩, fetched, h⟩ := bind_eq_ok.mp h
      obtain ⟨key, named, h⟩ := bind_eq_ok.mp h
      rw [identity_eq loaded registered, here] at named
      cases named
      obtain ⟨inserted, insertion, h⟩ := bind_eq_ok.mp h
      cases h
      refine .inr ⟨metadata, blob, rfl, fetched, ?_⟩
      rw [insertChunk] at insertion
      split_ifs at insertion
      · cases insertion
      · cases insertion
        rfl
  · rw [acquire, contains_unregistered loaded registered] at h
    cases h

omit [DecidableEq δ] in
/-- What a fetch describes is the request, the registration and its own bytes. -/
theorem fetch_spec {reply : Reply δ} {metadata : Metadata δ} {blob : Blob}
    (h : fetch R L request reply = .ok (metadata, blob)) :
    metadata.request = request ∧ metadata.registration = R.current ∧
      metadata.blobSha256 = L.blobDigest blob ∧
      ∃ response kept excluded, reply.response = .ok response ∧
        readResponse L request response = .ok (kept, excluded) ∧ blob = kept.map normalize := by
  obtain ⟨response, answered, h⟩ := bind_eq_ok.mp h
  obtain ⟨⟨kept, excluded⟩, read, h⟩ := bind_eq_ok.mp h
  cases h
  exact ⟨rfl, rfl, rfl, response, kept, excluded, answered, read, rfl⟩

/-- A row of a request that has none keeps the file sound and the memory in agreement. -/
theorem append_sound (sound : Sound R L file) (loaded : Loaded R L memory file)
    (registered : request ∈ chunks) (absent : stored file.chunks request = none)
    {metadata : Metadata δ} {blob : Blob} (same : metadata.request = request)
    (registration : metadata.registration = R.current)
    (bytes : metadata.blobSha256 = L.blobDigest blob) :
    Sound R L ⟨file.registrations, file.chunks ++
        [⟨L.requestDigest R.current request, metadata, L.metadataDigest metadata, blob⟩]⟩ ∧
      Loaded R L memory ⟨file.registrations, file.chunks ++
        [⟨L.requestDigest R.current request, metadata, L.metadataDigest metadata, blob⟩]⟩ := by
  subst same
  have apart := stored_eq_none.mp absent
  have appended (other : Request) : stored (file.chunks ++
      [⟨L.requestDigest R.current metadata.request, metadata, L.metadataDigest metadata, blob⟩])
        other = (stored file.chunks other).or (if metadata.request = other then
          some ⟨L.requestDigest R.current metadata.request, metadata, L.metadataDigest metadata,
            blob⟩ else none) := by
    rw [stored, List.find?_append]
    refine congrArg _ ?_
    by_cases here : metadata.request = other
    · subst here
      rw [if_pos rfl]
      exact stored_cons_self
    · rw [if_neg here]
      exact stored_cons_of_ne here
  refine ⟨⟨sound.registrations, fun row mem => ?_, ?_⟩, ⟨loaded.current, fun other => ?_,
    fun other => ?_⟩⟩
  · rcases List.mem_append.mp mem with mem | mem
    · exact sound.rows row mem
    · rw [List.mem_singleton.mp mem]
      refine ⟨registered, ?_, rfl, ?_, bytes.symm⟩
      · show metadata.registration ∈ _
        rw [registration]
        exact loaded.current
      · show L.requestDigest R.current metadata.request =
          L.requestDigest metadata.registration metadata.request
        rw [registration]
  · rw [List.map_append]
    refine List.nodup_append.mpr ⟨sound.single, List.nodup_singleton _, ?_⟩
    rintro _ hrow other hother rfl
    obtain ⟨row, mem, same⟩ := List.mem_map.mp hrow
    exact apart row mem (same.trans (List.mem_singleton.mp hother))
  · rw [loaded.requests, appended]
    by_cases here : metadata.request = other
    · subst here
      rw [absent, if_pos rfl]
      rfl
    · rw [if_neg here, Option.or_none]
  · rw [loaded.registrations, appended]
    by_cases here : metadata.request = other
    · subst here
      rw [absent, if_pos rfl]
      exact registration.symm
    · rw [if_neg here, Option.or_none]

/-! ## Every event -/

/-- An event registers the version, stores one fetched chunk or leaves the file. -/
theorem step_cases (free : L.CollisionFree) {s : State δ} (coherent : Coherent R L s)
    (event : Event δ) :
    Coherent R L (step R L s event) ∧
      ((step R L s event).file.chunks = s.file.chunks ∨
        ∃ request reply metadata blob row, event = .acquire request reply ∧ request ∈ chunks ∧
          fetch R L request reply = .ok (metadata, blob) ∧ row.metadata = metadata ∧
          row.blob = blob ∧ (step R L s event).file.chunks = s.file.chunks ++ [row]) := by
  cases event with
  | «open» =>
    obtain ⟨memory, opened, loaded⟩ := openStore_spec coherent.sound
    rw [step, opened]
    cases held : s.process with
    | none =>
      refine ⟨⟨coherent.sound.register, ?_⟩, .inl chunks_register⟩
      rintro _ ⟨⟩
      exact loaded
    | some _ => exact ⟨coherent, .inl rfl⟩
  | close =>
    refine ⟨⟨coherent.sound, ?_⟩, .inl rfl⟩
    rintro _ ⟨⟩
  | kill =>
    refine ⟨⟨coherent.sound, ?_⟩, .inl rfl⟩
    rintro _ ⟨⟩
  | acquire request reply =>
    rw [step]
    cases held : s.process with
    | none => exact ⟨coherent, .inl rfl⟩
    | some memory =>
      have loaded := coherent.loaded memory held
      dsimp only
      cases called : acquire R L memory s.file request reply with
      | error e => exact ⟨coherent, .inl rfl⟩
      | ok result =>
        obtain ⟨registered, ⟨-, rfl⟩ | ⟨metadata, blob, absent, fetched, rfl⟩⟩ :=
          acquire_cases free coherent.sound loaded called
        · refine ⟨⟨coherent.sound, ?_⟩, .inl rfl⟩
          rintro _ ⟨⟩
          exact loaded
        · obtain ⟨same, registration, bytes, -⟩ := fetch_spec fetched
          obtain ⟨sound, agrees⟩ :=
            append_sound coherent.sound loaded registered absent same registration bytes
          refine ⟨⟨sound, ?_⟩, .inr ⟨request, reply, metadata, blob, _, rfl, registered, fetched,
            rfl, rfl, rfl⟩⟩
          rintro _ ⟨⟩
          exact agrees

/-- The states of runs from an unlocked file that is sound: an empty one, or one that this version or
its predecessor left. -/
def Cached (R : Plans δ) (L : Library δ) : State δ → Prop :=
  Runs.Reached (step R L) (fun _ _ => True) fun s => s.process = none ∧ Sound R L s.file

theorem Cached.coherent (free : L.CollisionFree) {s : State δ} (reached : Cached R L s) :
    Coherent R L s := by
  refine Runs.Reached.invariant (I := fun s => Coherent R L s) ?_ ?_ reached
  · rintro s ⟨closed, sound⟩
    refine ⟨sound, ?_⟩
    rw [closed]
    rintro _ ⟨⟩
  · intro s event coherent _
    exact (step_cases free coherent event).1

/-- Chunks are only ever added. -/
theorem chunks_grow (free : L.CollisionFree) {s t : State δ} (coherent : Coherent R L s)
    (later : Runs.Reached (step R L) (fun _ _ => True) (fun u => u = s) t) :
    Coherent R L t ∧ s.file.chunks <+: t.file.chunks := by
  refine later.invariant (I := fun t => Coherent R L t ∧ s.file.chunks <+: t.file.chunks) ?_ ?_
  · rintro t rfl
    exact ⟨coherent, List.prefix_refl _⟩
  · rintro t event ⟨coherent, grown⟩ -
    obtain ⟨next, same | ⟨_, _, _, _, row, -, -, -, -, -, appended⟩⟩ :=
      step_cases free coherent event
    · exact ⟨next, same ▸ grown⟩
    · exact ⟨next, appended ▸ grown.trans (List.prefix_append _ _)⟩

/-! ## Honest providers -/

/-- Each chunk holds the provider's candles of its request that complete in the period. -/
def Held (book : Book) (file : File δ) : Prop :=
  ∀ row ∈ file.chunks, ∀ finish, periodEnd row.metadata.request.period = .ok finish →
    row.blob = (requested book row.metadata.request finish).map normalize

/-- What a provider that has the book and answers honestly, when it does, takes part in. -/
def HonestEvent (L : Library δ) (book : Book) : Event δ → Prop
  | .acquire request reply =>
    ∀ response, reply.response = .ok response → Honest L book request response
  | _ => True

/-- The states of runs with an honest provider. -/
def HonestlyCached (R : Plans δ) (L : Library δ) (book : Book) : State δ → Prop :=
  Runs.Reached (step R L) (fun _ event => HonestEvent L book event)
    fun s => s.process = none ∧ Sound R L s.file ∧ Held book s.file

theorem HonestlyCached.held (free : L.CollisionFree) {book : Book} (registered : book.Registered)
    {s : State δ} (reached : HonestlyCached R L book s) :
    Coherent R L s ∧ Held book s.file := by
  refine Runs.Reached.invariant (I := fun s => Coherent R L s ∧ Held book s.file) ?_ ?_ reached
  · rintro s ⟨closed, sound, held⟩
    refine ⟨⟨sound, ?_⟩, held⟩
    rw [closed]
    rintro _ ⟨⟩
  · rintro s event ⟨coherent, held⟩ honest
    obtain ⟨next, same | ⟨request, reply, metadata, blob, row, rfl, -, fetched, rfl, rfl,
      appended⟩⟩ := step_cases free coherent event
    · refine ⟨next, ?_⟩
      rw [Held, same]
      exact held
    · refine ⟨next, ?_⟩
      rw [Held, appended]
      intro other mem finish ends
      rcases List.mem_append.mp mem with mem | mem
      · exact held other mem finish ends
      · rw [List.mem_singleton.mp mem] at ends ⊢
        obtain ⟨same, -, -, response, kept, excluded, answered, read, bytes⟩ := fetch_spec fetched
        rw [same] at ends ⊢
        rw [bytes, kept_of_honest registered (honest response answered) ends read]

theorem periodEnd_of_mem : ∀ period ∈ PERIODS, periodEnd period.1 = .ok period.2.2 := by
  decide

omit [DecidableEq δ] in
theorem blobs_of_held {book : Book} (held : Held book file) {finish : Instant}
    {requests : List Request} (ends : ∀ request ∈ requests, periodEnd request.period = .ok finish)
    {rows : List (ChunkRow δ)} (related : List.Forall₂ (fun request row =>
      row ∈ file.chunks ∧ row.metadata.request = request) requests rows) :
    rows.map ChunkRow.blob =
      requests.map fun request => (requested book request finish).map normalize := by
  induction related with
  | nil => rfl
  | @cons request row _ _ first _ ih =>
    obtain ⟨mem, same⟩ := first
    have own := held row mem finish (by rw [same]; exact ends request List.mem_cons_self)
    rw [List.map_cons, List.map_cons, ih fun request h => ends request (List.mem_cons_of_mem _ h),
      own, same]

omit [DecidableEq δ] in
/-- The chunks of a series, each with its candles, hold those of the period. -/
theorem series_blobs {book : Book} (registered : book.Registered) (held : Held book file)
    {period : String × Instant × Instant} (hperiod : period ∈ PERIODS) {instrument : String}
    {chunkDays : Granularity × ℤ} (hdays : chunkDays ∈ DAYS) {rows : List (ChunkRow δ)}
    (related : List.Forall₂ (fun request row => row ∈ file.chunks ∧ row.metadata.request = request)
      (seriesRequests period instrument chunkDays) rows) :
    rows.flatMap ChunkRow.blob = ((book instrument chunkDays.1).filter fun candle =>
      (period.2.1 ≤ candle.timestamp ∧ candle.timestamp < period.2.2) ∧
        registeredCandleCompletion candle.timestamp chunkDays.1 ≤ period.2.2).map normalize := by
  have named : ∀ request ∈ seriesRequests period instrument chunkDays,
      periodEnd request.period = .ok period.2.2 := by
    intro request mem
    obtain ⟨tile, -, rfl⟩ := List.mem_map.mp mem
    exact periodEnd_of_mem period hperiod
  have blobs := blobs_of_held held named related
  have tiled := Tiles.flatMap_tiles (registered.increasing instrument chunkDays.1)
    (DAYS_pos _ hdays) period.2.1 period.2.2
  have whole : (book instrument chunkDays.1).filter (fun candle =>
      (period.2.1 ≤ candle.timestamp ∧ candle.timestamp < period.2.2) ∧
        registeredCandleCompletion candle.timestamp chunkDays.1 ≤ period.2.2) =
      (Tiles.within LiveCandle.timestamp (book instrument chunkDays.1) period.2.1
        period.2.2).filter fun candle =>
          !decide (period.2.2 < registeredCandleCompletion candle.timestamp chunkDays.1) := by
    rw [Tiles.within, List.filter_filter]
    refine List.filter_congr fun candle _ => ?_
    rw [Bool.eq_iff_iff]
    simp only [decide_eq_true_eq, Bool.and_eq_true, Bool.not_eq_true', decide_eq_false_iff_not,
      not_lt]
    exact and_comm
  rw [whole, ← tiled, List.filter_flatMap, List.map_flatMap, List.flatMap, blobs, seriesRequests,
    List.map_map]
  rfl

theorem period_of_mem_chunks (registered : request ∈ chunks) :
    ∃ finish, periodEnd request.period = .ok finish := by
  obtain ⟨period, hperiod, mem⟩ := List.mem_flatMap.mp registered
  obtain ⟨instrument, -, mem⟩ := List.mem_flatMap.mp mem
  obtain ⟨chunkDays, -, mem⟩ := List.mem_flatMap.mp mem
  obtain ⟨tile, -, rfl⟩ := List.mem_map.mp mem
  exact ⟨period.2.2, periodEnd_of_mem period hperiod⟩

/-- Behind an honest answer the request is stored. -/
theorem acquire_stores (free : L.CollisionFree) {book : Book} (aligned : book.Registered)
    (sound : Sound R L file) (loaded : Loaded R L memory file) (registered : request ∈ chunks)
    (clean : ∀ finish, periodEnd request.period = .ok finish →
      ∀ candle ∈ book request.instrument request.granularity, Clean request finish candle)
    {reply : Reply δ} {response : Response δ} (answered : reply.response = .ok response)
    (honest : Honest L book request response) :
    ∃ flag file', acquire R L memory file request reply = .ok (flag, file') ∧
      ∃ row ∈ file'.chunks, row.metadata.request = request := by
  rw [acquire, contains_spec free sound loaded registered]
  cases here : stored file.chunks request with
  | some row =>
    obtain ⟨mem, same⟩ := (stored_eq_some sound.single).mp here
    exact ⟨false, file, rfl, row, mem, same⟩
  | none =>
    obtain ⟨finish, ends⟩ := period_of_mem_chunks registered
    obtain ⟨⟨kept, excluded⟩, read⟩ :=
      readResponse_accepts aligned registered honest ends (clean finish ends)
    have named := identity_eq loaded registered
    rw [here, Option.map_none, Option.getD_none] at named
    have fresh : L.requestDigest R.current request ∉ file.chunks.map ChunkRow.identity := by
      intro mem
      obtain ⟨row, hrow, same⟩ := List.mem_map.mp mem
      rw [(sound.rows row hrow).identity] at same
      exact stored_eq_none.mp here row hrow (free _ _ _ _ same).2
    obtain ⟨metadata, same, fetched⟩ : ∃ metadata, metadata.request = request ∧
        fetch R L request reply = .ok (metadata, kept.map normalize) := by
      refine ⟨describe L request reply.started reply.acquired response kept excluded R.current
        (L.blobDigest (kept.map normalize)), rfl, ?_⟩
      rw [fetch, answered]
      exact bind_eq_ok.mpr ⟨response, rfl, bind_eq_ok.mpr ⟨_, read, rfl⟩⟩
    have inserted : insertChunk file ⟨L.requestDigest R.current request, metadata,
        L.metadataDigest metadata, kept.map normalize⟩ = .ok ⟨file.registrations, file.chunks ++
          [⟨L.requestDigest R.current request, metadata, L.metadataDigest metadata,
            kept.map normalize⟩]⟩ := if_neg fresh
    refine ⟨true, _, bind_eq_ok.mpr ⟨false, rfl, bind_eq_ok.mpr ⟨_, fetched, bind_eq_ok.mpr
      ⟨_, named, bind_eq_ok.mpr ⟨_, inserted, rfl⟩⟩⟩⟩, ?_⟩
    exact ⟨_, List.mem_append_right _ (List.mem_singleton_self _), same⟩

end

/-! ## The cache -/

section
variable {δ : Type} [DecidableEq δ]

/-- In every state that openings, acquisitions, closings and kills lead to: a registered request has
at most one chunk; it stays as it is whatever follows; `contains` tells of the stored chunks and no
others; a store that no other process holds opens; and an acquisition that raises leaves the file,
and no chunk of the request.  With an honest provider every acquisition returns with its request
stored, and the chunks of a series, once all are stored, hold in order the candles that start in the
period and complete by its end. -/
theorem retrospective_cache (R : Plans δ) (L : Library δ) (free : L.CollisionFree) (book : Book)
    (aligned : book.Registered) :
    (∀ s, Cached R L s →
      (∀ request ∈ chunks,
        (s.file.chunks.filter fun row => row.metadata.request = request).length ≤ 1) ∧
      (∀ t, Runs.Reached (step R L) (fun _ _ => True) (fun u => u = s) t →
        s.file.chunks <+: t.file.chunks) ∧
      (∀ memory ∈ s.process, ∀ request ∈ chunks, contains R L memory s.file request =
        .ok (decide (∃ row ∈ s.file.chunks, row.metadata.request = request))) ∧
      (s.process = none → ∃ memory, (step R L s .open).process = some memory ∧
        (step R L s .open).file.chunks = s.file.chunks) ∧
      ∀ memory ∈ s.process, ∀ request reply e, acquire R L memory s.file request reply = .error e →
        step R L s (.acquire request reply) = s ∧
          ∀ row ∈ s.file.chunks, row.metadata.request ≠ request) ∧
    ∀ s, HonestlyCached R L book s →
      (∀ memory ∈ s.process, ∀ request ∈ chunks, ∀ reply response, reply.response = .ok response →
        Honest L book request response → (∀ finish, periodEnd request.period = .ok finish →
          ∀ candle ∈ book request.instrument request.granularity, Clean request finish candle) →
        ∃ row ∈ (step R L s (.acquire request reply)).file.chunks,
          row.metadata.request = request) ∧
      ∀ period ∈ PERIODS, ∀ instrument ∈ canonicalPairs, ∀ chunkDays ∈ DAYS,
        (∀ request ∈ seriesRequests period instrument chunkDays,
          ∃ row ∈ s.file.chunks, row.metadata.request = request) →
        ∃ rows : List (ChunkRow δ),
          List.Forall₂ (fun request row => row ∈ s.file.chunks ∧ row.metadata.request = request)
            (seriesRequests period instrument chunkDays) rows ∧
          rows.flatMap ChunkRow.blob = ((book instrument chunkDays.1).filter fun candle =>
            (period.2.1 ≤ candle.timestamp ∧ candle.timestamp < period.2.2) ∧
              registeredCandleCompletion candle.timestamp chunkDays.1 ≤ period.2.2).map
                normalize := by
  refine ⟨fun s reached => ?_, fun s reached => ?_⟩
  · have coherent := Cached.coherent free reached
    refine ⟨fun request registered => ?_, fun t later => (chunks_grow free coherent later).2,
      fun memory held request registered => ?_, fun closed => ?_, fun memory held request reply e
      failed => ?_⟩
    · have distinct := coherent.sound.single
      have one : (s.file.chunks.map fun row => row.metadata.request).count request ≤ 1 :=
        List.nodup_iff_count_le_one.mp distinct request
      rw [List.count, List.countP_map, List.countP_eq_length_filter] at one
      exact one
    · rw [contains_spec free coherent.sound (coherent.loaded memory held) registered]
      refine congrArg _ ?_
      rw [Bool.eq_iff_iff, decide_eq_true_eq, Option.isSome_iff_exists]
      exact exists_congr fun row => stored_eq_some coherent.sound.single
    · obtain ⟨memory, opened, -⟩ := openStore_spec coherent.sound
      refine ⟨memory, ?_, ?_⟩
      · rw [step, closed, opened]
      · rw [step, closed, opened]
        exact chunks_register
    · have loaded := coherent.loaded memory held
      have unchanged : step R L s (.acquire request reply) = s := by
        rw [step, show s.process = some memory from held]
        dsimp only
        rw [failed]
      refine ⟨unchanged, fun row mem same => ?_⟩
      have registered : request ∈ chunks := same ▸ (coherent.sound.rows row mem).request
      -- a request with a chunk is not fetched again
      rw [acquire, contains_spec free coherent.sound loaded registered,
        (stored_eq_some coherent.sound.single).mpr ⟨mem, same⟩] at failed
      cases failed
  · obtain ⟨coherent, held⟩ := HonestlyCached.held free aligned reached
    refine ⟨fun memory open_ request registered reply response answered honest clean => ?_,
      fun period hperiod instrument _ chunkDays hdays all => ?_⟩
    · obtain ⟨flag, file, acquired, there⟩ := acquire_stores free aligned coherent.sound
        (coherent.loaded memory open_) registered clean answered honest
      rw [step, show s.process = some memory from open_]
      dsimp only
      rw [acquired]
      exact there
    · obtain ⟨rows, related⟩ := Tables.exists_rows (S := fun request (row : ChunkRow δ) =>
        row ∈ s.file.chunks ∧ row.metadata.request = request) all
      exact ⟨rows, related, series_blobs aligned held hperiod hdays related⟩

end

/-! ### One week -/

/-- Digests that are what they digest, as far as it tells requests apart. -/
inductive Digest
  | text (value : String)
  | request (registration : Digest) (request : Request)
  deriving DecidableEq

/-- The amounts of the week's prices. -/
def weekAmount : Val → Except Exc (Option Amount)
  | .str text => .ok (([("1.03", 103 / 100), ("1.04", 26 / 25), ("1.07", 107 / 100),
      ("1.08", 27 / 25), ("1.09", 109 / 100), ("1.10", 11 / 10), ("1.11", 111 / 100)].lookup
        text).map fun value => ⟨value, text⟩)
  | _ => raise .typeError "not a price"

def weekLibrary : Library Digest where
  decimal := weekAmount
  timestampsDigest timestamps := .text (String.intercalate "," timestamps)
  contentDigest blob := .text (String.intercalate "," (blob.map NormalizedRow.timestamp))
  blobDigest blob := .text (String.intercalate ";" (blob.map NormalizedRow.timestamp))
  requestDigest := .request
  metadataDigest metadata := .request metadata.registration metadata.request

def weekPlans : Plans Digest :=
  ⟨.text "plan", "acquisition-v3", .text "predecessor", "acquisition-v2"⟩

/-- The week from Friday, 2 January 2026, 17:00 in New York. -/
def week : LiveCandle :=
  ⟨1767391200000000, true, 27,
    ⟨⟨107 / 100, "1.07"⟩, ⟨11 / 10, "1.10"⟩, ⟨103 / 100, "1.03"⟩, ⟨27 / 25, "1.08"⟩⟩,
    ⟨⟨27 / 25, "1.08"⟩, ⟨111 / 100, "1.11"⟩, ⟨26 / 25, "1.04"⟩, ⟨109 / 100, "1.09"⟩⟩⟩

def weekBook : Book := fun instrument g => if instrument = "EUR_USD" ∧ g = .w then [week] else []

def weekRequest : Request :=
  ⟨"sealed_second", "EUR_USD", .w, 1762732800000000, 1788739200000000⟩

def weekResponse : Response Digest where
  status := 200
  parts := [512]
  providerId := "week-1"
  payload := .ok (.dict [("instrument", .str "EUR_USD"), ("granularity", .str "W"),
    ("candles", .list [.dict [("complete", .bool true), ("volume", .int 27),
      ("time", .str "2026-01-02T22:00:00.000000000Z"),
      ("bid", .dict [("o", .str "1.07"), ("h", .str "1.10"), ("l", .str "1.03"),
        ("c", .str "1.08")]),
      ("ask", .dict [("o", .str "1.08"), ("h", .str "1.11"), ("l", .str "1.04"),
        ("c", .str "1.09")])]])])
  bodySha256 := .text "body"

theorem weekBook_registered : weekBook.Registered := by
  constructor
  · intro instrument g
    rw [weekBook]
    split_ifs
    · exact List.pairwise_singleton _ _
    · exact List.Pairwise.nil
  · intro instrument g candle mem
    rw [weekBook] at mem
    split_ifs at mem with here
    · rw [List.mem_singleton.mp mem, here.2]
      decide
    · cases mem

theorem weekLibrary_free : weekLibrary.CollisionFree := by
  intro registration registration' request request' same
  exact Digest.request.inj same

theorem weekResponse_honest : Honest weekLibrary weekBook weekRequest weekResponse := by
  refine ⟨rfl, by decide, by decide, ?_⟩
  have shaped : (weekResponse.payload >>= envelope weekRequest >>= mapE candleShape) =
      .ok [true] := by decide
  have parsed : (weekResponse.payload >>= envelope weekRequest >>=
      mapE (parseLiveCandle weekLibrary)) = .ok (answer weekBook weekRequest) := by decide +kernel
  obtain ⟨items, enveloped, shaped⟩ := bind_eq_ok.mp shaped
  obtain ⟨payload, answered, enveloped⟩ := bind_eq_ok.mp enveloped
  obtain ⟨items', enveloped', parsed⟩ := bind_eq_ok.mp parsed
  obtain ⟨payload', answered', enveloped'⟩ := bind_eq_ok.mp enveloped'
  cases answered.symm.trans answered'
  cases enveloped.symm.trans enveloped'
  refine ⟨payload, items, answered, enveloped, fun item mem => ?_, parsed⟩
  obtain ⟨shape, hshape, same⟩ := exists_mem_of_mapE shaped mem
  rw [same, List.mem_singleton.mp hshape]

theorem weekRequest_series :
    seriesRequests ("sealed_second", 1762732800000000, 1788739200000000) "EUR_USD" (.w, 365) =
      [weekRequest] := by decide

/-- A run from an empty file: the store opens, acquires the series' one request, and holds the week. -/
theorem retrospective_cache_week : ∃ s, HonestlyCached weekPlans weekLibrary weekBook s ∧
    ∃ rows : List (ChunkRow Digest), (∀ row ∈ rows, row ∈ s.file.chunks) ∧
      rows.flatMap ChunkRow.blob = [normalize week] := by
  have cache := retrospective_cache weekPlans weekLibrary weekLibrary_free weekBook
    weekBook_registered
  have empty : Sound weekPlans weekLibrary ⟨[], []⟩ :=
    ⟨by rintro _ ⟨⟩, by rintro _ ⟨⟩, List.nodup_nil⟩
  have start : HonestlyCached weekPlans weekLibrary weekBook ⟨⟨[], []⟩, none⟩ :=
    .start ⟨rfl, empty, by rintro _ ⟨⟩⟩
  obtain ⟨-, -, -, opens, -⟩ := cache.1 ⟨⟨[], []⟩, none⟩ (.start ⟨rfl, empty⟩)
  obtain ⟨memory, held, -⟩ := opens rfl
  have opened : HonestlyCached weekPlans weekLibrary weekBook
      (step weekPlans weekLibrary ⟨⟨[], []⟩, none⟩ .open) := start.step trivial
  have registered : weekRequest ∈ chunks := by
    refine List.mem_flatMap.mpr ⟨("sealed_second", 1762732800000000, 1788739200000000),
      by decide, List.mem_flatMap.mpr ⟨"EUR_USD", by decide,
        List.mem_flatMap.mpr ⟨(.w, 365), by decide, ?_⟩⟩⟩
    rw [weekRequest_series]
    exact List.mem_singleton_self _
  have clean : ∀ finish, periodEnd weekRequest.period = .ok finish →
      ∀ candle ∈ weekBook weekRequest.instrument weekRequest.granularity,
        Clean weekRequest finish candle := by
    intro finish _ candle mem
    rw [List.mem_singleton.mp mem]
    exact ⟨by decide, by decide +kernel, by decide +kernel, by decide +kernel, fun _ => rfl⟩
  let reply : Reply Digest := ⟨0, 0, .ok weekResponse⟩
  obtain ⟨row, hrow, same⟩ := (cache.2 _ opened).1 memory held weekRequest registered reply
    weekResponse rfl weekResponse_honest clean
  have acquired : HonestlyCached weekPlans weekLibrary weekBook (step weekPlans weekLibrary
      (step weekPlans weekLibrary ⟨⟨[], []⟩, none⟩ .open) (.acquire weekRequest reply)) := by
    refine opened.step fun response answered => ?_
    cases answered
    exact weekResponse_honest
  obtain ⟨rows, related, whole⟩ := (cache.2 _ acquired).2
    ("sealed_second", 1762732800000000, 1788739200000000) (by decide) "EUR_USD"
    (by decide) (.w, 365) (by decide) (by
      rw [weekRequest_series]
      intro request mem
      rw [List.mem_singleton.mp mem]
      exact ⟨row, hrow, same⟩)
  refine ⟨_, acquired, rows, fun row mem => ?_, whole.trans ?_⟩
  · obtain ⟨request, -, there, -⟩ := Vintage.forall₂_exists_left related mem
    exact there
  · decide

end TradeRecommender.Research.Acquisition
