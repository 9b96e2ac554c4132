import TradeRecommender.Research.CheckpointChain

/-!
# The catalog keeps its chains

Over every run of calls whose keys are spelled as `isoformat` prints them, the stored rows of a
population are its derived chain.

1. sound tables, and the records a day selects;
2. verification walks the chain, with whatever proofs are in memory;
3. a write extends the chain or changes nothing;
4. every run keeps it;
5. a key spelled otherwise forks it.
-/

namespace TradeRecommender.Validation

open Py Civil

set_option linter.unusedSectionVars false

/-! ## The days of a chain -/

section
variable {δ ρ : Type} {L : Library δ ρ} {registration : Registration} {strategy instrument : String}
  {bodies : List (Body δ ρ)}

/-- The key of a chain's body is that of one of its days. -/
theorem Chain.exists_dayKey (chain : Chain L registration strategy instrument bodies) {body : Body δ ρ}
    (h : body ∈ bodies) : ∃ n < bodies.length,
      body.key = dayKey (L.registrationDigest registration) strategy instrument (dayAt n) := by
  obtain ⟨n, hn, rfl⟩ := List.getElem_of_mem h
  obtain ⟨pre, body, post, rfl, rfl, front⟩ := chain.split hn
  refine ⟨pre.length, hn, ?_⟩
  rw [List.getElem_append_right (Nat.le_refl _)]
  simpa using front.key

/-- Days start in the order of a chain. -/
theorem Chain.pairwise (chain : Chain L registration strategy instrument bodies) :
    bodies.Pairwise fun a b => a.key.start < b.key.start := by
  induction chain with
  | start => exact .nil
  | next chain inside _ ih =>
    refine List.pairwise_append.mpr ⟨ih, List.pairwise_singleton _ _, fun a ha b hb => ?_⟩
    obtain ⟨n, hn, key⟩ := chain.exists_dayKey ha
    rw [List.mem_singleton.mp hb, key]
    exact isoformat_dayAt_lt inside.le hn

/-- The bodies that start before a day are the first ones. -/
theorem Chain.filter_start {n : ℕ} (hn : n ≤ dayCount) (chain : Chain L registration strategy instrument bodies) :
    bodies.filter (fun body => body.key.start < isoformat (dayAt n)) = bodies.take n := by
  induction chain with
  | start => rw [List.filter_nil, List.take_nil]
  | @next bodies rows endState chain inside _ ih =>
    rw [List.filter_append, ih]
    have before : isoformat (dayAt bodies.length) < isoformat (dayAt n) ↔ bodies.length < n :=
      isoformat_dayAt_lt_iff inside.le hn
    by_cases h : bodies.length < n
    · rw [List.filter_singleton, List.take_of_length_le h.le, List.take_of_length_le]
      · simp [dayKey, before, h]
      · rw [List.length_append, List.length_singleton]
        omega
    · rw [List.filter_singleton, List.take_append_of_le_length (not_lt.mp h)]
      simp [dayKey, before, h]

end

section
variable {δ ρ : Type} [DecidableEq δ] [DecidableEq ρ] {L : Library δ ρ}
  {table : List (Stored δ ρ)} {provenance strategy instrument : String}

/-! ## Sound tables -/

/-- The rows of a population, in the order of their insertion. -/
def population (table : List (Stored δ ρ)) (registration : δ) (strategy instrument : String) :
    List (Stored δ ρ) :=
  table.filter (Stored.ofPopulation registration strategy instrument)

/-- The rows of each population are its derived chain, and there are no others. -/
structure TableSound (L : Library δ ρ) (table : List (Stored δ ρ)) : Prop where
  registered : ∀ row ∈ table, ∃ provenance,
    row.registrationId = L.registrationDigest (contract provenance)
  chains : ∀ provenance strategy instrument, ∃ bodies,
    Chain L (contract provenance) strategy instrument bodies ∧
      population table (L.registrationDigest (contract provenance)) strategy instrument =
        bodies.map (Stored.of L)

/-- The records before a day are the first bodies of the chain, as many as there are days. -/
theorem selectRecords_chain {bodies : List (Body δ ρ)} {n : ℕ} (hn : n ≤ dayCount)
    (chain : Chain L (contract provenance) strategy instrument bodies) :
    selectRecords (bodies.map (Stored.of L)) (dayAt 0) (dayAt n) =
      (bodies.take n).map (Stored.of L) := by
  have selected : (bodies.map (Stored.of L)).filter
      (fun row => row.body.key.start < isoformat (dayAt n)) =
        (bodies.take n).map (Stored.of L) := by
    rw [List.filter_map, ← chain.filter_start hn]
    rfl
  have inOrder : sortedBy (fun row => row.body.key.start) ((bodies.take n).map (Stored.of L)) =
      (bodies.take n).map (Stored.of L) := by
    refine List.Pairwise.insertionSort_eq (List.pairwise_map.mpr ?_)
    exact (chain.pairwise.sublist (List.take_sublist n bodies)).imp fun h => h.le
  have count : ((dayAt n - dayAt 0) / day + 1).toNat = n + 1 := by
    rw [dayAt_sub]
    rfl
  rw [selectRecords, selected, inOrder, count, List.take_of_length_le]
  rw [List.length_map, List.length_take]
  omega

/-! ## Verification -/

/-- The file is the same and the memory is sound. -/
structure Keeps (L : Library δ ρ) (s t : Catalog δ ρ) : Prop where
  registrations : t.registrations = s.registrations
  checkpoints : t.checkpoints = s.checkpoints
  provenance : t.provenance = s.provenance
  sound : ProofsSound L t.proofs

/-- The population is one a catalog replays. -/
structure Replayed (strategy instrument : String) : Prop where
  known : strategy ∈ strategies
  noOverlay : strategy ∉ overlays
  paired : instrument ∈ canonicalPairs

/-- The proof of the last body of the chain is in memory. -/
def Resumed (L : Library δ ρ) (proofs : δ → Option (Proof δ)) (bodies : List (Body δ ρ)) : Prop :=
  ∀ last, bodies.getLast? = some last → proofs (L.keyDigest last.key) = some (proofFor L last)

variable {bodies : List (Body δ ρ)} {body : Body δ ρ} {s : Catalog δ ρ}

theorem validState_chain (chain : Chain L (contract provenance) strategy instrument bodies)
    (resumed : Resumed L s.proofs bodies) :
    validState L s.proofs (dayKey (L.registrationDigest (contract provenance)) strategy instrument
      (dayAt bodies.length)) (dayAt bodies.length) (dayAt 0) (activeOf bodies)
      (predecessorOf L bodies) = true := by
  rcases List.eq_nil_or_concat' bodies with rfl | ⟨before, last, rfl⟩
  · simp [validState, activeOf, predecessorOf]
  · have found := resumed last (by simp)
    have prior : priorKey (dayKey (L.registrationDigest (contract provenance)) strategy instrument
        (dayAt (before ++ [last]).length)) (dayAt (before ++ [last]).length) = last.key := by
      rw [chain.key, priorKey, List.length_append, List.length_singleton, ← dayAt_succ]
      simp [dayKey]
    have later : dayAt (before ++ [last]).length ≠ dayAt 0 := by
      rw [Ne, dayAt_inj]
      simp
    rw [validState, if_neg later, prior, found]
    simp [proofFor]

/-- Replay of the day after a chain, where its last proof is in memory. -/
theorem replayCheckpoint_chain (replays : Replayed strategy instrument)
    (chain : Chain L (contract provenance) strategy instrument (bodies ++ [body]))
    (resumed : Resumed L s.proofs bodies) :
    replayCheckpoint L (dayKey (L.registrationDigest (contract provenance)) strategy instrument
      (dayAt bodies.length)) (contract provenance) (activeOf bodies) (predecessorOf L bodies) s =
        (.ok body, s.prove (L.keyDigest body.key) (proofFor L body)) := by
  obtain ⟨front, inside, replayed, hbody⟩ := chain.last
  have within : ¬ outsidePeriod L (dayKey (L.registrationDigest (contract provenance)) strategy
      instrument (dayAt bodies.length)) (contract provenance) ⟨dayAt bodies.length, some 0⟩
      ⟨dayAt (bodies.length + 1), some 0⟩ (dayAt 0) (dayAt dayCount) := by
    have midnight : dayAt bodies.length % day = 0 := Int.mul_emod_left _ _
    have oneDay : dayAt (bodies.length + 1) - dayAt bodies.length = day := by
      rw [← dayAt_succ]
      ring
    simp only [outsidePeriod, not_or, not_not]
    exact ⟨rfl, replays.known, replays.noOverlay, replays.paired, trivial, trivial,
      midnight, oneDay, dayAt_le.mpr (Nat.zero_le _), dayAt_lt.mpr (Nat.lt_succ_self _),
      dayAt_le.mpr inside⟩
  have read := fromisoformat_dayAt inside.le
  have readNext : fromisoformat (isoformat (dayAt bodies.length + day)) =
      .ok ⟨dayAt (bodies.length + 1), some 0⟩ := by
    rw [dayAt_succ]
    exact fromisoformat_dayAt inside
  have whole : Body.mk (L.registrationDigest (contract provenance)) (dayKey (L.registrationDigest
      (contract provenance)) strategy instrument (dayAt bodies.length)) body.rows body.endState
      (predecessorOf L bodies) = body := hbody.symm
  rw [← chain.key] at within whole ⊢
  have fields : body.key.start = isoformat (dayAt bodies.length) ∧
      body.key.end_ = isoformat (dayAt bodies.length + day) := by
    rw [chain.key]
    exact ⟨rfl, rfl⟩
  rw [← fields.1] at read
  rw [← fields.2] at readNext
  have registered : body.key.registration = L.registrationDigest (contract provenance) := by
    rw [chain.key]
    rfl
  have population : body.key.strategy = strategy ∧ body.key.instrument = instrument := by
    rw [chain.key]
    exact ⟨rfl, rfl⟩
  rw [← population.1, ← population.2] at replayed
  have valid := validState_chain front resumed
  rw [← chain.key] at valid
  rw [replayCheckpoint_eq read readNext (period_contract provenance) within valid replayed,
    registered, whole]

theorem Keeps.refl (sound : ProofsSound L s.proofs) : Keeps L s s := ⟨rfl, rfl, rfl, sound⟩

theorem Keeps.trans {t u : Catalog δ ρ} (first : Keeps L s t) (second : Keeps L t u) :
    Keeps L s u :=
  ⟨second.registrations.trans first.registrations, second.checkpoints.trans first.checkpoints,
    second.provenance.trans first.provenance, second.sound⟩

/-- Keeping the proof of a derived body. -/
theorem keeps_prove (sound : ProofsSound L s.proofs)
    (chain : Chain L (contract provenance) strategy instrument (bodies ++ [body])) :
    Keeps L s (s.prove (L.keyDigest body.key) (proofFor L body)) :=
  ⟨rfl, rfl, rfl, sound.update ⟨_, _, _, _, body, chain, rfl, rfl⟩⟩

/-- The proof of a chain's record is its body's, from memory or from replay. -/
theorem proofOf_chain (free : L.CollisionFree) (replays : Replayed strategy instrument)
    (chain : Chain L (contract provenance) strategy instrument (bodies ++ [body]))
    (sound : ProofsSound L s.proofs) (resumed : Resumed L s.proofs bodies) :
    ∃ t, proofOf L (Stored.of L body) (dayKey (L.registrationDigest (contract provenance)) strategy
        instrument (dayAt bodies.length)) (contract provenance) (activeOf bodies)
        (predecessorOf L bodies) s = (.ok (some (proofFor L body)), t) ∧ Keeps L s t ∧
      t.proofs (L.keyDigest body.key) = some (proofFor L body) := by
  have replay := replayCheckpoint_chain (s := s) replays chain resumed
  have identity : (Stored.of L body).identity = L.keyDigest body.key := rfl
  unfold proofOf
  rw [Call.bind_of_ok (x := Call.read Catalog.proofs) (s := s) rfl, identity]
  cases found : s.proofs (L.keyDigest body.key) with
  | none =>
    refine ⟨_, ?_, keeps_prove sound chain, ?_⟩
    · show (replayCheckpoint L _ _ _ _ >>= fun _ => Call.read _) s = _
      rw [Call.bind_of_ok replay]
      simp [Call.read, Catalog.prove]
    · simp [Catalog.prove]
  | some proof =>
    -- a sound proof of this identity is the proof of this very body
    have same : proof = proofFor L body := by
      rw [chain.key] at found
      obtain ⟨others, other, chain', same, rfl⟩ := sound.ends free chain.last.2.1 found
      have := chain'.unique chain (by simp [same])
      rw [(List.append_inj' this rfl).2 |> List.singleton_inj.mp]
    have ancestry : proof.predecessor = predecessorOf L bodies := by
      rw [same, proofFor, chain.last.2.2.2]
    refine ⟨s, ?_, .refl sound, by rw [found, same]⟩
    show (if proof.predecessor = predecessorOf L bodies then _ else _ : Call _ _) s = _
    rw [if_pos ancestry, same]
    rfl

/-- Walking records of a chain from the chain before them returns their rows and the state they
leave. -/
theorem verifyRecords_chain (free : L.CollisionFree) (replays : Replayed strategy instrument)
    (collect : Bool) (records : List (Body δ ρ)) {bodies : List (Body δ ρ)} {s : Catalog δ ρ}
    (chain : Chain L (contract provenance) strategy instrument (bodies ++ records))
    (sound : ProofsSound L s.proofs) (resumed : Resumed L s.proofs bodies) :
    ∃ t, verifyRecords L (contract provenance) (L.registrationDigest (contract provenance)) strategy
        instrument collect (records.map (Stored.of L)) (dayAt bodies.length) (activeOf bodies)
        (predecessorOf L bodies) s =
          (.ok (if collect then records.flatMap Body.rows else [], activeOf (bodies ++ records),
            predecessorOf L (bodies ++ records)), t) ∧ Keeps L s t := by
  induction records generalizing bodies s with
  | nil =>
    refine ⟨s, ?_, .refl sound⟩
    rw [List.append_nil]
    cases collect <;> rfl
  | cons body records ih =>
    rw [List.append_cons] at chain ⊢
    have front := chain.front
    obtain ⟨t, proof, keeps, known⟩ := proofOf_chain free replays front sound resumed
    have resumed' : Resumed L t.proofs (bodies ++ [body]) := by
      intro last h
      rw [List.getLast?_concat] at h
      obtain rfl := Option.some.inj h
      exact known
    obtain ⟨u, walked, keeps'⟩ := ih chain keeps.sound resumed'
    refine ⟨u, ?_, keeps.trans keeps'⟩
    have ancestry : ¬ (L.keyDigest (dayKey (L.registrationDigest (contract provenance)) strategy
        instrument (dayAt bodies.length)) ≠ (Stored.of L body).identity ∨
        (Stored.of L body).body.key ≠ dayKey (L.registrationDigest (contract provenance)) strategy
          instrument (dayAt bodies.length) ∨
        L.bodyDigest (Stored.of L body).body ≠ (Stored.of L body).bodySha256 ∨
        (Stored.of L body).body.predecessor ≠ predecessorOf L bodies) := by
      simp only [Stored.of, not_or, not_not, front.key, true_and]
      rw [front.last.2.2.2]
    have replayed : ¬ ((proofFor L body).digest ≠ (Stored.of L body).bodySha256 ∨
        (Stored.of L body).body.endState ≠ (proofFor L body).state) := by
      simp [proofFor, Stored.of]
    rw [List.map_cons, verifyRecords, Call.bind_of_ok (Call.refuseIf_of_not s ancestry),
      Call.bind_of_ok proof]
    show (Call.refuseIf _ _ _ >>= fun _ => _) t = _
    rw [Call.bind_of_ok (Call.refuseIf_of_not t replayed)]
    rw [List.length_append, List.length_singleton, activeOf_append, predecessorOf_append] at walked
    rw [dayAt_succ]
    refine (Call.bind_of_ok walked).trans ?_
    cases collect <;> rfl

/-- Walking a chain from its start. -/
theorem verifyRecords_start (free : L.CollisionFree) (replays : Replayed strategy instrument)
    (collect : Bool) (chain : Chain L (contract provenance) strategy instrument bodies)
    (sound : ProofsSound L s.proofs) :
    ∃ t, verifyRecords L (contract provenance) (L.registrationDigest (contract provenance)) strategy
        instrument collect (bodies.map (Stored.of L)) (dayAt 0) noExits none s =
          (.ok (if collect then bodies.flatMap Body.rows else [], activeOf bodies,
            predecessorOf L bodies), t) ∧ Keeps L s t := by
  have fromNothing : Resumed L s.proofs [] := fun _ h => by cases h
  have walked := verifyRecords_chain free replays collect bodies chain sound fromNothing
  rwa [List.nil_append] at walked

/-- `load` returns the process's own contract, or raises; the memory is not read. -/
theorem load_meets (identity : δ) : Call.Meets (fun t => t = s) (load L identity)
    (fun registration t => registration = contract s.provenance ∧
      L.registrationDigest registration = identity ∧ t = s) (fun t => t = s) := by
  unfold load
  refine .bind .read fun table => .bind .read fun provenance => ?_
  split
  · exact (Call.Meets.ofExcept fun _ h => h.2.2).weaken (fun _ h => h) (fun _ _ h => by cases h.1)
      fun _ h => h
  · refine .bind (.refuseIf fun _ h => h.2.2) fun _ => .bind (.refuseIf fun _ h => h.2.2.2) fun _ =>
      .pure fun t h => ?_
    obtain ⟨drift, digest, rfl, -, rfl⟩ := h
    exact ⟨not_not.mp drift, not_not.mp digest, rfl⟩

/-- The call does not read the memory, nor write. -/
def Blind {α : Type} (x : Call (Catalog δ ρ) α) : Prop :=
  ∀ (s : Catalog δ ρ) (proofs : δ → Option (Proof δ)),
    x { s with proofs := proofs } = ((x s).1, { s with proofs := proofs })

theorem blind_ofExcept {α : Type} (r : Except Exc α) :
    Blind (Call.ofExcept r : Call (Catalog δ ρ) α) := fun _ _ => rfl

theorem Blind.bind {α β : Type} {x : Call (Catalog δ ρ) α} {f : α → Call (Catalog δ ρ) β}
    (first : Blind x) (next : ∀ a, Blind (f a)) : Blind (x >>= f) := by
  intro s proofs
  have still : (x s).2 = s := by
    have := first s s.proofs
    exact congrArg Prod.snd this
  match h : x s with
  | (.ok a, t) =>
    obtain rfl : t = s := by simpa [h] using still
    have other : x { t with proofs := proofs } = (.ok a, { t with proofs := proofs }) := by
      rw [first, h]
    rw [Call.bind_of_ok other, Call.bind_of_ok h]
    exact next a t proofs
  | (.error e, t) =>
    have other : x { s with proofs := proofs } = (.error e, { s with proofs := proofs }) := by
      rw [first, h]
    rw [Call.bind_of_error other, Call.bind_of_error h]

theorem load_blind (L : Library δ ρ) (identity : δ) : Blind (load L identity) := by
  unfold load
  refine .bind (fun _ _ => rfl) fun table => .bind (fun _ _ => rfl) fun provenance => ?_
  split
  · exact blind_ofExcept _
  · exact .bind (blind_ofExcept _) fun _ => .bind (blind_ofExcept _) fun _ => fun _ _ => rfl

variable (strategy instrument) in
theorem chainRecords_blind (identity : δ) (stop : Option Stamp) :
    Blind (chainRecords L identity strategy instrument stop) := by
  unfold chainRecords
  exact .bind (load_blind L identity) fun _ => .bind (blind_ofExcept _) fun _ =>
    .bind (blind_ofExcept _) fun _ => .bind (fun _ _ => rfl) fun _ => .bind (blind_ofExcept _)
      fun _ => .bind (blind_ofExcept _) fun _ => fun _ _ => rfl

variable (strategy instrument) in
/-- The records to walk, of populations whose rows are chains: those of the chain before the day. -/
theorem chainRecords_meets (tableSound : TableSound L s.checkpoints) (identity : δ)
    (stop : Option Stamp) : Call.Meets (fun t => t = s)
    (chainRecords L identity strategy instrument stop)
    (fun result t => t = s ∧ identity = L.registrationDigest (contract s.provenance) ∧
      Replayed strategy instrument ∧ ∃ n ≤ dayCount,
        (stop.getD ⟨dayAt dayCount, some 0⟩).wall = dayAt n ∧ ∃ bodies others,
          Chain L (contract s.provenance) strategy instrument (bodies ++ others) ∧
            population s.checkpoints identity strategy instrument =
              (bodies ++ others).map (Stored.of L) ∧ bodies.length = n ∧
            result = (contract s.provenance, dayAt 0, bodies.map (Stored.of L)))
    (fun t => t = s) := by
  unfold chainRecords
  refine .bind (load_meets identity) fun registration => ?_
  refine .bind (.ofExcept fun _ h => h.2.2) fun span => ?_
  refine .bind (.refuseIf fun _ h => h.2.2.2) fun _ => ?_
  refine .bind .read fun table => ?_
  refine .bind (.refuseIf fun _ h => h.2.2.2.2.2) fun _ => ?_
  refine .bind (.refuseIf fun _ h => h.2.2.2.2.2.2) fun _ => .pure fun t h => ?_
  obtain ⟨long, -, rfl, within, hspan, rfl, rfl, rfl⟩ := h
  rw [period_contract] at hspan
  obtain rfl := (Except.ok.inj hspan).symm
  simp only [outsideChain, not_or, not_not] at within
  obtain ⟨known, noOverlay, paired, zone, midnight, low, high⟩ := within
  obtain ⟨n, hn, hwall⟩ := exists_dayAt midnight low high
  obtain ⟨bodies, chain, rows⟩ := tableSound.chains t.provenance strategy instrument
  have rows' : t.checkpoints.filter (Stored.ofPopulation
      (L.registrationDigest (contract t.provenance)) strategy instrument) =
        bodies.map (Stored.of L) := rows
  rw [hwall, rows', selectRecords_chain hn chain, List.length_map, List.length_take, dayAt_sub] at long
  have whole := List.take_append_drop n bodies
  refine ⟨rfl, rfl, ⟨known, noOverlay, paired⟩, n, hn, hwall, bodies.take n, bodies.drop n,
    by rwa [whole], by rwa [whole], ?_, ?_⟩
  · rw [List.length_take]
    omega
  · rw [hwall, rows', selectRecords_chain hn chain]

/-- Verification of a population whose rows are a chain, from any sound memory: it returns the chain
before the day, or raises, and keeps the file. -/
theorem verifyChain_meets (free : L.CollisionFree) (tableSound : TableSound L s.checkpoints)
    (sound : ProofsSound L s.proofs) (identity : δ) (stop : Option Stamp) (collect : Bool) :
    Call.Meets (fun t => t = s) (verifyChain L identity strategy instrument stop collect)
      (fun result t => Keeps L s t ∧ identity = L.registrationDigest (contract s.provenance) ∧
        Replayed strategy instrument ∧ ∃ n ≤ dayCount,
          (stop.getD ⟨dayAt dayCount, some 0⟩).wall = dayAt n ∧ ∃ bodies others,
            Chain L (contract s.provenance) strategy instrument (bodies ++ others) ∧
              population s.checkpoints identity strategy instrument =
                (bodies ++ others).map (Stored.of L) ∧ bodies.length = n ∧
              result = (if collect then bodies.flatMap Body.rows else [], activeOf bodies,
                predecessorOf L bodies))
      (Keeps L s) := by
  unfold verifyChain
  refine .bind ((chainRecords_meets strategy instrument tableSound identity stop).weaken (fun _ h => h)
    (fun _ _ h => h) fun t h => by rw [h]; exact .refl sound) fun result => ?_
  rintro t ⟨rfl, rfl, replays, n, hn, hwall, bodies, others, chain, rows, rfl, rfl⟩
  obtain ⟨u, walked, keeps⟩ := verifyRecords_start free replays collect chain.front sound
  refine ⟨fun returned v h => ?_, fun e v h => ?_⟩
  · obtain ⟨same, rfl⟩ := Prod.mk.inj (walked.symm.trans h)
    obtain rfl := Except.ok.inj same
    exact ⟨keeps, rfl, replays, bodies.length, hn, hwall, bodies, others, chain, rows, rfl, rfl⟩
  · have := walked.symm.trans h
    cases this

/-- Verification returns, or raises, the same from any sound memory. -/
theorem verifyChain_congr (free : L.CollisionFree) (tableSound : TableSound L s.checkpoints)
    (sound : ProofsSound L s.proofs) {proofs : δ → Option (Proof δ)}
    (sound' : ProofsSound L proofs) (identity : δ) (stop : Option Stamp) (collect : Bool) :
    (verifyChain L identity strategy instrument stop collect { s with proofs := proofs }).1 =
      (verifyChain L identity strategy instrument stop collect s).1 := by
  have blind := chainRecords_blind (L := L) strategy instrument identity stop s proofs
  obtain ⟨returned, raised⟩ := chainRecords_meets strategy instrument tableSound identity stop s rfl
  unfold verifyChain
  match h : chainRecords L identity strategy instrument stop s with
  | (.error e, t) =>
    rw [h] at blind
    rw [Call.bind_of_error h, Call.bind_of_error blind]
  | (.ok result, t) =>
    rw [h] at blind
    rw [Call.bind_of_ok h, Call.bind_of_ok blind]
    obtain ⟨rfl, rfl, replays, n, hn, hwall, bodies, others, chain, rows, rfl, rfl⟩ := returned _ _ h
    obtain ⟨u, walked, -⟩ := verifyRecords_start free replays collect chain.front sound
    obtain ⟨u', walked', -⟩ := verifyRecords_start (s := { t with proofs := proofs }) free replays
      collect chain.front sound'
    exact (congrArg Prod.fst walked').trans (congrArg Prod.fst walked).symm

/-! ## Writing -/

/-- The admission of an insertion writes nothing, and its replays keep the memory sound. -/
theorem admitCheckpoint_meets (free : L.CollisionFree) (tableSound : TableSound L s.checkpoints)
    (sound : ProofsSound L s.proofs) (spelled : Spelled body.key.start ∧ Spelled body.key.end_)
    (pending : Option δ) (registration : Registration) :
    Call.Meets (fun t => t = s) (admitCheckpoint L pending body registration)
      (fun _ => Keeps L s) (Keeps L s) := by
  have unchanged : ∀ t, t = s → Keeps L s t := fun t h => by rw [h]; exact .refl sound
  have raw : L.registrationDigest registration = body.key.registration → ∀ start,
      Call.Meets (fun t => t = s) (admitRaw L body registration start) (fun _ => Keeps L s)
        (Keeps L s) := by
    intro registered start
    unfold admitRaw
    refine .bind ((load_meets _).weaken (fun _ h => h) (fun _ _ h => h) unchanged) fun own => ?_
    refine .each fun t ⟨hown, digest, ht⟩ => ?_
    rw [ht]
    obtain rfl : registration = contract s.provenance := by
      rw [hown] at digest
      exact free.registration (registered.trans digest.symm)
    refine .bind ((verifyChain_meets free tableSound sound _ _ _).weaken (fun _ h => h)
      (fun _ _ h => h.1) fun _ h => h) fun chain => .each fun u keeps => ?_
    refine .bind ((replayCheckpoint_extends free keeps.sound spelled).weaken (fun _ h => h)
      (fun expected v h => ?_) fun v h => h ▸ keeps) fun _ => .pure fun _ h => h
    obtain ⟨before, extended, -, -, hkey, rfl⟩ := h
    rw [← hkey]
    exact keeps.trans (keeps_prove keeps.sound extended)
  unfold admitCheckpoint
  refine .orReturn (E := Keeps L s) ?_ fun _ h => h
  refine .bind (.ofExcept unchanged) fun start => ?_
  refine .bind (.ofExcept fun t h => unchanged t h.2) fun end_ => ?_
  refine .bind (.ofExcept fun t h => unchanged t h.2.2) fun span => ?_
  split
  · exact .pure fun t h => unchanged t h.2.2.2
  · next within =>
    have registered : L.registrationDigest registration = body.key.registration := by
      simp only [outsidePeriod, not_or, not_not] at within
      exact within.1.1.symm
    refine .bind .read fun proofs => ?_
    split
    · exact (raw registered start).weaken (fun t h => h.2.2.2.2) (fun _ _ h => h) fun _ h => h
    · split
      · exact Call.Meets.read.weaken (fun _ h => h) (fun _ t h => unchanged t h.2.2.2.2.2)
          fun _ h => h
      · exact (raw registered start).weaken (fun t h => h.2.2.2.2) (fun _ _ h => h) fun _ h => h

/-- A stored row is that of a body of its population's chain. -/
theorem TableSound.row (tableSound : TableSound L table) {row : Stored δ ρ} (h : row ∈ table) :
    ∃ provenance strategy instrument bodies body,
      Chain L (contract provenance) strategy instrument bodies ∧ body ∈ bodies ∧
        row = Stored.of L body ∧
        population table (L.registrationDigest (contract provenance)) strategy instrument =
          bodies.map (Stored.of L) := by
  obtain ⟨provenance, registered⟩ := tableSound.registered row h
  obtain ⟨bodies, chain, rows⟩ := tableSound.chains provenance row.body.key.strategy
    row.body.key.instrument
  have mem : row ∈ bodies.map (Stored.of L) := by
    rw [← rows, population, List.mem_filter]
    simp [h, Stored.ofPopulation, registered]
  obtain ⟨body, hbody, rfl⟩ := List.mem_map.mp mem
  exact ⟨provenance, _, _, bodies, body, chain, hbody, rfl, rows⟩

/-- Where the identity of a derived body is stored, its population is stored through its day. -/
theorem TableSound.stored (free : L.CollisionFree) (tableSound : TableSound L table)
    (chain : Chain L (contract provenance) strategy instrument (bodies ++ [body]))
    {row : Stored δ ρ} (h : row ∈ table) (identity : row.identity = L.keyDigest body.key) :
    bodies.length + 1 ≤ (population table (L.registrationDigest (contract provenance)) strategy
      instrument).length := by
  obtain ⟨provenance', strategy', instrument', others, other, chain', mem, rfl, rows⟩ :=
    tableSound.row h
  have sameKey : other.key = body.key := free.key identity
  obtain ⟨n, hn, key⟩ := chain'.exists_dayKey mem
  rw [key, chain.key, dayKey, dayKey, Key.mk.injEq] at sameKey
  obtain ⟨sameRegistration, rfl, rfl, sameStart, -⟩ := sameKey
  have inside := chain'.length_le
  have sameDay := isoformat_dayAt_inj (by omega) chain.last.2.1.le sameStart
  rw [← sameRegistration, rows, List.length_map]
  omega

/-- Where it is not, the population is stored up to that day at most. -/
theorem TableSound.notStored (tableSound : TableSound L table)
    (chain : Chain L (contract provenance) strategy instrument (bodies ++ [body]))
    (fresh : ∀ row ∈ table, row.identity ≠ L.keyDigest body.key) :
    (population table (L.registrationDigest (contract provenance)) strategy instrument).length ≤
      bodies.length := by
  obtain ⟨others, chain', rows⟩ := tableSound.chains provenance strategy instrument
  by_contra longer
  rw [rows, List.length_map, not_le] at longer
  obtain ⟨pre, other, post, rfl, same, front⟩ := chain'.split longer
  have mem : Stored.of L other ∈ table := by
    refine List.mem_of_mem_filter (p := Stored.ofPopulation
      (L.registrationDigest (contract provenance)) strategy instrument) ?_
    rw [← population, rows]
    simp
  refine fresh _ mem ?_
  show L.keyDigest other.key = L.keyDigest body.key
  rw [front.key, chain.key, same]

/-- The next body of a stored chain at the end of the table. -/
theorem TableSound.insert (free : L.CollisionFree) (tableSound : TableSound L table)
    (chain : Chain L (contract provenance) strategy instrument (bodies ++ [body]))
    (reached : (population table (L.registrationDigest (contract provenance)) strategy
      instrument).length = bodies.length) : TableSound L (table ++ [Stored.of L body]) := by
  have key := chain.key
  refine ⟨fun row h => ?_, fun provenance' strategy' instrument' => ?_⟩
  · rcases List.mem_append.mp h with h | h
    · exact tableSound.registered row h
    · rw [List.mem_singleton.mp h]
      refine ⟨provenance, ?_⟩
      show body.key.registration = _
      rw [key]
      rfl
  · obtain ⟨others, chain', rows⟩ := tableSound.chains provenance' strategy' instrument'
    rw [population] at rows
    rw [population, List.filter_append, rows, List.filter_singleton]
    by_cases own : Stored.ofPopulation (L.registrationDigest (contract provenance')) strategy'
        instrument' (Stored.of L body) = true
    · rw [own]
      simp only [Stored.ofPopulation, Stored.of, key, dayKey, Bool.and_eq_true,
        decide_eq_true_eq] at own
      obtain ⟨⟨sameRegistration, rfl⟩, rfl⟩ := own
      have sameContract := free.registration sameRegistration
      rw [sameContract, population, rows, List.length_map] at reached
      rw [sameContract] at chain
      obtain rfl := chain'.unique chain.last.1 reached
      exact ⟨others ++ [body], chain, by simp⟩
    · rw [Bool.not_eq_true] at own
      rw [own]
      exact ⟨others, chain', by simp⟩

/-- A write of a derived body, whose chain is stored up to its day: the body is stored then. -/
theorem writeReplayed_meets (free : L.CollisionFree) (tableSound : TableSound L s.checkpoints)
    (sound : ProofsSound L s.proofs)
    (chain : Chain L (contract provenance) strategy instrument (bodies ++ [body]))
    (reached : bodies.length ≤ (population s.checkpoints
      (L.registrationDigest (contract provenance)) strategy instrument).length) :
    Call.Meets (fun t => t = s) (writeReplayed L body)
      (fun _ t => TableSound L t.checkpoints ∧ ProofsSound L t.proofs ∧
        t.provenance = s.provenance ∧ s.checkpoints <+: t.checkpoints ∧
        bodies.length + 1 ≤ (population t.checkpoints
          (L.registrationDigest (contract provenance)) strategy instrument).length)
      (Keeps L s) := by
  have spelled : Spelled body.key.start ∧ Spelled body.key.end_ := by
    have inside := chain.last.2.1
    rw [chain.key, dayKey, dayAt_succ]
    exact ⟨spelled_dayAt inside.le, spelled_dayAt inside⟩
  have unchanged : ∀ t, t = s → Keeps L s t := fun t h => by rw [h]; exact .refl sound
  unfold writeReplayed
  refine .bind .read fun table => ?_
  refine .bind (.refuseIf fun t h => unchanged t h.2) fun _ => ?_
  refine .each fun t h => ?_
  obtain ⟨-, htable, ht⟩ := h
  subst ht
  have admitted : Call.Meets (fun u => u = t) (insertTrigger L body) (fun _ => Keeps L t)
      (Keeps L t) := by
    unfold insertTrigger
    refine .bind .read fun registrations => ?_
    split
    · exact .pure fun u h => unchanged u h.2
    · exact (admitCheckpoint_meets free tableSound sound spelled _ _).weaken (fun _ h => h.2)
        (fun _ _ h => h) fun _ h => h
  refine .bind admitted fun _ => ?_
  refine .bind (.refuseIf fun _ h => h) fun _ => ?_
  refine .bind .write fun _ => .pure fun v h => ?_
  obtain ⟨u, ⟨-, keeps⟩, rfl⟩ := h
  cases found : table.find? (fun row : Stored δ ρ => decide (row.identity = L.keyDigest body.key)) with
  | some row =>
    have mem : row ∈ u.checkpoints := by
      rw [keeps.checkpoints, ← htable]
      exact List.mem_of_find?_eq_some found
    have identity : row.identity = L.keyDigest body.key := by
      have hit := List.find?_some found
      exact of_decide_eq_true hit
    have tableSound' : TableSound L u.checkpoints := by rwa [keeps.checkpoints]
    have same : t.checkpoints <+: u.checkpoints :=
      keeps.checkpoints ▸ List.prefix_refl _
    exact ⟨tableSound', keeps.sound, keeps.provenance, same,
      tableSound'.stored free chain mem identity⟩
  | none =>
    have fresh : ∀ row ∈ u.checkpoints, row.identity ≠ L.keyDigest body.key := by
      intro row mem
      rw [keeps.checkpoints, ← htable] at mem
      simpa using List.find?_eq_none.mp found row mem
    have tableSound' : TableSound L u.checkpoints := by rwa [keeps.checkpoints]
    rw [← keeps.checkpoints] at reached
    have exactly := le_antisymm (tableSound'.notStored chain fresh) reached
    have longer := tableSound'.insert free chain exactly
    refine ⟨longer, keeps.sound, keeps.provenance, ?_, ?_⟩
    · show t.checkpoints <+: u.checkpoints ++ [Stored.of L body]
      rw [keeps.checkpoints]
      exact List.prefix_append _ _
    · exact longer.stored free chain (List.mem_append_right _ List.mem_cons_self) rfl

/-! ## Calls and runs -/

/-- What holds of a catalog between calls, when its file held `stored` rows before. -/
structure Sound (L : Library δ ρ) (stored : List (Stored δ ρ)) (s : Catalog δ ρ) : Prop where
  table : TableSound L s.checkpoints
  proofs : ProofsSound L s.proofs
  kept : stored <+: s.checkpoints

theorem Sound.keeps {stored : List (Stored δ ρ)} {t : Catalog δ ρ} (sound : Sound L stored s)
    (keeps : Keeps L s t) : Sound L stored t :=
  ⟨by rw [keeps.checkpoints]; exact sound.table, keeps.sound,
    by rw [keeps.checkpoints]; exact sound.kept⟩

variable {stored : List (Stored δ ρ)}

theorem verifyChain_sound (free : L.CollisionFree) (identity : δ) (strategy instrument : String)
    (stop : Option Stamp) (collect : Bool) : Call.Meets (Sound L stored)
    (verifyChain L identity strategy instrument stop collect) (fun _ => Sound L stored)
    (Sound L stored) :=
  .each fun _ sound => (verifyChain_meets free sound.table sound.proofs identity stop
    collect).weaken (fun _ h => h) (fun _ _ h => sound.keeps h.1) fun _ h => sound.keeps h

/-- A write of a derived body keeps what holds between calls, and stores the body. -/
theorem writeReplayed_sound (free : L.CollisionFree)
    (chain : Chain L (contract provenance) strategy instrument (bodies ++ [body]))
    (sound : Sound L stored s)
    (reached : bodies.length ≤ (population s.checkpoints
      (L.registrationDigest (contract provenance)) strategy instrument).length) :
    Call.Meets (fun t => t = s) (writeReplayed L body)
      (fun _ t => Sound L stored t ∧ bodies.length + 1 ≤ (population t.checkpoints
        (L.registrationDigest (contract provenance)) strategy instrument).length)
      (Sound L stored) :=
  (writeReplayed_meets free sound.table sound.proofs chain reached).weaken (fun _ h => h)
    (fun _ _ h => ⟨⟨h.1, h.2.1, sound.kept.trans h.2.2.2.1⟩, h.2.2.2.2⟩) fun _ h => sound.keeps h

/-- `checkpoint`, of a key spelled as `isoformat` prints it. -/
theorem checkpoint_sound (free : L.CollisionFree) {key : Key δ}
    (spelled : Spelled key.start ∧ Spelled key.end_) (rows : List ρ) (endState : EndState)
    (predecessor : Option δ) : Call.Meets (Sound L stored)
    (checkpoint L key rows endState predecessor) (fun _ => Sound L stored) (Sound L stored) := by
  refine .each fun s sound => ?_
  have unchanged : ∀ t, t = s → Sound L stored t := fun t h => h ▸ sound
  unfold checkpoint
  refine .bind (.refuseIf unchanged) fun _ => ?_
  refine .bind (((load_meets key.registration).weaken (fun _ h => h.2) (fun _ _ h => h)
    unchanged)) fun registration => ?_
  refine .bind (.ofExcept fun t h => unchanged t h.2.2) fun start => ?_
  refine .each fun t ⟨hstart, hown, digest, ht⟩ => ?_
  rw [ht]
  subst hown
  refine .bind ((verifyChain_meets free sound.table sound.proofs _ _ _).weaken (fun _ h => h)
    (fun _ _ h => h) fun _ h => sound.keeps h) fun chain => ?_
  refine .each fun u ⟨keeps, _, _, n, _, hwall, before, others, stored', rows', hn, _⟩ => ?_
  refine .bind ((replayCheckpoint_extends free keeps.sound spelled).weaken (fun _ h => h)
    (fun _ _ h => h) fun v h => h ▸ sound.keeps keeps) fun expected => ?_
  refine .each fun v ⟨bodies, extended, _, _, hkey, hv⟩ => ?_
  have keeps' : Keeps L s v := by
    rw [hv, ← hkey]
    exact keeps.trans (keeps_prove keeps.sound extended)
  refine .bind (.refuseIf fun w h => h ▸ sound.keeps keeps') fun _ => ?_
  refine .each fun w ⟨same, hw⟩ => ?_
  rw [← not_not.mp same, hw]
  -- the day of the key is the day verification stopped at
  have sameDay : bodies.length = n := by
    have inside := extended.last.2.1
    have read : fromisoformat key.start = .ok ⟨dayAt bodies.length, some 0⟩ := by
      rw [← hkey, extended.key]
      exact fromisoformat_dayAt inside.le
    rw [hstart] at read
    obtain rfl := Except.ok.inj read
    exact dayAt_inj.mp hwall
  refine (writeReplayed_sound free extended (sound.keeps keeps') ?_).weaken (fun _ h => h)
    (fun _ _ h => h.1) fun _ h => h
  rw [keeps'.checkpoints, digest, rows', List.length_map, List.length_append]
  omega

/-- The loop of `run`, from a chain stored up to its first day. -/
theorem runDays_sound (free : L.CollisionFree) (days : ℕ) {n : ℕ} {active : EndState}
    {predecessor : Option δ} (inside : n + days ≤ dayCount) :
    Call.Meets (fun s => Sound L stored s ∧ n ≤ (population s.checkpoints
        (L.registrationDigest (contract provenance)) strategy instrument).length)
      (runDays L (contract provenance) (L.registrationDigest (contract provenance)) strategy
        instrument days (dayAt n) active predecessor)
      (fun _ => Sound L stored) (Sound L stored) := by
  induction days generalizing n active predecessor with
  | zero => exact .pure fun _ h => h.1
  | succ days ih =>
    refine .each fun s h => ?_
    obtain ⟨sound, reached⟩ := h
    have spelled : Spelled (dayKey (L.registrationDigest (contract provenance)) strategy instrument
        (dayAt n)).start ∧ Spelled (dayKey (L.registrationDigest (contract provenance)) strategy
          instrument (dayAt n)).end_ := by
      rw [dayKey, dayAt_succ]
      exact ⟨spelled_dayAt (by omega), spelled_dayAt (by omega)⟩
    unfold runDays
    refine .bind ((replayCheckpoint_extends free sound.proofs spelled).weaken (fun _ h => h)
      (fun _ _ h => h) fun v h => h ▸ sound) fun expected => ?_
    refine .each fun v h => ?_
    obtain ⟨bodies, extended, -, -, hkey, hv⟩ := h
    have keeps : Keeps L s v := by
      rw [hv, ← hkey]
      exact keeps_prove sound.proofs extended
    have sameDay : bodies.length = n := by
      have same := congrArg Key.start (extended.key.symm.trans hkey)
      exact isoformat_dayAt_inj extended.last.2.1.le (by omega) same
    subst sameDay
    rw [← keeps.checkpoints] at reached
    refine .bind (writeReplayed_sound free extended (sound.keeps keeps) reached) fun _ => ?_
    rw [dayAt_succ]
    exact .bind (ih (by omega)) fun _ => .pure fun _ h => h

/-- A period `admit_period` admits lies inside the development period. -/
theorem admitPeriod_meets (registration : Registration) (start end_ : Stamp) :
    Call.Meets (fun t => t = s) (admitPeriod registration start end_)
      (fun _ t => dayAt 0 ≤ start.wall ∧ start.wall < end_.wall ∧ end_.wall ≤ dayAt dayCount ∧
        t = s) (fun t => t = s) := by
  unfold admitPeriod
  refine .bind .read fun own => ?_
  refine .bind (.refuseIf fun _ h => h.2) fun _ => ?_
  refine .bind (.refuseIf fun _ h => h.2.2) fun _ => ?_
  refine .bind (.ofExcept fun _ h => h.2.2.2) fun span => ?_
  refine (Call.Meets.refuseIf fun _ h => h.2.2.2.2).weaken (fun _ h => h) (fun _ t h => ?_)
    fun _ h => h
  obtain ⟨within, hspan, -, -, -, ht⟩ := h
  rw [period_contract] at hspan
  obtain rfl := (Except.ok.inj hspan).symm
  obtain ⟨low, order, high⟩ := not_not.mp within
  exact ⟨low, order, high, ht⟩

theorem run_sound (free : L.CollisionFree) (identity : δ) (strategy instrument : String)
    (start end_ : Stamp) (baseline : Option String) : Call.Meets (Sound L stored)
    (run L identity strategy instrument start end_ baseline) (fun _ => Sound L stored)
    (Sound L stored) := by
  refine .each fun s sound => ?_
  have unchanged : ∀ t, t = s → Sound L stored t := fun t h => h ▸ sound
  unfold run
  refine .bind ((load_meets identity).weaken (fun _ h => h) (fun _ _ h => h) unchanged)
    fun registration => .each fun t ⟨hown, digest, ht⟩ => ?_
  subst ht hown
  refine .bind ((admitPeriod_meets _ _ _).weaken (fun _ h => h) (fun _ _ h => h) unchanged)
    fun _ => ?_
  refine .bind (.refuseIf fun t h => unchanged t h.2.2.2) fun _ => ?_
  refine .bind (.refuseIf fun t h => unchanged t h.2.2.2.2) fun _ => ?_
  refine .bind (.ofExcept fun t h => unchanged t h.2.2.2.2.2) fun paired => ?_
  refine .each fun u ⟨_, whole, _, low, order, high, hu⟩ => ?_
  subst hu
  refine .bind ((verifyChain_meets free sound.table sound.proofs _ _ _).weaken (fun _ h => h)
    (fun _ _ h => h) fun _ h => sound.keeps h) fun chain => ?_
  refine .each fun v ⟨keeps, _, _, n, _, hwall, before, others, _, rows, hn, _⟩ => ?_
  have first : start.wall = dayAt n := hwall
  have inside : n + ((end_.wall - start.wall) / day).toNat ≤ dayCount := by
    rw [first] at order ⊢
    simp only [dayAt, day, dayCount] at order high ⊢
    omega
  rw [first] at inside ⊢
  subst digest
  refine (runDays_sound free _ inside).weaken (fun w h => h ▸ ⟨sound.keeps keeps, ?_⟩)
    (fun _ _ h => h) fun _ h => h
  rw [keeps.checkpoints, rows, List.length_map, List.length_append]
  omega

/-- What a run of calls keeps of the world. -/
structure World.Sound (L : Library δ ρ) (stored : List (Stored δ ρ)) (w : World δ ρ) : Prop where
  table : TableSound L w.checkpoints
  proofs : ∀ c, ProofsSound L (w.proofs c)
  kept : stored <+: w.checkpoints

/-- A call that keeps what holds between calls keeps the world sound. -/
theorem World.Sound.call {α : Type} {w : World δ ρ} {x : Call (Catalog δ ρ) α}
    (meets : Call.Meets (Validation.Sound L stored) x (fun _ => Validation.Sound L stored)
      (Validation.Sound L stored)) (sound : w.Sound L stored) (c : ℕ) :
    (w.call c x).Sound L stored := by
  obtain ⟨returned, raised⟩ := meets (w.catalog c) ⟨sound.table, sound.proofs c, sound.kept⟩
  have after : Validation.Sound L stored (x (w.catalog c)).2 := by
    match h : x (w.catalog c) with
    | (.ok a, t) => exact returned a t h
    | (.error e, t) => exact raised e t h
  refine ⟨after.table, fun d => ?_, after.kept⟩
  show ProofsSound L (Function.update w.proofs c (x (w.catalog c)).2.proofs d)
  by_cases same : d = c
  · rw [same, Function.update_self]
    exact after.proofs
  · rw [Function.update_of_ne same]
    exact sound.proofs d

/-- A checkpoint call spells its key's dates as `isoformat` prints them; other operations may take
any arguments. -/
def Op.Spelled : Op δ ρ → Prop
  | .checkpoint _ key _ _ _ => Validation.Spelled key.start ∧ Validation.Spelled key.end_
  | _ => True

theorem step_sound (free : L.CollisionFree) {w : World δ ρ} (sound : w.Sound L stored)
    {op : Op δ ρ} (spelled : op.Spelled) : (step L w op).Sound L stored := by
  cases op with
  | run c identity strategy instrument start end_ baseline =>
    exact sound.call (run_sound free identity strategy instrument start end_ baseline) c
  | checkpoint c key rows endState predecessor =>
    exact sound.call (checkpoint_sound free spelled rows endState predecessor) c
  | verifyChain c identity strategy instrument stop collect =>
    exact sound.call (verifyChain_sound free identity strategy instrument stop collect) c
  | restart c provenance =>
    refine ⟨sound.table, fun d => ?_, sound.kept⟩
    show ProofsSound L (Function.update w.proofs c (fun _ => none) d)
    by_cases same : d = c
    · rw [same, Function.update_self]
      exact proofsSound_empty
    · rw [Function.update_of_ne same]
      exact sound.proofs d

theorem exec_sound (free : L.CollisionFree) {ops : List (Op δ ρ)}
    (spelled : ∀ op ∈ ops, op.Spelled) {w : World δ ρ} (sound : w.Sound L stored) :
    (exec L w ops).Sound L stored := by
  induction ops generalizing w with
  | nil => exact sound
  | cons op ops ih =>
    exact ih (fun other h => spelled other (List.mem_cons_of_mem _ h))
      (step_sound free sound (spelled op List.mem_cons_self))

theorem exec_append (w : World δ ρ) (before after : List (Op δ ρ)) :
    exec L w (before ++ after) = exec L (exec L w before) after :=
  List.foldl_append

variable (δ ρ) in
/-- A file without checkpoints, with any registrations, and the catalogs opened on it. -/
def World.fresh (registrations : List (δ × Registration)) (provenance : ℕ → String) : World δ ρ :=
  ⟨registrations, [], provenance, fun _ _ => none⟩

theorem fresh_sound (registrations : List (δ × Registration)) (provenance : ℕ → String) :
    (World.fresh δ ρ registrations provenance).Sound L [] :=
  ⟨⟨fun _ h => (List.not_mem_nil h).elim, fun _ _ _ => ⟨[], .start, rfl⟩⟩,
    fun _ => proofsSound_empty, List.nil_prefix⟩

/-- What a catalog promises after a run of operations on a fresh file: the stored rows of every
population are its derived chain and there are no others, no row stored on the way is changed or
lost, and verification answers as it does in a new process. -/
structure KeepsChains (L : Library δ ρ) (registrations : List (δ × Registration))
    (provenance : ℕ → String) (ops : List (Op δ ρ)) : Prop where
  chains : TableSound L (exec L (.fresh δ ρ registrations provenance) ops).checkpoints
  kept : ∀ before after, ops = before ++ after →
    (exec L (.fresh δ ρ registrations provenance) before).checkpoints <+:
      (exec L (.fresh δ ρ registrations provenance) ops).checkpoints
  cached : ∀ c identity strategy instrument stop collect,
    (verifyChain L identity strategy instrument stop collect
      ((exec L (.fresh δ ρ registrations provenance) ops).catalog c)).1 =
    (verifyChain L identity strategy instrument stop collect
      { (exec L (.fresh δ ρ registrations provenance) ops).catalog c with
        proofs := fun _ => none }).1

end

/-! ## A key spelled otherwise -/

/-- A digest that spells out what it digests. -/
inductive Spelt
  | registration (body : Registration)
  | key (registration : Spelt) (strategy instrument start end_ : String)
  | first (registration key : Spelt) (rows : ℕ) (endState : EndState)
  | next (registration key : Spelt) (rows : ℕ) (endState : EndState) (predecessor : Spelt)
  deriving DecidableEq

/-- A library whose days hold no rows and leave no position. -/
def emptyDays : Library Spelt Unit where
  keyDigest key := .key key.registration key.strategy key.instrument key.start key.end_
  bodyDigest body :=
    let key := Spelt.key body.key.registration body.key.strategy body.key.instrument body.key.start
      body.key.end_
    match body.predecessor with
    | none => .first body.registration key body.rows.length body.endState
    | some predecessor => .next body.registration key body.rows.length body.endState predecessor
  registrationDigest := .registration
  dayRows _ _ _ _ active := .ok ([], active)
  closedRows _ _ := true

theorem emptyDays_collisionFree : emptyDays.CollisionFree := by
  refine ⟨fun a b h => ?_, fun a b h => ?_, fun a b h => ?_⟩
  · cases a
    cases b
    cases h
    rfl
  · have units : ∀ {xs ys : List Unit}, xs.length = ys.length → xs = ys :=
      fun h => List.ext_getElem h fun _ _ _ => rfl
    obtain ⟨registration, ⟨_, _, _, _, _⟩, rows, endState, predecessor⟩ := a
    obtain ⟨registration', ⟨_, _, _, _, _⟩, rows', endState', predecessor'⟩ := b
    cases predecessor <;> cases predecessor' <;> simp [emptyDays] at h <;> simp [h] <;>
      exact units (by simp [h])
  · cases h
    rfl

/-- A batch of the first day, as a process without provenance runs it. -/
def firstDay : Op Spelt Unit :=
  .run 0 (.registration (contract "")) "breakout-d-v1" "EUR_USD" ⟨dayAt 0, some 0⟩
    ⟨dayAt 1, some 0⟩ none

/-- The checkpoint of the second day, given its dates as `isoformat` prints them. -/
def secondDay : Op Spelt Unit :=
  .checkpoint 0 (dayKey (.registration (contract "")) "breakout-d-v1" "EUR_USD" (dayAt 1)) []
    noExits (some (emptyDays.bodyDigest ⟨.registration (contract ""),
      dayKey (.registration (contract "")) "breakout-d-v1" "EUR_USD" (dayAt 0), [], noExits, none⟩))

/-- The checkpoint of the first day, its dates ending in `Z`. -/
def zuluDay : Op Spelt Unit :=
  .checkpoint 0 ⟨.registration (contract ""), "breakout-d-v1", "EUR_USD", "2019-01-07T00:00:00Z",
    "2019-01-08T00:00:00Z"⟩ [] noExits none

end TradeRecommender.Validation
