import Mathlib.Data.List.Induction
import Mathlib.Tactic.Ring
import TradeRecommender.Lib.Midnights
import TradeRecommender.Research.ValidationRegistration

/-!
# Chains of checkpoints

The days of a population derive one chain: each body is the replay of its predecessor's end state.

1. the days of the development period;
2. `Chain`, determined by its length;
3. sound proofs: those of derived bodies;
4. replay extends a chain.
-/

namespace TradeRecommender.Validation

open Py Civil

/-! ## Days -/

/-- Midnight of a day of the development period, counted from its first. -/
def dayAt (n : ℕ) : ℤ := (17903 + n) * day

/-- The number of days of the development period. -/
def dayCount : ℕ := 2191

section
variable {m n : ℕ}

theorem dayAt_succ (n : ℕ) : dayAt n + day = dayAt (n + 1) := by
  simp only [dayAt, day]
  push_cast
  ring

theorem dayAt_lt : dayAt m < dayAt n ↔ m < n := by
  simp only [dayAt, day]
  omega

theorem dayAt_inj : dayAt m = dayAt n ↔ m = n := by
  simp only [dayAt, day]
  omega

theorem dayAt_le : dayAt m ≤ dayAt n ↔ m ≤ n := by
  rw [← not_lt, ← not_lt, dayAt_lt]

theorem dayAt_sub (n : ℕ) : (dayAt n - dayAt 0) / day = n := by
  simp only [dayAt, day]
  omega

/-- A midnight of the period is the midnight of one of its days. -/
theorem exists_dayAt {wall : ℤ} (midnight : wall % day = 0) (low : dayAt 0 ≤ wall)
    (high : wall ≤ dayAt dayCount) : ∃ n ≤ dayCount, wall = dayAt n := by
  simp only [dayAt, day, dayCount] at *
  refine ⟨(wall / 86400000000 - 17903).toNat, by omega, by omega⟩

theorem fromisoformat_dayAt (h : n ≤ dayCount) :
    fromisoformat (isoformat (dayAt n)) = .ok ⟨dayAt n, some 0⟩ := by
  rw [dayCount] at h
  exact fromisoformat_midnight (by omega) (by omega)

theorem isoformat_dayAt_lt (hn : n ≤ dayCount) (less : m < n) :
    isoformat (dayAt m) < isoformat (dayAt n) := by
  rw [dayCount] at hn
  exact isoformat_lt (by omega) (by omega) (by omega)

theorem isoformat_dayAt_lt_iff (hm : m ≤ dayCount) (hn : n ≤ dayCount) :
    isoformat (dayAt m) < isoformat (dayAt n) ↔ m < n := by
  constructor
  · intro less
    by_contra h
    rcases Nat.lt_or_eq_of_le (not_lt.mp h) with h | rfl
    · exact lt_asymm less (isoformat_dayAt_lt hm h)
    · exact lt_irrefl _ less
  · exact isoformat_dayAt_lt hn

theorem isoformat_dayAt_inj (hm : m ≤ dayCount) (hn : n ≤ dayCount)
    (same : isoformat (dayAt m) = isoformat (dayAt n)) : m = n := by
  rcases Nat.lt_trichotomy m n with h | h | h
  · exact absurd same (isoformat_dayAt_lt hn h).ne
  · exact h
  · exact absurd same (isoformat_dayAt_lt hm h).ne'

theorem period_contract (provenance : String) :
    period (contract provenance) = .ok (dayAt 0, dayAt dayCount) := by
  have first : fromisoformat development.1 = .ok ⟨dayAt 0, some 0⟩ := by decide
  have last : fromisoformat development.2 = .ok ⟨dayAt dayCount, some 0⟩ := by decide
  simp only [period, contract, first, last]
  rfl

end

/-! ## The derived chain -/

section
variable {δ ρ : Type} {L : Library δ ρ}
  {registration : Registration} {strategy instrument : String} {bodies others : List (Body δ ρ)}
  {body : Body δ ρ}

/-- The end state a chain leaves. -/
def activeOf (bodies : List (Body δ ρ)) : EndState :=
  (bodies.getLast?.map Body.endState).getD noExits

/-- The digest a chain ends in. -/
def predecessorOf (L : Library δ ρ) (bodies : List (Body δ ρ)) : Option δ :=
  bodies.getLast?.map L.bodyDigest

variable (L registration strategy instrument) in
/-- A gap-free daily chain from the development start, every body the replay of the end state before
it. -/
inductive Chain : List (Body δ ρ) → Prop
  | start : Chain []
  | next {bodies : List (Body δ ρ)} {rows : List ρ} {endState : EndState} (chain : Chain bodies)
      (inside : bodies.length < dayCount)
      (replayed : L.dayRows registration strategy instrument (dayAt bodies.length)
        (activeOf bodies) = .ok (rows, endState)) :
      Chain (bodies ++ [⟨L.registrationDigest registration,
        dayKey (L.registrationDigest registration) strategy instrument (dayAt bodies.length), rows,
        endState, predecessorOf L bodies⟩])

@[simp] theorem activeOf_append : activeOf (bodies ++ [body]) = body.endState := by
  simp [activeOf]

@[simp] theorem predecessorOf_append :
    predecessorOf L (bodies ++ [body]) = some (L.bodyDigest body) := by
  simp [predecessorOf]

/-- The last body of a chain. -/
theorem Chain.last (chain : Chain L registration strategy instrument (bodies ++ [body])) :
    Chain L registration strategy instrument bodies ∧ bodies.length < dayCount ∧
      L.dayRows registration strategy instrument (dayAt bodies.length) (activeOf bodies) =
        .ok (body.rows, body.endState) ∧
      body = ⟨L.registrationDigest registration,
        dayKey (L.registrationDigest registration) strategy instrument (dayAt bodies.length),
        body.rows, body.endState, predecessorOf L bodies⟩ := by
  generalize whole : bodies ++ [body] = all at chain
  cases chain with
  | start => simp at whole
  | next chain inside replayed =>
    obtain ⟨rfl, same⟩ := List.append_inj' whole rfl
    obtain rfl := List.singleton_inj.mp same
    exact ⟨chain, inside, replayed, rfl⟩

theorem Chain.key (chain : Chain L registration strategy instrument (bodies ++ [body])) :
    body.key = dayKey (L.registrationDigest registration) strategy instrument
      (dayAt bodies.length) := by
  rw [chain.last.2.2.2]

theorem Chain.length_le (chain : Chain L registration strategy instrument bodies) :
    bodies.length ≤ dayCount := by
  cases chain with
  | start => exact Nat.zero_le _
  | next _ inside _ =>
    rw [List.length_append, List.length_singleton]
    omega

/-- A chain without its last bodies is a chain. -/
theorem Chain.front (chain : Chain L registration strategy instrument (bodies ++ others)) :
    Chain L registration strategy instrument bodies := by
  induction others using List.reverseRecOn with
  | nil => rwa [List.append_nil] at chain
  | append_singleton others body ih =>
    rw [← List.append_assoc] at chain
    exact ih chain.last.1

/-- A chain is determined by its length. -/
theorem Chain.unique (chain : Chain L registration strategy instrument bodies)
    (other : Chain L registration strategy instrument others)
    (same : bodies.length = others.length) : bodies = others := by
  induction chain generalizing others with
  | start => exact (List.eq_nil_of_length_eq_zero same.symm).symm
  | next chain inside replayed ih =>
    cases other with
    | start => simp at same
    | next other inside' replayed' =>
      rw [List.length_append, List.length_append, List.length_singleton,
        List.length_singleton] at same
      obtain rfl := ih other (by omega)
      rw [replayed] at replayed'
      cases replayed'
      rfl

/-- The body of a day, and the chains before it and through it. -/
theorem Chain.split {n : ℕ} (chain : Chain L registration strategy instrument bodies)
    (h : n < bodies.length) : ∃ pre body post, bodies = pre ++ body :: post ∧ pre.length = n ∧
      Chain L registration strategy instrument (pre ++ [body]) := by
  have whole : bodies.take n ++ bodies[n] :: bodies.drop (n + 1) = bodies := by
    rw [List.getElem_cons_drop, List.take_append_drop]
  refine ⟨bodies.take n, bodies[n], bodies.drop (n + 1), whole.symm, ?_, ?_⟩
  · rw [List.length_take]
    omega
  · have regrouped : Chain L registration strategy instrument
        ((bodies.take n ++ [bodies[n]]) ++ bodies.drop (n + 1)) := by
      rwa [← List.append_cons, whole]
    exact regrouped.front

end

/-! ## Sound proofs -/

section
variable {δ ρ : Type} {L : Library δ ρ}

/-- The proof replay makes of a body. -/
def proofFor (L : Library δ ρ) (body : Body δ ρ) : Proof δ :=
  ⟨body.predecessor, L.bodyDigest body, body.endState⟩

/-- The proof is of a body some registered population derives. -/
def Derived (L : Library δ ρ) (identity : δ) (proof : Proof δ) : Prop :=
  ∃ provenance strategy instrument bodies body,
    Chain L (contract provenance) strategy instrument (bodies ++ [body]) ∧
      identity = L.keyDigest body.key ∧ proof = proofFor L body

/-- Every proof in memory is of a derived body. -/
def ProofsSound (L : Library δ ρ) (proofs : δ → Option (Proof δ)) : Prop :=
  ∀ identity proof, proofs identity = some proof → Derived L identity proof

theorem proofsSound_empty : ProofsSound L fun _ => none := by
  intro identity proof h
  cases h

variable {proofs : δ → Option (Proof δ)} {identity : δ} {proof : Proof δ}

theorem ProofsSound.update [DecidableEq δ] (sound : ProofsSound L proofs) (derived : Derived L identity proof) :
    ProofsSound L (Function.update proofs identity (some proof)) := by
  intro other found h
  by_cases same : other = identity
  · subst same
    rw [Function.update_self] at h
    obtain rfl := Option.some.inj h
    exact derived
  · rw [Function.update_of_ne same] at h
    exact sound other found h

variable {registration : δ} {strategy instrument : String} {provenance : String} {n : ℕ}

/-- A sound proof of a day's key ends a chain of the key's population, as long as the days. -/
theorem ProofsSound.ends (free : L.CollisionFree) (sound : ProofsSound L proofs)
    (inside : n < dayCount)
    (h : proofs (L.keyDigest (dayKey (L.registrationDigest (contract provenance)) strategy
      instrument (dayAt n))) = some proof) :
    ∃ bodies body, Chain L (contract provenance) strategy instrument (bodies ++ [body]) ∧
      bodies.length = n ∧ proof = proofFor L body := by
  obtain ⟨provenance', strategy', instrument', bodies, body, chain, identity, rfl⟩ := sound _ _ h
  have keys := free.key identity
  rw [chain.key, dayKey, dayKey, Key.mk.injEq] at keys
  obtain ⟨sameRegistration, rfl, rfl, sameStart, -⟩ := keys
  have sameContract := free.registration sameRegistration
  have sameDay := isoformat_dayAt_inj inside.le chain.last.2.1.le sameStart
  rw [← sameContract] at chain
  exact ⟨bodies, body, chain, sameDay.symm, rfl⟩

end

/-! ## Replay -/

section
variable {δ ρ : Type} [DecidableEq δ] {L : Library δ ρ} {key : Key δ}
  {registration : Registration} {active : EndState} {predecessor : Option δ} {s : Catalog δ ρ}

/-- What a replay that returns has checked and done; one that raises has done nothing. -/
theorem replayCheckpoint_meets : Call.Meets (fun t => t = s)
    (replayCheckpoint L key registration active predecessor)
    (fun body t => ∃ start end_ a b, fromisoformat key.start = .ok start ∧
      fromisoformat key.end_ = .ok end_ ∧ period registration = .ok (a, b) ∧
      ¬ outsidePeriod L key registration start end_ a b ∧
      validState L s.proofs key start.wall a active predecessor = true ∧
      L.dayRows registration key.strategy key.instrument start.wall active =
        .ok (body.rows, body.endState) ∧
      body = ⟨key.registration, key, body.rows, body.endState, predecessor⟩ ∧
      t = s.prove (L.keyDigest key) (proofFor L body))
    (fun t => t = s) := by
  unfold replayCheckpoint
  refine .bind (.ofExcept fun _ h => h) fun start => ?_
  refine .bind (.ofExcept fun _ h => h.2) fun end_ => ?_
  refine .bind (.ofExcept fun _ h => h.2.2) fun span => ?_
  refine .bind (.refuseIf fun _ h => h.2.2.2) fun _ => ?_
  refine .bind .read fun proofs => ?_
  refine .bind (.refuseIf fun _ h => h.2.2.2.2.2) fun _ => ?_
  refine .bind (.ofExcept fun _ h => h.2.2.2.2.2.2) fun days => ?_
  refine .bind .write fun _ => .pure fun t h => ?_
  obtain ⟨u, ⟨replayed, valid, rfl, inside, hspan, hend, hstart, rfl⟩, rfl⟩ := h
  exact ⟨start, end_, span.1, span.2, hstart, hend, hspan, inside, by simpa using valid,
    replayed, rfl, rfl⟩

/-- A replay whose conditions hold returns and keeps its proof. -/
theorem replayCheckpoint_eq {start end_ : Stamp} {a b : Instant} {rows : List ρ}
    {endState : EndState} (hstart : fromisoformat key.start = .ok start)
    (hend : fromisoformat key.end_ = .ok end_) (hspan : period registration = .ok (a, b))
    (inside : ¬ outsidePeriod L key registration start end_ a b)
    (valid : validState L s.proofs key start.wall a active predecessor = true)
    (replayed : L.dayRows registration key.strategy key.instrument start.wall active =
      .ok (rows, endState)) :
    replayCheckpoint L key registration active predecessor s =
      (.ok ⟨key.registration, key, rows, endState, predecessor⟩,
        s.prove (L.keyDigest key)
          (proofFor L ⟨key.registration, key, rows, endState, predecessor⟩)) := by
  unfold replayCheckpoint
  rw [Call.bind_of_ok (Call.ofExcept_of_ok s hstart), Call.bind_of_ok (Call.ofExcept_of_ok s hend),
    Call.bind_of_ok (Call.ofExcept_of_ok s hspan),
    Call.bind_of_ok (Call.refuseIf_of_not s inside)]
  show (Call.refuseIf (validState L s.proofs key start.wall a active predecessor = false) _ _ >>= _)
    s = _
  rw [Call.bind_of_ok (Call.refuseIf_of_not s (by rw [valid]; decide)),
    Call.bind_of_ok (Call.ofExcept_of_ok s replayed)]
  rfl

/-- A text that, where it reads as a UTC datetime, is the one `isoformat` prints of it. -/
def Spelled (text : String) : Prop :=
  ∀ stamp, fromisoformat text = .ok stamp → stamp.offset = some 0 → text = isoformat stamp.wall

theorem spelled_dayAt {n : ℕ} (h : n ≤ dayCount) : Spelled (isoformat (dayAt n)) := by
  intro stamp read _
  rw [fromisoformat_dayAt h] at read
  cases read
  rfl

variable {provenance : String}

omit [DecidableEq δ] in
/-- A key inside the period, spelled as `isoformat` prints, is the key of a day. -/
theorem key_eq_dayKey {start end_ : Stamp} (hstart : fromisoformat key.start = .ok start)
    (hend : fromisoformat key.end_ = .ok end_)
    (inside : ¬ outsidePeriod L key (contract provenance) start end_ (dayAt 0) (dayAt dayCount))
    (spelled : Spelled key.start ∧ Spelled key.end_) :
    ∃ n < dayCount, start.wall = dayAt n ∧
      key = dayKey (L.registrationDigest (contract provenance)) key.strategy key.instrument
        (dayAt n) := by
  simp only [outsidePeriod, not_or, not_not] at inside
  obtain ⟨sameRegistration, -, -, -, startZone, endZone, midnight, oneDay, low, -, high⟩ := inside
  have oneDay : end_.wall = start.wall + day := by linarith
  obtain ⟨n, hn, hwall⟩ := exists_dayAt midnight low (by
    have : (0 : ℤ) < day := by decide
    linarith)
  have inPeriod : n < dayCount := by
    rw [oneDay, hwall, dayAt_succ, dayAt_le] at high
    exact high
  have first := spelled.1 start hstart startZone
  have second := spelled.2 end_ hend endZone
  rw [oneDay, hwall] at second
  rw [hwall] at first
  refine ⟨n, inPeriod, hwall, ?_⟩
  rw [dayKey, ← first, ← second, ← sameRegistration]

/-- A replay that returns extends a chain by a body, and its proof stays sound. -/
theorem replayCheckpoint_extends (free : L.CollisionFree) (sound : ProofsSound L s.proofs)
    (spelled : Spelled key.start ∧ Spelled key.end_) : Call.Meets (fun t => t = s)
    (replayCheckpoint L key (contract provenance) active predecessor)
    (fun body t => ∃ bodies, Chain L (contract provenance) key.strategy key.instrument
      (bodies ++ [body]) ∧ activeOf bodies = active ∧ predecessorOf L bodies = predecessor ∧
      body.key = key ∧ t = s.prove (L.keyDigest key) (proofFor L body))
    (fun t => t = s) := by
  refine replayCheckpoint_meets.weaken (fun _ h => h) (fun body t h => ?_) fun _ h => h
  obtain ⟨start, end_, a, b, hstart, hend, hspan, inside, valid, replayed, hbody, ht⟩ := h
  rw [period_contract] at hspan
  obtain ⟨rfl, rfl⟩ := Prod.mk.inj (Except.ok.inj hspan)
  obtain ⟨n, inPeriod, hwall, hkey⟩ := key_eq_dayKey hstart hend inside spelled
  suffices ∃ bodies, Chain L (contract provenance) key.strategy key.instrument bodies ∧
      bodies.length = n ∧ activeOf bodies = active ∧ predecessorOf L bodies = predecessor by
    obtain ⟨bodies, chain, rfl, rfl, rfl⟩ := this
    refine ⟨bodies, ?_, rfl, rfl, by rw [hbody], ht⟩
    have longer := Chain.next chain inPeriod (hwall ▸ replayed)
    rw [← hkey] at longer
    have sameRegistration : key.registration = L.registrationDigest (contract provenance) := by
      rw [hkey]
      rfl
    rwa [hbody, sameRegistration]
  rw [validState, hwall] at valid
  rcases Nat.eq_zero_or_pos n with rfl | later
  · rw [if_pos rfl, Bool.and_eq_true, decide_eq_true_eq, decide_eq_true_eq] at valid
    obtain ⟨rfl, rfl⟩ := valid
    exact ⟨[], .start, rfl, rfl, rfl⟩
  · obtain ⟨m, rfl⟩ := Nat.exists_eq_succ_of_ne_zero later.ne'
    have notFirst : dayAt (m + 1) ≠ dayAt 0 := by
      rw [Ne, dayAt_inj]
      omega
    have before : priorKey key (dayAt (m + 1)) =
        dayKey (L.registrationDigest (contract provenance)) key.strategy key.instrument
          (dayAt m) := by
      have : dayAt (m + 1) - day = dayAt m := by
        rw [← dayAt_succ]
        ring
      rw [hkey]
      simp only [priorKey, dayKey, this, dayAt_succ]
    rw [if_neg notFirst, before] at valid
    split at valid
    · cases valid
    · next proof found =>
      rw [Bool.and_eq_true, decide_eq_true_eq, decide_eq_true_eq] at valid
      obtain ⟨rfl, rfl⟩ := valid
      obtain ⟨bodies, last, chain, rfl, rfl⟩ := sound.ends free (by omega) found
      exact ⟨bodies ++ [last], chain, by simp, by simp [proofFor], by simp [proofFor]⟩

end

end TradeRecommender.Validation
