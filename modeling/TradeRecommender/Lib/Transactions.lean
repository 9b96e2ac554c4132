import Mathlib.Data.Int.ConditionallyCompleteOrder
import Mathlib.Order.ConditionallyCompleteLattice.Basic
import TradeRecommender.Lib.Python

/-!
# Transactions that read a clock

A transaction reads and writes a store, reads a clock and may raise; where it raises nothing of what
it wrote remains, but the clock has been read.

1. clocks, stores and transactions;
2. `Ensures`: what holds where a transaction returns, by its parts;
3. `Keeps`: transactions that keep an invariant and move the state only along a preorder;
4. loops.
-/

namespace Py

/-- Successive readings of a clock that never goes back. -/
structure Clock where
  reading : ℕ → ℤ
  mono : Monotone reading

/-- A store, and how often its clock has been read. -/
structure Server (σ : Type) where
  store : σ
  readings : ℕ := 0

/-- A computation in a transaction: its result and the store after it, or what it raised, and how
often it read the clock. -/
def Transaction (σ α : Type) : Type := Server σ → Except Exc (α × σ) × ℕ

namespace Transaction

variable {σ α β ι : Type}

/-! ## Transactions -/

/-- `return a` -/
protected def ret (a : α) : Transaction σ α := fun s => (.ok (a, s.store), 0)

/-- One computation after another; the second does not run where the first raises. -/
protected def andThen (x : Transaction σ α) (f : α → Transaction σ β) : Transaction σ β := fun s =>
  match x s with
  | (.ok (a, store), n) =>
    let (result, m) := f a { store, readings := s.readings + n }
    (result, n + m)
  | (.error e, n) => (.error e, n)

instance : Monad (Transaction σ) where
  pure := Transaction.ret
  bind := Transaction.andThen

/-- `timezone.now()` -/
def now (clock : Clock) : Transaction σ ℤ := fun s => (.ok (clock.reading s.readings, s.store), 1)

/-- `time or timezone.now()` -/
def orNow (clock : Clock) : Option ℤ → Transaction σ ℤ
  | some time => pure time
  | none => now clock

/-- A value of the store. -/
def load (f : σ → α) : Transaction σ α := fun s => (.ok (f s.store, s.store), 0)

/-- A change of the store. -/
def save (f : σ → σ) : Transaction σ Unit := fun s => (.ok ((), f s.store), 0)

/-- A computation that neither reads nor writes. -/
def ofExcept (x : Except Exc α) : Transaction σ α := fun s => (x.map fun a => (a, s.store), 0)

/-- `if condition: raise cls(text)` -/
def refuseIf (condition : Prop) [Decidable condition] (cls : ExcClass) (text : String) :
    Transaction σ Unit :=
  ofExcept (if condition then raise cls text else .ok ())

/-- `for x in xs` -/
def each (f : ι → Transaction σ Unit) : List ι → Transaction σ Unit
  | [] => pure ()
  | x :: xs => do
    f x
    each f xs

/-- `[x for x in xs if condition(x)]`, where the condition is a computation. -/
def keepIf (f : ι → Transaction σ Bool) : List ι → Transaction σ (List ι)
  | [] => pure []
  | x :: xs => do
    let kept ← f x
    let rest ← keepIf f xs
    pure (if kept then x :: rest else rest)

/-- What a transaction leaves: of one that raised, only that it has read the clock. -/
def commit (x : Transaction σ α) (s : Server σ) : Server σ :=
  match x s with
  | (.ok (_, store), n) => { store, readings := s.readings + n }
  | (.error _, n) => { s with readings := s.readings + n }

/-! ## What holds where a transaction returns -/

/-- From a state, what holds of the result of a computation and of the state after it. -/
def Ensures (x : Transaction σ α) (s : Server σ) (Q : α → Server σ → Prop) : Prop :=
  ∀ a store n, x s = (.ok (a, store), n) → Q a { store, readings := s.readings + n }

section
variable {x : Transaction σ α} {s : Server σ} {Q Q' : α → Server σ → Prop} {clock : Clock}

theorem Ensures.mono (h : Ensures x s Q) (imp : ∀ a t, Q a t → Q' a t) : Ensures x s Q' :=
  fun a store n run => imp a _ (h a store n run)

theorem Ensures.and (h : Ensures x s Q) (h' : Ensures x s Q') :
    Ensures x s fun a t => Q a t ∧ Q' a t :=
  fun a store n run => ⟨h a store n run, h' a store n run⟩

@[simp]
theorem ensures_pure {a : α} : Ensures (pure a) s Q ↔ Q a s := by
  constructor
  · intro h
    exact h a s.store 0 rfl
  · intro h b store n run
    cases run
    exact h

@[simp]
theorem ensures_bind {f : α → Transaction σ β} {Q : β → Server σ → Prop} :
    Ensures (x >>= f) s Q ↔ Ensures x s fun a t => Ensures (f a) t Q := by
  have step : (x >>= f) s = Transaction.andThen x f s := rfl
  constructor
  · intro h a store n run b store' m next
    have whole := h b store' (n + m) (by rw [step, Transaction.andThen, run]; simp only [next])
    rw [← Nat.add_assoc] at whole
    exact whole
  · intro h b store' k run
    rw [step, Transaction.andThen] at run
    rcases first : x s with ⟨r, n⟩
    rw [first] at run
    cases r with
    | error e => cases run
    | ok out =>
      obtain ⟨a, store⟩ := out
      rcases second : f a { store, readings := s.readings + n } with ⟨r, m⟩
      simp only [second] at run
      obtain ⟨rfl, rfl⟩ := Prod.mk.inj run
      have last := h a store n first b store' m second
      rw [Nat.add_assoc] at last
      exact last

@[simp]
theorem ensures_ofExcept {r : Except Exc α} :
    Ensures (ofExcept r) s Q ↔ ∀ a, r = .ok a → Q a s := by
  constructor
  · rintro h a rfl
    exact h a s.store 0 rfl
  · intro h a store n run
    cases r with
    | error e => cases run
    | ok b =>
      cases run
      exact h a rfl

@[simp]
theorem ensures_refuseIf {c : Prop} [Decidable c] {cls : ExcClass} {text : String}
    {Q : Unit → Server σ → Prop} : Ensures (refuseIf c cls text) s Q ↔ (¬ c → Q () s) := by
  unfold refuseIf
  rw [ensures_ofExcept]
  constructor
  · intro h hc
    exact h () (if_neg hc)
  · rintro h ⟨⟩ ok
    refine h fun hc => ?_
    rw [if_pos hc] at ok
    cases ok

theorem ensures_ite {c : Prop} [Decidable c] {y : Transaction σ α} :
    Ensures (if c then x else y) s Q ↔ (c → Ensures x s Q) ∧ (¬ c → Ensures y s Q) := by
  by_cases h : c
  · rw [if_pos h]
    exact ⟨fun e => ⟨fun _ => e, fun n => absurd h n⟩, fun e => e.1 h⟩
  · rw [if_neg h]
    exact ⟨fun e => ⟨fun n => absurd n h, fun _ => e⟩, fun e => e.2 h⟩

@[simp]
theorem ensures_now {Q : ℤ → Server σ → Prop} :
    Ensures (now clock) s Q ↔
      Q (clock.reading s.readings) { s with readings := s.readings + 1 } := by
  constructor
  · intro h
    exact h _ _ _ rfl
  · intro h a store n run
    cases run
    exact h

@[simp]
theorem ensures_load {f : σ → α} : Ensures (load f) s Q ↔ Q (f s.store) s := by
  constructor
  · intro h
    exact h _ _ _ rfl
  · intro h a store n run
    cases run
    exact h

@[simp]
theorem ensures_save {f : σ → σ} {Q : Unit → Server σ → Prop} :
    Ensures (save f) s Q ↔ Q () { s with store := f s.store } := by
  constructor
  · intro h
    exact h _ _ _ rfl
  · intro h a store n run
    cases run
    exact h

/-- A time that is given, or the reading of the clock. -/
theorem ensures_orNow {time : Option ℤ} {Q : ℤ → Server σ → Prop}
    (given : ∀ t, time = some t → Q t s)
    (read : time = none → Q (clock.reading s.readings) { s with readings := s.readings + 1 }) :
    Ensures (orNow clock time) s Q := by
  cases time with
  | some t => exact ensures_pure.mpr (given t rfl)
  | none => exact ensures_now.mpr (read rfl)

/-- What a transaction leaves is what holds where it returned, or what it found with the clock
further on. -/
theorem commit_cases (h : Ensures x s Q) :
    (∃ a, Q a (commit x s)) ∨ ∃ n, commit x s = { s with readings := s.readings + n } := by
  unfold commit
  rcases run : x s with ⟨r, n⟩
  cases r with
  | error e => exact .inr ⟨n, rfl⟩
  | ok out => exact .inl ⟨out.1, h out.1 out.2 n run⟩

end

/-! ## Invariants -/

/-- From a state of `I` a computation that returns ends in one of `I` that is in `R` to it. -/
def Keeps (I : Server σ → Prop) (R : Server σ → Server σ → Prop) (x : Transaction σ α) : Prop :=
  ∀ s, I s → Ensures x s fun _ t => I t ∧ R s t

section
variable {I : Server σ → Prop} {R : Server σ → Server σ → Prop} {x : Transaction σ α}
  {clock : Clock}

theorem Keeps.mono {R' : Server σ → Server σ → Prop} (h : Keeps I R x)
    (imp : ∀ s t, R s t → R' s t) : Keeps I R' x :=
  fun s inv => (h s inv).mono fun _ t kept => ⟨kept.1, imp s t kept.2⟩

theorem Keeps.bind (trans : ∀ s t u, R s t → R t u → R s u) {f : α → Transaction σ β}
    (first : Keeps I R x) (next : ∀ a, Keeps I R (f a)) : Keeps I R (x >>= f) := by
  intro s inv
  refine ensures_bind.mpr ((first s inv).mono ?_)
  rintro a t ⟨inv', moved⟩
  refine (next a t inv').mono ?_
  rintro b u ⟨inv'', moved'⟩
  exact ⟨inv'', trans s t u moved moved'⟩

theorem Keeps.pure (refl : ∀ s, R s s) (a : α) : Keeps I R (pure a : Transaction σ α) :=
  fun s inv => ensures_pure.mpr ⟨inv, refl s⟩

theorem Keeps.ofExcept (refl : ∀ s, R s s) (r : Except Exc α) : Keeps I R (ofExcept r) :=
  fun s inv => ensures_ofExcept.mpr fun _ _ => ⟨inv, refl s⟩

theorem Keeps.refuseIf (refl : ∀ s, R s s) {c : Prop} [Decidable c] {cls : ExcClass}
    {text : String} : Keeps I R (refuseIf c cls text) := Keeps.ofExcept refl _

theorem Keeps.load (refl : ∀ s, R s s) (f : σ → α) : Keeps I R (load f) :=
  fun s inv => ensures_load.mpr ⟨inv, refl s⟩

theorem Keeps.save {f : σ → σ}
    (h : ∀ s, I s → I { s with store := f s.store } ∧ R s { s with store := f s.store }) :
    Keeps I R (save f) :=
  fun s inv => ensures_save.mpr (h s inv)

theorem Keeps.now
    (h : ∀ s, I s → I { s with readings := s.readings + 1 } ∧
      R s { s with readings := s.readings + 1 }) : Keeps I R (now clock) :=
  fun s inv => ensures_now.mpr (h s inv)

theorem Keeps.orNow (refl : ∀ s, R s s)
    (h : ∀ s, I s → I { s with readings := s.readings + 1 } ∧
      R s { s with readings := s.readings + 1 }) (time : Option ℤ) :
    Keeps I R (orNow clock time) := by
  cases time with
  | some time => exact Keeps.pure refl time
  | none => exact Keeps.now h

theorem Keeps.ite {c : Prop} [Decidable c] {y : Transaction σ α} (yes : c → Keeps I R x)
    (no : ¬ c → Keeps I R y) : Keeps I R (if c then x else y) := by
  split_ifs with h
  · exact yes h
  · exact no h

/-! ## Loops -/

theorem Keeps.each (refl : ∀ s, R s s) (trans : ∀ s t u, R s t → R t u → R s u)
    {f : ι → Transaction σ Unit} {xs : List ι} (h : ∀ x ∈ xs, Keeps I R (f x)) :
    Keeps I R (each f xs) := by
  induction xs with
  | nil => exact Keeps.pure refl ()
  | cons x xs ih =>
    exact Keeps.bind trans (h x List.mem_cons_self) fun _ =>
      ih fun y mem => h y (List.mem_cons_of_mem x mem)

theorem Keeps.keepIf (refl : ∀ s, R s s) (trans : ∀ s t u, R s t → R t u → R s u)
    {f : ι → Transaction σ Bool} {xs : List ι} (h : ∀ x ∈ xs, Keeps I R (f x)) :
    Keeps I R (keepIf f xs) := by
  induction xs with
  | nil => exact Keeps.pure refl []
  | cons x xs ih =>
    exact Keeps.bind trans (h x List.mem_cons_self) fun _ =>
      Keeps.bind trans (ih fun y mem => h y (List.mem_cons_of_mem x mem)) fun _ =>
        Keeps.pure refl _

end

/-- A loop keeps what each of its turns keeps, of what has been done and what is left. -/
theorem ensures_each {f : ι → Transaction σ Unit} (P : List ι → List ι → Server σ → Prop)
    {done left : List ι} {s : Server σ}
    (turn : ∀ done x left t, P done (x :: left) t →
      Ensures (f x) t fun _ u => P (done ++ [x]) left u)
    (start : P done left s) : Ensures (each f left) s fun _ t => P (done ++ left) [] t := by
  induction left generalizing done s with
  | nil =>
    refine ensures_pure.mpr ?_
    rw [List.append_nil]
    exact start
  | cons x left ih =>
    refine ensures_bind.mpr ((turn done x left s start).mono fun _ t kept => ?_)
    refine (ih kept).mono fun _ u last => ?_
    rw [List.append_assoc] at last
    exact last

/-- A loop from its start. -/
theorem ensures_loop {f : ι → Transaction σ Unit} (P : List ι → List ι → Server σ → Prop)
    {xs : List ι} {s : Server σ}
    (turn : ∀ done x left t, P done (x :: left) t →
      Ensures (f x) t fun _ u => P (done ++ [x]) left u)
    (start : P [] xs s) : Ensures (each f xs) s fun _ t => P xs [] t := ensures_each P turn start

/-- What a loop keeps is also what it picks from: its result is some of its rows. -/
theorem ensures_keepIf_subset {f : ι → Transaction σ Bool} {xs : List ι} {s : Server σ} :
    Ensures (keepIf f xs) s fun kept _ => kept ⊆ xs := by
  induction xs generalizing s with
  | nil => exact ensures_pure.mpr fun _ mem => mem
  | cons x xs ih =>
    refine ensures_bind.mpr fun kept store n _ => ?_
    refine ensures_bind.mpr (ih.mono fun rest t subset => ensures_pure.mpr ?_)
    split_ifs
    · exact List.cons_subset_cons x subset
    · exact fun y mem => List.mem_cons_of_mem x (subset mem)

end Transaction

end Py
