import TradeRecommender.Lib.Python

/-!
# Calls that raise and write

A call reads and writes a state and may raise; what it wrote before it raised stays written.  A
`Meets` statement says of a call what holds where it returns and what holds where it raises, and
calls are put together by its rules.
-/

namespace Py

/-- A call on a state: its result or what it raised, and the state after it. -/
def Call (σ α : Type) : Type := σ → Except Exc α × σ

namespace Call

variable {σ α β : Type}

/-- `return a` -/
protected def ret (a : α) : Call σ α := fun s => (.ok a, s)

/-- One call after another; the second does not run where the first raises. -/
protected def andThen (x : Call σ α) (f : α → Call σ β) : Call σ β := fun s =>
  match x s with
  | (.ok a, t) => f a t
  | (.error e, t) => (.error e, t)

instance : Monad (Call σ) where
  pure := Call.ret
  bind := Call.andThen

/-- A computation that reads and writes no state. -/
def ofExcept (x : Except Exc α) : Call σ α := fun s => (x, s)

/-- A value of the state. -/
def read (f : σ → α) : Call σ α := fun s => (.ok (f s), s)

/-- A change of the state. -/
def write (f : σ → σ) : Call σ Unit := fun s => (.ok (), f s)

/-- `if condition: raise cls(text)` -/
def refuseIf (condition : Prop) [Decidable condition] (cls : ExcClass) (text : String) :
    Call σ Unit :=
  ofExcept (if condition then raise cls text else .ok ())

/-- `try: x except handlers: return fallback`. -/
def orReturn (x : Call σ α) (handlers : List ExcClass) (fallback : α) : Call σ α := fun s =>
  match x s with
  | (.ok a, t) => (.ok a, t)
  | (.error e, t) => (if e.caughtBy handlers then .ok fallback else .error e, t)

/-! ## What a call does -/

theorem bind_of_ok {x : Call σ α} {f : α → Call σ β} {s t : σ} {a : α} (h : x s = (.ok a, t)) :
    (x >>= f) s = f a t := by
  show Call.andThen x f s = f a t
  rw [Call.andThen, h]

theorem bind_of_error {x : Call σ α} {f : α → Call σ β} {s t : σ} {e : Exc}
    (h : x s = (.error e, t)) : (x >>= f) s = (.error e, t) := by
  show Call.andThen x f s = (.error e, t)
  rw [Call.andThen, h]

theorem ofExcept_of_ok {r : Except Exc α} {a : α} (s : σ) (h : r = .ok a) :
    ofExcept r s = (.ok a, s) := by
  rw [ofExcept, h]

theorem refuseIf_of_not {c : Prop} [Decidable c] {cls : ExcClass} {text : String} (s : σ)
    (h : ¬ c) : refuseIf c cls text s = (.ok (), s) :=
  ofExcept_of_ok s (if_neg h)

/-- From a state of `P` a call that returns ends in `Q` of its result, one that raises in `E`. -/
def Meets (P : σ → Prop) (x : Call σ α) (Q : α → σ → Prop) (E : σ → Prop) : Prop :=
  ∀ s, P s → (∀ a t, x s = (.ok a, t) → Q a t) ∧ ∀ e t, x s = (.error e, t) → E t

section
variable {P P' : σ → Prop} {Q : α → σ → Prop} {R : β → σ → Prop} {E : σ → Prop}
  {x : Call σ α} {f : α → Call σ β}

theorem Meets.bind (first : Meets P x Q E) (next : ∀ a, Meets (Q a) (f a) R E) :
    Meets P (x >>= f) R E := by
  intro s hs
  obtain ⟨returned, raised⟩ := first s hs
  match h : x s with
  | (.ok a, t) =>
    rw [bind_of_ok h]
    exact next a t (returned a t h)
  | (.error e, t) =>
    rw [bind_of_error h]
    refine ⟨fun _ _ h' => ?_, fun _ _ h' => ?_⟩
    · cases h'
    · cases h'
      exact raised e t h

theorem Meets.weaken {Q' : α → σ → Prop} {E' : σ → Prop} (h : Meets P x Q E)
    (pre : ∀ s, P' s → P s) (post : ∀ a s, Q a s → Q' a s) (failed : ∀ s, E s → E' s) :
    Meets P' x Q' E' := by
  intro s hs
  obtain ⟨returned, raised⟩ := h s (pre s hs)
  exact ⟨fun a t h => post a t (returned a t h), fun e t h => failed t (raised e t h)⟩

/-- A statement about each state is one about all of them. -/
theorem Meets.each (h : ∀ s, P s → Meets (fun t => t = s) x Q E) : Meets P x Q E :=
  fun s hs => h s hs s rfl

theorem Meets.pure {a : α} (post : ∀ s, P s → Q a s) : Meets P (pure a : Call σ α) Q E := by
  intro s hs
  refine ⟨fun _ _ h => ?_, fun _ _ h => ?_⟩
  · cases h
    exact post s hs
  · cases h

/-- What reads and writes no state keeps what holds of it. -/
theorem Meets.ofExcept {r : Except Exc α} (failed : ∀ s, P s → E s) :
    Meets P (ofExcept r) (fun a s => r = .ok a ∧ P s) E := by
  intro s hs
  refine ⟨fun a t h => ?_, fun e t h => ?_⟩
  · cases h
    exact ⟨rfl, hs⟩
  · cases h
    exact failed s hs

theorem Meets.read {g : σ → α} : Meets P (read g) (fun a s => a = g s ∧ P s) E := by
  intro s hs
  refine ⟨fun a t h => ?_, fun e t h => ?_⟩
  · cases h
    exact ⟨rfl, hs⟩
  · cases h

theorem Meets.write {g : σ → σ} :
    Meets P (write g) (fun _ t => ∃ s, P s ∧ t = g s) E := by
  intro s hs
  refine ⟨fun a t h => ?_, fun e t h => ?_⟩
  · cases h
    exact ⟨s, hs, rfl⟩
  · cases h

theorem Meets.refuseIf {c : Prop} [Decidable c] {cls : ExcClass} {text : String}
    (failed : ∀ s, P s → E s) : Meets P (refuseIf c cls text) (fun _ s => ¬ c ∧ P s) E := by
  refine (Meets.ofExcept failed).weaken (fun _ h => h) (fun _ s h => ⟨fun hc => ?_, h.2⟩)
    fun _ h => h
  rw [if_pos hc] at h
  cases h.1

theorem Meets.orReturn {handlers : List ExcClass} {fallback : α} (h : Meets P x Q E)
    (caught : ∀ s, E s → Q fallback s) : Meets P (orReturn x handlers fallback) Q E := by
  intro s hs
  obtain ⟨returned, raised⟩ := h s hs
  unfold Call.orReturn
  match run : x s with
  | (.ok a, t) =>
    refine ⟨fun _ _ h' => ?_, fun _ _ h' => ?_⟩
    · cases h'
      exact returned a t run
    · cases h'
  | (.error e, t) =>
    dsimp only
    split_ifs
    · refine ⟨fun _ _ h' => ?_, fun _ _ h' => ?_⟩
      · cases h'
        exact caught t (raised e t run)
      · cases h'
    · refine ⟨fun _ _ h' => ?_, fun _ _ h' => ?_⟩
      · cases h'
      · cases h'
        exact raised e t run

end

end Call

end Py
