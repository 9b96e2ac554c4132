import TradeRecommender.Lib.Python

/-!
# What escapes a handler

A computation is contained by the classes a handler names where it raises nothing else. The rules say
when each construct is contained, exactly: a sequence where its first step is and, after every result
of it, the rest; a loop where every turn it reaches is.
-/

namespace Py

section
variable {α β : Type} {handlers : List ExcClass}

/-- Everything the computation raises is caught. -/
def Contained (handlers : List ExcClass) (x : Except Exc α) : Prop :=
  ∀ e, x = .error e → e.caughtBy handlers = true

theorem contained_ok (a : α) : Contained handlers (.ok a) := fun _ h => by cases h

theorem contained_raise {cls : ExcClass} {text : String} :
    Contained handlers (raise cls text : Except Exc α) ↔ handlers.any cls.isSubclass = true := by
  constructor
  · intro h
    exact h _ rfl
  · intro h e same
    rw [← Except.error.inj same]
    exact h

/-- What is caught is not raised on. -/
theorem contained_caught {cls : ExcClass} (text : String) (mem : cls ∈ handlers) :
    Contained handlers (raise cls text : Except Exc α) := by
  refine contained_raise.mpr (List.any_eq_true.mpr ⟨cls, mem, ?_⟩)
  simp [ExcClass.isSubclass]

/-- **A sequence is contained where each step it reaches is.** -/
theorem contained_bind {x : Except Exc α} {f : α → Except Exc β} :
    Contained handlers (x >>= f) ↔
      Contained handlers x ∧ ∀ a, x = .ok a → Contained handlers (f a) := by
  cases x with
  | ok a =>
    constructor
    · intro h
      refine ⟨contained_ok a, fun b same => ?_⟩
      rw [← Except.ok.inj same]
      exact h
    · exact fun h => h.2 a rfl
  | error e =>
    constructor
    · intro h
      exact ⟨fun e' same => h e' (by rw [← Except.error.inj same]; rfl), fun a same => by cases same⟩
    · rintro ⟨h, -⟩ e' same
      exact h e' (congrArg Except.error (Except.error.inj same))

theorem contained_map {x : Except Exc α} {f : α → β} :
    Contained handlers (x.map f) ↔ Contained handlers x := by
  cases x with
  | ok a => exact ⟨fun _ => contained_ok a, fun _ => contained_ok (f a)⟩
  | error e =>
    constructor
    · intro h e' same
      exact h e' (by rw [← Except.error.inj same]; rfl)
    · intro h e' same
      exact h e' (by rw [← Except.error.inj same])

theorem contained_ite {c : Prop} [Decidable c] {x y : Except Exc α} :
    Contained handlers (if c then x else y) ↔
      (c → Contained handlers x) ∧ (¬ c → Contained handlers y) := by
  by_cases h : c
  · rw [if_pos h]
    exact ⟨fun hx => ⟨fun _ => hx, fun no => absurd h no⟩, fun hx => hx.1 h⟩
  · rw [if_neg h]
    exact ⟨fun hy => ⟨fun yes => absurd yes h, fun _ => hy⟩, fun hy => hy.2 h⟩

/-- **A comprehension is contained where every element it reaches is.** -/
theorem contained_mapE {f : α → Except Exc β} {xs : List α} :
    Contained handlers (mapE f xs) ↔
      ∀ before x after ys, xs = before ++ x :: after → mapE f before = .ok ys →
        Contained handlers (f x) := by
  induction xs with
  | nil =>
    refine ⟨fun _ before x after ys split => ?_, fun _ => contained_ok []⟩
    cases before <;> cases split
  | cons first rest ih =>
    have unfolded : mapE f (first :: rest) = f first >>= fun y => (mapE f rest).map (y :: ·) := rfl
    rw [unfolded, contained_bind]
    constructor
    · rintro ⟨head, tail⟩ before x after ys split ran
      cases before with
      | nil =>
        obtain ⟨rfl, -⟩ := List.cons.inj split
        exact head
      | cons b before =>
        obtain ⟨rfl, split'⟩ := List.cons.inj split
        obtain ⟨y, hy, ran⟩ := bind_eq_ok.mp ran
        obtain ⟨ys', ran, -⟩ := map_eq_ok.mp ran
        exact ih.mp (contained_map.mp (tail y hy)) before x after ys' split' ran
    · intro h
      refine ⟨h [] first rest [] rfl rfl, fun y hy => contained_map.mpr (ih.mpr ?_)⟩
      intro before x after ys split ran
      refine h (first :: before) x after (y :: ys) (by rw [split]; rfl) ?_
      show f first >>= (fun y => (mapE f before).map (y :: ·)) = _
      rw [hy, ran]
      rfl

/-- **A loop is contained where every turn it reaches is.** -/
theorem contained_foldlM {f : β → α → Except Exc β} {xs : List α} {first : β} :
    Contained handlers (xs.foldlM f first) ↔
      ∀ before x after b, xs = before ++ x :: after → before.foldlM f first = .ok b →
        Contained handlers (f b x) := by
  induction xs generalizing first with
  | nil =>
    refine ⟨fun _ before x after ys split => ?_, fun _ => contained_ok first⟩
    cases before <;> cases split
  | cons next rest ih =>
    rw [List.foldlM_cons, contained_bind]
    constructor
    · rintro ⟨head, tail⟩ before x after b split ran
      cases before with
      | nil =>
        obtain ⟨rfl, -⟩ := List.cons.inj split
        obtain rfl := Except.ok.inj ran
        exact head
      | cons y before =>
        obtain ⟨rfl, split'⟩ := List.cons.inj split
        rw [List.foldlM_cons] at ran
        obtain ⟨b', hb, ran⟩ := bind_eq_ok.mp ran
        exact ih.mp (tail b' hb) before x after b split' ran
    · intro h
      refine ⟨h [] next rest first rfl rfl, fun b' hb => ih.mpr ?_⟩
      intro before x after b split ran
      refine h (next :: before) x after b (by rw [split]; rfl) ?_
      rw [List.foldlM_cons, hb]
      exact ran

/-- **A contained computation returns under a handler that returns.** -/
theorem tryExcept_returns_iff {x : Except Exc α} {handle : Exc → Except Exc α}
    (returns : ∀ e, ∃ a, handle e = .ok a) :
    (∃ a, tryExcept x handlers handle = .ok a) ↔ Contained handlers x := by
  cases x with
  | ok a => exact ⟨fun _ => contained_ok a, fun _ => ⟨a, rfl⟩⟩
  | error e =>
    constructor
    · rintro ⟨a, h⟩ e' same
      rw [← Except.error.inj same]
      by_contra uncaught
      unfold tryExcept at h
      dsimp only at h
      rw [if_neg uncaught] at h
      cases h
    · intro h
      obtain ⟨a, ha⟩ := returns e
      refine ⟨a, ?_⟩
      unfold tryExcept
      dsimp only
      rw [if_pos (h e rfl), ha]

end

end Py
