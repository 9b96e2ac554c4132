import Mathlib.Tactic.Common
import TradeRecommender.Lib.IsoFormat
import TradeRecommender.Lib.Refusals

/-!
# What `datetime.fromisoformat` raises

Only a `ValueError`, whatever the text.
-/

namespace Civil

open Py

section
variable {α β : Type}

/-- Only a `ValueError` is raised. -/
abbrev Plain (x : Except Exc α) : Prop := Contained [.valueError] x

theorem plain_raise (text : String) : Plain (raise .valueError text : Except Exc α) :=
  contained_caught text List.mem_cons_self

theorem plain_invalidIso : Plain (invalidIso : Except Exc α) := plain_raise _

theorem Plain.bind {x : Except Exc α} {f : α → Except Exc β} (first : Plain x)
    (rest : ∀ a, Plain (f a)) : Plain (x >>= f) :=
  contained_bind.mpr ⟨first, fun a _ => rest a⟩

theorem Plain.ite {c : Prop} [Decidable c] {x y : Except Exc α} (yes : Plain x) (no : Plain y) :
    Plain (if c then x else y) :=
  contained_ite.mpr ⟨fun _ => yes, fun _ => no⟩

end

theorem plain_digits (n : ℕ) (text : List Char) : Plain (digits n text) :=
  .ite (contained_ok _) plain_invalidIso

theorem plain_separatorLocation (text : List Char) : Plain (separatorLocation text) := by
  unfold separatorLocation
  refine .ite (contained_ok _) (.ite (.ite (.ite (.ite ?_ (contained_ok _)) (contained_ok _))
    (contained_ok _)) (.ite (contained_ok _) (contained_ok _)))
  exact plain_invalidIso

theorem plain_make (year month day : ℤ) : Plain (Date.make year month day) :=
  .ite (contained_ok _) (plain_raise _)

theorem plain_isoWeekDate (year week weekday : ℤ) : Plain (isoWeekDate year week weekday) :=
  .ite (plain_raise _) (.ite (plain_raise _) (.ite (plain_raise _)
    (.ite (contained_ok _) (plain_raise _))))

theorem plain_parseDate (text : List Char) : Plain (parseDate text) := by
  refine (plain_digits 4 text).bind fun _ => .ite ?_ ?_
  · refine (plain_digits _ _).bind fun _ => .ite (plain_isoWeekDate _ _ _) (.ite plain_invalidIso ?_)
    exact (plain_digits _ _).bind fun _ => plain_isoWeekDate _ _ _
  · refine (plain_digits _ _).bind fun _ => .ite plain_invalidIso ?_
    exact (plain_digits _ _).bind fun _ => plain_make _ _ _

theorem plain_parseFraction (text : List Char) : Plain (parseFraction text) := by
  cases text with
  | nil => exact contained_ok _
  | cons mark rest =>
    exact .ite plain_invalidIso ((plain_digits _ _).bind fun _ => contained_ok _)

theorem plain_parseClock (text : List Char) : Plain (parseClock text) := by
  refine (plain_digits 2 text).bind fun _ => .ite (contained_ok _) ?_
  refine (plain_digits _ _).bind fun _ => .ite (contained_ok _) (.ite plain_invalidIso ?_)
  exact (plain_digits _ _).bind fun _ => (plain_parseFraction _).bind fun _ => contained_ok _

theorem plain_parseOffset (mark : Char) (text : List Char) : Plain (parseOffset mark text) := by
  refine .ite (contained_ok _) ((plain_parseClock text).bind fun _ => ?_)
  exact .ite (contained_ok _) (plain_raise _)

theorem plain_parseTime (text : List Char) : Plain (parseTime text) := by
  unfold parseTime
  dsimp only
  refine (plain_parseClock _).bind fun _ => ?_
  cases ['-', '+', 'Z'].find? fun mark => text.contains mark with
  | none => exact .ite (contained_ok _) (plain_raise _)
  | some mark =>
    refine .bind (contained_map.mpr (plain_parseOffset _ _)) fun _ => ?_
    exact .ite (contained_ok _) (plain_raise _)

/-- **`fromisoformat` raises only a `ValueError`.** -/
theorem plain_fromisoformat (text : String) : Plain (fromisoformat text) := by
  refine .ite plain_invalidIso ((plain_separatorLocation _).bind fun _ => ?_)
  refine (plain_parseDate _).bind fun _ => .ite (contained_ok _) ?_
  exact (plain_parseTime _).bind fun _ => contained_ok _

end Civil
