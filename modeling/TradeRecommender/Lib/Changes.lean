import Mathlib.Data.List.Destutter

/-!
# Changes of a value

`List.destutter'` keeps of a list the values that differ from the one kept before.  The facts below
say what one more value does to it.
-/

namespace Changes

variable {α : Type*}

/-- The value at the end. -/
def latest (base : α) (values : List α) : α := values.getLast?.getD base

@[simp] theorem latest_nil (base : α) : latest base [] = base := rfl

@[simp] theorem latest_concat (base x : α) (values : List α) : latest base (values ++ [x]) = x := by
  rw [latest, List.getLast?_concat]
  rfl

theorem latest_cons (base x : α) (values : List α) : latest base (x :: values) = latest x values := by
  cases values with
  | nil => rfl
  | cons y values =>
    rw [latest, latest, List.getLast?_cons_cons]
    cases found : (y :: values).getLast? with
    | none => exact absurd (List.getLast?_eq_none_iff.mp found) (List.cons_ne_nil _ _)
    | some z => rfl

variable [DecidableEq α]

/-- The value of a base and the values behind it whenever it changes. -/
def changes (base : α) (values : List α) : List α := values.destutter' (· ≠ ·) base

@[simp] theorem changes_nil (base : α) : changes base [] = [base] := rfl

theorem changes_cons (base x : α) (values : List α) :
    changes base (x :: values) =
      if x = base then changes base values else base :: changes x values := by
  unfold changes
  by_cases same : x = base
  · rw [if_pos same, List.destutter'_cons_neg]
    exact not_not.mpr same.symm
  · rw [if_neg same, List.destutter'_cons_pos]
    exact fun h => same h.symm

/-- One more value is kept unless it is the value at the end. -/
theorem changes_concat (base x : α) (values : List α) :
    changes base (values ++ [x]) =
      changes base values ++ if x = latest base values then [] else [x] := by
  induction values generalizing base with
  | nil =>
    rw [List.nil_append, changes_cons, latest_nil, changes_nil, changes_nil]
    split_ifs <;> simp
  | cons y values ih =>
    rw [List.cons_append, changes_cons, changes_cons, latest_cons]
    by_cases same : y = base
    · rw [if_pos same, if_pos same, same]
      exact ih base
    · rw [if_neg same, if_neg same, ih y, List.cons_append]

/-- The last value kept is the value at the end. -/
theorem getLast?_changes (base : α) (values : List α) :
    (changes base values).getLast? = some (latest base values) := by
  induction values using List.reverseRecOn with
  | nil => rfl
  | append_singleton values x ih =>
    rw [changes_concat, latest_concat]
    split_ifs with same
    · rw [List.append_nil, ih, same]
    · rw [List.getLast?_concat]

theorem head?_changes (base : α) (values : List α) : (changes base values).head? = some base := by
  induction values using List.reverseRecOn with
  | nil => rfl
  | append_singleton values x ih =>
    rw [changes_concat, List.head?_append, ih]
    rfl

/-- Nothing changes while every value is the base. -/
theorem changes_eq_singleton {base : α} {values : List α} :
    changes base values = [base] ↔ ∀ x ∈ values, x = base := by
  induction values with
  | nil => simp
  | cons y values ih =>
    rw [changes_cons, List.forall_mem_cons]
    split_ifs with same
    · rw [ih, and_iff_right same]
    · refine ⟨fun h => ?_, fun h => absurd h.1 same⟩
      have kept := head?_changes y values
      rw [(List.cons_eq_cons.mp h).2] at kept
      cases kept

end Changes
