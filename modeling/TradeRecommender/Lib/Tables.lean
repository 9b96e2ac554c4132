import Mathlib.Data.List.Nodup
import Mathlib.Data.List.Pairwise
import TradeRecommender.Lib.Vintage

/-!
# Tables

Lists of rows with a key, a row written over the one of its key, and rows told apart by their keys.
-/

namespace Tables

section
variable {α κ : Type} [DecidableEq κ] {key : α → κ} {rows : List α} {row row' x : α}

/-- The rows with one written over that of its key. -/
def put (key : α → κ) (rows : List α) (row : α) : List α :=
  rows.map fun r => if key r = key row then row else r

theorem map_key_put : (put key rows row).map key = rows.map key := by
  rw [put, List.map_map]
  refine List.map_congr_left fun r _ => ?_
  show key (if key r = key row then row else r) = key r
  split_ifs with same
  · exact same.symm
  · rfl

/-- A written row is in the table, in place of the one of its key. -/
theorem mem_put (mem : row ∈ rows) (same : key row' = key row) : row' ∈ put key rows row' :=
  List.mem_map.mpr ⟨row, mem, if_pos same.symm⟩

/-- Rows of other keys stay. -/
theorem mem_put_of_ne (mem : x ∈ rows) (other : key x ≠ key row) : x ∈ put key rows row :=
  List.mem_map.mpr ⟨x, mem, if_neg other⟩

/-- What is in the table was so or is what was written. -/
theorem of_mem_put (mem : x ∈ put key rows row) :
    x = row ∨ (x ∈ rows ∧ key x ≠ key row) := by
  obtain ⟨r, hr, rfl⟩ := List.mem_map.mp mem
  by_cases same : key r = key row
  · rw [if_pos same]
    exact .inl rfl
  · rw [if_neg same]
    exact .inr ⟨hr, same⟩

omit [DecidableEq κ] in
/-- With unique keys, rows of one key are one. -/
theorem eq_of_key (unique : (rows.map key).Nodup) (hx : x ∈ rows) (hr : row ∈ rows)
    (same : key x = key row) : x = row :=
  List.inj_on_of_nodup_map unique hx hr same

end

/-! ## The first row of an order -/

section
variable {α : Type} {time : α → ℤ} {id : α → ℕ} {rows : List α} {row : α}

/-- `.order_by(time, "id").first()` -/
def firstDue (time : α → ℤ) (id : α → ℕ) : List α → Option α
  | [] => none
  | row :: rows =>
    match firstDue time id rows with
    | none => some row
    | some best =>
      if time best < time row ∨ time best = time row ∧ id best < id row then some best
      else some row

theorem mem_of_firstDue (found : firstDue time id rows = some row) : row ∈ rows := by
  induction rows with
  | nil => cases found
  | cons first rows ih =>
    rw [firstDue] at found
    cases later : firstDue time id rows with
    | none =>
      rw [later] at found
      cases found
      exact List.mem_cons_self
    | some best =>
      rw [later] at found
      by_cases sooner : time best < time first ∨ time best = time first ∧ id best < id first
      · have best_eq : best = row := by simpa only [if_pos sooner, Option.some.injEq] using found
        exact List.mem_cons_of_mem _ (ih (by rw [later, best_eq]))
      · have first_eq : first = row := by simpa only [if_neg sooner, Option.some.injEq] using found
        rw [first_eq]
        exact List.mem_cons_self

end

/-! ## Groups -/

section
variable {α κ : Type} [DecidableEq κ] {R : κ → List α → Prop} {keys : List κ}
  {groups : List (List α)}

omit [DecidableEq κ] in
/-- Rows, one related to each key. -/
theorem exists_rows {S : κ → α → Prop} (h : ∀ key ∈ keys, ∃ row, S key row) :
    ∃ rows, List.Forall₂ S keys rows := by
  induction keys with
  | nil => exact ⟨[], .nil⟩
  | cons key keys ih =>
    obtain ⟨row, first⟩ := h key List.mem_cons_self
    obtain ⟨rows, rest⟩ := ih fun key mem => h key (List.mem_cons_of_mem _ mem)
    exact ⟨row :: rows, .cons first rest⟩

/-- Joined groups, each of the rows of its key, filter back into the group of a key. -/
theorem exists_group (keyOf : α → κ) (own : ∀ key group, R key group → ∀ x ∈ group, keyOf x = key)
    (grouped : List.Forall₂ R keys groups) (distinct : keys.Nodup) {key : κ} (mem : key ∈ keys) :
    ∃ group, R key group ∧ groups.flatten.filter (keyOf · = key) = group := by
  induction grouped with
  | nil => cases mem
  | @cons first group keys groups related rest ih =>
    obtain ⟨fresh, distinct⟩ := List.nodup_cons.mp distinct
    rw [List.flatten_cons, List.filter_append]
    rcases List.mem_cons.mp mem with rfl | mem
    · have whole : group.filter (keyOf · = key) = group :=
        List.filter_eq_self.mpr fun x hx => decide_eq_true (own _ _ related x hx)
      have others : groups.flatten.filter (keyOf · = key) = [] := by
        refine List.filter_eq_nil_iff.mpr fun x hx => ?_
        obtain ⟨other, hother, hx⟩ := List.mem_flatten.mp hx
        obtain ⟨key', hkey', of⟩ := Vintage.forall₂_exists_left rest hother
        rw [own _ _ of x hx, decide_eq_true_eq]
        rintro rfl
        exact fresh hkey'
      rw [whole, others, List.append_nil]
      exact ⟨group, related, rfl⟩
    · have none : group.filter (keyOf · = key) = [] := by
        refine List.filter_eq_nil_iff.mpr fun x hx => ?_
        rw [own _ _ related x hx, decide_eq_true_eq]
        rintro rfl
        exact fresh mem
      rw [none, List.nil_append]
      exact ih distinct mem

end

end Tables
