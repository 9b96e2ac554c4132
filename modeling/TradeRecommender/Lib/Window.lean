import Mathlib.Data.List.DropRight
import Mathlib.Data.Prod.Lex
import Mathlib.Order.Lattice

/-!
# Bounded windows and running maxima

A bounded queue keeps the last rows of what was appended to it, and a left fold that replaces its
best row only by a greater one ends, over an ascending list, at the last row.

1. bounded queues;
2. the first of the greatest;
3. the latest of rows that carry a time and a number.
-/

namespace Window

variable {α : Type}

/-! ## Bounded queues -/

/-- Append to a queue that holds at most `bound` rows and drops from the front. -/
def push (bound : ℕ) (window : List α) (row : α) : List α := (window ++ [row]).rtake bound

theorem rtake_length_le (bound : ℕ) (rows : List α) : (rows.rtake bound).length ≤ bound := by
  simp [List.rtake]
  omega

theorem rtake_rtake_append (bound : ℕ) (rows : List α) (row : α) :
    (rows.rtake bound ++ [row]).rtake bound = (rows ++ [row]).rtake bound := by
  unfold List.rtake
  rw [← List.drop_append_of_le_length (by omega), List.drop_drop]
  congr 1
  simp
  omega

/-- Pushing onto the last rows of a list gives the last rows of the longer list. -/
@[simp]
theorem push_rtake (bound : ℕ) (rows : List α) (row : α) :
    push bound (rows.rtake bound) row = (rows ++ [row]).rtake bound :=
  rtake_rtake_append bound rows row

/-- A window of a list is full once the list is long enough. -/
theorem length_rtake_eq_iff {bound : ℕ} (rows : List α) :
    (rows.rtake bound).length = bound ↔ bound ≤ rows.length := by
  simp [List.rtake]
  omega

/-- The first row of a full window, counted from the end of the list. -/
theorem head?_rtake {bound : ℕ} {rows : List α} (h : bound < rows.length) :
    (rows.rtake (bound + 1)).head? = rows.reverse[bound]? := by
  unfold List.rtake
  rw [List.head?_drop, List.getElem?_reverse (by omega)]
  congr 1
  omega

/-! ## The first of the greatest -/

/-- The first row that no later one exceeds. -/
def firstMax (lt : α → α → Bool) : List α → Option α
  | [] => none
  | row :: rows => some (rows.foldl (fun best other => if lt best other then other else best) row)

theorem foldl_best_of_pairwise {lt : α → α → Bool} {row : α} {rows : List α}
    (h : (row :: rows).Pairwise fun a b => lt a b) :
    some (rows.foldl (fun best other => if lt best other then other else best) row) =
      (row :: rows).getLast? := by
  induction rows generalizing row with
  | nil => rfl
  | cons next rows ih =>
    have first : lt row next := List.rel_of_pairwise_cons h (by simp)
    rw [List.foldl_cons, if_pos first, ih (List.Pairwise.tail h)]
    simp

/-- **The maximum of an ascending list is its last row.** -/
theorem firstMax_of_pairwise {lt : α → α → Bool} {rows : List α}
    (h : rows.Pairwise fun a b => lt a b) : firstMax lt rows = rows.getLast? := by
  cases rows with
  | nil => rfl
  | cons row rows => exact foldl_best_of_pairwise h

/-- Where a row replaces one only by a lesser measure, and leaves none of a lesser measure behind,
the first of the greatest has the least. -/
theorem firstMax_least {β : Type} [Preorder β] (measure : α → β) {lt : α → α → Bool}
    {rows : List α} {best : α} (replaced : ∀ a b, lt a b = true → measure b ≤ measure a)
    (kept : ∀ a b, lt a b ≠ true → measure a ≤ measure b) (h : firstMax lt rows = some best) :
    best ∈ rows ∧ ∀ other ∈ rows, measure best ≤ measure other := by
  cases rows with
  | nil => cases h
  | cons row rows =>
    rw [firstMax] at h
    obtain rfl := Option.some.inj h
    clear h
    induction rows generalizing row with
    | nil =>
      refine ⟨List.mem_cons_self, fun other mem => ?_⟩
      rw [List.mem_singleton.mp mem]
      exact le_refl _
    | cons next rows ih =>
      rw [List.foldl_cons]
      obtain ⟨mem, least⟩ := ih (if lt row next then next else row)
      have head := least _ List.mem_cons_self
      have nearer : measure (if lt row next then next else row) ≤ measure row ∧
          measure (if lt row next then next else row) ≤ measure next := by
        split_ifs with greater
        · exact ⟨replaced row next greater, le_refl _⟩
        · exact ⟨le_refl _, kept row next greater⟩
      constructor
      · rcases List.mem_cons.mp mem with same | mem
        · rw [same]
          split_ifs
          · exact List.mem_cons_of_mem _ List.mem_cons_self
          · exact List.mem_cons_self
        · exact List.mem_cons_of_mem _ (List.mem_cons_of_mem _ mem)
      · intro other mem
        rcases List.mem_cons.mp mem with rfl | mem
        · exact head.trans nearer.1
        · rcases List.mem_cons.mp mem with rfl | mem
          · exact head.trans nearer.2
          · exact least other (List.mem_cons_of_mem _ mem)

theorem firstMax_append (lt : α → α → Bool) (rows : List α) (row : α) :
    firstMax lt (rows ++ [row]) =
      some ((firstMax lt rows).elim row fun best => if lt best row then row else best) := by
  cases rows with
  | nil => rfl
  | cons first rows =>
    rw [List.cons_append, firstMax, firstMax, List.foldl_append]
    rfl

theorem firstMax_eq_none {lt : α → α → Bool} {rows : List α} :
    firstMax lt rows = none ↔ rows = [] := by
  cases rows <;> simp [firstMax]

/-! ## The latest -/

section
variable (time : α → ℤ) (id : α → ℕ)

/-- Earlier by time and then by number. -/
def earlier (a b : α) : Bool :=
  decide (time a < time b) || decide (time a = time b) && decide (id a < id b)

/-- The latest row by time and then by number. -/
def latest (rows : List α) : Option α := firstMax (earlier time id) rows

/-- The place of a row in the order. -/
def moment (a : α) : ℤ ×ₗ ℕ := toLex (time a, id a)

variable {time id} {rows : List α} {row best : α}

theorem earlier_iff {a b : α} : earlier time id a b = true ↔ moment time id a < moment time id b := by
  rw [earlier, moment, moment, Prod.Lex.toLex_lt_toLex]
  simp

/-- **The latest row is one of the rows, and none is after it.** -/
theorem latest_spec (h : latest time id rows = some best) :
    best ∈ rows ∧ ∀ other ∈ rows, moment time id other ≤ moment time id best := by
  refine firstMax_least (fun a => OrderDual.toDual (moment time id a)) (fun a b lt => ?_)
    (fun a b lt => ?_) h
  · exact (earlier_iff.mp lt).le
  · exact not_lt.mp fun h => lt (earlier_iff.mpr h)

variable (time id) in
theorem latest_isSome (mem : row ∈ rows) : ∃ best, latest time id rows = some best := by
  refine Option.ne_none_iff_exists'.mp fun none_ => ?_
  rw [firstMax_eq_none.mp none_] at mem
  cases mem

/-- A row after all others is the latest. -/
theorem latest_append (after : ∀ other ∈ rows, moment time id other < moment time id row) :
    latest time id (rows ++ [row]) = some row := by
  rw [latest, firstMax_append]
  cases found : firstMax (earlier time id) rows with
  | none => rfl
  | some best =>
    rw [Option.elim_some, if_pos]
    exact earlier_iff.mpr (after best (latest_spec found).1)

/-- The latest of rows and one more is the latest of them, or that one. -/
theorem latest_append_cases (h : latest time id (rows ++ [row]) = some best) :
    best = row ∨ latest time id rows = some best := by
  rw [latest, firstMax_append] at h
  cases found : firstMax (earlier time id) rows with
  | none =>
    rw [found] at h
    exact .inl (Option.some.inj h).symm
  | some other =>
    rw [found, Option.elim_some] at h
    split_ifs at h
    · exact .inl (Option.some.inj h).symm
    · exact .inr (found.trans h)

end

end Window
