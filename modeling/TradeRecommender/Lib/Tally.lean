import Mathlib.Algebra.GroupWithZero.Nat
import Mathlib.Data.List.Basic
import Mathlib.Data.List.Nodup
import Mathlib.Tactic.Common

/-!
# Tallies

Dictionaries that a loop accumulates under keys, as association lists in the order of first use.
-/

namespace Tally

variable {κ β : Type} [DecidableEq κ]

/-- `groups[key] += amount` with a default. -/
def addTo (add : β → β → β) (zero : β) (key : κ) (amount : β) : List (κ × β) → List (κ × β)
  | [] => [(key, add zero amount)]
  | (k, v) :: rest =>
    if k = key then (k, add v amount) :: rest else (k, v) :: addTo add zero key amount rest

/-- The loop that adds each amount under its key. -/
def extend (add : β → β → β) (zero : β) (groups xs : List (κ × β)) : List (κ × β) :=
  xs.foldl (fun groups x => addTo add zero x.1 x.2 groups) groups

/-- The loop from an empty dictionary. -/
def tally (add : β → β → β) (zero : β) (xs : List (κ × β)) : List (κ × β) := extend add zero [] xs

/-- The amounts under a key, in order. -/
def under (key : κ) (xs : List (κ × β)) : List β := (xs.filter fun x => x.1 = key).map Prod.snd

variable {add : β → β → β} {zero : β} {key k : κ} {amount : β} {groups xs ys : List (κ × β)}

/-- The keys of a dictionary. -/
abbrev keys (groups : List (κ × β)) : List κ := groups.map Prod.fst

omit [DecidableEq κ] in
theorem keys_cons {entry : κ × β} : keys (entry :: groups) = entry.1 :: keys groups := rfl

theorem under_append : under key (xs ++ ys) = under key xs ++ under key ys := by
  unfold under
  rw [List.filter_append, List.map_append]

theorem under_eq_nil : under key xs = [] ↔ key ∉ keys xs := by
  unfold under
  rw [List.map_eq_nil_iff, List.filter_eq_nil_iff]
  constructor
  · intro h hmem
    obtain ⟨x, hx, rfl⟩ := List.mem_map.mp hmem
    exact absurd (h x hx) (by simp)
  · intro h x hx
    simp only [decide_eq_true_eq]
    rintro rfl
    exact h (List.mem_map_of_mem hx)

theorem lookup_cons_eq {v : β} {rest : List (κ × β)} :
    ((k, v) :: rest).lookup key = if key = k then some v else rest.lookup key := by
  rw [List.lookup_cons]
  by_cases h : key = k
  · rw [if_pos h, h, beq_self_eq_true]
  · rw [if_neg h, beq_false_of_ne h]

theorem lookup_isSome : (groups.lookup key).isSome ↔ key ∈ keys groups := by
  induction groups with
  | nil => simp
  | cons entry rest ih =>
    obtain ⟨k, v⟩ := entry
    rw [lookup_cons_eq]
    by_cases h : key = k
    · simp [h]
    · rw [if_neg h, ih, keys_cons, List.mem_cons]
      simp [h]

theorem lookup_of_mem {v : β} (distinct : (keys groups).Nodup) (mem : (key, v) ∈ groups) :
    groups.lookup key = some v := by
  induction groups with
  | nil => cases mem
  | cons entry groups ih =>
    obtain ⟨fresh, distinct⟩ := List.nodup_cons.mp distinct
    rcases List.mem_cons.mp mem with rfl | mem
    · exact List.lookup_cons_self
    · have other : (key == entry.1) = false := by
        rw [beq_eq_false_iff_ne]
        rintro rfl
        exact fresh (List.mem_map.mpr ⟨_, mem, rfl⟩)
      rw [List.lookup_cons, other]
      exact ih distinct mem

theorem mem_of_lookup {v : β} (found : groups.lookup key = some v) : (key, v) ∈ groups := by
  obtain ⟨front, rest, rfl, -⟩ := List.lookup_eq_some_iff.mp found
  exact List.mem_append_right _ List.mem_cons_self

theorem lookup_addTo : (addTo add zero key amount groups).lookup k =
    if k = key then some (add ((groups.lookup key).getD zero) amount) else groups.lookup k := by
  induction groups with
  | nil =>
    unfold addTo
    rw [lookup_cons_eq]
    rfl
  | cons entry rest ih =>
    obtain ⟨k', v⟩ := entry
    unfold addTo
    by_cases hk : k' = key
    · subst hk
      rw [if_pos rfl, lookup_cons_eq, lookup_cons_eq, lookup_cons_eq, if_pos rfl]
      by_cases h : k = k'
      · rw [if_pos h, if_pos h]
        rfl
      · rw [if_neg h, if_neg h, if_neg h]
    · rw [if_neg hk, lookup_cons_eq, ih, lookup_cons_eq, if_neg (Ne.symm hk),
        lookup_cons_eq]
      by_cases h : k = k'
      · subst h
        rw [if_pos rfl, if_neg hk, if_pos rfl]
      · rw [if_neg h, if_neg h]

theorem mem_keys_addTo : k ∈ keys (addTo add zero key amount groups) ↔
    k = key ∨ k ∈ keys groups := by
  rw [← lookup_isSome, lookup_addTo, ← lookup_isSome]
  by_cases h : k = key
  · simp [h]
  · simp [h]

theorem nodup_keys_addTo (h : (keys groups).Nodup) :
    (keys (addTo add zero key amount groups)).Nodup := by
  induction groups with
  | nil => simp [addTo, keys]
  | cons entry rest ih =>
    obtain ⟨k', v⟩ := entry
    rw [keys_cons, List.nodup_cons] at h
    unfold addTo
    by_cases hk : k' = key
    · rw [if_pos hk, keys_cons, List.nodup_cons]
      exact h
    · rw [if_neg hk, keys_cons, List.nodup_cons]
      refine ⟨?_, ih h.2⟩
      rw [mem_keys_addTo]
      rintro (heq | hmem)
      · exact hk heq
      · exact h.1 hmem

/-- The entry under a key after the loop: its amounts added in order. -/
theorem lookup_extend : (extend add zero groups xs).lookup k =
    if under k xs = [] then groups.lookup k
    else some ((under k xs).foldl add ((groups.lookup k).getD zero)) := by
  induction xs generalizing groups with
  | nil => rfl
  | cons x xs ih =>
    unfold extend at ih ⊢
    rw [List.foldl_cons, ih, lookup_addTo]
    by_cases hk : x.1 = k
    · have hcons : under k (x :: xs) = x.2 :: under k xs := by simp [under, hk]
      rw [if_pos hk.symm, hcons, if_neg (List.cons_ne_nil _ _), List.foldl_cons, hk]
      by_cases hnil : under k xs = []
      · rw [if_pos hnil, hnil]
        rfl
      · rw [if_neg hnil]
        rfl
    · have hcons : under k (x :: xs) = under k xs := by simp [under, hk]
      rw [if_neg (Ne.symm hk), hcons]

theorem mem_keys_extend : k ∈ keys (extend add zero groups xs) ↔
    k ∈ keys groups ∨ k ∈ keys xs := by
  rw [← lookup_isSome, lookup_extend, ← lookup_isSome]
  by_cases h : under k xs = []
  · rw [if_pos h]
    simp [under_eq_nil.mp h]
  · have hmem : k ∈ keys xs := by
      by_contra hnot
      exact h (under_eq_nil.mpr hnot)
    rw [if_neg h]
    simp only [Option.isSome_some, hmem, or_true]

theorem nodup_keys_extend (h : (keys groups).Nodup) :
    (keys (extend add zero groups xs)).Nodup := by
  induction xs generalizing groups with
  | nil => exact h
  | cons x xs ih => exact ih (nodup_keys_addTo h)

theorem lookup_tally : (tally add zero xs).lookup k =
    if under k xs = [] then none else some ((under k xs).foldl add zero) := by
  unfold tally
  rw [lookup_extend]
  rfl

theorem mem_keys_tally : k ∈ keys (tally add zero xs) ↔ k ∈ keys xs := by
  unfold tally
  rw [mem_keys_extend]
  simp

theorem nodup_keys_tally : (keys (tally add zero xs)).Nodup :=
  nodup_keys_extend List.nodup_nil

theorem extend_concat {x : κ × β} :
    extend add zero groups (xs ++ [x]) = addTo add zero x.1 x.2 (extend add zero groups xs) := by
  rw [extend, List.foldl_append]
  rfl

/-- An entry of a dictionary is the one its key finds. -/
theorem lookup_eq_of_mem (nodup : (keys groups).Nodup) {v : β} (mem : (k, v) ∈ groups) :
    groups.lookup k = some v := by
  induction groups with
  | nil => cases mem
  | cons entry rest ih =>
    obtain ⟨k', v'⟩ := entry
    rw [keys_cons, List.nodup_cons] at nodup
    rw [lookup_cons_eq]
    rcases List.mem_cons.mp mem with same | later
    · cases same
      rw [if_pos rfl]
    · have apart : k ≠ k' := by
        rintro rfl
        exact nodup.1 (List.mem_map.mpr ⟨_, later, rfl⟩)
      rw [if_neg apart]
      exact ih nodup.2 later

/-- Lists collected under keys hold what came under each, in order. -/
theorem eq_of_mem_collected {α : Type} {items : List (κ × α)} {v : List α}
    (mem : (k, v) ∈ tally (· ++ ·) [] (items.map fun item => (item.1, [item.2]))) :
    v = (items.filter fun item => item.1 = k).map Prod.snd := by
  have found := lookup_eq_of_mem nodup_keys_tally mem
  have collected : under k (items.map fun item => (item.1, [item.2])) =
      (items.filter fun item => item.1 = k).map fun item => [item.2] := by
    rw [under, List.filter_map, List.map_map]
    rfl
  rw [lookup_tally, collected] at found
  split_ifs at found
  rw [← Option.some.inj found]
  generalize items.filter (fun item => decide (item.1 = k)) = own
  have grows (read : List α) : (own.map fun item => [item.2]).foldl (· ++ ·) read =
      read ++ own.map Prod.snd := by
    induction own generalizing read with
    | nil => exact (List.append_nil read).symm
    | cons item own ih =>
      rw [List.map_cons, List.foldl_cons, ih, List.map_cons, List.append_assoc]
      rfl
  exact grows []

theorem addTo_of_fresh (fresh : key ∉ keys groups) :
    addTo add zero key amount groups = groups ++ [(key, add zero amount)] := by
  induction groups with
  | nil => rfl
  | cons entry groups ih =>
    rw [keys_cons, List.mem_cons, not_or] at fresh
    obtain ⟨differ, fresh⟩ := fresh
    rw [addTo, if_neg (Ne.symm differ), ih fresh]
    rfl

/-- Entries under keys of their own are the dictionary. -/
theorem tally_of_nodup (nodup : (keys xs).Nodup) : tally (fun _ amount => amount) zero xs = xs := by
  suffices general : ∀ groups : List (κ × β), (keys (groups ++ xs)).Nodup →
      extend (fun _ amount => amount) zero groups xs = groups ++ xs from general [] nodup
  clear nodup
  induction xs with
  | nil => exact fun groups _ => (List.append_nil groups).symm
  | cons x xs ih =>
    intro groups nodup
    have fresh : x.1 ∉ keys groups := by
      rw [keys, List.map_append, List.map_cons] at nodup
      exact fun mem => (List.nodup_append.mp nodup).2.2 _ mem _ List.mem_cons_self rfl
    show extend _ zero (addTo _ zero x.1 x.2 groups) xs = _
    rw [addTo_of_fresh fresh, ih _ (by simpa [keys] using nodup)]
    exact (List.append_cons groups x xs).symm

/-! ## Sums -/

/-- The sum of the values of a dictionary of numbers. -/
def sumOf (groups : List (κ × ℕ)) : ℕ := (groups.map Prod.snd).sum

variable {numbers pairs : List (κ × ℕ)}

theorem sumOf_addTo {n : ℕ} : sumOf (addTo (· + ·) 0 key n numbers) = sumOf numbers + n := by
  induction numbers with
  | nil => simp [addTo, sumOf]
  | cons entry rest ih =>
    obtain ⟨k, v⟩ := entry
    unfold addTo
    by_cases hk : k = key
    · rw [if_pos hk]
      simp only [sumOf, List.map_cons, List.sum_cons]
      omega
    · rw [if_neg hk]
      simp only [sumOf, List.map_cons, List.sum_cons] at ih ⊢
      omega

/-- What is counted under keys is all there is. -/
theorem sumOf_extend : sumOf (extend (· + ·) 0 numbers pairs) = sumOf numbers + sumOf pairs := by
  induction pairs generalizing numbers with
  | nil => rfl
  | cons x xs ih =>
    have step : extend (· + ·) 0 numbers (x :: xs) =
        extend (· + ·) 0 (addTo (· + ·) 0 x.1 x.2 numbers) xs := rfl
    rw [step, ih, sumOf_addTo]
    simp only [sumOf, List.map_cons, List.sum_cons]
    omega

end Tally
