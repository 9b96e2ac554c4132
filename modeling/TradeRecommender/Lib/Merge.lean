import TradeRecommender.Lib.Sorted

/-!
# Merging streams

Streams that are sorted by a key, merged by taking the smallest of their heads over and over. The
merged stream is what sorting all the elements gives.
-/

namespace Streams

open Py

section
variable {α κ : Type} [LinearOrder κ] (key : α → κ)

/-- The smallest head of the streams, of equal ones that of the first stream, and the streams
without it. -/
def popLeast : List (List α) → Option (α × List (List α))
  | [] => none
  | [] :: streams => (popLeast streams).map fun popped => (popped.1, [] :: popped.2)
  | (x :: xs) :: streams =>
    match popLeast streams with
    | none => some (x, xs :: streams)
    | some (y, rest) =>
      if key x ≤ key y then some (x, xs :: streams) else some (y, (x :: xs) :: rest)

/-- The heads taken in a number of turns. -/
def mergeFrom : ℕ → List (List α) → List α
  | 0, _ => []
  | turns + 1, streams =>
    match popLeast key streams with
    | none => []
    | some (x, rest) => x :: mergeFrom turns rest

/-- `heapq.merge(*streams)`: one turn for each element. -/
def merge (streams : List (List α)) : List α := mergeFrom key streams.flatten.length streams

variable {key}

theorem popLeast_eq_none {streams : List (List α)} :
    popLeast key streams = none ↔ streams.flatten = [] := by
  induction streams with
  | nil => exact ⟨fun _ => rfl, fun _ => rfl⟩
  | cons stream streams ih =>
    cases stream with
    | nil => rw [popLeast, Option.map_eq_none_iff, ih, List.flatten_cons, List.nil_append]
    | cons x xs =>
      rw [popLeast]
      constructor
      · intro h
        split at h
        · cases h
        · split_ifs at h
      · intro h
        cases h

/-- What is popped leaves the other elements. -/
theorem popLeast_perm {streams rest : List (List α)} {x : α}
    (h : popLeast key streams = some (x, rest)) : (x :: rest.flatten).Perm streams.flatten := by
  induction streams generalizing x rest with
  | nil => cases h
  | cons stream streams ih =>
    cases stream with
    | nil =>
      rw [popLeast, Option.map_eq_some_iff] at h
      obtain ⟨⟨y, rest'⟩, popped, same⟩ := h
      dsimp only at same
      obtain ⟨rfl, rfl⟩ := Prod.mk.inj same
      have perm := ih popped
      exact perm
    | cons z zs =>
      rw [popLeast] at h
      split at h
      · obtain ⟨rfl, rfl⟩ := Prod.mk.inj (Option.some.inj h)
        exact .refl _
      · rename_i y rest' popped
        split_ifs at h
        · obtain ⟨rfl, rfl⟩ := Prod.mk.inj (Option.some.inj h)
          exact .refl _
        · obtain ⟨rfl, rfl⟩ := Prod.mk.inj (Option.some.inj h)
          -- the popped element moves past the whole first stream
          have moved : (y :: ((z :: zs) ++ rest'.flatten)).Perm ((z :: zs) ++ y :: rest'.flatten) :=
            List.perm_middle.symm
          exact moved.trans ((ih popped).append_left (z :: zs))

/-- What is popped from sorted streams is the smallest, and leaves sorted streams. -/
theorem popLeast_least {streams rest : List (List α)} {x : α}
    (sorted : ∀ stream ∈ streams, stream.Pairwise fun a b => key a ≤ key b)
    (h : popLeast key streams = some (x, rest)) :
    (∀ y ∈ rest.flatten, key x ≤ key y) ∧
      ∀ stream ∈ rest, stream.Pairwise fun a b => key a ≤ key b := by
  induction streams generalizing x rest with
  | nil => cases h
  | cons stream streams ih =>
    have tails : ∀ stream ∈ streams, stream.Pairwise fun a b => key a ≤ key b :=
      fun stream mem => sorted stream (List.mem_cons_of_mem _ mem)
    have head := sorted stream List.mem_cons_self
    cases stream with
    | nil =>
      rw [popLeast, Option.map_eq_some_iff] at h
      obtain ⟨⟨y, rest'⟩, popped, same⟩ := h
      dsimp only at same
      obtain ⟨rfl, rfl⟩ := Prod.mk.inj same
      obtain ⟨least, sorted'⟩ := ih tails popped
      exact ⟨least, List.forall_mem_cons.mpr ⟨List.Pairwise.nil, sorted'⟩⟩
    | cons z zs =>
      obtain ⟨below, ordered⟩ := List.pairwise_cons.mp head
      rw [popLeast] at h
      split at h
      · rename_i none_
        obtain ⟨rfl, rfl⟩ := Prod.mk.inj (Option.some.inj h)
        refine ⟨fun y mem => ?_, List.forall_mem_cons.mpr ⟨ordered, tails⟩⟩
        rw [List.flatten_cons, popLeast_eq_none.mp none_, List.append_nil] at mem
        exact below y mem
      · rename_i y rest' popped
        obtain ⟨least, sorted'⟩ := ih tails popped
        have others : ∀ w ∈ streams.flatten, key y ≤ key w := by
          intro w mem
          rcases List.mem_cons.mp ((popLeast_perm popped).mem_iff.mpr mem) with rfl | mem
          · exact le_refl _
          · exact least w mem
        split_ifs at h with first
        · obtain ⟨rfl, rfl⟩ := Prod.mk.inj (Option.some.inj h)
          refine ⟨fun w mem => ?_, List.forall_mem_cons.mpr ⟨ordered, tails⟩⟩
          rw [List.flatten_cons] at mem
          rcases List.mem_append.mp mem with mem | mem
          · exact below w mem
          · exact first.trans (others w mem)
        · obtain ⟨rfl, rfl⟩ := Prod.mk.inj (Option.some.inj h)
          refine ⟨fun w mem => ?_, List.forall_mem_cons.mpr ⟨head, sorted'⟩⟩
          have before : key y ≤ key z := (not_le.mp first).le
          rw [List.flatten_cons] at mem
          rcases List.mem_append.mp mem with mem | mem
          · rcases List.mem_cons.mp mem with rfl | mem
            · exact before
            · exact before.trans (below w mem)
          · exact least w mem

theorem mergeFrom_spec {turns : ℕ} {streams : List (List α)}
    (sorted : ∀ stream ∈ streams, stream.Pairwise fun a b => key a ≤ key b)
    (turns_eq : turns = streams.flatten.length) :
    (mergeFrom key turns streams).Perm streams.flatten ∧
      (mergeFrom key turns streams).Pairwise fun a b => key a ≤ key b := by
  induction turns generalizing streams with
  | zero =>
    rw [List.length_eq_zero_iff.mp turns_eq.symm]
    exact ⟨.refl _, .nil⟩
  | succ turns ih =>
    rw [mergeFrom]
    split
    · rename_i none_
      rw [popLeast_eq_none.mp none_] at turns_eq
      cases turns_eq
    · rename_i x rest popped
      have perm := popLeast_perm popped
      obtain ⟨least, sorted'⟩ := popLeast_least sorted popped
      have length_eq := perm.length_eq
      rw [List.length_cons, ← turns_eq] at length_eq
      obtain ⟨merged, ordered⟩ := ih sorted' (Nat.succ_inj.mp length_eq.symm)
      refine ⟨(merged.cons x).trans perm, List.pairwise_cons.mpr ⟨fun y mem => ?_, ordered⟩⟩
      exact least y (merged.mem_iff.mp mem)

/-- **Merging sorted streams gives all their elements, sorted.** -/
theorem merge_eq_sortedBy {streams : List (List α)}
    (sorted : ∀ stream ∈ streams, stream.Pairwise fun a b => key a ≤ key b)
    (apart : ∀ x y, key x = key y → x = y) : merge key streams = sortedBy key streams.flatten := by
  obtain ⟨merged, ordered⟩ := mergeFrom_spec sorted rfl
  refine (merged.trans (perm_sortedBy key _).symm).eq_of_pairwise ?_ ordered
    (pairwise_sortedBy key _)
  exact fun a b _ _ le ge => apart a b (le_antisymm le ge)

end

end Streams
