import Mathlib.Data.List.Dedup
import Mathlib.Data.List.Sort
import Mathlib.Data.String.Basic
import Mathlib.Tactic.Common

/-!
# Sorted lists and joined texts

`sorted` forgets the order of what it is given and `sorted(set(_))` its repetitions as well, so a
value computed through either is a function of a multiset or of a set.  A text joined on a separator
splits back into the pieces of its parts: whole only where the parts hold no separator.
-/

namespace Py

/-! ## Sorting -/

section
variable {α β : Type} [LinearOrder β]

/-- `sorted(values, key=key)`. -/
def sortedBy (key : α → β) (values : List α) : List α :=
  values.insertionSort fun a b => key a ≤ key b

/-- `sorted(values)`. -/
def sorted (values : List β) : List β := sortedBy id values

/-- `sorted(set(values))`. -/
def sortedOnce (values : List β) : List β := sorted values.dedup

variable {key : α → β} {xs ys : List α}

theorem perm_sortedBy (key : α → β) (xs : List α) : (sortedBy key xs).Perm xs :=
  List.perm_insertionSort _ xs

@[simp] theorem mem_sortedBy {x : α} : x ∈ sortedBy key xs ↔ x ∈ xs :=
  (perm_sortedBy key xs).mem_iff

theorem pairwise_sortedBy (key : α → β) (xs : List α) :
    (sortedBy key xs).Pairwise fun a b => key a ≤ key b := by
  have : Std.Total fun a b : α => key a ≤ key b := ⟨fun a b => le_total (key a) (key b)⟩
  have : IsTrans α fun a b => key a ≤ key b := ⟨fun _ _ _ => le_trans⟩
  exact List.pairwise_insertionSort _ xs

/-- Where the key tells the elements apart, the order of the input is forgotten. -/
theorem sortedBy_perm (perm : xs.Perm ys)
    (apart : ∀ x ∈ xs, ∀ y ∈ xs, key x = key y → x = y) : sortedBy key xs = sortedBy key ys := by
  have toInput := perm_sortedBy key xs
  refine (toInput.trans (perm.trans (perm_sortedBy key ys).symm)).eq_of_pairwise ?_
    (pairwise_sortedBy key xs) (pairwise_sortedBy key ys)
  intro a b ha hb hab hba
  exact apart a (mem_sortedBy.mp ha) b (perm.mem_iff.mpr (mem_sortedBy.mp hb))
    (le_antisymm hab hba)

variable {us vs : List β}

theorem sorted_perm (perm : us.Perm vs) : sorted us = sorted vs :=
  sortedBy_perm perm fun _ _ _ _ h => h

@[simp] theorem mem_sortedOnce {x : β} : x ∈ sortedOnce us ↔ x ∈ us := by
  rw [sortedOnce, sorted, mem_sortedBy, List.mem_dedup]

/-- Only which values there are matters to `sorted(set(_))`. -/
theorem sortedOnce_congr (same : ∀ x, x ∈ us ↔ x ∈ vs) : sortedOnce us = sortedOnce vs := by
  refine sorted_perm ((List.perm_ext_iff_of_nodup (List.nodup_dedup us)
    (List.nodup_dedup vs)).mpr fun x => ?_)
  rw [List.mem_dedup, List.mem_dedup]
  exact same x

theorem pairwise_sortedOnce (values : List β) : (sortedOnce values).Pairwise (· < ·) := by
  have distinct : (sortedOnce values).Nodup :=
    (perm_sortedBy id values.dedup).nodup_iff.mpr (List.nodup_dedup values)
  exact (pairwise_sortedBy id values.dedup).imp₂ (fun _ _ le ne => lt_of_le_of_ne le ne) distinct

theorem sortedOnce_eq_nil : sortedOnce us = [] ↔ us = [] := by
  constructor
  · intro h
    refine List.eq_nil_iff_forall_not_mem.mpr fun x hx => ?_
    have : x ∈ sortedOnce us := mem_sortedOnce.mpr hx
    rw [h] at this
    cases this
  · rintro rfl
    rfl

end

/-! ## A sort in two parts -/

section
variable {α : Type} {p : α → Bool}

/-- A list falls in one way into elements with a property and elements without. -/
theorem append_unique {us vs us' vs' : List α} (h : us ++ vs = us' ++ vs')
    (with_ : ∀ x ∈ us, p x = true) (without : ∀ x ∈ vs, p x = false)
    (with' : ∀ x ∈ us', p x = true) (without' : ∀ x ∈ vs', p x = false) :
    us = us' ∧ vs = vs' := by
  have first : ∀ {xs ys : List α}, (∀ x ∈ xs, p x = true) → (∀ x ∈ ys, p x = false) →
      (xs ++ ys).filter p = xs := by
    intro xs ys yes no
    rw [List.filter_append, List.filter_eq_self.mpr yes, List.filter_eq_nil_iff.mpr, List.append_nil]
    intro x mem holds
    rw [no x mem] at holds
    cases holds
  have same : us = us' := by rw [← first with_ without, h, first with' without']
  refine ⟨same, ?_⟩
  rw [same] at h
  exact List.append_cancel_left h

/-- A list falls in one way into what lies before its first separator and behind it. -/
theorem split_unique {sep : α} {us vs us' vs' : List α} (h : us ++ sep :: vs = us' ++ sep :: vs')
    (free : sep ∉ us) (free' : sep ∉ us') : us = us' ∧ vs = vs' := by
  induction us generalizing us' with
  | nil =>
    cases us' with
    | nil => exact ⟨rfl, (List.cons.inj h).2⟩
    | cons u us' => exact absurd ((List.cons.inj h).1 ▸ List.mem_cons_self) free'
  | cons u us ih =>
    cases us' with
    | nil => exact absurd ((List.cons.inj h).1 ▸ List.mem_cons_self) free
    | cons u' us' =>
      obtain ⟨rfl, tails⟩ := List.cons.inj h
      obtain ⟨rfl, rfl⟩ := ih tails (fun mem => free (List.mem_cons_of_mem _ mem))
        fun mem => free' (List.mem_cons_of_mem _ mem)
      exact ⟨rfl, rfl⟩

/-- Where the elements with a property come before all others, so they do when sorted. -/
theorem mergeSort_split (le : α → α → Bool) (p : α → Bool) (xs : List α)
    (trans : ∀ a b c, le a b = true → le b c = true → le a c = true)
    (total : ∀ a b, (le a b || le b a) = true)
    (before : ∀ a ∈ xs, ∀ b ∈ xs, p a = true → p b = false → le a b = true ∧ le b a = false) :
    xs.mergeSort le = (xs.filter p).mergeSort le ++ (xs.filter fun x => !p x).mergeSort le := by
  induction xs with
  | nil => simp only [List.filter_nil, List.mergeSort_nil, List.append_nil]
  | cons a xs ih =>
    have ih := ih fun x hx y hy => before x (List.mem_cons_of_mem _ hx) y (List.mem_cons_of_mem _ hy)
    -- where the first element goes
    have place : ∀ ys : List α, ∃ us vs, (a :: ys).mergeSort le = us ++ a :: vs ∧
        ys.mergeSort le = us ++ vs ∧ (∀ b ∈ us, (!le a b) = true) ∧ ∀ b ∈ vs, (!le a b) = false := by
      intro ys
      obtain ⟨us, vs, whole, rest, above⟩ := List.mergeSort_cons trans total a ys
      refine ⟨us, vs, whole, rest, above, fun b mem => ?_⟩
      have sorted := List.pairwise_mergeSort trans total (a :: ys)
      rw [whole, List.pairwise_append] at sorted
      rw [(List.pairwise_cons.mp sorted.2.1).1 b mem]
      rfl
    obtain ⟨us, vs, whole, rest, above, below⟩ := place xs
    rw [ih] at rest
    cases holds : p a with
    | true =>
      obtain ⟨us', vs', whole', rest', above', below'⟩ := place (xs.filter p)
      rw [rest', List.append_assoc] at rest
      obtain ⟨rfl, rfl⟩ := append_unique rest above' (fun b mem => by
        rcases List.mem_append.mp mem with mem | mem
        · exact below' b mem
        · have other := List.mem_filter.mp (List.mem_mergeSort.mp mem)
          rw [(before a List.mem_cons_self b (List.mem_cons_of_mem _ other.1) holds
            (by simpa using other.2)).1]
          rfl) above below
      rw [whole, List.filter_cons_of_pos holds, List.filter_cons_of_neg (by simp [holds]), whole',
        List.append_assoc]
      rfl
    | false =>
      obtain ⟨us', vs', whole', rest', above', below'⟩ := place (xs.filter fun x => !p x)
      rw [rest', ← List.append_assoc] at rest
      obtain ⟨rfl, rfl⟩ := append_unique rest (fun b mem => by
        rcases List.mem_append.mp mem with mem | mem
        · have other := List.mem_filter.mp (List.mem_mergeSort.mp mem)
          rw [(before b (List.mem_cons_of_mem _ other.1) a List.mem_cons_self other.2 holds).2]
          rfl
        · exact above' b mem) below' above below
      rw [whole, List.filter_cons_of_neg (by simp [holds]), List.filter_cons_of_pos (by simp [holds]),
        whole', List.append_assoc]
end

/-! ## Joining and splitting -/

/-- `sep.join(parts)`. -/
def joinOn (sep : Char) (parts : List String) : String :=
  String.ofList ([sep].intercalate (parts.map String.toList))

/-- `filter(None, text.split(sep))`. -/
def pieces (sep : Char) (text : String) : List String :=
  ((text.toList.splitOn sep).map String.ofList).filter (· ≠ "")

variable {sep : Char}

@[simp] theorem pieces_empty : pieces sep "" = [] := by
  simp [pieces, List.splitOn_nil]

theorem ne_empty_of_mem_pieces {text piece : String} (h : piece ∈ pieces sep text) :
    piece ≠ "" := by
  simpa using (List.mem_filter.mp h).2

theorem pieces_of_notMem {text : String} (whole : sep ∉ text.toList) (full : text ≠ "") :
    pieces sep text = [text] := by
  rw [pieces, List.splitOn_eq_singleton whole]
  simp [full]

/-- The parts a list is split into hold no separator. -/
theorem notMem_of_mem_splitOn {xs part : List Char} (h : part ∈ xs.splitOn sep) : sep ∉ part := by
  induction xs generalizing part with
  | nil =>
    rw [List.splitOn_nil, List.mem_singleton] at h
    simp [h]
  | cons x xs ih =>
    rw [List.splitOn_cons_eq_if_modifyHead] at h
    split_ifs at h with hx
    · rcases List.mem_cons.mp h with rfl | h
      · simp
      · exact ih h
    · -- the head part grows by a character that is no separator
      obtain ⟨first, rest, hsplit⟩ := List.exists_cons_of_ne_nil (List.splitOn_ne_nil sep xs)
      rw [hsplit, List.modifyHead_cons] at h
      rcases List.mem_cons.mp h with rfl | h
      · have hfirst : sep ∉ first := ih (by rw [hsplit]; exact List.mem_cons_self)
        have hne : sep ≠ x := by
          rintro rfl
          simp at hx
        simp [hne, hfirst]
      · exact ih (by rw [hsplit]; exact List.mem_cons_of_mem _ h)

/-- A piece splits into itself. -/
theorem pieces_of_mem_pieces {text piece : String} (h : piece ∈ pieces sep text) :
    pieces sep piece = [piece] := by
  obtain ⟨part, hpart, rfl⟩ := List.mem_map.mp (List.mem_filter.mp h).1
  refine pieces_of_notMem ?_ (ne_empty_of_mem_pieces h)
  rw [String.toList_ofList]
  exact notMem_of_mem_splitOn hpart

/-- A separator between two texts is where they split. -/
theorem pieces_ofList_append (left right : List Char) :
    pieces sep (String.ofList (left ++ sep :: right)) =
      pieces sep (String.ofList left) ++ pieces sep (String.ofList right) := by
  simp only [pieces, String.toList_ofList]
  rw [List.splitOn_append_cons_self, List.map_append, List.filter_append]

/-- A joined text has the pieces of its parts. -/
theorem pieces_joinOn (parts : List String) :
    pieces sep (joinOn sep parts) = parts.flatMap (pieces sep) := by
  induction parts with
  | nil => exact pieces_empty
  | cons part rest ih =>
    rw [List.flatMap_cons, ← ih]
    cases rest with
    | nil =>
      show pieces sep (joinOn sep [part]) = pieces sep part ++ pieces sep (joinOn sep [])
      simp [joinOn, List.intercalate]
    | cons next rest =>
      have split : joinOn sep (part :: next :: rest) =
          String.ofList (part.toList ++ sep :: (joinOn sep (next :: rest)).toList) := by
        simp [joinOn, List.intercalate]
      rw [split, pieces_ofList_append, String.ofList_toList, String.ofList_toList]

end Py
