import Mathlib.Data.List.Basic
import Mathlib.Tactic.Common

/-!
# Texts of lines

`str.splitlines`, a text of `key=value` lines, and the lines read back.
-/

namespace Py

/-- A character `str.splitlines` ends a line at. -/
def isLineBreak (c : Char) : Bool :=
  c ∈ ['\n', '\r', '\x0b', '\x0c', '\x1c', '\x1d', '\x1e', '\u0085', '\u2028', '\u2029']

/-- `text.splitlines()` -/
def splitlines : List Char → List (List Char)
  | [] => []
  | '\r' :: '\n' :: rest => [] :: splitlines rest
  | c :: rest =>
    if isLineBreak c then [] :: splitlines rest
    else
      match splitlines rest with
      | [] => [[c]]
      | line :: lines => (c :: line) :: lines

/-- `text.split(sep, 1)`, where the separator occurs. -/
def splitOnce (sep : Char) (text : List Char) : Option (List Char × List Char) :=
  if sep ∈ text then some (text.takeWhile (· ≠ sep), (text.dropWhile (· ≠ sep)).tail) else none

/-- `f"{key}={value}\n"` -/
def keyedLine (entry : String × String) : List Char :=
  entry.1.toList ++ ('=' :: (entry.2.toList ++ ['\n']))

/-- `"".join(f"{k}={v}\n" for k, v in entries)` -/
def keyedText (entries : List (String × String)) : String :=
  String.ofList (entries.flatMap keyedLine)

/-- A line without breaks is the first of a text that goes on behind its end. -/
theorem splitlines_line {line : List Char} (plain : ∀ c ∈ line, isLineBreak c = false)
    (rest : List Char) : splitlines (line ++ ('\n' :: rest)) = line :: splitlines rest := by
  induction line with
  | nil =>
    rw [List.nil_append, splitlines]
    · rfl
    · rintro _ ⟨⟩
  | cons c line ih =>
    have first := plain c List.mem_cons_self
    have others := ih fun d hd => plain d (List.mem_cons_of_mem _ hd)
    have notReturn : c ≠ '\r' := by
      rintro rfl
      exact absurd first (by decide)
    rw [List.cons_append, splitlines]
    · rw [if_neg (by rw [first]; decide), others]
    · intro _ h _
      exact notReturn h

theorem splitOnce_append {sep : Char} {key : List Char} (absent : sep ∉ key) (value : List Char) :
    splitOnce sep (key ++ (sep :: value)) = some (key, value) := by
  have differ : ∀ c ∈ key, decide (c ≠ sep) = true := fun c hc => by
    simpa using fun same : c = sep => absent (same ▸ hc)
  rw [splitOnce, if_pos (by simp), List.takeWhile_append_of_pos differ,
    List.dropWhile_append_of_pos differ]
  simp

/-- The lines of a keyed text are its entries' lines. -/
theorem splitlines_keyedText {entries : List (String × String)}
    (plain : ∀ e ∈ entries, ∀ c ∈ e.1.toList ++ ('=' :: e.2.toList), isLineBreak c = false) :
    splitlines (keyedText entries).toList =
      entries.map fun e => e.1.toList ++ ('=' :: e.2.toList) := by
  rw [keyedText, String.toList_ofList]
  induction entries with
  | nil => rfl
  | cons e entries ih =>
    have line : keyedLine e = (e.1.toList ++ ('=' :: e.2.toList)) ++ ['\n'] := by
      simp [keyedLine]
    rw [List.flatMap_cons, line, List.append_assoc, List.singleton_append,
      splitlines_line (plain e List.mem_cons_self), List.map_cons,
      ih fun e he => plain e (List.mem_cons_of_mem _ he)]

/-- What stands between separators has none. -/
theorem plain_of_mem_splitOnP {α : Type} {p : α → Bool} {text word : List α}
    (h : word ∈ text.splitOnP p) : ∀ c ∈ word, p c = false := by
  have go : ∀ text read : List α, (∀ c ∈ read, p c = false) →
      ∀ word ∈ List.splitOnPPrepend p text read, ∀ c ∈ word, p c = false := by
    intro text
    induction text with
    | nil =>
      intro read plain word h c hc
      rw [List.splitOnPPrepend_nil, List.mem_singleton] at h
      rw [h, List.mem_reverse] at hc
      exact plain c hc
    | cons first text ih =>
      intro read plain word h c hc
      rw [List.splitOnPPrepend_cons_eq_if] at h
      split_ifs at h with separator
      · rcases List.mem_cons.mp h with rfl | h
        · exact plain c (List.mem_reverse.mp hc)
        · exact ih [] (fun d hd => by cases hd) word h c hc
      · refine ih (first :: read) (fun d hd => ?_) word h c hc
        rcases List.mem_cons.mp hd with rfl | hd
        · exact Bool.eq_false_iff.mpr separator
        · exact plain d hd
  exact go text [] (fun c hc => by cases hc) word h

end Py
