import Mathlib.Data.List.Basic
import Mathlib.Data.List.Perm.Basic
import Mathlib.Data.Int.Notation
import Mathlib.Data.Nat.Notation

/-!
# Python values and exceptions

Values as `json.loads` builds them, the operations of the language the modelled code applies to
values it has not validated, and exception classes with the subclass relation an `except` clause
consults.
-/

namespace Py

/-- Exception classes; `other` is any class that is none of the named ones nor derived from one. -/
inductive ExcClass
  | valueError | unicodeDecodeError | jsonDecodeError | parseRejected | validationError
  | keyError | indexError | typeError | attributeError | overflowError | invalidOperation
  | recursionError | assertionError | runtimeError | badZipFile | databaseError
  | other (name : String)
  deriving DecidableEq, Repr

/-- The named base classes of a class. -/
def ExcClass.bases : ExcClass → List ExcClass
  | .unicodeDecodeError | .jsonDecodeError | .parseRejected => [.valueError]
  | _ => []

/-- `issubclass`. -/
def ExcClass.isSubclass (c handler : ExcClass) : Bool := c = handler || handler ∈ c.bases

/-- A raised exception: its class and its text. -/
structure Exc where
  cls : ExcClass
  text : String := ""
  deriving DecidableEq, Repr

/-- Whether an `except` clause naming `handlers` catches the exception. -/
def Exc.caughtBy (e : Exc) (handlers : List ExcClass) : Bool :=
  handlers.any e.cls.isSubclass

/-- Raise an exception of the class with the text. -/
def raise {α : Type} (cls : ExcClass) (text : String := "") : Except Exc α := .error ⟨cls, text⟩

/-- `try: x except handlers as error: handle error`. -/
def tryExcept {α : Type} (x : Except Exc α) (handlers : List ExcClass)
    (handle : Exc → Except Exc α) : Except Exc α :=
  match x with
  | .ok a => .ok a
  | .error e => if e.caughtBy handlers then handle e else .error e

/-- Values; `float` carries the text `str` gives, `obj` is an object of no built-in type. -/
inductive Val
  | none
  | bool (b : Bool)
  | int (n : ℤ)
  | float (repr : String)
  | str (s : String)
  | list (items : List Val)
  | dict (entries : List (String × Val))
  | obj (id : ℕ)

namespace Val

/-- `bool(value)`. -/
def truthy : Val → Bool
  | .none => false
  | .bool b => b
  | .int n => n ≠ 0
  | .float repr => repr ≠ "0.0" && repr ≠ "-0.0"
  | .str s => s ≠ ""
  | .list items => !items.isEmpty
  | .dict entries => !entries.isEmpty
  | .obj _ => true

/-- `hash(value)` is defined. -/
def hashable : Val → Bool
  | .list _ | .dict _ => false
  | _ => true

/-- `isinstance(value, dict)`. -/
def isDict : Val → Bool
  | .dict _ => true
  | _ => false

/-- `isinstance(value, list)`. -/
def isList : Val → Bool
  | .list _ => true
  | _ => false

/-- `value == text` for a text. -/
def isStr (v : Val) (text : String) : Bool :=
  match v with
  | .str s => s = text
  | _ => false

/-- The attribute `.get`, called with a key and a default. -/
def get (v : Val) (key : String) (default : Val := .none) : Except Exc Val :=
  match v with
  | .dict entries => .ok ((entries.lookup key).getD default)
  | _ => raise .attributeError "object has no attribute 'get'"

/-- The subscript `value[key]` with a text key. -/
def getItem (v : Val) (key : String) : Except Exc Val :=
  match v with
  | .dict entries =>
    match entries.lookup key with
    | some item => .ok item
    | Option.none => raise .keyError key
  | _ => raise .typeError "object is not subscriptable with a text"

/-- Iteration over the value. -/
def iter : Val → Except Exc (List Val)
  | .list items => .ok items
  | .dict entries => .ok (entries.map fun entry => .str entry.1)
  | .str s => .ok (s.toList.map fun c => .str c.toString)
  | _ => raise .typeError "object is not iterable"

/-- `value or default`. -/
def orElse (v default : Val) : Val := if v.truthy then v else default

end Val

/-! ## Sequencing -/

section
variable {α β : Type}

@[simp] theorem pure_eq_ok (a : α) : (pure a : Except Exc α) = .ok a := rfl

@[simp] theorem raise_ne_ok {cls : ExcClass} {text : String} {a : α} :
    (raise cls text : Except Exc α) ≠ .ok a := by
  simp [raise]

theorem bind_eq_ok {x : Except Exc α} {f : α → Except Exc β} {b : β} :
    x >>= f = .ok b ↔ ∃ a, x = .ok a ∧ f a = .ok b := by
  cases x <;> simp [bind, Except.bind]

theorem bind_eq_error {x : Except Exc α} {f : α → Except Exc β} {e : Exc} :
    x >>= f = .error e ↔ x = .error e ∨ ∃ a, x = .ok a ∧ f a = .error e := by
  cases x <;> simp [bind, Except.bind]

/-- A sequence returns when its first step does and the rest does after it. -/
theorem bind_returns {x : Except Exc α} {f : α → Except Exc β} (first : ∃ a, x = .ok a)
    (next : ∀ a, x = .ok a → ∃ b, f a = .ok b) : ∃ b, x >>= f = .ok b := by
  obtain ⟨a, ha⟩ := first
  obtain ⟨b, hb⟩ := next a ha
  exact ⟨b, bind_eq_ok.mpr ⟨a, ha, hb⟩⟩

theorem map_eq_ok {x : Except Exc α} {f : α → β} {b : β} :
    x.map f = .ok b ↔ ∃ a, x = .ok a ∧ f a = b := by
  cases x <;> simp [Except.map]

theorem map_eq_error {x : Except Exc α} {f : α → β} {e : Exc} :
    x.map f = .error e ↔ x = .error e := by
  cases x <;> simp [Except.map]

end

/-- A list comprehension whose element expression may raise: left to right, first error wins. -/
def mapE {α β : Type} (f : α → Except Exc β) : List α → Except Exc (List β)
  | [] => .ok []
  | x :: xs => do
    let y ← f x
    let ys ← mapE f xs
    return y :: ys

/-- A generator filtered by a condition that may raise, read up to its first hit. -/
def findE {α : Type} (p : α → Except Exc Bool) : List α → Except Exc (Option α)
  | [] => .ok none
  | x :: xs => do
    let hit ← p x
    if hit then return some x else findE p xs

/-- A loop that may skip an element or raise. -/
def filterMapE {α β : Type} (f : α → Except Exc (Option β)) : List α → Except Exc (List β)
  | [] => .ok []
  | x :: xs => do
    let y ← f x
    let ys ← filterMapE f xs
    return y.toList ++ ys

section
variable {α β : Type}

theorem mem_mapE {f : α → Except Exc β} {xs : List α} {ys : List β} (h : mapE f xs = .ok ys)
    {y : β} (hy : y ∈ ys) : ∃ x ∈ xs, f x = .ok y := by
  induction xs generalizing ys with
  | nil =>
    cases h
    cases hy
  | cons x xs ih =>
    obtain ⟨z, first, h⟩ := bind_eq_ok.mp h
    obtain ⟨zs, rest, h⟩ := bind_eq_ok.mp h
    cases h
    rcases List.mem_cons.mp hy with rfl | hy
    · exact ⟨x, List.mem_cons_self, first⟩
    · obtain ⟨w, hw, hwy⟩ := ih rest hy
      exact ⟨w, List.mem_cons_of_mem _ hw, hwy⟩

/-- A comprehension succeeds with a list exactly when each element does, place by place. -/
theorem mapE_eq_ok_iff {f : α → Except Exc β} {xs : List α} {ys : List β} :
    mapE f xs = .ok ys ↔ List.Forall₂ (fun x y => f x = .ok y) xs ys := by
  induction xs generalizing ys with
  | nil =>
    constructor
    · intro h
      cases h
      exact .nil
    · intro h
      cases h
      rfl
  | cons x xs ih =>
    constructor
    · intro h
      obtain ⟨y, first, h⟩ := bind_eq_ok.mp h
      obtain ⟨rest, tail, h⟩ := bind_eq_ok.mp h
      cases h
      exact .cons first (ih.mp tail)
    · intro h
      cases h with
      | cons first tail =>
        rw [mapE]
        exact bind_eq_ok.mpr ⟨_, first, bind_eq_ok.mpr ⟨_, ih.mpr tail, rfl⟩⟩

theorem exists_mem_of_mapE {f : α → Except Exc β} {xs : List α} {ys : List β}
    (h : mapE f xs = .ok ys) {x : α} (hx : x ∈ xs) : ∃ y ∈ ys, f x = .ok y := by
  rw [mapE_eq_ok_iff] at h
  induction h with
  | nil => cases hx
  | cons first _ ih =>
    rcases List.mem_cons.mp hx with rfl | hx
    · exact ⟨_, List.mem_cons_self, first⟩
    · obtain ⟨y, hy, heq⟩ := ih hx
      exact ⟨y, List.mem_cons_of_mem _ hy, heq⟩

/-- A comprehension raises what one of its elements raises. -/
theorem exists_mem_of_mapE_error {f : α → Except Exc β} {xs : List α} {e : Exc}
    (h : mapE f xs = .error e) : ∃ x ∈ xs, f x = .error e := by
  induction xs with
  | nil => cases h
  | cons x xs ih =>
    rw [mapE] at h
    rcases bind_eq_error.mp h with first | ⟨y, -, h⟩
    · exact ⟨x, List.mem_cons_self, first⟩
    · rcases bind_eq_error.mp h with rest | ⟨ys, -, h⟩
      · obtain ⟨z, mem, raised⟩ := ih rest
        exact ⟨z, List.mem_cons_of_mem _ mem, raised⟩
      · cases h

/-- Permuting the list permutes the results. -/
theorem mapE_perm {f : α → Except Exc β} {xs xs' : List α} {ys : List β} (perm : xs'.Perm xs)
    (h : mapE f xs = .ok ys) : ∃ ys', mapE f xs' = .ok ys' ∧ ys'.Perm ys := by
  obtain ⟨ys', related, permuted⟩ := List.perm_comp_forall₂ perm (mapE_eq_ok_iff.mp h)
  exact ⟨ys', mapE_eq_ok_iff.mpr related, permuted⟩

/-- A comprehension returns when each of its elements does. -/
theorem mapE_returns {f : α → Except Exc β} {xs : List α} (h : ∀ x ∈ xs, ∃ y, f x = .ok y) :
    ∃ ys, mapE f xs = .ok ys := by
  induction xs with
  | nil => exact ⟨[], rfl⟩
  | cons x xs ih =>
    exact bind_returns (h x List.mem_cons_self) fun y _ =>
      bind_returns (ih fun z hz => h z (List.mem_cons_of_mem _ hz)) fun ys _ => ⟨y :: ys, rfl⟩

/-- What each element gives, the elements of the result are, place by place. -/
theorem mapE_forall₂ {f : α → Except Exc β} {P : α → β → Prop} {xs : List α}
    (h : ∀ x ∈ xs, ∃ y, f x = .ok y ∧ P x y) :
    ∃ ys, mapE f xs = .ok ys ∧ List.Forall₂ P xs ys := by
  induction xs with
  | nil => exact ⟨[], rfl, .nil⟩
  | cons x xs ih =>
    obtain ⟨y, first, hy⟩ := h x List.mem_cons_self
    obtain ⟨ys, rest, hys⟩ := ih fun z hz => h z (List.mem_cons_of_mem _ hz)
    refine ⟨y :: ys, ?_, .cons hy hys⟩
    rw [mapE, first, rest]
    rfl

/-- A loop that may skip is the comprehension of its options. -/
theorem filterMapE_eq_mapE {f : α → Except Exc (Option β)} {xs : List α} :
    filterMapE f xs = (mapE f xs).map fun ys => ys.flatMap Option.toList := by
  induction xs with
  | nil => rfl
  | cons x xs ih =>
    rw [filterMapE, mapE, ih]
    cases f x <;> cases mapE f xs <;> rfl

theorem filterMapE_returns {f : α → Except Exc (Option β)} {xs : List α}
    (h : ∀ x ∈ xs, ∃ y, f x = .ok y) : ∃ ys, filterMapE f xs = .ok ys := by
  obtain ⟨ys, hys⟩ := mapE_returns h
  refine ⟨ys.flatMap Option.toList, ?_⟩
  rw [filterMapE_eq_mapE, hys]
  rfl

theorem filterMapE_perm {f : α → Except Exc (Option β)} {xs xs' : List α} {ys : List β}
    (perm : xs'.Perm xs) (h : filterMapE f xs = .ok ys) :
    ∃ ys', filterMapE f xs' = .ok ys' ∧ ys'.Perm ys := by
  rw [filterMapE_eq_mapE, map_eq_ok] at h
  obtain ⟨options, hoptions, rfl⟩ := h
  obtain ⟨options', hoptions', permuted⟩ := mapE_perm perm hoptions
  refine ⟨options'.flatMap Option.toList, ?_, permuted.flatMap_right _⟩
  rw [filterMapE_eq_mapE, hoptions']
  rfl

theorem mem_filterMapE {f : α → Except Exc (Option β)} {xs : List α} {ys : List β}
    (h : filterMapE f xs = .ok ys) {y : β} (hy : y ∈ ys) : ∃ x ∈ xs, f x = .ok (some y) := by
  induction xs generalizing ys with
  | nil =>
    cases h
    cases hy
  | cons x xs ih =>
    obtain ⟨z, first, h⟩ := bind_eq_ok.mp h
    obtain ⟨zs, rest, h⟩ := bind_eq_ok.mp h
    cases h
    rcases List.mem_append.mp hy with hy | hy
    · obtain rfl := Option.mem_def.mp (Option.mem_toList.mp hy)
      exact ⟨x, List.mem_cons_self, first⟩
    · obtain ⟨w, hw, hwy⟩ := ih rest hy
      exact ⟨w, List.mem_cons_of_mem _ hw, hwy⟩

/-- A loop that returns nothing skipped every element. -/
theorem eq_none_of_filterMapE {f : α → Except Exc (Option β)} {xs : List α}
    (h : filterMapE f xs = .ok []) {x : α} (hx : x ∈ xs) : f x = .ok none := by
  induction xs with
  | nil => cases hx
  | cons y xs ih =>
    obtain ⟨z, first, h⟩ := bind_eq_ok.mp h
    obtain ⟨zs, rest, h⟩ := bind_eq_ok.mp h
    cases z with
    | some z => cases h
    | none =>
      cases h
      rcases List.mem_cons.mp hx with rfl | hx
      · exact first
      · exact ih rest hx

/-- A loop raises what its first raising element raises. -/
theorem filterMapE_eq_error {f : α → Except Exc (Option β)} {xs : List α} {e : Exc} :
    filterMapE f xs = .error e ↔
      ∃ pre x post, xs = pre ++ x :: post ∧ (∀ y ∈ pre, ∃ r, f y = .ok r) ∧ f x = .error e := by
  induction xs with
  | nil => simp [filterMapE]
  | cons x xs ih =>
    rw [filterMapE]
    cases first : f x with
    | error raised =>
      show (Except.error raised : Except Exc (List β)) = .error e ↔ _
      constructor
      · intro h
        cases h
        exact ⟨[], x, xs, rfl, by simp, first⟩
      · rintro ⟨pre, y, post, split, fine, bad⟩
        cases pre with
        | nil =>
          obtain ⟨rfl, rfl⟩ := List.cons.inj split
          rw [first] at bad
          cases bad
          rfl
        | cons z pre =>
          obtain ⟨rfl, rfl⟩ := List.cons.inj split
          obtain ⟨r, hr⟩ := fine x List.mem_cons_self
          rw [first] at hr
          cases hr
    | ok r =>
      have tail : (Except.ok r >>= fun y => filterMapE f xs >>= fun ys => pure (y.toList ++ ys)) =
          (.error e : Except Exc (List β)) ↔ filterMapE f xs = .error e := by
        cases filterMapE f xs <;> simp [bind, Except.bind]
      rw [tail, ih]
      constructor
      · rintro ⟨pre, y, post, rfl, fine, bad⟩
        refine ⟨x :: pre, y, post, rfl, fun z hz => ?_, bad⟩
        rcases List.mem_cons.mp hz with rfl | hz
        · exact ⟨r, first⟩
        · exact fine z hz
      · rintro ⟨pre, y, post, split, fine, bad⟩
        cases pre with
        | nil =>
          obtain ⟨rfl, rfl⟩ := List.cons.inj split
          rw [first] at bad
          cases bad
        | cons z pre =>
          obtain ⟨rfl, rfl⟩ := List.cons.inj split
          exact ⟨pre, y, post, rfl, fun w hw => fine w (List.mem_cons_of_mem _ hw), bad⟩

/-! ## Loops that may raise -/

/-- What each turn of a loop keeps, of the elements it has read and the state it is in, the whole
loop gives of all of them. -/
theorem foldlM_keeps {f : β → α → Except Exc β} (P : List α → β → Prop) {xs : List α} {first last : β}
    (start : P [] first)
    (turn : ∀ read x s s', read ++ [x] <+: xs → P read s → f s x = .ok s' → P (read ++ [x]) s')
    (h : xs.foldlM f first = .ok last) : P xs last := by
  have from_ : ∀ rest read s, xs = read ++ rest → P read s → rest.foldlM f s = .ok last →
      P xs last := by
    intro rest
    induction rest with
    | nil =>
      intro read s split held h
      cases h
      rwa [split, List.append_nil]
    | cons x rest ih =>
      intro read s split held h
      rw [List.foldlM_cons] at h
      obtain ⟨s', here, h⟩ := bind_eq_ok.mp h
      have split : xs = read ++ [x] ++ rest := by rw [split, List.append_assoc]; rfl
      exact ih (read ++ [x]) s' split (turn read x s s' ⟨rest, split.symm⟩ held here) h
  exact from_ xs [] first rfl start h

end

end Py
