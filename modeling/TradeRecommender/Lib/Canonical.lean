import Mathlib.Data.Prod.Lex
import TradeRecommender.Lib.Python
import TradeRecommender.Lib.Sorted
import TradeRecommender.Lib.Tally

/-!
# Canonical JSON

Values up to the order of the entries of their dicts.

1. `json.dumps` with sorted keys, and the order a `jsonb` column keeps;
2. values that are the same up to the order of entries;
3. `closed`: a dict with exactly the keys of a list, and the values at its keys;
4. `==`.

A dict of Python has distinct keys; `Distinct` says so of every dict in a value.
-/

namespace Py.Val

/-! ## The order of entries -/

section
variable {κ : Type} [LinearOrder κ] (order : String → κ)

mutual

/-- The value with the entries of every dict in an order of their keys. -/
def arranged : Val → Val
  | .list items => .list (arrangedItems items)
  | .dict entries => .dict (sortedBy (fun entry => order entry.1) (arrangedEntries entries))
  | v => v

def arrangedItems : List Val → List Val
  | [] => []
  | item :: items => arranged item :: arrangedItems items

def arrangedEntries : List (String × Val) → List (String × Val)
  | [] => []
  | (key, v) :: entries => (key, arranged v) :: arrangedEntries entries

end

theorem arrangedItems_eq (items : List Val) : arrangedItems order items = items.map (arranged order) := by
  induction items with
  | nil => rfl
  | cons item items ih => rw [arrangedItems, ih, List.map_cons]

theorem arrangedEntries_eq (entries : List (String × Val)) :
    arrangedEntries order entries = entries.map fun entry => (entry.1, arranged order entry.2) := by
  induction entries with
  | nil => rfl
  | cons entry entries ih =>
    obtain ⟨key, v⟩ := entry
    rw [arrangedEntries, ih, List.map_cons]

end

/-- The value with sorted keys. -/
def sorted (v : Val) : Val := v.arranged id

/-- The value as a `jsonb` column gives it back: shorter keys first. -/
def jsonb (v : Val) : Val := v.arranged fun key => toLex (key.utf8ByteSize, key)

/-! ## Texts -/

/-- A hexadecimal digit. -/
def hexDigit (n : ℕ) : Char := if n < 10 then Char.ofNat (48 + n) else Char.ofNat (87 + n)

/-- A character in a JSON text, under `ensure_ascii=False`. -/
def escape (c : Char) : List Char :=
  if c = '"' then ['\\', '"']
  else if c = '\\' then ['\\', '\\']
  else if c = '\n' then ['\\', 'n']
  else if c = '\r' then ['\\', 'r']
  else if c = '\t' then ['\\', 't']
  else if c.toNat = 8 then ['\\', 'b']
  else if c.toNat = 12 then ['\\', 'f']
  else if c.toNat < 32 then
    ['\\', 'u', '0', '0', hexDigit (c.toNat / 16), hexDigit (c.toNat % 16)]
  else [c]

/-- A quoted text. -/
def quote (text : String) : List Char := '"' :: text.toList.flatMap escape ++ ['"']

/-- Parts between commas. -/
def commas (parts : List (List Char)) : List Char := [','].intercalate parts

mutual

/-- The JSON text of a value, entries in their order. -/
def render : Val → List Char
  | .none => "null".toList
  | .bool b => (if b then "true" else "false").toList
  | .int n => (toString n).toList
  | .float repr => repr.toList
  | .str s => quote s
  | .list items => '[' :: commas (renderItems items) ++ [']']
  | .dict entries => '\x7b' :: commas (renderEntries entries) ++ ['\x7d']
  | .obj _ => []

def renderItems : List Val → List (List Char)
  | [] => []
  | item :: items => render item :: renderItems items

def renderEntries : List (String × Val) → List (List Char)
  | [] => []
  | (key, v) :: entries => (quote key ++ ':' :: render v) :: renderEntries entries

/-- What `json.dumps` refuses under `allow_nan=False`. -/
def dumpable : Val → Except Exc Unit
  | .float repr =>
    if repr ∈ ["nan", "inf", "-inf"] then
      raise .valueError "Out of range float values are not JSON compliant"
    else .ok ()
  | .obj _ => raise .typeError "Object is not JSON serializable"
  | .list items => dumpableItems items
  | .dict entries => dumpableEntries entries
  | _ => .ok ()

def dumpableItems : List Val → Except Exc Unit
  | [] => .ok ()
  | item :: items => do
    dumpable item
    dumpableItems items

def dumpableEntries : List (String × Val) → Except Exc Unit
  | [] => .ok ()
  | (_, v) :: entries => do
    dumpable v
    dumpableEntries entries

end

/-- `json.dumps(value, sort_keys=True, separators=(",", ":"), ensure_ascii=False,
allow_nan=False)` -/
def canonical (v : Val) : Except Exc (List Char) := do
  dumpable v.sorted
  return render v.sorted

/-- `len(text.encode())` -/
def utf8Length (text : List Char) : ℕ := (text.map Char.utf8Size).sum

/-! ## The same up to the order of entries -/

mutual

/-- The dicts in the value have distinct keys. -/
def Distinct : Val → Prop
  | .list items => DistinctItems items
  | .dict entries => (entries.map Prod.fst).Nodup ∧ DistinctEntries entries
  | _ => True

def DistinctItems : List Val → Prop
  | [] => True
  | item :: items => Distinct item ∧ DistinctItems items

def DistinctEntries : List (String × Val) → Prop
  | [] => True
  | (_, v) :: entries => Distinct v ∧ DistinctEntries entries

end

mutual

instance decidableDistinct : ∀ v : Val, Decidable v.Distinct
  | .list items => decidableDistinctItems items
  | .dict entries =>
    have := decidableDistinctEntries entries
    inferInstanceAs (Decidable (_ ∧ _))
  | .none | .bool _ | .int _ | .float _ | .str _ | .obj _ => .isTrue trivial

instance decidableDistinctItems : ∀ items : List Val, Decidable (DistinctItems items)
  | [] => .isTrue trivial
  | item :: items =>
    have := decidableDistinct item
    have := decidableDistinctItems items
    inferInstanceAs (Decidable (_ ∧ _))

instance decidableDistinctEntries : ∀ entries : List (String × Val),
    Decidable (DistinctEntries entries)
  | [] => .isTrue trivial
  | (_, v) :: entries =>
    have := decidableDistinct v
    have := decidableDistinctEntries entries
    inferInstanceAs (Decidable (_ ∧ _))

end

/-- The values differ in the order of the entries of their dicts only. -/
def Same (v w : Val) : Prop := v.sorted = w.sorted

theorem Same.symm {v w : Val} (h : v.Same w) : w.Same v := Eq.symm h

theorem Same.trans {u v w : Val} (h : u.Same v) (h' : v.Same w) : u.Same w := Eq.trans h h'

theorem canonical_same {v w : Val} (h : v.Same w) : canonical v = canonical w := by
  rw [canonical, canonical, show v.sorted = w.sorted from h]

theorem sorted_list (items : List Val) : sorted (.list items) = .list (items.map sorted) := by
  rw [sorted, arranged, arrangedItems_eq]
  rfl

theorem sorted_dict (entries : List (String × Val)) : sorted (.dict entries) =
    .dict (sortedBy (fun entry => entry.1) (entries.map fun entry => (entry.1, entry.2.sorted))) := by
  rw [sorted, arranged, arrangedEntries_eq]
  rfl

@[simp] theorem same_str {v : Val} {s : String} : v.Same (.str s) ↔ v = .str s := by
  constructor
  · intro h
    cases v <;> cases h
    rfl
  · rintro rfl
    rfl

@[simp] theorem same_int {v : Val} {n : ℤ} : v.Same (.int n) ↔ v = .int n := by
  constructor
  · intro h
    cases v <;> cases h
    rfl
  · rintro rfl
    rfl

theorem same_list {v : Val} {items : List Val} : v.Same (.list items) ↔
    ∃ items', v = .list items' ∧ List.Forall₂ Same items' items := by
  have forall₂_iff : ∀ items', List.Forall₂ Same items' items ↔
      items'.map sorted = items.map sorted := by
    intro items'
    rw [← List.forall₂_eq_eq_eq, List.forall₂_map_left_iff, List.forall₂_map_right_iff]
    rfl
  constructor
  · intro h
    rw [Same, sorted_list] at h
    cases v with
    | list items' =>
      rw [sorted_list] at h
      exact ⟨items', rfl, (forall₂_iff items').mpr (Val.list.inj h)⟩
    | _ => cases h
  · rintro ⟨items', rfl, related⟩
    rw [Same, sorted_list, sorted_list, (forall₂_iff items').mp related]

/-! ## What is dumpable -/

theorem dumpableItems_eq_ok {items : List Val} :
    dumpableItems items = .ok () ↔ ∀ v ∈ items, dumpable v = .ok () := by
  induction items with
  | nil => exact ⟨fun _ v mem => absurd mem List.not_mem_nil, fun _ => rfl⟩
  | cons item items ih =>
    rw [dumpableItems, List.forall_mem_cons, ← ih, bind_eq_ok]
    exact ⟨fun ⟨_, first, rest⟩ => ⟨first, rest⟩, fun ⟨first, rest⟩ => ⟨(), first, rest⟩⟩

theorem dumpableEntries_eq_ok {entries : List (String × Val)} :
    dumpableEntries entries = .ok () ↔ ∀ entry ∈ entries, dumpable entry.2 = .ok () := by
  induction entries with
  | nil => exact ⟨fun _ v mem => absurd mem List.not_mem_nil, fun _ => rfl⟩
  | cons entry entries ih =>
    obtain ⟨key, v⟩ := entry
    rw [dumpableEntries, List.forall_mem_cons, ← ih, bind_eq_ok]
    exact ⟨fun ⟨_, first, rest⟩ => ⟨first, rest⟩, fun ⟨first, rest⟩ => ⟨(), first, rest⟩⟩

mutual

/-- The order of the entries does not matter to what is dumpable. -/
theorem dumpable_sorted : ∀ v : Val, dumpable v.sorted = .ok () ↔ dumpable v = .ok ()
  | .list items => by
    rw [sorted_list, dumpable, dumpable, dumpableItems_eq_ok, List.forall_mem_map]
    exact dumpable_sorted_items items
  | .dict entries => by
    rw [sorted_dict, dumpable, dumpable, dumpableEntries_eq_ok]
    simp only [mem_sortedBy]
    rw [List.forall_mem_map]
    exact dumpable_sorted_entries entries
  | .none | .bool _ | .int _ | .float _ | .str _ | .obj _ => Iff.rfl

theorem dumpable_sorted_items : ∀ items : List Val,
    (∀ v ∈ items, dumpable v.sorted = .ok ()) ↔ dumpableItems items = .ok ()
  | [] => ⟨fun _ => rfl, fun _ v mem => absurd mem List.not_mem_nil⟩
  | item :: items => by
    rw [List.forall_mem_cons, dumpable_sorted item, dumpable_sorted_items items, dumpableItems,
      bind_eq_ok]
    exact ⟨fun ⟨first, rest⟩ => ⟨(), first, rest⟩, fun ⟨_, first, rest⟩ => ⟨first, rest⟩⟩

theorem dumpable_sorted_entries : ∀ entries : List (String × Val),
    (∀ entry ∈ entries, dumpable entry.2.sorted = .ok ()) ↔ dumpableEntries entries = .ok ()
  | [] => ⟨fun _ => rfl, fun _ v mem => absurd mem List.not_mem_nil⟩
  | (key, v) :: entries => by
    rw [List.forall_mem_cons, dumpable_sorted v, dumpable_sorted_entries entries, dumpableEntries,
      bind_eq_ok]
    exact ⟨fun ⟨first, rest⟩ => ⟨(), first, rest⟩, fun ⟨_, first, rest⟩ => ⟨first, rest⟩⟩

end

/-- The canonical text of a value is there for every dumpable one. -/
theorem canonical_isOk {v : Val} : (∃ text, canonical v = .ok text) ↔ dumpable v = .ok () := by
  rw [← dumpable_sorted, canonical]
  constructor
  · rintro ⟨text, made⟩
    obtain ⟨⟨⟩, ok, -⟩ := bind_eq_ok.mp made
    exact ok
  · intro ok
    exact ⟨_, bind_eq_ok.mpr ⟨(), ok, rfl⟩⟩

theorem getItem_dict {entries : List (String × Val)} {key : String} {v : Val} :
    (Val.dict entries).getItem key = .ok v ↔ entries.lookup key = some v := by
  rw [getItem]
  cases entries.lookup key with
  | none => exact ⟨fun h => (by cases h), fun h => (by cases h)⟩
  | some item => exact ⟨fun h => congrArg some (Except.ok.inj h), fun h =>
      congrArg Except.ok (Option.some.inj h)⟩

/-- An entry with its value sorted. -/
def sortedEntry (entry : String × Val) : String × Val := (entry.1, entry.2.sorted)

theorem keys_sortedEntry (entries : List (String × Val)) :
    (entries.map sortedEntry).map Prod.fst = entries.map Prod.fst := by
  rw [List.map_map]
  rfl

/-- Entries with distinct keys, in any order and each of the same value, make the same dict. -/
theorem sorted_dict_perm {entries entries' : List (String × Val)}
    (distinct : (entries.map Prod.fst).Nodup)
    (perm : (entries.map sortedEntry).Perm (entries'.map sortedEntry)) :
    (Val.dict entries).Same (.dict entries') := by
  have apart : ∀ x ∈ entries.map sortedEntry, ∀ y ∈ entries.map sortedEntry, x.1 = y.1 → x = y :=
    fun x hx y hy same =>
      List.inj_on_of_nodup_map ((keys_sortedEntry entries).symm ▸ distinct) hx hy same
  rw [Same, sorted_dict, sorted_dict]
  exact congrArg Val.dict (sortedBy_perm perm apart)

/-- Dicts of the same keys with the same value at each. -/
theorem same_entries {entries entries' : List (String × Val)}
    (each : List.Forall₂ (fun entry entry' => entry.1 = entry'.1 ∧ entry.2.Same entry'.2)
      entries entries') : (Val.dict entries).Same (.dict entries') := by
  have mapped : entries.map sortedEntry = entries'.map sortedEntry := by
    induction each with
    | nil => rfl
    | cons first _ ih => rw [List.map_cons, List.map_cons, ih, sortedEntry, sortedEntry, first.1,
        show _ = _ from first.2]
  rw [Same, sorted_dict, sorted_dict]
  exact congrArg (fun sorted => Val.dict (sortedBy (fun entry : String × Val => entry.1) sorted))
    mapped

/-! ## Closed dicts -/

/-- `type(value) is dict and set(value) == set(keys)` -/
def hasKeys (v : Val) (keys : List String) : Bool :=
  match v with
  | .dict entries => decide ((entries.map Prod.fst).Perm keys)
  | _ => false

/-- A value is the same as a dict when it has its keys, and the same value at each. -/
theorem same_dict {v : Val} (entries : List (String × Val))
    (distinct : (entries.map Prod.fst).Nodup) :
    v.Same (.dict entries) ↔ v.hasKeys (entries.map Prod.fst) = true ∧
      ∀ entry ∈ entries, ∃ x, v.getItem entry.1 = .ok x ∧ x.Same entry.2 := by
  constructor
  · intro h
    rw [Same, sorted_dict] at h
    cases v with
    | dict own =>
      rw [sorted_dict] at h
      have perm : (own.map sortedEntry).Perm (entries.map sortedEntry) := by
        have mine := perm_sortedBy (fun entry : String × Val => entry.1) (own.map sortedEntry)
        have theirs := perm_sortedBy (fun entry : String × Val => entry.1)
          (entries.map sortedEntry)
        exact (mine.symm.trans (.of_eq (Val.dict.inj h))).trans theirs
      have keys : (own.map Prod.fst).Perm (entries.map Prod.fst) := by
        rw [← keys_sortedEntry own, ← keys_sortedEntry entries]
        exact perm.map _
      refine ⟨decide_eq_true keys, fun entry mem => ?_⟩
      obtain ⟨mine, hmine, same⟩ :=
        List.mem_map.mp (perm.mem_iff.mpr (List.mem_map_of_mem mem))
      obtain ⟨key_eq, value_eq⟩ := Prod.mk.inj same
      exact ⟨mine.2, getItem_dict.mpr (Tally.lookup_of_mem (keys.nodup_iff.mpr distinct)
        (key_eq ▸ hmine)), value_eq⟩
    | _ => cases h
  · rintro ⟨keys, values⟩
    cases v with
    | dict own =>
      have keys : (own.map Prod.fst).Perm (entries.map Prod.fst) := of_decide_eq_true keys
      have own_distinct := keys.nodup_iff.mpr distinct
      have inside : entries.map sortedEntry ⊆ own.map sortedEntry := by
        intro entry mem
        obtain ⟨theirs, htheirs, rfl⟩ := List.mem_map.mp mem
        obtain ⟨x, found, same⟩ := values theirs htheirs
        exact List.mem_map.mpr ⟨(theirs.1, x), Tally.mem_of_lookup (getItem_dict.mp found),
          Prod.ext rfl same⟩
      have nodup : (entries.map sortedEntry).Nodup :=
        List.Nodup.of_map Prod.fst ((keys_sortedEntry entries).symm ▸ distinct)
      have lengths : (own.map sortedEntry).length ≤ (entries.map sortedEntry).length := by
        have := keys.length_eq
        rw [List.length_map, List.length_map] at this ⊢
        exact this.le
      have perm := (List.subperm_of_subset nodup inside).perm_of_length_le lengths
      exact sorted_dict_perm own_distinct perm.symm
    | _ => cases keys

/-! ## Values with distinct keys -/

section
variable {κ : Type} [LinearOrder κ] {order : String → κ}

theorem keys_arrangedEntries (entries : List (String × Val)) :
    ((arrangedEntries order entries).map Prod.fst).Perm (entries.map Prod.fst) := by
  rw [arrangedEntries_eq, List.map_map]
  exact .refl _

theorem distinctEntries_iff {entries : List (String × Val)} :
    DistinctEntries entries ↔ ∀ entry ∈ entries, entry.2.Distinct := by
  induction entries with
  | nil => simp [DistinctEntries]
  | cons entry entries ih =>
    obtain ⟨key, v⟩ := entry
    rw [DistinctEntries, ih, List.forall_mem_cons]

theorem distinctItems_iff {items : List Val} :
    DistinctItems items ↔ ∀ item ∈ items, item.Distinct := by
  induction items with
  | nil => simp [DistinctItems]
  | cons item items ih => rw [DistinctItems, ih, List.forall_mem_cons]

mutual

/-- The order of entries has no part in whether keys are distinct. -/
theorem distinct_arranged : ∀ v : Val, (v.arranged order).Distinct ↔ v.Distinct
  | .list items => by
    rw [arranged, Distinct, Distinct]
    exact distinct_arrangedItems items
  | .dict entries => by
    rw [arranged, Distinct, Distinct]
    refine and_congr ?_ ?_
    · exact (((perm_sortedBy _ _).map _).trans (keys_arrangedEntries entries)).nodup_iff
    · rw [distinctEntries_iff, ← distinct_arrangedEntries entries, distinctEntries_iff]
      exact forall_congr' fun entry => imp_congr_left mem_sortedBy
  | .none | .bool _ | .int _ | .float _ | .str _ | .obj _ => Iff.rfl

theorem distinct_arrangedItems : ∀ items : List Val,
    DistinctItems (arrangedItems order items) ↔ DistinctItems items
  | [] => Iff.rfl
  | item :: items => and_congr (distinct_arranged item) (distinct_arrangedItems items)

theorem distinct_arrangedEntries : ∀ entries : List (String × Val),
    DistinctEntries (arrangedEntries order entries) ↔ DistinctEntries entries
  | [] => Iff.rfl
  | (_, v) :: entries => and_congr (distinct_arranged v) (distinct_arrangedEntries entries)

end

mutual

/-- Sorting forgets any other order. -/
theorem sorted_arranged : ∀ v : Val, v.Distinct → (v.arranged order).sorted = v.sorted
  | .list items, h => by
    rw [arranged, sorted_list, sorted_list, sorted_arrangedItems items h]
  | .dict entries, ⟨keys, h⟩ => by
    rw [arranged]
    refine sorted_dict_perm ?_ ?_
    · have arranged_keys := (perm_sortedBy (fun entry : String × Val => order entry.1)
        (arrangedEntries order entries)).map Prod.fst
      exact (arranged_keys.trans (keys_arrangedEntries entries)).nodup_iff.mpr keys
    · rw [← sorted_arrangedEntries entries h]
      exact (perm_sortedBy _ _).map _
  | .none, _ | .bool _, _ | .int _, _ | .float _, _ | .str _, _ | .obj _, _ => rfl

theorem sorted_arrangedItems : ∀ items : List Val, DistinctItems items →
    (arrangedItems order items).map sorted = items.map sorted
  | [], _ => rfl
  | item :: items, h => by
    rw [arrangedItems, List.map_cons, List.map_cons, sorted_arranged item h.1,
      sorted_arrangedItems items h.2]

theorem sorted_arrangedEntries : ∀ entries : List (String × Val), DistinctEntries entries →
    (arrangedEntries order entries).map sortedEntry = entries.map sortedEntry
  | [], _ => rfl
  | (key, v) :: entries, h => by
    rw [arrangedEntries, List.map_cons, List.map_cons, sorted_arrangedEntries entries h.2]
    show (key, (arranged order v).sorted) :: _ = (key, v.sorted) :: _
    rw [sorted_arranged v h.1]

end

end

theorem same_jsonb {v : Val} (distinct : v.Distinct) : v.jsonb.Same v := sorted_arranged v distinct

theorem Same.distinct {v w : Val} (h : v.Same w) (distinct : w.Distinct) : v.Distinct := by
  have sorted_iff : ∀ u : Val, u.sorted.Distinct ↔ u.Distinct := fun u => distinct_arranged u
  rw [← sorted_iff, show v.sorted = w.sorted from h, sorted_iff]
  exact distinct

/-! ## Equality -/

mutual

/-- `v == w`; floats are compared by their texts. -/
def eq : Val → Val → Bool
  | .none, w => match w with
    | .none => true
    | _ => false
  | .bool a, w => match w with
    | .bool b => a = b
    | .int n => n = if a then 1 else 0
    | _ => false
  | .int n, w => match w with
    | .int m => n = m
    | .bool b => n = if b then 1 else 0
    | _ => false
  | .float a, w => match w with
    | .float b => a = b
    | _ => false
  | .str s, w => w.isStr s
  | .list items, w => match w with
    | .list items' => eqItems items items'
    | _ => false
  | .dict entries, w => match w with
    | .dict entries' => entries.length = entries'.length && eqEntries entries entries'
    | _ => false
  | .obj n, w => match w with
    | .obj m => n = m
    | _ => false

def eqItems : List Val → List Val → Bool
  | [], items' => items'.isEmpty
  | item :: items, items' => match items' with
    | [] => false
    | item' :: items' => eq item item' && eqItems items items'

def eqEntries : List (String × Val) → List (String × Val) → Bool
  | [], _ => true
  | (key, v) :: entries, entries' => match entries'.lookup key with
    | some w => eq v w && eqEntries entries entries'
    | Option.none => false

end

mutual

/-- Values that differ in the order of entries only are equal. -/
theorem eq_of_same : ∀ v w : Val, w.Same v → v.Distinct → v.eq w = true
  | .list items, w, same, distinct => by
    obtain ⟨items', rfl, each⟩ := same_list.mp same
    exact eqItems_of_same items items' each distinct
  | .dict entries, w, same, distinct => by
    obtain ⟨keys, values⟩ := (same_dict entries distinct.1).mp same
    cases w with
    | dict entries' =>
      have perm : (entries'.map Prod.fst).Perm (entries.map Prod.fst) := of_decide_eq_true keys
      have length_eq := perm.length_eq
      rw [List.length_map, List.length_map] at length_eq
      rw [eq, Bool.and_eq_true, decide_eq_true_eq]
      exact ⟨length_eq.symm, eqEntries_of_same entries entries' values distinct.2⟩
    | _ => cases keys
  | .str s, w, same, _ => by
    obtain rfl := same_str.mp same
    exact decide_eq_true rfl
  | .int n, w, same, _ => by
    obtain rfl := same_int.mp same
    exact decide_eq_true rfl
  | .none, w, same, _ => by
    cases w <;> cases same
    rfl
  | .bool b, w, same, _ | .float b, w, same, _ | .obj b, w, same, _ => by
    cases w <;> cases same
    exact decide_eq_true rfl

theorem eqItems_of_same : ∀ items items' : List Val, List.Forall₂ Same items' items →
    DistinctItems items → eqItems items items' = true
  | [], _, .nil, _ => rfl
  | item :: items, item' :: items', .cons first rest, distinct => by
    rw [eqItems, Bool.and_eq_true]
    exact ⟨eq_of_same item item' first distinct.1, eqItems_of_same items items' rest distinct.2⟩

/-- Entries are equal to those of a dict that has the same values at their keys. -/
theorem eqEntries_of_same : ∀ entries entries' : List (String × Val),
    (∀ entry ∈ entries, ∃ x, (Val.dict entries').getItem entry.1 = .ok x ∧ x.Same entry.2) →
      DistinctEntries entries → eqEntries entries entries' = true
  | [], _, _, _ => rfl
  | (key, v) :: entries, entries', values, distinct => by
    obtain ⟨x, found, same⟩ := values (key, v) List.mem_cons_self
    rw [eqEntries, getItem_dict.mp found]
    exact Bool.and_eq_true _ _ ▸ ⟨eq_of_same v x same distinct.1,
      eqEntries_of_same entries entries' (fun entry mem => values entry
        (List.mem_cons_of_mem _ mem)) distinct.2⟩

end

end Py.Val
