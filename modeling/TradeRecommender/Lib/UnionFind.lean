import Mathlib.Logic.Function.Iterate
import TradeRecommender.Lib.Components
import TradeRecommender.Lib.Python

/-!
# Union-find

A forest of parents without ranks or path compression: inserting a key, climbing to its root, and
pointing one root at another. The classes of a forest are the components of the sets united in it.

1. the forest and its operations;
2. roots, and how far they are;
3. what inserting and uniting do to the classes.
-/

namespace UnionFind

open Components Py Relation

section
variable {κ : Type} [DecidableEq κ]

/-! ## The forest -/

/-- Keys in the order they were inserted, and the parent of each. -/
structure Forest (κ : Type) where
  keys : List κ := []
  parent : κ → κ := id

/-- `parent.setdefault(key, key)` -/
def Forest.insert (forest : Forest κ) (key : κ) : Forest κ :=
  if key ∈ forest.keys then forest
  else ⟨forest.keys ++ [key], Function.update forest.parent key key⟩

/-- `while parent[key] != key: key = parent[key]`; the fuel bounds its turns. -/
def climb (parent : κ → κ) : ℕ → κ → Except Exc κ
  | 0, _ => raise (.other "OutOfFuel")
  | fuel + 1, key => if parent key ≠ key then climb parent fuel (parent key) else .ok key

/-- The root of a key, which is inserted where it is new. -/
def Forest.root (forest : Forest κ) (key : κ) : Except Exc (Forest κ × κ) := do
  let forest := forest.insert key
  let top ← climb forest.parent forest.keys.length key
  return (forest, top)

/-- `parent[root(item)] = root(target)` -/
def Forest.unite (forest : Forest κ) (item target : κ) : Except Exc (Forest κ) := do
  let (forest, top) ← forest.root target
  let (forest, own) ← forest.root item
  return { forest with parent := Function.update forest.parent own top }

/-- The roots of some keys. -/
def Forest.rootsOf (forest : Forest κ) : List κ → Except Exc (Forest κ × List κ)
  | [] => .ok (forest, [])
  | key :: keys => do
    let (forest, top) ← forest.root key
    let (forest, tops) ← forest.rootsOf keys
    return (forest, top :: tops)

/-- `for item in roots[1:]: parent[root(item)] = root(roots[0])` -/
def Forest.uniteAll (forest : Forest κ) : List κ → Except Exc (Forest κ)
  | [] => .ok forest
  | target :: items => items.foldlM (fun forest item => forest.unite item target) forest

/-- The keys' roots, in order, are united. -/
def Forest.span (le : κ → κ → Prop) [DecidableRel le] (forest : Forest κ) (keys : List κ) :
    Except Exc (Forest κ) := do
  let (forest, roots) ← forest.rootsOf keys
  forest.uniteAll (roots.insertionSort le)

/-! ## Roots -/

omit [DecidableEq κ] in
theorem iterate_fixed {parent : κ → κ} {top : κ} (fixed : parent top = top) (n : ℕ) :
    parent^[n] top = top := by
  induction n with
  | zero => rfl
  | succ n ih => rw [Function.iterate_succ_apply, fixed, ih]

/-- The key climbs to a key that is its own parent. -/
def Root (parent : κ → κ) (key top : κ) : Prop := parent top = top ∧ ∃ n, parent^[n] key = top

section
omit [DecidableEq κ]
variable {parent : κ → κ} {key top : κ}

theorem Root.self (fixed : parent top = top) : Root parent top top := ⟨fixed, 0, rfl⟩

theorem Root.unique {top' : κ} (h : Root parent key top) (h' : Root parent key top') :
    top = top' := by
  obtain ⟨fixed, n, rfl⟩ := h
  obtain ⟨fixed', n', rfl⟩ := h'
  rcases Nat.le_total n n' with le | le
  · obtain ⟨k, rfl⟩ := Nat.exists_eq_add_of_le' le
    rw [Function.iterate_add_apply, iterate_fixed fixed]
  · obtain ⟨k, rfl⟩ := Nat.exists_eq_add_of_le' le
    rw [Function.iterate_add_apply, iterate_fixed fixed']

theorem Root.mem {keys : List κ} (closed : ∀ k ∈ keys, parent k ∈ keys) (mem : key ∈ keys)
    (h : Root parent key top) : top ∈ keys := by
  obtain ⟨-, n, rfl⟩ := h
  induction n generalizing key with
  | zero => exact mem
  | succ n ih => exact ih (closed key mem)

/-- A root is fewer steps away than there are keys: the keys on the way differ. -/
theorem Root.near {keys : List κ} (closed : ∀ k ∈ keys, parent k ∈ keys) (mem : key ∈ keys)
    (h : Root parent key top) : ∃ n, n < keys.length ∧ parent^[n] key = top := by
  classical
  obtain ⟨fixed, reached⟩ := h
  refine ⟨Nat.find reached, ?_, Nat.find_spec reached⟩
  have first := fun m (less : m < Nat.find reached) => Nat.find_min reached less
  have last := Nat.find_spec reached
  generalize Nat.find reached = n at first last
  have inside : ∀ m, parent^[m] key ∈ keys := by
    intro m
    induction m with
    | zero => exact mem
    | succ m ih =>
      rw [Function.iterate_succ_apply']
      exact closed _ ih
  have differ : ((List.range (n + 1)).map fun m => parent^[m] key).Nodup := by
    refine List.Nodup.map_on (fun i hi j hj same => ?_) List.nodup_range
    -- an earlier repetition would have reached the root before
    have earlier : ∀ i j, i < j → j ≤ n → parent^[i] key ≠ parent^[j] key := by
      intro i j less bound same
      refine first (n - j + i) (by omega) ?_
      rw [Function.iterate_add_apply, same, ← Function.iterate_add_apply, Nat.sub_add_cancel bound]
      exact last
    rw [List.mem_range] at hi hj
    rcases lt_trichotomy i j with less | equal | less
    · exact absurd same (earlier i j less (by omega))
    · exact equal
    · exact absurd same.symm (earlier j i less (by omega))
  have sub : ((List.range (n + 1)).map fun m => parent^[m] key) ⊆ keys := by
    intro k hk
    obtain ⟨m, -, rfl⟩ := List.mem_map.mp hk
    exact inside m
  have length_le := (List.subperm_of_subset differ sub).length_le
  rw [List.length_map, List.length_range] at length_le
  omega

end

/-- **Climbing ends at the root.** -/
theorem climb_eq {parent : κ → κ} {key top : κ} {n fuel : ℕ} (fixed : parent top = top)
    (reached : parent^[n] key = top) (enough : n < fuel) : climb parent fuel key = .ok top := by
  induction n generalizing key fuel with
  | zero =>
    obtain ⟨fuel, rfl⟩ := Nat.exists_eq_succ_of_ne_zero (Nat.ne_of_gt enough)
    obtain rfl : key = top := reached
    rw [climb, if_neg (not_not.mpr fixed)]
  | succ n ih =>
    obtain ⟨fuel, rfl⟩ := Nat.exists_eq_succ_of_ne_zero (Nat.ne_of_gt (Nat.zero_lt_of_lt enough))
    rw [climb]
    by_cases here : parent key = key
    · rw [if_neg (not_not.mpr here)]
      rw [iterate_fixed here] at reached
      rw [reached]
    · rw [if_pos here]
      exact ih reached (Nat.lt_of_succ_lt_succ enough)

/-! ## Classes -/

/-- The classes of the forest are the components of the sets. -/
structure IsForest (forest : Forest κ) (sets : List (List κ)) : Prop where
  nodup : forest.keys.Nodup
  keys : ∀ k, k ∈ forest.keys ↔ Named sets k
  closed : ∀ k ∈ forest.keys, forest.parent k ∈ forest.keys
  rooted : ∀ k ∈ forest.keys, ∃ top, Root forest.parent k top
  classes : ∀ x ∈ forest.keys, ∀ y ∈ forest.keys, ∀ a b, Root forest.parent x a →
    Root forest.parent y b → (a = b ↔ ReflTransGen (Joined sets) x y)

variable {forest : Forest κ} {sets : List (List κ)}

omit [DecidableEq κ] in
theorem isForest_empty : IsForest ({} : Forest κ) [] := by
  refine ⟨List.nodup_nil, fun k => ⟨fun mem => ?_, ?_⟩, fun k mem => ?_, fun k mem => ?_,
    fun k mem => ?_⟩
  · cases mem
  · rintro ⟨members, mem, -⟩
    cases mem
  all_goals cases mem

omit [DecidableEq κ] in
/-- A forest of other sets with the same members and the same components. -/
theorem IsForest.congr {sets' : List (List κ)} (h : IsForest forest sets)
    (named : ∀ x, Named sets x ↔ Named sets' x)
    (to_ : ∀ x y, Joined sets x y → ReflTransGen (Joined sets') x y)
    (from_ : ∀ x y, Joined sets' x y → ReflTransGen (Joined sets) x y) : IsForest forest sets' := by
  refine ⟨h.nodup, fun k => (h.keys k).trans (named k), h.closed, h.rooted,
    fun x hx y hy a b ha hb => ?_⟩
  exact (h.classes x hx y hy a b ha hb).trans ⟨reach_of_joined to_, reach_of_joined from_⟩

/-- The root of a key that is there. -/
theorem IsForest.root_eq (h : IsForest forest sets) {key top : κ} (mem : key ∈ forest.keys)
    (rooted : Root forest.parent key top) : forest.root key = .ok (forest, top) := by
  obtain ⟨n, near, reached⟩ := rooted.near h.closed mem
  unfold Forest.root Forest.insert
  rw [if_pos mem]
  exact bind_eq_ok.mpr ⟨top, climb_eq rooted.1 reached near, rfl⟩

omit [DecidableEq κ] in
/-- A key is connected to its root. -/
theorem IsForest.reach_root (h : IsForest forest sets) {key top : κ} (mem : key ∈ forest.keys)
    (rooted : Root forest.parent key top) : ReflTransGen (Joined sets) key top :=
  (h.classes key mem top (rooted.mem h.closed mem) top top rooted (Root.self rooted.1)).mp rfl

/-! ## Inserting -/

omit [DecidableEq κ] in
/-- A set of one member joins nothing. -/
theorem reach_singles {sets : List (List κ)} {keys : List κ} {x y : κ}
    (h : Joined (sets ++ keys.map fun key => [key]) x y) : ReflTransGen (Joined sets) x y := by
  obtain ⟨members, mem, hx, hy⟩ := h
  rcases List.mem_append.mp mem with mem | mem
  · exact .single ⟨members, mem, hx, hy⟩
  · obtain ⟨key, -, rfl⟩ := List.mem_map.mp mem
    rw [List.mem_singleton.mp hx, List.mem_singleton.mp hy]

/-- The keys there keep their roots. -/
def Keeps (forest forest' : Forest κ) : Prop :=
  ∀ key ∈ forest.keys, key ∈ forest'.keys ∧
    ∀ top, Root forest.parent key top → Root forest'.parent key top

omit [DecidableEq κ] in
theorem Keeps.trans {forest' forest'' : Forest κ} (first : Keeps forest forest')
    (second : Keeps forest' forest'') : Keeps forest forest'' := by
  intro key mem
  obtain ⟨mem', roots⟩ := first key mem
  obtain ⟨mem'', roots'⟩ := second key mem'
  exact ⟨mem'', fun top rooted => roots' top (roots top rooted)⟩

theorem mem_keys_insert {key x : κ} :
    x ∈ (forest.insert key).keys ↔ x ∈ forest.keys ∨ x = key := by
  unfold Forest.insert
  by_cases mem : key ∈ forest.keys
  · rw [if_pos mem]
    constructor
    · exact .inl
    · rintro (h | rfl)
      · exact h
      · exact mem
  · rw [if_neg mem]
    simp only [List.mem_append, List.mem_singleton]

theorem IsForest.keeps_insert (h : IsForest forest sets) (key : κ) :
    Keeps forest (forest.insert key) := by
  intro k mem
  refine ⟨mem_keys_insert.mpr (.inl mem), fun top rooted => ?_⟩
  unfold Forest.insert
  by_cases there : key ∈ forest.keys
  · rw [if_pos there]
    exact rooted
  · rw [if_neg there]
    have agree : ∀ j ∈ forest.keys, Function.update forest.parent key key j = forest.parent j := by
      intro j hj
      have differ : j ≠ key := fun same => there (same ▸ hj)
      exact Function.update_of_ne differ _ _
    have inside := rooted.mem h.closed mem
    obtain ⟨fixed, n, reached⟩ := rooted
    refine ⟨(agree top inside).trans fixed, n, ?_⟩
    clear inside
    induction n generalizing k with
    | zero => exact reached
    | succ n ih =>
      rw [Function.iterate_succ_apply]
      show (Function.update forest.parent key key)^[n]
        (Function.update forest.parent key key k) = top
      rw [agree k mem]
      exact ih (forest.parent k) (h.closed k mem) reached

theorem root_insert_new {key : κ} (fresh : key ∉ forest.keys) :
    Root (forest.insert key).parent key key := by
  unfold Forest.insert
  rw [if_neg fresh]
  exact Root.self (Function.update_self _ _ _)

/-- **Inserting a key** adds its own component. -/
theorem IsForest.insert (h : IsForest forest sets) (key : κ) :
    IsForest (forest.insert key) (sets ++ [[key]]) := by
  by_cases there : key ∈ forest.keys
  · have same : forest.insert key = forest := if_pos there
    rw [same]
    refine h.congr (fun x => ?_) (fun x y hxy => larger_reach (.single hxy))
      (fun x y h => reach_singles (show Joined (sets ++ [key].map fun k => [k]) x y from h))
    rw [named_concat, List.mem_singleton]
    constructor
    · exact .inl
    · rintro (named | rfl)
      · exact named
      · exact (h.keys x).mp there
  · have keeps := h.keeps_insert key
    have own := root_insert_new there
    have reach_iff : ∀ x y, ReflTransGen (Joined (sets ++ [[key]])) x y ↔
        ReflTransGen (Joined sets) x y :=
      fun x y => ⟨reach_of_joined fun u v h =>
        reach_singles (show Joined (sets ++ [key].map fun k => [k]) u v from h), larger_reach⟩
    -- nothing was joined to the new key
    have alone : ∀ x, ReflTransGen (Joined sets) x key → x = key := by
      intro x reach
      rcases reach.cases_tail with rfl | ⟨z, -, members, mem, -, hy⟩
      · rfl
      · exact absurd ((h.keys key).mpr ⟨members, mem, hy⟩) there
    have new_root : ∀ top, Root (forest.insert key).parent key top → top = key :=
      fun top rooted => rooted.unique own
    have old_root : ∀ x ∈ forest.keys, ∀ top, Root (forest.insert key).parent x top →
        Root forest.parent x top := by
      intro x mem top rooted
      obtain ⟨top', rooted'⟩ := h.rooted x mem
      rw [rooted.unique ((keeps x mem).2 top' rooted')]
      exact rooted'
    refine ⟨?_, fun k => ?_, fun k mem => ?_, fun k mem => ?_, fun x inx y iny a b ha hb => ?_⟩
    · unfold Forest.insert
      rw [if_neg there]
      exact List.nodup_append.mpr ⟨h.nodup, List.nodup_singleton _, by
        rintro k mem _ single rfl
        exact there (List.mem_singleton.mp single ▸ mem)⟩
    · rw [mem_keys_insert, named_concat, List.mem_singleton, h.keys]
    · rcases mem_keys_insert.mp mem with mem | rfl
      · refine mem_keys_insert.mpr (.inl ?_)
        have agree : (forest.insert key).parent k = forest.parent k := by
          unfold Forest.insert
          rw [if_neg there]
          have differ : k ≠ key := fun same => there (same ▸ mem)
          exact Function.update_of_ne differ _ _
        rw [agree]
        exact h.closed k mem
      · rw [own.1]
        exact mem
    · rcases mem_keys_insert.mp mem with mem | rfl
      · obtain ⟨top, rooted⟩ := h.rooted k mem
        exact ⟨top, (keeps k mem).2 top rooted⟩
      · exact ⟨k, own⟩
    · rw [reach_iff]
      rcases mem_keys_insert.mp inx with hx | rfl <;> rcases mem_keys_insert.mp iny with hy | rfl
      · exact h.classes x hx y hy a b (old_root x hx a ha) (old_root y hy b hb)
      · rw [new_root b hb]
        constructor
        · rintro rfl
          exact absurd ((old_root x hx _ ha).mem h.closed hx) there
        · intro reach
          exact absurd (alone x reach ▸ hx) there
      · rw [new_root a ha]
        constructor
        · rintro rfl
          exact absurd ((old_root y hy _ hb).mem h.closed hy) there
        · intro reach
          exact absurd (alone y (reach_symm (joined_symm sets) reach) ▸ hy) there
      · rw [new_root a ha, new_root b hb]
        exact ⟨fun _ => .refl, fun _ => rfl⟩

/-- Finding a root inserts the key and leaves the roots there were. -/
theorem IsForest.root_spec (h : IsForest forest sets) (key : κ) :
    ∃ top, forest.root key = .ok (forest.insert key, top) ∧
      Root (forest.insert key).parent key top := by
  have inserted := h.insert key
  have mem : key ∈ (forest.insert key).keys := mem_keys_insert.mpr (.inr rfl)
  obtain ⟨top, rooted⟩ := inserted.rooted key mem
  obtain ⟨n, near, reached⟩ := rooted.near inserted.closed mem
  refine ⟨top, ?_, rooted⟩
  unfold Forest.root
  exact bind_eq_ok.mpr ⟨top, climb_eq rooted.1 reached near, rfl⟩

/-! ## Uniting -/

/-- Pointing one root at another moves the keys under it. -/
theorem root_update {parent : κ → κ} {own top : κ} (own_fixed : parent own = own)
    (top_fixed : parent top = top) {key r : κ} (rooted : Root parent key r) :
    Root (Function.update parent own top) key (if r = own then top else r) := by
  by_cases same : own = top
  · subst same
    have unchanged : Function.update parent own own = parent := by
      conv_lhs => rw [← own_fixed]
      rw [own_fixed]
      exact Function.update_eq_self_iff.mpr own_fixed.symm
    rw [unchanged]
    by_cases here : r = own
    · rw [if_pos here]
      exact here ▸ rooted
    · rw [if_neg here]
      exact rooted
  · obtain ⟨fixed, n, reached⟩ := rooted
    have moved : Function.update parent own top own = top := Function.update_self _ _ _
    have elsewhere : ∀ k, k ≠ own → Function.update parent own top k = parent k :=
      fun k ne => Function.update_of_ne ne _ _
    refine ⟨?_, ?_⟩
    · by_cases here : r = own
      · rw [if_pos here, elsewhere top (Ne.symm same)]
        exact top_fixed
      · rw [if_neg here, elsewhere r here]
        exact fixed
    · induction n generalizing key with
      | zero =>
        obtain rfl : key = r := reached
        by_cases here : key = own
        · rw [if_pos here]
          refine ⟨1, ?_⟩
          rw [here]
          exact moved
        · rw [if_neg here]
          exact ⟨0, rfl⟩
      | succ n ih =>
        by_cases here : key = own
        · -- the key was the root that moved
          subst here
          rw [iterate_fixed own_fixed] at reached
          rw [if_pos reached.symm]
          exact ⟨1, moved⟩
        · obtain ⟨m, arrived⟩ := ih reached
          refine ⟨m + 1, ?_⟩
          rw [Function.iterate_succ_apply, elsewhere key here]
          exact arrived

/-- **Uniting two keys there** joins their components. -/
theorem IsForest.unite (h : IsForest forest sets) {item target : κ} (hi : item ∈ forest.keys)
    (ht : target ∈ forest.keys) :
    ∃ forest', forest.unite item target = .ok forest' ∧ forest'.keys = forest.keys ∧
      IsForest forest' (sets ++ [[item, target]]) := by
  obtain ⟨own, own_root⟩ := h.rooted item hi
  obtain ⟨top, top_root⟩ := h.rooted target ht
  set moved : κ → κ := fun r => if r = own then top else r with moved_def
  have moves : ∀ k r, Root forest.parent k r → Root (Function.update forest.parent own top) k
      (moved r) := fun k r rooted => root_update own_root.1 top_root.1 rooted
  refine ⟨{ forest with parent := Function.update forest.parent own top }, ?_, rfl, ?_⟩
  · unfold Forest.unite
    rw [h.root_eq ht top_root]
    show (forest.root item >>= _) = _
    rw [h.root_eq hi own_root]
    rfl
  · have larger : ∀ x y, ReflTransGen (Joined sets) x y →
        ReflTransGen (Joined (sets ++ [[item, target]])) x y :=
      fun x y => reach_of_joined fun _ _ hxy => .single (hxy.mono fun _ => List.mem_append_left _)
    have bridge : ReflTransGen (Joined (sets ++ [[item, target]])) item target :=
      .single ⟨[item, target], by simp, by simp, by simp⟩
    refine ⟨h.nodup, fun k => ?_, fun k mem => ?_, fun k mem => ?_,
      fun x hx y hy a b ha hb => ?_⟩
    · rw [h.keys]
      rw [named_concat]
      constructor
      · exact .inl
      · rintro (named | hk)
        · exact named
        · rcases List.mem_cons.mp hk with rfl | hk
          · exact (h.keys k).mp hi
          · rw [List.mem_singleton.mp hk]
            exact (h.keys target).mp ht
    · show Function.update forest.parent own top k ∈ forest.keys
      by_cases here : k = own
      · rw [here, Function.update_self]
        exact top_root.mem h.closed ht
      · rw [Function.update_of_ne here]
        exact h.closed k mem
    · obtain ⟨r, rooted⟩ := h.rooted k mem
      exact ⟨moved r, moves k r rooted⟩
    · obtain ⟨rx, hrx⟩ := h.rooted x hx
      obtain ⟨ry, hry⟩ := h.rooted y hy
      rw [ha.unique (moves x rx hrx), hb.unique (moves y ry hry)]
      constructor
      · intro same
        have toward : ∀ k r, k ∈ forest.keys → Root forest.parent k r →
            ReflTransGen (Joined (sets ++ [[item, target]])) k (moved r) := by
          intro k r mem rooted
          have reach := larger k r (h.reach_root mem rooted)
          by_cases here : r = own
          · have back := reach_symm (joined_symm sets) (h.reach_root hi own_root)
            have last := h.reach_root ht top_root
            rw [moved_def]
            simp only [if_pos here]
            exact ((reach.trans (here ▸ larger _ _ back)).trans bridge).trans (larger _ _ last)
          · rw [moved_def]
            simp only [if_neg here]
            exact reach
        have back := reach_symm (joined_symm _) (toward y ry hy hry)
        exact (same ▸ toward x rx hx hrx).trans back
      · -- every link keeps the root that the key has moved to
        intro reach
        have along : y ∈ forest.keys ∧ ∀ r, Root forest.parent y r → moved rx = moved r := by
          clear hb hry hy
          induction reach with
          | refl => exact ⟨hx, fun r rooted => by rw [hrx.unique rooted]⟩
          | @tail z y _ link ih =>
            obtain ⟨hz, ih⟩ := ih
            obtain ⟨rz, hrz⟩ := h.rooted z hz
            rcases joined_concat.mp link with link | ⟨hz', hy'⟩
            · have mem : y ∈ forest.keys := by
                obtain ⟨members, mem, -, hy⟩ := link
                exact (h.keys y).mpr ⟨members, mem, hy⟩
              refine ⟨mem, fun r rooted => ?_⟩
              rw [ih rz hrz, (h.classes z hz y mem rz r hrz rooted).mpr (.single link)]
            · have each : ∀ k r, k ∈ [item, target] → Root forest.parent k r →
                  moved r = top := by
                intro k r mem rooted
                rcases List.mem_cons.mp mem with rfl | mem
                · rw [rooted.unique own_root, moved_def]
                  simp only [if_pos]
                · rw [List.mem_singleton.mp mem] at rooted
                  rw [rooted.unique top_root, moved_def]
                  by_cases here : top = own
                  · simp only [if_pos here]
                  · simp only [if_neg here]
              refine ⟨?_, fun r rooted => ?_⟩
              · rcases List.mem_cons.mp hy' with rfl | hy'
                · exact hi
                · exact List.mem_singleton.mp hy' ▸ ht
              · rw [ih rz hrz, each z rz hz' hrz, each y r hy' rooted]
        exact along.2 ry hry

/-! ## Uniting the members of a set -/

/-- The key is there, below the root. -/
def Under (forest : Forest κ) (key top : κ) : Prop :=
  key ∈ forest.keys ∧ Root forest.parent key top

/-- The roots of keys, each of which is inserted. -/
theorem IsForest.rootsOf_spec (h : IsForest forest sets) (keys : List κ) :
    ∃ forest' tops, forest.rootsOf keys = .ok (forest', tops) ∧ Keeps forest forest' ∧
      IsForest forest' (sets ++ keys.map fun key => [key]) ∧
      (∀ key ∈ keys, ∃ top ∈ tops, Under forest' key top) ∧
      ∀ top ∈ tops, ∃ key ∈ keys, Under forest' key top := by
  induction keys generalizing forest sets with
  | nil =>
    refine ⟨forest, [], rfl, fun key mem => ⟨mem, fun _ rooted => rooted⟩, ?_, ?_, ?_⟩
    · rw [List.map_nil, List.append_nil]
      exact h
    · intro key mem
      cases mem
    · intro top mem
      cases mem
  | cons key keys ih =>
    obtain ⟨top, found, rooted⟩ := h.root_spec key
    obtain ⟨forest', tops, rest, keeps, isForest, under, own⟩ := ih (h.insert key)
    obtain ⟨mem, roots⟩ := keeps key (mem_keys_insert.mpr (.inr rfl))
    have first : Under forest' key top := ⟨mem, roots top rooted⟩
    refine ⟨forest', top :: tops, ?_, (h.keeps_insert key).trans keeps, ?_, ?_, ?_⟩
    · unfold Forest.rootsOf
      exact bind_eq_ok.mpr ⟨⟨_, top⟩, found, bind_eq_ok.mpr ⟨⟨forest', tops⟩, rest, rfl⟩⟩
    · rw [List.map_cons, List.append_cons]
      exact isForest
    · intro key' mem
      rcases List.mem_cons.mp mem with rfl | mem
      · exact ⟨top, List.mem_cons_self, first⟩
      · obtain ⟨top', mem, below⟩ := under key' mem
        exact ⟨top', List.mem_cons_of_mem _ mem, below⟩
    · intro top' mem
      rcases List.mem_cons.mp mem with rfl | mem
      · exact ⟨key, List.mem_cons_self, first⟩
      · obtain ⟨key', mem, below⟩ := own top' mem
        exact ⟨key', List.mem_cons_of_mem _ mem, below⟩

/-- Uniting keys with one target, one after the other. -/
theorem IsForest.uniteAll_spec (h : IsForest forest sets) {target : κ} {items : List κ}
    (ht : target ∈ forest.keys) (hi : ∀ item ∈ items, item ∈ forest.keys) :
    ∃ forest', items.foldlM (fun forest item => forest.unite item target) forest = .ok forest' ∧
      IsForest forest' (sets ++ items.map fun item => [item, target]) := by
  induction items generalizing forest sets with
  | nil =>
    refine ⟨forest, rfl, ?_⟩
    rw [List.map_nil, List.append_nil]
    exact h
  | cons item items ih =>
    obtain ⟨forest', united, keys, isForest⟩ := h.unite (hi item List.mem_cons_self) ht
    obtain ⟨forest'', rest, isForest'⟩ := ih isForest (keys ▸ ht)
      fun item' mem => keys ▸ hi item' (List.mem_cons_of_mem _ mem)
    refine ⟨forest'', ?_, ?_⟩
    · rw [List.foldlM_cons, united]
      exact rest
    · rw [List.map_cons, List.append_cons]
      exact isForest'

/-- **Spanning keys** joins their components, and no others. -/
theorem IsForest.span_spec (h : IsForest forest sets) (le : κ → κ → Prop) [DecidableRel le]
    {keys : List κ} (some_ : keys ≠ []) :
    ∃ forest', forest.span le keys = .ok forest' ∧ IsForest forest' (sets ++ [keys]) := by
  obtain ⟨inserted, tops, found, -, isForest, under, own⟩ := h.rootsOf_spec keys
  have sorted_mem : ∀ top, top ∈ tops.insertionSort le ↔ top ∈ tops :=
    fun top => (List.perm_insertionSort le tops).mem_iff
  have there : ∀ top ∈ tops, top ∈ inserted.keys := by
    intro top mem
    obtain ⟨key, -, mem, rooted⟩ := own top mem
    exact rooted.mem isForest.closed mem
  have below : ∀ key top, Under inserted key top → ReflTransGen (Joined sets) key top :=
    fun key top h => reach_of_joined (fun _ _ => reach_singles) (isForest.reach_root h.1 h.2)
  unfold Forest.span
  rcases order : tops.insertionSort le with _ | ⟨target, items⟩
  · obtain ⟨key, mem⟩ := List.exists_mem_of_ne_nil keys some_
    obtain ⟨top, mem, -⟩ := under key mem
    rw [← sorted_mem, order] at mem
    cases mem
  · have top_mem : ∀ top, top ∈ tops ↔ top = target ∨ top ∈ items := by
      intro top
      rw [← sorted_mem, order, List.mem_cons]
    have ht : target ∈ tops := (top_mem target).mpr (.inl rfl)
    have hi : ∀ item ∈ items, item ∈ tops := fun item mem => (top_mem item).mpr (.inr mem)
    obtain ⟨forest', united, isForest'⟩ := isForest.uniteAll_spec (there target ht)
      fun item mem => there item (hi item mem)
    refine ⟨forest', ?_, isForest'.congr (fun x => ?_) (fun x y => ?_) (fun x y => ?_)⟩
    · refine bind_eq_ok.mpr ⟨⟨inserted, tops⟩, found, ?_⟩
      show inserted.uniteAll (tops.insertionSort le) = .ok forest'
      rw [order]
      exact united
    · constructor
      · rintro ⟨members, mem, hx⟩
        have inside : x ∈ inserted.keys := by
          rcases List.mem_append.mp mem with mem | mem
          · exact (isForest.keys x).mpr ⟨members, mem, hx⟩
          · obtain ⟨item, hitem, rfl⟩ := List.mem_map.mp mem
            rcases List.mem_cons.mp hx with rfl | hx
            · exact there _ (hi _ hitem)
            · rw [List.mem_singleton.mp hx]
              exact there target ht
        obtain ⟨members, mem, hx⟩ := (isForest.keys x).mp inside
        rcases List.mem_append.mp mem with mem | mem
        · exact ⟨members, List.mem_append_left _ mem, hx⟩
        · obtain ⟨key, hkey, rfl⟩ := List.mem_map.mp mem
          rw [List.mem_singleton.mp hx]
          exact named_concat.mpr (.inr hkey)
      · rintro ⟨members, mem, hx⟩
        rcases List.mem_append.mp mem with mem | mem
        · exact ⟨members, by simp [mem], hx⟩
        · rw [List.mem_singleton.mp mem] at hx
          exact ⟨[x], by simp [hx], List.mem_singleton.mpr rfl⟩
    · -- a pair of roots lies below two of the keys
      rintro ⟨members, mem, hx, hy⟩
      rcases List.mem_append.mp mem with mem | mem
      · exact larger_reach (reach_singles ⟨members, mem, hx, hy⟩)
      · obtain ⟨item, hitem, rfl⟩ := List.mem_map.mp mem
        have each : ∀ z ∈ [item, target], z ∈ tops := by
          intro z hz
          rcases List.mem_cons.mp hz with rfl | hz
          · exact hi z hitem
          · rw [List.mem_singleton.mp hz]
            exact ht
        obtain ⟨kx, hkx, ux⟩ := own x (each x hx)
        obtain ⟨ky, hky, uy⟩ := own y (each y hy)
        have across : ReflTransGen (Joined (sets ++ [keys])) kx ky :=
          .single (joined_concat.mpr (.inr ⟨hkx, hky⟩))
        have back := reach_symm (joined_symm sets) (below kx x ux)
        exact ((larger_reach back).trans across).trans (larger_reach (below ky y uy))
    · -- two of the keys lie below roots that were united
      rintro ⟨members, mem, hx, hy⟩
      rcases List.mem_append.mp mem with mem | mem
      · exact larger_reach (larger_reach (.single ⟨members, mem, hx, hy⟩))
      · rw [List.mem_singleton.mp mem] at hx hy
        have up : ∀ z ∈ keys, ReflTransGen (Joined (sets ++ (keys.map fun key => [key]) ++
            items.map fun item => [item, target])) z target := by
          intro z hz
          obtain ⟨top, mem, u⟩ := under z hz
          have reach : ReflTransGen (Joined (sets ++ (keys.map fun key => [key]) ++
              items.map fun item => [item, target])) z top :=
            larger_reach (larger_reach (below z top u))
          rcases (top_mem top).mp mem with rfl | mem
          · exact reach
          · have pair : [top, target] ∈ items.map fun item => [item, target] :=
              List.mem_map.mpr ⟨top, mem, rfl⟩
            exact reach.tail ⟨[top, target], List.mem_append_right _ pair, by simp, by simp⟩
        exact (up x hx).trans (reach_symm (joined_symm _) (up y hy))

/-- **Spanning sets** one after the other gives the forest of their components. -/
theorem IsForest.spans_spec (h : IsForest forest sets) (le : κ → κ → Prop) [DecidableRel le]
    {more : List (List κ)} (some_ : ∀ keys ∈ more, keys ≠ []) :
    ∃ forest', more.foldlM (Forest.span le) forest = .ok forest' ∧
      IsForest forest' (sets ++ more) := by
  induction more generalizing forest sets with
  | nil =>
    refine ⟨forest, rfl, ?_⟩
    rw [List.append_nil]
    exact h
  | cons keys more ih =>
    obtain ⟨forest', spanned, isForest⟩ := h.span_spec le (some_ keys List.mem_cons_self)
    obtain ⟨forest'', rest, isForest'⟩ := ih isForest fun keys mem =>
      some_ keys (List.mem_cons_of_mem _ mem)
    refine ⟨forest'', ?_, ?_⟩
    · rw [List.foldlM_cons, spanned]
      exact rest
    · rw [List.append_cons]
      exact isForest'

/-- **The roots of all keys** are as many as there are components. -/
theorem IsForest.count_roots (h : IsForest forest sets) :
    ∃ tops, forest.rootsOf forest.keys = .ok (forest, tops) ∧
      tops.dedup.length = count (Named sets) (Joined sets) := by
  classical
  have all : ∀ keys : List κ, (∀ k ∈ keys, k ∈ forest.keys) → ∀ root : κ → κ,
      (∀ k ∈ forest.keys, Root forest.parent k (root k)) →
      forest.rootsOf keys = .ok (forest, keys.map root) := by
    intro keys sub root rooted
    induction keys with
    | nil => rfl
    | cons key keys ih =>
      have mem := sub key List.mem_cons_self
      have rest := ih fun k hk => sub k (List.mem_cons_of_mem _ hk)
      unfold Forest.rootsOf
      exact bind_eq_ok.mpr ⟨⟨forest, root key⟩, h.root_eq mem (rooted key mem),
        bind_eq_ok.mpr ⟨⟨forest, keys.map root⟩, rest, rfl⟩⟩
  choose! root rooted using h.rooted
  refine ⟨forest.keys.map root, all forest.keys (fun _ mem => mem) root rooted, ?_⟩
  exact count_eq_labels (joined_symm sets) h.keys fun x hx y hy =>
    h.classes x hx y hy _ _ (rooted x hx) (rooted y hy)

end

end UnionFind
