import Mathlib.Data.Set.Card
import Mathlib.Logic.Relation
import Mathlib.Tactic.Common

/-!
# Connected components

The components of the vertices of a graph, as blocks of their members.

1. blocks that are the components, their number, and that they are the only ones;
2. the components of parts without links between them;
3. vertices named by sets whose members are linked;
4. sets linked by the members they share;
5. what one more set merges.
-/

namespace Components

open Relation

/-! ## Blocks -/

section
variable {α : Type} {vertex : α → Prop} {link : α → α → Prop}

/-- The blocks are the connected components of the vertices. -/
structure IsComponents (vertex : α → Prop) (link : α → α → Prop) (blocks : List (List α)) :
    Prop where
  nonempty : ∀ block ∈ blocks, block ≠ []
  apart : blocks.Pairwise List.Disjoint
  covers : ∀ x, (∃ block ∈ blocks, x ∈ block) ↔ vertex x
  connected : ∀ block ∈ blocks, ∀ x ∈ block, ∀ y, y ∈ block ↔ ReflTransGen link x y

/-- The component of a vertex. -/
def componentOf (link : α → α → Prop) (x : α) : Set α := {y | ReflTransGen link x y}

/-- The number of components. -/
noncomputable def count (vertex : α → Prop) (link : α → α → Prop) : ℕ :=
  Set.ncard {component : Set α | ∃ x, vertex x ∧ component = componentOf link x}

theorem reach_symm (symmetric : ∀ x y, link x y → link y x) {x y : α}
    (reach : ReflTransGen link x y) : ReflTransGen link y x := by
  induction reach with
  | refl => exact .refl
  | tail _ last ih => exact .head (symmetric _ _ last) ih

theorem componentOf_eq (symmetric : ∀ x y, link x y → link y x) {x y : α} :
    componentOf link x = componentOf link y ↔ ReflTransGen link x y := by
  constructor
  · intro same
    have mem : y ∈ componentOf link y := ReflTransGen.refl
    rw [← same] at mem
    exact mem
  · intro reach
    ext z
    exact ⟨fun h => (reach_symm symmetric reach).trans h, fun h => reach.trans h⟩

/-- Two ways to label the elements of a list apart give as many labels. -/
theorem length_dedup_map {ρ σ : Type} [DecidableEq ρ] [DecidableEq σ] {xs : List α} {f : α → ρ}
    {g : α → σ} (same : ∀ x ∈ xs, ∀ y ∈ xs, f x = f y ↔ g x = g y) :
    (xs.map f).dedup.length = (xs.map g).dedup.length := by
  induction xs with
  | nil => rfl
  | cons x xs ih =>
    have rest := ih fun y hy z hz =>
      same y (List.mem_cons_of_mem _ hy) z (List.mem_cons_of_mem _ hz)
    have repeated : f x ∈ xs.map f ↔ g x ∈ xs.map g := by
      rw [List.mem_map, List.mem_map]
      refine exists_congr fun y => and_congr_right fun hy => ?_
      exact same y (List.mem_cons_of_mem _ hy) x List.mem_cons_self
    rw [List.map_cons, List.map_cons]
    by_cases h : f x ∈ xs.map f
    · rw [List.dedup_cons_of_mem h, List.dedup_cons_of_mem (repeated.mp h), rest]
    · rw [List.dedup_cons_of_notMem h, List.dedup_cons_of_notMem fun h' => h (repeated.mpr h'),
        List.length_cons, List.length_cons, rest]

/-- **Vertices labelled apart exactly where they lie in different components** are labelled in as
many ways as there are components. -/
theorem count_eq_labels {ρ : Type} [DecidableEq ρ] (symmetric : ∀ x y, link x y → link y x)
    {vertices : List α} (all : ∀ x, x ∈ vertices ↔ vertex x) {label : α → ρ}
    (labels : ∀ x ∈ vertices, ∀ y ∈ vertices, label x = label y ↔ ReflTransGen link x y) :
    (vertices.map label).dedup.length = count vertex link := by
  classical
  have image : {component : Set α | ∃ x, vertex x ∧ component = componentOf link x} =
      ((vertices.map (componentOf link)).toFinset : Set (Set α)) := by
    ext component
    rw [List.coe_toFinset]
    constructor
    · rintro ⟨x, hx, rfl⟩
      exact List.mem_map.mpr ⟨x, (all x).mpr hx, rfl⟩
    · intro mem
      obtain ⟨x, hx, rfl⟩ := List.mem_map.mp mem
      exact ⟨x, (all x).mp hx, rfl⟩
  have card : ((vertices.map (componentOf link)).toFinset).card =
      (vertices.map (componentOf link)).dedup.length := rfl
  rw [count, image, Set.ncard_coe_finset, card]
  exact length_dedup_map fun x hx y hy => (labels x hx y hy).trans (componentOf_eq symmetric).symm

/-- A member is found in its block, and in no other. -/
theorem IsComponents.find?_eq [DecidableEq α] {blocks : List (List α)}
    (apart : blocks.Pairwise List.Disjoint) {block : List α} (mem : block ∈ blocks) {x : α}
    (inside : x ∈ block) : blocks.find? (fun block => decide (x ∈ block)) = some block := by
  induction blocks with
  | nil => cases mem
  | cons first blocks ih =>
    obtain ⟨disjoint, apart⟩ := List.pairwise_cons.mp apart
    rcases List.mem_cons.mp mem with rfl | mem
    · rw [List.find?_cons_of_pos (by simpa using inside)]
    · have outside : x ∉ first := fun h => disjoint block mem h inside
      rw [List.find?_cons_of_neg (by simpa using outside)]
      exact ih apart mem

/-- Blocks apart from each other differ. -/
theorem IsComponents.nodup {blocks : List (List α)} (components : IsComponents vertex link blocks) :
    blocks.Nodup := by
  refine components.apart.imp_of_mem fun {a b} ha _ disjoint same => ?_
  obtain ⟨x, hx⟩ := List.exists_mem_of_ne_nil a (components.nonempty a ha)
  exact disjoint hx (same ▸ hx)

/-- **The number of blocks is the number of components.** -/
theorem IsComponents.length_eq [DecidableEq α] {blocks : List (List α)}
    (components : IsComponents vertex link blocks) (symmetric : ∀ x y, link x y → link y x) :
    blocks.length = count vertex link := by
  have all : ∀ x, x ∈ blocks.flatten ↔ vertex x := by
    intro x
    rw [List.mem_flatten, ← components.covers]
  have own : ∀ block ∈ blocks, ∀ x ∈ block,
      blocks.find? (fun block => decide (x ∈ block)) = some block :=
    fun block mem x inside => find?_eq components.apart mem inside
  have labels : ∀ x ∈ blocks.flatten, ∀ y ∈ blocks.flatten,
      blocks.find? (fun block => decide (x ∈ block)) =
        blocks.find? (fun block => decide (y ∈ block)) ↔ ReflTransGen link x y := by
    intro x hx y hy
    obtain ⟨a, ha, hx⟩ := List.mem_flatten.mp hx
    obtain ⟨b, hb, hy⟩ := List.mem_flatten.mp hy
    rw [own a ha x hx, own b hb y hy, ← components.connected a ha x hx]
    constructor
    · intro same
      rw [Option.some.inj same]
      exact hy
    · intro mem
      rw [← own a ha y mem, own b hb y hy]
  rw [← count_eq_labels symmetric all labels, ← List.length_map (f := some)]
  refine List.Perm.length_eq ((List.perm_ext_iff_of_nodup
    (components.nodup.map (Option.some_injective _)) (List.nodup_dedup _)).mpr fun label => ?_)
  rw [List.mem_dedup, List.mem_map, List.mem_map]
  constructor
  · rintro ⟨block, mem, rfl⟩
    obtain ⟨x, hx⟩ := List.exists_mem_of_ne_nil block (components.nonempty block mem)
    exact ⟨x, List.mem_flatten.mpr ⟨block, mem, hx⟩, own block mem x hx⟩
  · rintro ⟨x, hx, rfl⟩
    obtain ⟨block, mem, hx⟩ := List.mem_flatten.mp hx
    exact ⟨block, mem, (own block mem x hx).symm⟩

/-- The components of a graph are the same blocks, up to the order of their members. -/
theorem IsComponents.block_of {blocks blocks' : List (List α)}
    (components : IsComponents vertex link blocks)
    (components' : IsComponents vertex link blocks') {block : List α} (mem : block ∈ blocks) :
    ∃ block' ∈ blocks', ∀ x, x ∈ block' ↔ x ∈ block := by
  obtain ⟨x, hx⟩ := List.exists_mem_of_ne_nil block (components.nonempty block mem)
  obtain ⟨block', mem', hx'⟩ := (components'.covers x).mpr ((components.covers x).mp ⟨block, mem, hx⟩)
  refine ⟨block', mem', fun y => ?_⟩
  rw [components'.connected block' mem' x hx', components.connected block mem x hx]

end

/-! ## Separate parts -/

section
variable {α : Type} {link : α → α → Prop} {blocks blocks' : List (List α)}

/-- The links between vertices. -/
def within (vertex : α → Prop) (link : α → α → Prop) (x y : α) : Prop :=
  vertex x ∧ vertex y ∧ link x y

theorem reach_within_mono {vertex vertex' : α → Prop} (sub : ∀ x, vertex x → vertex' x) {x y : α}
    (reach : ReflTransGen (within vertex link) x y) : ReflTransGen (within vertex' link) x y :=
  ReflTransGen.mono (fun u v h => ⟨sub u h.1, sub v h.2.1, h.2.2⟩) x y reach

/-- Members that reach each other are one component. -/
theorem isComponents_singleton {block : List α} (some_ : block ≠ [])
    (joined : ∀ x ∈ block, ∀ y ∈ block, ReflTransGen (within (· ∈ block) link) x y) :
    IsComponents (· ∈ block) (within (· ∈ block) link) [block] := by
  refine ⟨fun other mem => ?_, List.pairwise_singleton _ _, fun x => ?_, fun other mem x hx y => ?_⟩
  · rw [List.mem_singleton.mp mem]
    exact some_
  · simp only [List.mem_singleton, exists_eq_left]
  · rw [List.mem_singleton.mp mem] at hx ⊢
    constructor
    · exact joined x hx y
    · intro reach
      rcases reach.cases_tail with rfl | ⟨z, -, -, hy, -⟩
      · exact hx
      · exact hy

/-- From one part the other is not reached. -/
theorem reach_part {part rest : α → Prop} (cut : ∀ x y, part x → rest y → ¬ link x y) {x y : α}
    (inside : part x) : ReflTransGen (within (fun z => part z ∨ rest z) link) x y ↔
      ReflTransGen (within part link) x y := by
  constructor
  · intro reach
    have along : part y ∧ ReflTransGen (within part link) x y := by
      induction reach with
      | refl => exact ⟨inside, .refl⟩
      | tail _ last ih =>
        obtain ⟨here, reach⟩ := ih
        obtain ⟨-, hv, linked⟩ := last
        rcases hv with hv | hv
        · exact ⟨hv, reach.tail ⟨here, hv, linked⟩⟩
        · exact absurd linked (cut _ _ here hv)
    exact along.2
  · exact reach_within_mono fun _ => .inl

/-- **Two parts without links between them** have the components of both. -/
theorem IsComponents.append {part rest : α → Prop}
    (components : IsComponents part (within part link) blocks)
    (components' : IsComponents rest (within rest link) blocks')
    (apart : ∀ x, part x → ¬ rest x)
    (cut : ∀ x y, part x → rest y → ¬ link x y ∧ ¬ link y x) :
    IsComponents (fun x => part x ∨ rest x) (within (fun x => part x ∨ rest x) link)
      (blocks ++ blocks') := by
  have swap : within (fun x => part x ∨ rest x) link = within (fun x => rest x ∨ part x) link := by
    have same : (fun x => part x ∨ rest x) = fun x => rest x ∨ part x :=
      funext fun x => propext or_comm
    rw [same]
  refine ⟨fun block mem => ?_, ?_, fun x => ?_, fun block mem x hx y => ?_⟩
  · rcases List.mem_append.mp mem with mem | mem
    · exact components.nonempty block mem
    · exact components'.nonempty block mem
  · refine List.pairwise_append.mpr ⟨components.apart, components'.apart, ?_⟩
    intro block mem block' mem' x hx hx'
    exact apart x ((components.covers x).mp ⟨block, mem, hx⟩)
      ((components'.covers x).mp ⟨block', mem', hx'⟩)
  · rw [← components.covers, ← components'.covers]
    simp only [List.mem_append, or_and_right, exists_or]
  · rcases List.mem_append.mp mem with mem | mem
    · rw [components.connected block mem x hx,
        reach_part (fun u v hu hv => (cut u v hu hv).1) ((components.covers x).mp ⟨block, mem, hx⟩)]
    · rw [components'.connected block mem x hx, swap,
        reach_part (fun u v hu hv => (cut v u hv hu).2) ((components'.covers x).mp ⟨block, mem, hx⟩)]

end

/-! ## Vertices named by sets -/

section
variable {α : Type}

/-- A member of one of the sets. -/
def Named (sets : List (List α)) (x : α) : Prop := ∃ members ∈ sets, x ∈ members

/-- Two members of one set. -/
def Joined (sets : List (List α)) (x y : α) : Prop := ∃ members ∈ sets, x ∈ members ∧ y ∈ members

theorem joined_symm (sets : List (List α)) (x y : α) (h : Joined sets x y) : Joined sets y x := by
  obtain ⟨members, mem, hx, hy⟩ := h
  exact ⟨members, mem, hy, hx⟩

/-- Where every set is joined in others, what it connects they connect. -/
theorem reach_of_joined {sets sets' : List (List α)}
    (each : ∀ x y, Joined sets x y → ReflTransGen (Joined sets') x y) {x y : α}
    (reach : ReflTransGen (Joined sets) x y) : ReflTransGen (Joined sets') x y := by
  induction reach with
  | refl => exact .refl
  | tail _ last ih => exact ih.trans (each _ _ last)

theorem Joined.mono {sets sets' : List (List α)} (sub : ∀ members ∈ sets, members ∈ sets') {x y : α}
    (h : Joined sets x y) : Joined sets' x y := by
  obtain ⟨members, mem, hx, hy⟩ := h
  exact ⟨members, sub members mem, hx, hy⟩

theorem larger_reach {sets more : List (List α)} {x y : α}
    (reach : ReflTransGen (Joined sets) x y) : ReflTransGen (Joined (sets ++ more)) x y :=
  reach_of_joined (fun _ _ h => .single (h.mono fun _ => List.mem_append_left _)) reach

theorem named_concat {sets : List (List α)} {members : List α} {x : α} :
    Named (sets ++ [members]) x ↔ Named sets x ∨ x ∈ members := by
  constructor
  · rintro ⟨members', mem, hx⟩
    rcases List.mem_append.mp mem with mem | mem
    · exact .inl ⟨members', mem, hx⟩
    · exact .inr (List.mem_singleton.mp mem ▸ hx)
  · rintro (⟨members', mem, hx⟩ | hx)
    · exact ⟨members', List.mem_append_left _ mem, hx⟩
    · exact ⟨members, List.mem_append_right _ (List.mem_singleton.mpr rfl), hx⟩

theorem joined_concat {sets : List (List α)} {members : List α} {x y : α} :
    Joined (sets ++ [members]) x y ↔ Joined sets x y ∨ x ∈ members ∧ y ∈ members := by
  constructor
  · rintro ⟨members', mem, hx, hy⟩
    rcases List.mem_append.mp mem with mem | mem
    · exact .inl ⟨members', mem, hx, hy⟩
    · rw [List.mem_singleton.mp mem] at hx hy
      exact .inr ⟨hx, hy⟩
  · rintro (joined | ⟨hx, hy⟩)
    · exact joined.mono fun _ => List.mem_append_left _
    · exact ⟨members, List.mem_append_right _ (List.mem_singleton.mpr rfl), hx, hy⟩

end

/-! ## Sets that share members -/

section
variable {α ρ : Type} {members : ρ → List α} {sets : List ρ}

/-- Two of the sets, with a member in common. -/
def Sharing (members : ρ → List α) (sets : List ρ) (s t : ρ) : Prop :=
  s ∈ sets ∧ t ∈ sets ∧ ∃ x, x ∈ members s ∧ x ∈ members t

/-- Members are connected where their sets are. -/
theorem reach_sharing {s t : ρ} {x y : α} (hs : s ∈ sets) (ht : t ∈ sets) (hx : x ∈ members s)
    (hy : y ∈ members t) :
    ReflTransGen (Joined (sets.map members)) x y ↔ ReflTransGen (Sharing members sets) s t := by
  constructor
  · intro reach
    induction reach generalizing t with
    | refl => exact .single ⟨hs, ht, x, hx, hy⟩
    | tail _ last ih =>
      obtain ⟨_, mem, hz, hw⟩ := last
      obtain ⟨u, hu, rfl⟩ := List.mem_map.mp mem
      exact (ih hu hz).tail ⟨hu, ht, _, hw, hy⟩
  · intro reach
    induction reach generalizing y with
    | refl => exact .single ⟨members s, List.mem_map.mpr ⟨s, hs, rfl⟩, hx, hy⟩
    | tail _ last ih =>
      obtain ⟨hu, -, w, hw, hw'⟩ := last
      exact (ih hu hw).tail ⟨_, List.mem_map.mpr ⟨_, ht, rfl⟩, hw', hy⟩

/-- The members of the sets of one component are a component themselves. -/
theorem members_componentOf {s : ρ} {x : α} (hs : s ∈ sets) (hx : x ∈ members s) :
    {y | ∃ t ∈ componentOf (Sharing members sets) s, t ∈ sets ∧ y ∈ members t} =
      componentOf (Joined (sets.map members)) x := by
  ext y
  constructor
  · rintro ⟨t, reach, ht, hy⟩
    exact (reach_sharing hs ht hx hy).mpr reach
  · intro reach
    have inside : ∃ t ∈ sets, y ∈ members t := by
      rcases reach.cases_tail with rfl | ⟨z, -, _, mem, -, hy⟩
      · exact ⟨s, hs, hx⟩
      · obtain ⟨t, ht, rfl⟩ := List.mem_map.mp mem
        exact ⟨t, ht, hy⟩
    obtain ⟨t, ht, hy⟩ := inside
    exact ⟨t, (reach_sharing hs ht hx hy).mp reach, ht, hy⟩

/-- **Sets that share members** have as many components as the members they join. -/
theorem count_sharing (some_ : ∀ s ∈ sets, members s ≠ []) :
    count (· ∈ sets) (Sharing members sets) =
      count (Named (sets.map members)) (Joined (sets.map members)) := by
  have first : ∀ s ∈ sets, ∃ x, x ∈ members s :=
    fun s mem => List.exists_mem_of_ne_nil _ (some_ s mem)
  refine Set.ncard_congr (fun component _ => {y | ∃ t ∈ component, t ∈ sets ∧ y ∈ members t})
    ?_ ?_ ?_
  · rintro _ ⟨s, hs, rfl⟩
    obtain ⟨x, hx⟩ := first s hs
    exact ⟨x, ⟨_, List.mem_map.mpr ⟨s, hs, rfl⟩, hx⟩, members_componentOf hs hx⟩
  · rintro _ _ ⟨s, hs, rfl⟩ ⟨t, ht, rfl⟩ same
    obtain ⟨x, hx⟩ := first s hs
    obtain ⟨y, hy⟩ := first t ht
    rw [members_componentOf hs hx, members_componentOf ht hy,
      componentOf_eq (joined_symm _), reach_sharing hs ht hx hy] at same
    refine (componentOf_eq ?_).mpr same
    rintro u v ⟨hu, hv, z, hzu, hzv⟩
    exact ⟨hv, hu, z, hzv, hzu⟩
  · rintro _ ⟨x, ⟨_, mem, hx⟩, rfl⟩
    obtain ⟨s, hs, rfl⟩ := List.mem_map.mp mem
    exact ⟨_, ⟨s, hs, rfl⟩, members_componentOf hs hx⟩

end

/-! ## Merging one more set -/

section
variable {α : Type} [DecidableEq α]

/-- The two sets share a member. -/
def meets (members block : List α) : Bool := members.any (· ∈ block)

/-- The blocks the growing set does not meet, and the set grown by those it meets. -/
def absorb (blocks : List (List α)) (members : List α) : List (List α) × List α :=
  blocks.foldl (fun (separate, members) block =>
    if meets members block then (separate, members ++ block)
    else (separate ++ [block], members)) ([], members)

/-- The blocks after one more set. -/
def mergeInto (blocks : List (List α)) (members : List α) : List (List α) :=
  let (separate, merged) := absorb blocks members
  separate ++ [merged]

theorem meets_iff {members block : List α} : meets members block = true ↔
    ∃ x ∈ members, x ∈ block := by
  unfold meets
  rw [List.any_eq_true]
  simp only [decide_eq_true_eq]

theorem meets_append_of_disjoint {members extra block : List α} (disjoint : extra.Disjoint block) :
    meets (members ++ extra) block = meets members block := by
  rw [Bool.eq_iff_iff, meets_iff, meets_iff]
  constructor
  · rintro ⟨x, mem, inside⟩
    rcases List.mem_append.mp mem with mem | mem
    · exact ⟨x, mem, inside⟩
    · exact absurd inside (disjoint mem)
  · rintro ⟨x, mem, inside⟩
    exact ⟨x, List.mem_append_left _ mem, inside⟩

/-- Blocks apart from each other are met by the set itself or not at all. -/
theorem absorb_eq {blocks : List (List α)} (apart : blocks.Pairwise List.Disjoint)
    (members : List α) : absorb blocks members =
      (blocks.filter (! meets members ·), members ++ (blocks.filter (meets members ·)).flatten) := by
  suffices general : ∀ (separate : List (List α)) (extra : List α),
      (∀ block ∈ blocks, extra.Disjoint block) →
      blocks.foldl (fun (separate, members) block =>
        if meets members block then (separate, members ++ block)
        else (separate ++ [block], members)) (separate, members ++ extra) =
        (separate ++ blocks.filter (! meets members ·),
          members ++ extra ++ (blocks.filter (meets members ·)).flatten) by
    have whole := general [] [] fun _ _ _ mem => absurd mem List.not_mem_nil
    rw [List.append_nil, List.nil_append] at whole
    exact whole
  induction blocks with
  | nil =>
    intro separate extra _
    simp only [List.foldl_nil, List.filter_nil, List.flatten_nil, List.append_nil]
  | cons block blocks ih =>
    intro separate extra far
    obtain ⟨disjoint, apart⟩ := List.pairwise_cons.mp apart
    have same : meets (members ++ extra) block = meets members block :=
      meets_append_of_disjoint (far block List.mem_cons_self)
    rw [List.foldl_cons]
    simp only [same]
    by_cases met : meets members block = true
    · rw [if_pos met, List.append_assoc, ih apart separate (extra ++ block),
        List.filter_cons_of_neg (by simp [met]), List.filter_cons_of_pos met, List.flatten_cons]
      · simp only [List.append_assoc]
      · intro other mem x inside there
        rcases List.mem_append.mp inside with inside | inside
        · exact far other (List.mem_cons_of_mem _ mem) inside there
        · exact disjoint other mem inside there
    · rw [if_neg met, ih apart (separate ++ [block]) extra,
        List.filter_cons_of_pos (by simpa using met), List.filter_cons_of_neg met]
      · simp only [List.append_assoc, List.singleton_append]
      · exact fun other mem => far other (List.mem_cons_of_mem _ mem)

/-- **Merging one more set** into the components gives those of all sets. -/
theorem IsComponents.merge {sets blocks : List (List α)}
    (components : IsComponents (Named sets) (Joined sets) blocks) {members : List α}
    (some_ : members ≠ []) :
    IsComponents (Named (sets ++ [members])) (Joined (sets ++ [members]))
      (mergeInto blocks members) := by
  have merged : mergeInto blocks members = blocks.filter (! meets members ·) ++
      [members ++ (blocks.filter (meets members ·)).flatten] := by
    unfold mergeInto
    rw [absorb_eq components.apart]
  have separate_mem : ∀ block, block ∈ blocks.filter (! meets members ·) ↔
      block ∈ blocks ∧ ∀ x ∈ members, x ∉ block := by
    intro block
    rw [List.mem_filter, Bool.not_eq_true', Bool.eq_false_iff, Ne, meets_iff]
    refine and_congr_right fun _ => ?_
    constructor
    · intro none x mem inside
      exact none ⟨x, mem, inside⟩
    · rintro none ⟨x, mem, inside⟩
      exact none x mem inside
  have merged_mem : ∀ x, x ∈ members ++ (blocks.filter (meets members ·)).flatten ↔
      x ∈ members ∨ ∃ block ∈ blocks, (∃ z ∈ members, z ∈ block) ∧ x ∈ block := by
    intro x
    rw [List.mem_append, List.mem_flatten]
    refine or_congr_right ?_
    simp only [List.mem_filter, meets_iff, and_assoc]
  -- a block reaches no further than itself
  have stays : ∀ block ∈ blocks, ∀ u ∈ block, ∀ v, Joined sets u v → v ∈ block :=
    fun block mem u hu v link => (components.connected block mem u hu v).mpr (.single link)
  have anchor : ∀ x, x ∈ members ++ (blocks.filter (meets members ·)).flatten →
      ∃ z ∈ members, ReflTransGen (Joined (sets ++ [members])) x z := by
    intro x mem
    rcases (merged_mem x).mp mem with mem | ⟨block, mem, ⟨z, hz, inside⟩, hx⟩
    · exact ⟨x, mem, .refl⟩
    · exact ⟨z, hz, larger_reach ((components.connected block mem x hx z).mp inside)⟩
  rw [merged]
  refine ⟨fun block mem => ?_, ?_, fun x => ?_, fun block mem x hx y => ?_⟩
  · rcases List.mem_append.mp mem with mem | mem
    · exact components.nonempty block ((separate_mem block).mp mem).1
    · rw [List.mem_singleton.mp mem]
      exact fun none => some_ (List.append_eq_nil_iff.mp none).1
  · refine List.pairwise_append.mpr ⟨components.apart.filter _, List.pairwise_singleton _ _, ?_⟩
    intro block mem other single x hx inside
    rw [List.mem_singleton.mp single, merged_mem] at inside
    obtain ⟨mem, none⟩ := (separate_mem block).mp mem
    rcases inside with inside | ⟨met, mem', ⟨z, hz, hz'⟩, hx'⟩
    · exact none x inside hx
    · -- the two blocks share a member, so they are the same
      have reach := (components.connected met mem' x hx' z).mp hz'
      exact none z hz ((components.connected block mem x hx z).mpr reach)
  · rw [named_concat, ← components.covers]
    constructor
    · rintro ⟨block, mem, hx⟩
      rcases List.mem_append.mp mem with mem | mem
      · exact .inl ⟨block, ((separate_mem block).mp mem).1, hx⟩
      · rw [List.mem_singleton.mp mem, merged_mem] at hx
        rcases hx with hx | ⟨met, mem, -, hx⟩
        · exact .inr hx
        · exact .inl ⟨met, mem, hx⟩
    · have last : members ++ (blocks.filter (meets members ·)).flatten ∈
          blocks.filter (! meets members ·) ++
            [members ++ (blocks.filter (meets members ·)).flatten] :=
        List.mem_append_right _ (List.mem_singleton.mpr rfl)
      rintro (⟨block, mem, hx⟩ | hx)
      · by_cases met : ∃ z ∈ members, z ∈ block
        · exact ⟨_, last, (merged_mem x).mpr (.inr ⟨block, mem, met, hx⟩)⟩
        · refine ⟨block, List.mem_append_left _ ((separate_mem block).mpr ⟨mem, ?_⟩), hx⟩
          exact fun z hz inside => met ⟨z, hz, inside⟩
      · exact ⟨_, last, (merged_mem x).mpr (.inl hx)⟩
  · rcases List.mem_append.mp mem with mem | mem
    · obtain ⟨mem, none⟩ := (separate_mem block).mp mem
      constructor
      · intro hy
        exact larger_reach ((components.connected block mem x hx y).mp hy)
      · intro reach
        induction reach with
        | refl => exact hx
        | tail _ last ih =>
          rcases joined_concat.mp last with link | ⟨hz, -⟩
          · exact stays block mem _ ih _ link
          · exact absurd ih (none _ hz)
    · rw [List.mem_singleton.mp mem] at hx ⊢
      constructor
      · intro hy
        obtain ⟨z, hz, reach⟩ := anchor x hx
        obtain ⟨z', hz', reach'⟩ := anchor y hy
        have across : Joined (sets ++ [members]) z z' := joined_concat.mpr (.inr ⟨hz, hz'⟩)
        exact (reach.tail across).trans (reach_symm (joined_symm _) reach')
      · intro reach
        induction reach with
        | refl => exact hx
        | @tail u v _ last ih =>
          rw [merged_mem] at ih ⊢
          rcases joined_concat.mp last with link | ⟨-, hv⟩
          · have there : ∃ block ∈ blocks, u ∈ block := (components.covers u).mpr (by
              obtain ⟨set, mem, hu, -⟩ := link
              exact ⟨set, mem, hu⟩)
            right
            rcases ih with ih | ⟨block, mem, met, hu⟩
            · obtain ⟨block, mem, hu⟩ := there
              exact ⟨block, mem, ⟨u, ih, hu⟩, stays block mem u hu v link⟩
            · exact ⟨block, mem, met, stays block mem u hu v link⟩
          · exact .inl hv

/-- **Merging sets** one after the other gives the components of all of them. -/
theorem IsComponents.merges {sets blocks more : List (List α)}
    (components : IsComponents (Named sets) (Joined sets) blocks)
    (some_ : ∀ members ∈ more, members ≠ []) :
    IsComponents (Named (sets ++ more)) (Joined (sets ++ more)) (more.foldl mergeInto blocks) := by
  induction more generalizing sets blocks with
  | nil =>
    rw [List.append_nil]
    exact components
  | cons members more ih =>
    rw [List.foldl_cons, List.append_cons]
    exact ih (components.merge (some_ members List.mem_cons_self))
      fun members' mem => some_ members' (List.mem_cons_of_mem _ mem)

omit [DecidableEq α] in
theorem isComponents_nil : IsComponents (Named []) (Joined []) ([] : List (List α)) := by
  refine ⟨fun block mem => ?_, List.Pairwise.nil, fun x => ⟨?_, ?_⟩, fun block mem => ?_⟩
  · cases mem
  · rintro ⟨block, mem, -⟩
    cases mem
  · rintro ⟨members, mem, -⟩
    cases mem
  · cases mem

end

end Components
