import Mathlib.Data.Finset.Card
import Mathlib.Data.List.Basic
import Mathlib.Tactic.Common

/-!
# Breadth-first search

A queue of nodes, each with what has been collected on the way to it, and the nodes seen so far. The
goal is found as soon as an edge leads to it.

1. graphs and walks;
2. the edges of one node, and the search;
3. the two levels of a queue;
4. what the search finds.
-/

namespace BreadthFirst

variable {α β ε : Type}

/-! ## Graphs -/

/-- The labelled edges of each node, in order, between finitely many nodes. -/
structure Graph (α ε : Type) where
  nodes : List α
  edges : α → List (α × ε)
  closed : ∀ x, ∀ e ∈ edges x, e.1 ∈ nodes

/-- The edges lead from the one node to the other. -/
def Graph.Walk (g : Graph α ε) : α → List (α × ε) → α → Prop
  | x, [], y => x = y
  | x, e :: walk, y => e ∈ g.edges x ∧ g.Walk e.1 walk y

/-- What the edges of a walk add up leads. -/
def collect (extend : β → α → α × ε → β) : β → α → List (α × ε) → β
  | value, _, [] => value
  | value, x, e :: walk => collect extend (extend value x e) e.1 walk

section
variable {g : Graph α ε} {extend : β → α → α × ε → β} {x y z : α} {value : β} {e : α × ε}
  {walk : List (α × ε)}

theorem Graph.Walk.concat (leads : g.Walk x walk y) (edge : e ∈ g.edges y) :
    g.Walk x (walk ++ [e]) e.1 := by
  induction walk generalizing x with
  | nil => exact ⟨leads ▸ edge, rfl⟩
  | cons first walk ih => exact ⟨leads.1, ih leads.2⟩

theorem Graph.Walk.init (leads : g.Walk x (walk ++ [e]) z) :
    ∃ y, g.Walk x walk y ∧ e ∈ g.edges y ∧ e.1 = z := by
  induction walk generalizing x with
  | nil => exact ⟨x, rfl, leads.1, leads.2⟩
  | cons first walk ih =>
    obtain ⟨y, rest, edge, last⟩ := ih leads.2
    exact ⟨y, ⟨leads.1, rest⟩, edge, last⟩

theorem collect_concat (leads : g.Walk x walk y) :
    collect extend value x (walk ++ [e]) = extend (collect extend value x walk) y e := by
  induction walk generalizing x value with
  | nil =>
    obtain rfl : x = y := leads
    rfl
  | cons first walk ih => exact ih leads.2

/-- A walk does not leave a set that its edges do not leave. -/
theorem Graph.Walk.stays {inside : α → Prop} (stay : ∀ u, inside u → ∀ e ∈ g.edges u, inside e.1)
    (start : inside x) (leads : g.Walk x walk y) : inside y := by
  induction walk generalizing x with
  | nil => exact leads ▸ start
  | cons first walk ih => exact ih (stay x start first leads.1) leads.2

end

/-! ## The search -/

section
variable [DecidableEq α] (g : Graph α ε) (extend : β → α → α × ε → β) (goal : α)

/-- The loop over the edges of one node: what the goal is found with, or the grown queue and the
nodes seen. -/
def visit (current : α) (value : β) :
    List (α × ε) → List (α × β) → List α → β ⊕ List (α × β) × List α
  | [], queue, visited => .inr (queue, visited)
  | e :: edges, queue, visited =>
    if e.1 ∈ visited then visit current value edges queue visited
    else if e.1 = goal then .inl (extend value current e)
    else visit current value edges (queue ++ [(e.1, extend value current e)]) (e.1 :: visited)

variable {extend goal}

/-- Where the goal is not met, the queue grows by the new nodes the edges lead leads. -/
theorem visit_inr {current : α} {value : β} {edges : List (α × ε)} {queue queue' : List (α × β)}
    {visited visited' : List α}
    (h : visit extend goal current value edges queue visited = .inr (queue', visited')) :
    ∃ new, queue' = queue ++ new ∧
      (∀ x, x ∈ visited' ↔ x ∈ visited ∨ x ∈ new.map Prod.fst) ∧
      (∀ entry ∈ new, ∃ e ∈ edges, e.1 ∉ visited ∧ entry = (e.1, extend value current e)) ∧
      (∀ e ∈ edges, e.1 ∈ visited') ∧ (goal ∉ visited → goal ∉ visited') := by
  induction edges generalizing queue visited with
  | nil =>
    cases h
    exact ⟨[], (List.append_nil _).symm, by simp, by simp, by simp, id⟩
  | cons e edges ih =>
    unfold visit at h
    split_ifs at h with seen found
    · obtain ⟨new, grown, members, fresh, all, missing⟩ := ih h
      refine ⟨new, grown, members, fun entry mem => ?_, ?_, missing⟩
      · obtain ⟨e', mem', rest⟩ := fresh entry mem
        exact ⟨e', List.mem_cons_of_mem _ mem', rest⟩
      · exact List.forall_mem_cons.mpr ⟨(members e.1).mpr (.inl seen), all⟩
    · obtain ⟨new, rfl, members, fresh, all, missing⟩ := ih h
      refine ⟨(e.1, extend value current e) :: new, by simp, fun x => ?_, fun entry mem => ?_, ?_, ?_⟩
      · rw [members, List.mem_cons, List.map_cons, List.mem_cons]
        tauto
      · rcases List.mem_cons.mp mem with rfl | mem
        · exact ⟨e, List.mem_cons_self, seen, rfl⟩
        · obtain ⟨e', mem', fresh', rest⟩ := fresh entry mem
          exact ⟨e', List.mem_cons_of_mem _ mem', fun h => fresh' (List.mem_cons_of_mem _ h), rest⟩
      · exact List.forall_mem_cons.mpr ⟨(members e.1).mpr (.inl List.mem_cons_self), all⟩
      · intro absent
        refine missing fun h => ?_
        rcases List.mem_cons.mp h with same | h
        · exact found same.symm
        · exact absent h

/-- The goal is met along an edge. -/
theorem visit_inl {current : α} {value found : β} {edges : List (α × ε)} {queue : List (α × β)}
    {visited : List α} (h : visit extend goal current value edges queue visited = .inl found) :
    ∃ e ∈ edges, e.1 = goal ∧ found = extend value current e := by
  induction edges generalizing queue visited with
  | nil => cases h
  | cons e edges ih =>
    unfold visit at h
    split_ifs at h with seen met
    · obtain ⟨e', mem, rest⟩ := ih h
      exact ⟨e', List.mem_cons_of_mem _ mem, rest⟩
    · cases h
      exact ⟨e, List.mem_cons_self, met, rfl⟩
    · obtain ⟨e', mem, rest⟩ := ih h
      exact ⟨e', List.mem_cons_of_mem _ mem, rest⟩

variable (extend goal)

/-- The loop over the queue: what the goal is found with. -/
def search (queue : List (α × β)) (visited : List α) : Option β :=
  match queue with
  | [] => none
  | (current, value) :: rest =>
    match _ : visit extend goal current value (g.edges current) rest visited with
    | .inl found => some found
    | .inr (queue', visited') => search queue' visited'
termination_by ((g.nodes.toFinset \ visited.toFinset).card, queue.length)
decreasing_by
  rename_i visits
  obtain ⟨new, rfl, members, fresh, -, -⟩ := visit_inr visits
  cases new with
  | nil =>
    -- nothing new: the queue is shorter
    have same : visited'.toFinset = visited.toFinset := by
      ext x
      rw [List.mem_toFinset, List.mem_toFinset, members]
      simp
    rw [same, List.append_nil]
    exact Prod.Lex.right _ (Nat.lt_succ_self _)
  | cons entry new =>
    -- one node more has been seen
    obtain ⟨e, edge, unseen, rfl⟩ := fresh entry List.mem_cons_self
    refine Prod.Lex.left _ _ (Finset.card_lt_card (Finset.ssubset_iff_of_subset ?_ |>.mpr ?_))
    · intro x mem
      simp only [Finset.mem_sdiff, List.mem_toFinset, members] at mem ⊢
      exact ⟨mem.1, fun h => mem.2 (.inl h)⟩
    · refine ⟨e.1, ?_, ?_⟩
      · simp only [Finset.mem_sdiff, List.mem_toFinset]
        exact ⟨g.closed current e edge, unseen⟩
      · simp only [Finset.mem_sdiff, List.mem_toFinset, members, not_and, not_not]
        exact fun _ => .inr List.mem_cons_self

variable {g extend goal} {current : α} {value : β} {rest : List (α × β)} {visited : List α}

theorem search_found {found : β}
    (h : visit extend goal current value (g.edges current) rest visited = .inl found) :
    search g extend goal ((current, value) :: rest) visited = some found := by
  rw [search, h]

theorem search_step {queue' : List (α × β)} {visited' : List α}
    (h : visit extend goal current value (g.edges current) rest visited = .inr (queue', visited')) :
    search g extend goal ((current, value) :: rest) visited = search g extend goal queue' visited' := by
  rw [search, h]

end

/-! ## Levels -/

section
variable (g : Graph α ε) (extend : β → α → α × ε → β) (goal source : α) (start : β)

/-- The value is collected on a walk of `n` edges to the node, and no walk to it is shorter. -/
def Nearest (n : ℕ) (entry : α × β) : Prop :=
  ∃ walk, g.Walk source walk entry.1 ∧ collect extend start source walk = entry.2 ∧
    walk.length = n ∧ ∀ walk', g.Walk source walk' entry.1 → n ≤ walk'.length

/-- The queue holds nodes at distance `n` and then nodes at distance `n + 1`. -/
structure Levels (n : ℕ) (here there : List (α × β)) (visited : List α) : Prop where
  first : ∀ entry ∈ here, Nearest g extend source start n entry
  second : ∀ entry ∈ there, Nearest g extend source start (n + 1) entry
  known : ∀ x walk, g.Walk source walk x → walk.length ≤ n → x ∈ visited
  passed : ∀ x ∈ visited,
    x ∈ (here ++ there).map Prod.fst ∨ ∀ e ∈ g.edges x, e.1 ∈ visited
  missing : goal ∉ visited

variable {g extend goal source start} {n : ℕ} {here there : List (α × β)} {visited : List α}

/-- An edge from a node at distance `n` leads to distance `n + 1`, unless its end has been seen. -/
theorem Levels.step (levels : Levels g extend goal source start n here there visited)
    {entry : α × β} (near : Nearest g extend source start n entry) {e : α × ε}
    (edge : e ∈ g.edges entry.1) (unseen : e.1 ∉ visited) :
    Nearest g extend source start (n + 1) (e.1, extend entry.2 entry.1 e) := by
  obtain ⟨walk, leads, value, length, -⟩ := near
  refine ⟨walk ++ [e], leads.concat edge, ?_, by rw [List.length_append, length]; rfl, ?_⟩
  · rw [collect_concat leads, value]
  · intro walk' leads'
    by_contra short
    exact unseen (levels.known e.1 walk' leads' (by omega))

/-- When the first level is empty, the second takes its place. -/
theorem Levels.next (levels : Levels g extend goal source start n [] there visited) :
    Levels g extend goal source start (n + 1) there [] visited where
  first := levels.second
  second := fun _ mem => absurd mem List.not_mem_nil
  known x walk leads short := by
    rcases Nat.lt_or_eq_of_le short with short | length
    · exact levels.known x walk leads (Nat.le_of_lt_succ short)
    · obtain ⟨init, e, rfl⟩ : ∃ init e, walk = init ++ [e] := by
        rcases walk.eq_nil_or_concat' with rfl | ⟨init, e, rfl⟩
        · cases length
        · exact ⟨init, e, rfl⟩
      obtain ⟨y, leads', edge, rfl⟩ := leads.init
      have length' : init.length = n := by
        rw [List.length_append] at length
        exact Nat.succ.inj length
      rcases levels.passed y (levels.known y init leads' length'.le) with waiting | passed
      · -- a node of the second level is not that near
        obtain ⟨entry, mem, rfl⟩ := List.mem_map.mp waiting
        obtain ⟨-, -, -, -, shortest⟩ := levels.second entry mem
        have := shortest init leads'
        omega
      · exact passed e edge
  passed := by
    rw [List.append_nil]
    exact levels.passed
  missing := levels.missing

/-- The head of the queue belongs to a first level. -/
theorem Levels.head (levels : Levels g extend goal source start n here there visited)
    {entry : α × β} {rest : List (α × β)} (split : entry :: rest = here ++ there) :
    ∃ m here' there', rest = here' ++ there' ∧
      Levels g extend goal source start m (entry :: here') there' visited := by
  cases here with
  | nil =>
    obtain rfl : entry :: rest = there := split
    exact ⟨n + 1, rest, [], (List.append_nil _).symm, levels.next⟩
  | cons first here =>
    obtain ⟨rfl, rfl⟩ := List.cons.inj split
    exact ⟨n, here, there, rfl, levels⟩

variable [DecidableEq α]

/-- **One node** of the queue leaves the rest of it in levels. -/
theorem Levels.visit {entry : α × β} {queue' : List (α × β)} {visited' : List α}
    (levels : Levels g extend goal source start n (entry :: here) there visited)
    (h : visit extend goal entry.1 entry.2 (g.edges entry.1) (here ++ there) visited =
      .inr (queue', visited')) :
    ∃ new, queue' = here ++ (there ++ new) ∧
      Levels g extend goal source start n here (there ++ new) visited' := by
  obtain ⟨new, grown, members, fresh, all, missing⟩ := visit_inr h
  have near := levels.first entry List.mem_cons_self
  refine ⟨new, by rw [grown, List.append_assoc], ?_⟩
  constructor
  · exact fun other mem => levels.first other (List.mem_cons_of_mem _ mem)
  · intro other mem
    rcases List.mem_append.mp mem with mem | mem
    · exact levels.second other mem
    · obtain ⟨e, edge, unseen, rfl⟩ := fresh other mem
      exact levels.step near edge unseen
  · exact fun x walk leads short => (members x).mpr (.inl (levels.known x walk leads short))
  · intro x mem
    rcases (members x).mp mem with mem | mem
    · rcases levels.passed x mem with waiting | passed
      · rw [List.cons_append, List.map_cons] at waiting
        rcases List.mem_cons.mp waiting with rfl | waiting
        · exact .inr all
        · rw [← List.append_assoc, List.map_append]
          exact .inl (List.mem_append_left _ waiting)
      · exact .inr fun e edge => (members e.1).mpr (.inl (passed e edge))
    · rw [← List.append_assoc, List.map_append]
      exact .inl (List.mem_append_right _ mem)
  · exact missing levels.missing

/-! ## What is found -/

/-- From a queue in levels, the search finds the nearest goal, or there is no walk to it. -/
theorem search_levels {queue : List (α × β)} (split : queue = here ++ there)
    (levels : Levels g extend goal source start n here there visited) :
    (∀ value, search g extend goal queue visited = some value →
      ∃ m, Nearest g extend source start m (goal, value)) ∧
    (search g extend goal queue visited = none → ∀ walk, ¬ g.Walk source walk goal) := by
  induction queue, visited using search.induct g extend goal generalizing n here there with
  | case1 visited =>
    obtain ⟨rfl, rfl⟩ := List.append_eq_nil_iff.mp split.symm
    rw [search]
    refine ⟨fun value h => (by cases h), fun _ walk leads => levels.missing ?_⟩
    have closed : ∀ x, x ∈ visited → ∀ e ∈ g.edges x, e.1 ∈ visited :=
      fun x mem => (levels.passed x mem).resolve_left List.not_mem_nil
    exact leads.stays closed (levels.known source [] rfl (Nat.zero_le n))
  | case2 visited current value rest found visits =>
    obtain ⟨m, here, there, rfl, levels⟩ := levels.head split
    obtain ⟨e, edge, met, rfl⟩ := visit_inl visits
    have near := levels.step (levels.first _ List.mem_cons_self) edge (met ▸ levels.missing)
    rw [met] at near
    rw [search_found visits]
    refine ⟨fun value h => ?_, fun h => (by cases h)⟩
    cases h
    exact ⟨m + 1, near⟩
  | case3 visited current value rest queue' visited' visits ih =>
    obtain ⟨m, here, there, rfl, levels⟩ := levels.head split
    obtain ⟨new, grown, levels⟩ := levels.visit visits
    rw [search_step visits]
    exact ih grown levels

/-- **The search** from a source that is not the goal finds the goal on a walk than which none is
shorter, or there is no walk. -/
theorem search_spec (apart : source ≠ goal) :
    (∀ value, search g extend goal [(source, start)] [source] = some value →
      ∃ n, Nearest g extend source start n (goal, value)) ∧
    (search g extend goal [(source, start)] [source] = none →
      ∀ walk, ¬ g.Walk source walk goal) := by
  have levels : Levels g extend goal source start 0 [(source, start)] [] [source] := by
    constructor
    · intro entry mem
      rw [List.mem_singleton.mp mem]
      exact ⟨[], rfl, rfl, rfl, fun _ _ => Nat.zero_le _⟩
    · exact fun _ mem => absurd mem List.not_mem_nil
    · intro x walk leads short
      obtain rfl := List.eq_nil_of_length_eq_zero (Nat.le_zero.mp short)
      exact List.mem_singleton.mpr leads.symm
    · exact fun x mem => .inl mem
    · exact fun mem => apart (List.mem_singleton.mp mem).symm
  exact search_levels rfl levels

end

end BreadthFirst
