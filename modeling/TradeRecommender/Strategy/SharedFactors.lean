import Mathlib.Data.List.MinMax
import Mathlib.Data.List.Perm.Subperm
import TradeRecommender.Lib.Components
import TradeRecommender.Lib.EffectiveSize
import TradeRecommender.Lib.Sorted
import TradeRecommender.Lib.Tables
import TradeRecommender.Research.ValidationReports

/-!
# Shared-factor clusters

`factor_clusters` and `cluster_summary` of `research/s2_geometry.py`, `_factor_groups` and `_mde` of
`research/s2_geometry_v2.py`: events entered in one New York week that share a currency, directly or
through others, are one cluster. Timestamps are instants and exact fractions are rationals.

1. sweeping the remaining events of a week into a component;
2. clusters, their summary and the effect they can detect;
3. a component reaches as far as currencies are shared;
4. the clusters of all weeks;
5. the effective sizes.
-/

namespace TradeRecommender.Strategy.Factors

open Civil (Instant newYorkWall)
open Components EffectiveSize Py Relation
open Research.Reports (isoWeek)

/-! ## Components of a week -/

structure Event where
  physicalKey : String
  entryAt : Instant
  base : String
  quote : String
  deriving DecidableEq

/-- `{row["base"], row["quote"]}` -/
def Event.currencies (row : Event) : List String := [row.base, row.quote]

/-- `entry_week` -/
def entryWeek (value : Instant) : String := isoWeek (newYorkWall value)

/-- `{row["physical_key"]: row for row in rows}` -/
def keyed (rows : List Event) : List Event :=
  rows.foldl (fun remaining row =>
    if row.physicalKey ∈ remaining.map Event.physicalKey then
      Tables.put Event.physicalKey remaining row
    else remaining ++ [row]) []

/-- `remaining.pop(min(remaining))` -/
def popMin (remaining : List Event) : Option (Event × List Event) :=
  (remaining.argmin Event.physicalKey).map fun first =>
    (first, remaining.filter (·.physicalKey ≠ first.physicalKey))

/-- One turn of `while changed`: a row that shares a currency leaves the remaining ones, and its
currencies join those that the rows after it are compared with. -/
def sweep : List Event → List String → List String → List Event × List String × List String
  | [], component, currencies => ([], component, currencies)
  | row :: remaining, component, currencies =>
    if meets currencies row.currencies then
      sweep remaining (component ++ [row.physicalKey]) (currencies ++ row.currencies)
    else
      let (kept, component, currencies) := sweep remaining component currencies
      (row :: kept, component, currencies)

/-- `while changed`, where a turn changed something that removed a row. -/
def grow (remaining : List Event) (component currencies : List String) :
    List Event × List String :=
  let swept := sweep remaining component currencies
  if swept.1.length < remaining.length then grow swept.1 swept.2.1 swept.2.2
  else (swept.1, swept.2.1)
termination_by remaining.length

theorem length_sweep_le (remaining : List Event) (component currencies : List String) :
    (sweep remaining component currencies).1.length ≤ remaining.length := by
  induction remaining generalizing component currencies with
  | nil => exact Nat.le_refl _
  | cons row remaining ih =>
    rw [sweep]
    split_ifs
    · exact Nat.le_succ_of_le (ih _ _)
    · exact Nat.succ_le_succ (ih _ _)

theorem length_grow_le (remaining : List Event) (component currencies : List String) :
    (grow remaining component currencies).1.length ≤ remaining.length := by
  induction remaining, component, currencies using grow.induct with
  | case1 remaining component currencies swept less ih =>
    rw [grow, if_pos less]
    exact Nat.le_trans ih (Nat.le_of_lt less)
  | case2 remaining component currencies swept same =>
    rw [grow, if_neg same]
    exact length_sweep_le remaining component currencies

theorem length_popMin {remaining rest : List Event} {first : Event}
    (popped : popMin remaining = some (first, rest)) : rest.length < remaining.length := by
  obtain ⟨row, found, same⟩ := Option.map_eq_some_iff.mp popped
  obtain ⟨rfl, rfl⟩ := Prod.mk.inj same
  exact List.length_filter_lt_length_iff_exists.mpr ⟨row, List.argmin_mem found, by simp⟩

/-- `while remaining` -/
def components (remaining : List Event) : List (List String) :=
  match _popped : popMin remaining with
  | none => []
  | some (first, rest) =>
    let grown := grow rest [first.physicalKey] first.currencies
    grown.2 :: components grown.1
termination_by remaining.length
decreasing_by
  exact Nat.lt_of_le_of_lt (length_grow_le _ _ _) (length_popMin _popped)

/-! ## Clusters -/

/-- `by_week` -/
def byWeek (events : List Event) : List (String × List Event) :=
  Tally.tally (· ++ ·) [] (events.map fun event => (entryWeek event.entryAt, [event]))

/-- The components of every week, in the order of the weeks. -/
def weekComponents (events : List Event) : List (String × List String) :=
  (sortedBy Prod.fst (byWeek events)).flatMap fun (week, rows) =>
    (components (keyed rows)).map fun component => (week, component)

/-- The week groups of `geometry`. -/
def entryWeeks (events : List Event) : List (String × List String) :=
  Tally.tally (· ++ ·) [] (events.map fun event => (entryWeek event.entryAt, [event.physicalKey]))

/-- What `cluster_summary` returns. -/
structure Summary where
  membershipSha256 : String
  sizes : List (String × ℕ)
  rawCount : ℕ
  eventCount : ℕ
  kishExact : ℚ
  kishDecimal : String

def texts (values : List String) : Val := .list (values.map Val.str)

/-- `{key: sorted(values) for key, values in sorted(groups.items())}` -/
def sortedGroups (groups : List (String × List String)) : List (String × List String) :=
  (sortedBy Prod.fst groups).map fun (key, values) => (key, sorted values)

section
variable (digest : Val → String) (tenDigits : ℚ → String)

/-- `cluster_summary` -/
def clusterSummary (groups : List (String × List String)) : Summary :=
  let groups := sortedGroups groups
  let sizes := groups.map fun (key, values) => (key, values.length)
  let effective := kish (sizes.map Prod.snd)
  { membershipSha256 := digest (.dict (groups.map fun (key, values) => (key, texts values)))
    sizes
    rawCount := groups.length
    eventCount := (sizes.map Prod.snd).sum
    kishExact := effective
    kishDecimal := tenDigits effective }

/-- `f"{week}|{digest(sorted(component))}"` -/
def groupKey (week : String) (component : List String) : String :=
  week ++ "|" ++ digest (texts (sorted component))

/-- `groups[key] = component` -/
def assign (groups : List (String × List String)) : List (String × List String) :=
  Tally.tally (fun _ component => component) [] groups

/-- `factor_clusters` -/
def factorClusters (events : List Event) : Summary :=
  clusterSummary digest tenDigits (assign ((weekComponents events).map
    fun (week, component) => (groupKey digest week component, component)))

/-- `_factor_groups` -/
def factorGroups (events : List Event) : List (String × List String) :=
  sortedBy Prod.fst (assign ((weekComponents events).map
    fun (week, component) => (groupKey digest week component, sorted component)))

/-- What `_mde` reads of `geometry`. -/
structure Geometry where
  entryWeeks : Summary
  sharedFactors : Summary

def geometry (events : List Event) : Geometry :=
  ⟨clusterSummary digest tenDigits (entryWeeks events), factorClusters digest tenDigits events⟩

end

/-! ## Detectable effects -/

inductive Adequacy
  | adequate | inadequate

/-- What `_mde` returns. -/
structure Mde where
  rawEventCount : List (String × Option ℚ)
  entryWeekKish : List (String × Option ℚ)
  sharedFactorKish : List (String × Option ℚ)
  conservativeEffectiveN : ℚ
  conservativeMdeR : List (String × Option ℚ)
  target020RAdequacy : List (String × Adequacy)

/-- `TARGET_EFFECT_R` -/
def targetEffectR : ℚ := 1 / 5

/-- Whether the target effect is within reach at a deviation. -/
def adequacy : String × Option ℚ → Except Exc (String × Adequacy)
  | (_, none) => raise .typeError "argument should be a string or a Rational instance"
  | (sigma, some value) => .ok (sigma, if value ≤ targetEffectR then .adequate else .inadequate)

/-- `_mde`, over the effects that a sample of a size can detect, by their deviation. -/
def mde (detectableEffect : ℚ → List (String × Option ℚ)) (geometry : Geometry) (eventCount : ℕ) :
    Except Exc Mde := do
  let week := geometry.entryWeeks.kishExact
  let factor := geometry.sharedFactors.kishExact
  let effective := min week factor
  let conservative := detectableEffect effective
  let target ← mapE adequacy conservative
  return {
    rawEventCount := detectableEffect eventCount
    entryWeekKish := detectableEffect week
    sharedFactorKish := detectableEffect factor
    conservativeEffectiveN := effective
    conservativeMdeR := conservative
    target020RAdequacy := target }

/-! ## Shared currencies -/

/-- The two events have a currency in common. -/
def Shares (a b : Event) : Prop := ∃ currency ∈ a.currencies, currency ∈ b.currencies

theorem Shares.symm {a b : Event} (h : Shares a b) : Shares b a := by
  obtain ⟨currency, ha, hb⟩ := h
  exact ⟨currency, hb, ha⟩

theorem within_shares_symm {vertex : Event → Prop} (a b : Event)
    (h : within vertex Shares a b) : within vertex Shares b a := ⟨h.2.1, h.1, h.2.2.symm⟩

theorem meets_currencies {members : List Event} {row : Event} :
    meets (members.flatMap Event.currencies) row.currencies = true ↔
      ∃ m ∈ members, Shares m row := by
  rw [meets_iff]
  constructor
  · rintro ⟨currency, mem, shared⟩
    obtain ⟨m, mem, own⟩ := List.mem_flatMap.mp mem
    exact ⟨m, mem, currency, own, shared⟩
  · rintro ⟨m, mem, currency, own, shared⟩
    exact ⟨currency, List.mem_flatMap.mpr ⟨m, mem, own⟩, shared⟩

/-- What rows added to a component with the members leave behind. -/
structure Grown (vertex : Event → Prop) (members remaining : List Event) (component : List String)
    (kept : List Event) (component' : List String) (taken : List Event) : Prop where
  component : component' = component ++ taken.map Event.physicalKey
  perm : (taken ++ kept).Perm remaining
  reached : ∀ t ∈ taken, ∃ m ∈ members, ReflTransGen (within vertex Shares) m t

section
variable {vertex : Event → Prop}

/-- A turn takes rows that the members reach, and leaves none that shares with the members. -/
theorem sweep_spec {members remaining : List Event} (component : List String)
    (inside : ∀ m ∈ members, vertex m) (inside' : ∀ r ∈ remaining, vertex r) :
    ∃ kept taken component', sweep remaining component (members.flatMap Event.currencies) =
        (kept, component', (members ++ taken).flatMap Event.currencies) ∧
      Grown vertex members remaining component kept component' taken ∧
      ∀ row ∈ kept, ∀ m ∈ members, ¬ Shares m row := by
  induction remaining generalizing members component with
  | nil =>
    refine ⟨[], [], component, ?_, ⟨?_, .nil, ?_⟩, ?_⟩
    · rw [sweep, List.append_nil]
    · rw [List.map_nil, List.append_nil]
    · intro t mem
      cases mem
    · intro row mem
      cases mem
  | cons row remaining ih =>
    have row_inside := inside' row List.mem_cons_self
    have rest_inside := fun r mem => inside' r (List.mem_cons_of_mem row mem)
    rw [sweep]
    by_cases shared : meets (members.flatMap Event.currencies) row.currencies = true
    · obtain ⟨m, mem, shares⟩ := meets_currencies.mp shared
      have larger : ∀ m ∈ members ++ [row], vertex m := by
        intro m mem
        rcases List.mem_append.mp mem with mem | mem
        · exact inside m mem
        · exact List.mem_singleton.mp mem ▸ row_inside
      obtain ⟨kept, taken, component', swept, grown, apart⟩ :=
        ih (component ++ [row.physicalKey]) larger rest_inside
      have step : ReflTransGen (within vertex Shares) m row :=
        .single ⟨inside m mem, row_inside, shares⟩
      refine ⟨kept, row :: taken, component', ?_, ⟨?_, ?_, ?_⟩, ?_⟩
      · rw [if_pos shared]
        have joined : members.flatMap Event.currencies ++ row.currencies =
            (members ++ [row]).flatMap Event.currencies := by
          rw [List.flatMap_append, List.flatMap_singleton]
        rw [joined, swept, List.append_assoc]
        rfl
      · rw [grown.component, List.append_assoc]
        rfl
      · exact grown.perm.cons row
      · intro t ht
        rcases List.mem_cons.mp ht with rfl | ht
        · exact ⟨m, mem, step⟩
        · obtain ⟨m', mem', reach⟩ := grown.reached t ht
          rcases List.mem_append.mp mem' with mem' | mem'
          · exact ⟨m', mem', reach⟩
          · rw [List.mem_singleton.mp mem'] at reach
            exact ⟨m, mem, step.trans reach⟩
      · exact fun r hr m hm => apart r hr m (List.mem_append_left _ hm)
    · obtain ⟨kept, taken, component', swept, grown, apart⟩ := ih component inside rest_inside
      refine ⟨row :: kept, taken, component', ?_, ⟨grown.component, ?_, grown.reached⟩, ?_⟩
      · rw [if_neg shared, swept]
      · exact List.perm_middle.trans (grown.perm.cons row)
      · intro r hr m hm shares
        rcases List.mem_cons.mp hr with rfl | hr
        · exact shared (meets_currencies.mpr ⟨m, hm, shares⟩)
        · exact apart r hr m hm shares

/-- **The turns end** when no remaining row shares a currency with the component. -/
theorem grow_spec {members remaining : List Event} (component : List String)
    (inside : ∀ m ∈ members, vertex m) (inside' : ∀ r ∈ remaining, vertex r) :
    ∃ kept taken component', grow remaining component (members.flatMap Event.currencies) =
        (kept, component') ∧
      Grown vertex members remaining component kept component' taken ∧
      ∀ row ∈ kept, ∀ m ∈ members ++ taken, ¬ Shares m row := by
  induction h : remaining.length using Nat.strong_induction_on generalizing members remaining
    component with
  | _ n ih =>
    obtain ⟨kept, taken, component', swept, grown, apart⟩ := sweep_spec component inside inside'
    have lengths := grown.perm.length_eq
    rw [List.length_append] at lengths
    rw [grow, swept]
    show ∃ kept' taken' component'', (if kept.length < remaining.length then _ else _) = _ ∧ _
    by_cases less : kept.length < remaining.length
    · have larger : ∀ m ∈ members ++ taken, vertex m := by
        intro m mem
        rcases List.mem_append.mp mem with mem | mem
        · exact inside m mem
        · exact inside' m (grown.perm.subset (List.mem_append_left _ mem))
      have kept_inside : ∀ r ∈ kept, vertex r :=
        fun r mem => inside' r (grown.perm.subset (List.mem_append_right _ mem))
      obtain ⟨kept', taken', component'', result, grown', apart'⟩ :=
        ih kept.length (h ▸ less) component' larger kept_inside rfl
      refine ⟨kept', taken ++ taken', component'', ?_, ⟨?_, ?_, ?_⟩, ?_⟩
      · rw [if_pos less]
        exact result
      · rw [grown'.component, grown.component, List.map_append, List.append_assoc]
      · rw [List.append_assoc]
        exact (grown'.perm.append_left taken).trans grown.perm
      · intro t ht
        rcases List.mem_append.mp ht with ht | ht
        · exact grown.reached t ht
        · obtain ⟨m, mem, reach⟩ := grown'.reached t ht
          rcases List.mem_append.mp mem with mem | mem
          · exact ⟨m, mem, reach⟩
          · obtain ⟨m', mem', reach'⟩ := grown.reached m mem
            exact ⟨m', mem', reach'.trans reach⟩
      · rw [← List.append_assoc]
        exact apart'
    · have none : taken = [] := List.eq_nil_of_length_eq_zero (by omega)
      subst none
      refine ⟨kept, [], component', if_neg less, grown, ?_⟩
      rw [List.append_nil]
      exact apart

end

/-- The popped row and the others are the rows there were. -/
theorem popMin_perm {remaining rest : List Event} {first : Event}
    (popped : popMin remaining = some (first, rest))
    (distinct : (remaining.map Event.physicalKey).Nodup) : (first :: rest).Perm remaining := by
  obtain ⟨row, found, same⟩ := Option.map_eq_some_iff.mp popped
  obtain ⟨rfl, rfl⟩ := Prod.mk.inj same
  have mem := List.argmin_mem found
  have nodup : remaining.Nodup := List.Nodup.of_map _ distinct
  refine (List.perm_ext_iff_of_nodup ?_ nodup).mpr fun x => ?_
  · refine List.nodup_cons.mpr ⟨fun inside => ?_, nodup.filter _⟩
    have other := (List.mem_filter.mp inside).2
    exact (decide_eq_true_iff.mp other) rfl
  · rw [List.mem_cons, List.mem_filter, decide_eq_true_eq]
    constructor
    · rintro (rfl | ⟨inside, -⟩)
      · exact mem
      · exact inside
    · intro inside
      by_cases same : x.physicalKey = row.physicalKey
      · exact .inl (Tables.eq_of_key distinct inside mem same)
      · exact .inr ⟨inside, same⟩

theorem isComponents_congr {vertex vertex' : Event → Prop} {link : Event → Event → Prop}
    {blocks : List (List Event)} (same : ∀ x, vertex x ↔ vertex' x)
    (components : IsComponents vertex (within vertex link) blocks) :
    IsComponents vertex' (within vertex' link) blocks := by
  have equal : vertex = vertex' := funext fun x => propext (same x)
  exact equal ▸ components

/-- **The components of a week** are those of its events under shared currencies. -/
theorem components_spec (remaining : List Event)
    (distinct : (remaining.map Event.physicalKey).Nodup) :
    ∃ blocks : List (List Event),
      components remaining = blocks.map (fun block => block.map Event.physicalKey) ∧
      IsComponents (· ∈ remaining) (within (· ∈ remaining) Shares) blocks ∧
      blocks.flatten.Perm remaining := by
  induction h : remaining.length using Nat.strong_induction_on generalizing remaining with
  | _ n ih =>
    rw [components]
    split
    next popped =>
      have empty : remaining = [] :=
        List.argmin_eq_none.mp (Option.map_eq_none_iff.mp popped)
      subst empty
      refine ⟨[], rfl, ⟨fun block mem => ?_, .nil, fun x => ?_, fun block mem => ?_⟩, .nil⟩
      · cases mem
      · simp only [List.not_mem_nil, false_and, exists_false]
      · cases mem
    next first rest popped =>
      have whole := popMin_perm popped distinct
      have first_inside : ∀ m ∈ [first], m ∈ first :: rest := by
        intro m mem
        rw [List.mem_singleton.mp mem]
        exact List.mem_cons_self
      obtain ⟨kept, taken, component', result, grown, apart⟩ := grow_spec
        [first.physicalKey] first_inside fun r mem => List.mem_cons_of_mem first mem
      rw [List.flatMap_singleton] at result
      have split_rest : ∀ x, x ∈ rest ↔ x ∈ taken ∨ x ∈ kept := by
        intro x
        rw [← grown.perm.mem_iff, List.mem_append]
      have parts : ∀ x, (x ∈ first :: taken ∨ x ∈ kept) ↔ x ∈ remaining := by
        intro x
        rw [← whole.mem_iff, List.mem_cons, List.mem_cons, split_rest, or_assoc]
      have cut : ∀ x y, x ∈ first :: taken → y ∈ kept → ¬ Shares x y :=
        fun x y hx hy => apart y hy x hx
      have arranged : (first :: taken ++ kept).Perm remaining :=
        (grown.perm.cons first).trans whole
      have keys : ((first :: taken ++ kept).map Event.physicalKey).Nodup :=
        (arranged.map _).nodup_iff.mpr distinct
      rw [List.map_append] at keys
      have kept_distinct := (List.nodup_append.mp keys).2.1
      -- the block is reached within itself: nothing in it shares with what is kept
      have reach : ∀ x ∈ first :: taken,
          ReflTransGen (within (· ∈ first :: taken) Shares) first x := by
        intro x mem
        rcases List.mem_cons.mp mem with rfl | mem
        · exact .refl
        · obtain ⟨m, hm, reach⟩ := grown.reached x mem
          rw [List.mem_singleton.mp hm] at reach
          refine (reach_part cut List.mem_cons_self).mp (reach_within_mono (fun z hz => ?_) reach)
          rw [parts, ← whole.mem_iff]
          exact hz
      have block := isComponents_singleton (List.cons_ne_nil first taken) fun x hx y hy =>
        (reach_symm within_shares_symm (reach x hx)).trans (reach y hy)
      have shorter : kept.length < n := by
        have lengths := arranged.length_eq
        rw [List.length_append, List.length_cons] at lengths
        omega
      obtain ⟨blocks, others, are, flat⟩ := ih kept.length shorter kept kept_distinct rfl
      refine ⟨(first :: taken) :: blocks, ?_, ?_, ?_⟩
      · rw [result]
        show component' :: components kept = _
        rw [others, grown.component]
        rfl
      · refine isComponents_congr parts (block.append are (fun x hx hx' => ?_) fun x y hx hy =>
          ⟨cut x y hx hy, fun shares => cut x y hx hy shares.symm⟩)
        have nodup : (first :: taken ++ kept).Nodup :=
          arranged.nodup_iff.mpr (List.Nodup.of_map _ distinct)
        exact (List.nodup_append.mp nodup).2.2 x hx x hx' rfl
      · rw [List.flatten_cons]
        exact (flat.append_left _).trans arranged

/-! ## Clusters of all weeks -/

/-- Two events entered in one week that have a currency in common. -/
def SharedFactor (a b : Event) : Prop := entryWeek a.entryAt = entryWeek b.entryAt ∧ Shares a b

/-- The weeks of the events, in order. -/
def weeksOf (events : List Event) : List String :=
  sortedOnce (events.map fun event => entryWeek event.entryAt)

/-- The events of a week. -/
def rowsOf (events : List Event) (week : String) : List Event :=
  events.filter fun event => entryWeek event.entryAt = week

theorem mem_rowsOf {events : List Event} {week : String} {event : Event} :
    event ∈ rowsOf events week ↔ event ∈ events ∧ entryWeek event.entryAt = week := by
  rw [rowsOf, List.mem_filter, decide_eq_true_eq]

theorem keyed_eq {rows : List Event} (distinct : (rows.map Event.physicalKey).Nodup) :
    keyed rows = rows := by
  suffices general : ∀ done : List Event, ((done ++ rows).map Event.physicalKey).Nodup →
      rows.foldl (fun remaining row =>
        if row.physicalKey ∈ remaining.map Event.physicalKey then
          Tables.put Event.physicalKey remaining row
        else remaining ++ [row]) done = done ++ rows from general [] distinct
  clear distinct
  induction rows with
  | nil => exact fun done _ => (List.append_nil done).symm
  | cons row rows ih =>
    intro done nodup
    have fresh : row.physicalKey ∉ done.map Event.physicalKey := by
      rw [List.map_append, List.map_cons] at nodup
      exact fun mem => (List.nodup_append.mp nodup).2.2 _ mem _ List.mem_cons_self rfl
    rw [List.foldl_cons, if_neg fresh, ih (done ++ [row]) (by simpa using nodup)]
    exact (List.append_cons done row rows).symm

/-- What is collected under the weeks, week by week. -/
theorem sorted_collected {α : Type} (events : List Event) (f : Event → α) :
    sortedBy Prod.fst (Tally.tally (· ++ ·) []
      (events.map fun event => (entryWeek event.entryAt, [f event]))) =
      (weeksOf events).map fun week => (week, (rowsOf events week).map f) := by
  have items : (events.map fun event => (entryWeek event.entryAt, [f event])) =
      (events.map fun event => (entryWeek event.entryAt, f event)).map
        fun item => (item.1, [item.2]) := by
    rw [List.map_map]
    rfl
  rw [items]
  set groups := Tally.tally (· ++ ·) []
    ((events.map fun event => (entryWeek event.entryAt, f event)).map
      fun item => (item.1, [item.2])) with groups_eq
  have keys : (sortedBy Prod.fst groups).map Prod.fst = weeksOf events := by
    have sorted_keys : (sortedBy Prod.fst groups).map Prod.fst = sorted (groups.map Prod.fst) :=
      List.map_insertionSort _ _ _ _ fun _ _ _ _ => Iff.rfl
    rw [sorted_keys]
    refine sorted_perm ((List.perm_ext_iff_of_nodup Tally.nodup_keys_tally
      (List.nodup_dedup _)).mpr fun week => ?_)
    rw [List.mem_dedup, Tally.mem_keys_tally, Tally.keys, List.map_map, List.map_map]
    rfl
  rw [← keys, List.map_map]
  refine (List.map_id _).symm.trans (List.map_congr_left fun group mem => ?_)
  obtain ⟨week, values⟩ := group
  have found := Tally.eq_of_mem_collected (groups_eq ▸ mem_sortedBy.mp mem)
  rw [found, List.filter_map, List.map_map]
  rfl

/-- The components of every week, as blocks of its events. -/
structure Blocks (events : List Event) (blocks : String → List (List Event)) : Prop where
  components : ∀ week, Factors.components (keyed (rowsOf events week)) =
    (blocks week).map fun block => block.map Event.physicalKey
  are : ∀ week, IsComponents (· ∈ rowsOf events week) (within (· ∈ rowsOf events week) Shares)
    (blocks week)
  flat : ∀ week, (blocks week).flatten.Perm (rowsOf events week)

theorem exists_blocks {events : List Event} (distinct : (events.map Event.physicalKey).Nodup) :
    ∃ blocks, Blocks events blocks := by
  have rows_distinct : ∀ week, ((rowsOf events week).map Event.physicalKey).Nodup :=
    fun week => distinct.sublist (List.filter_sublist.map _)
  choose blocks components are flat using fun week => components_spec _ (rows_distinct week)
  refine ⟨blocks, fun week => ?_, are, flat⟩
  rw [keyed_eq (rows_distinct week)]
  exact components week

/-- The blocks of all weeks, each with its week. -/
def blocksOf (events : List Event) (blocks : String → List (List Event)) :
    List (String × List Event) :=
  (weeksOf events).flatMap fun week => (blocks week).map fun block => (week, block)

section
variable {events : List Event} {blocks : String → List (List Event)}
  (isBlocks : Blocks events blocks)
include isBlocks

theorem weekComponents_eq : weekComponents events =
    (blocksOf events blocks).map fun (week, block) => (week, block.map Event.physicalKey) := by
  have grouped := sorted_collected events id
  unfold weekComponents byWeek blocksOf
  rw [show (events.map fun event => (entryWeek event.entryAt, [event])) =
    events.map fun event => (entryWeek event.entryAt, [id event]) from rfl, grouped,
    List.flatMap_map, List.map_flatMap]
  refine List.flatMap_congr fun week _ => ?_
  show (components (keyed ((rowsOf events week).map id))).map (fun component => (week, component)) =
    ((blocks week).map fun block => (week, block)).map _
  rw [List.map_id, isBlocks.components week, List.map_map, List.map_map]
  rfl

theorem week_of_mem {week : String} {block : List Event} (mem : block ∈ blocks week) {x : Event}
    (inside : x ∈ block) : x ∈ events ∧ entryWeek x.entryAt = week :=
  mem_rowsOf.mp (((isBlocks.are week).covers x).mp ⟨block, mem, inside⟩)

/-- **The clusters are the components** of events linked by shared factors. -/
theorem isComponents_blocksOf : IsComponents (· ∈ events) (within (· ∈ events) SharedFactor)
    ((blocksOf events blocks).map Prod.snd) := by
  have flattened : (blocksOf events blocks).map Prod.snd = (weeksOf events).flatMap blocks := by
    unfold blocksOf
    rw [List.map_flatMap]
    refine List.flatMap_congr fun week _ => ?_
    rw [List.map_map]
    exact List.map_id _
  have own : ∀ week, IsComponents (· ∈ rowsOf events week)
      (within (· ∈ rowsOf events week) SharedFactor) (blocks week) := by
    intro week
    have same : within (· ∈ rowsOf events week) SharedFactor =
        within (· ∈ rowsOf events week) Shares := by
      funext x y
      refine propext ⟨fun h => ⟨h.1, h.2.1, h.2.2.2⟩, fun h => ⟨h.1, h.2.1, ?_, h.2.2⟩⟩
      exact (mem_rowsOf.mp h.1).2.trans (mem_rowsOf.mp h.2.1).2.symm
    rw [same]
    exact isBlocks.are week
  have some_weeks : ∀ weeks : List String, weeks.Nodup →
      IsComponents (fun x => x ∈ events ∧ entryWeek x.entryAt ∈ weeks)
        (within (fun x => x ∈ events ∧ entryWeek x.entryAt ∈ weeks) SharedFactor)
        (weeks.flatMap blocks) := by
    intro weeks nodup
    induction weeks with
    | nil =>
      refine ⟨fun block mem => ?_, .nil, fun x => ⟨?_, ?_⟩, fun block mem => ?_⟩
      · cases mem
      · rintro ⟨block, mem, -⟩
        cases mem
      · rintro ⟨-, mem⟩
        cases mem
      · cases mem
    | cons week weeks ih =>
      obtain ⟨fresh, nodup⟩ := List.nodup_cons.mp nodup
      rw [List.flatMap_cons]
      have differ : ∀ x y, x ∈ rowsOf events week →
          (y ∈ events ∧ entryWeek y.entryAt ∈ weeks) → entryWeek x.entryAt ≠ entryWeek y.entryAt := by
        intro x y hx hy same
        rw [(mem_rowsOf.mp hx).2] at same
        exact fresh (same ▸ hy.2)
      refine isComponents_congr (fun x => ?_) ((own week).append (ih nodup)
        (fun x hx hx' => differ x x hx hx' rfl) fun x y hx hy =>
          ⟨fun h => differ x y hx hy h.1, fun h => differ x y hx hy h.1.symm⟩)
      rw [mem_rowsOf, List.mem_cons]
      tauto
  rw [flattened]
  refine isComponents_congr (fun x => ?_) (some_weeks (weeksOf events)
    ((pairwise_sortedOnce _).imp ne_of_lt))
  constructor
  · exact And.left
  · intro mem
    exact ⟨mem, mem_sortedOnce.mpr (List.mem_map.mpr ⟨x, mem, rfl⟩)⟩

end

/-! ## Groups and their keys -/

theorem of_mem_toString {n : ℤ} {c : Char} (mem : c ∈ (toString n).toList) :
    c = '-' ∨ c.isDigit = true := by
  have nat : ∀ k : ℕ, c ∈ (Nat.repr k).toList → c.isDigit = true := by
    intro k h
    rw [Nat.repr_eq_ofList_toDigits, String.toList_ofList] at h
    exact Nat.isDigit_of_mem_toDigits (by decide) (by decide) h
  rw [Int.toString_eq_repr, Int.repr_eq_if] at mem
  split at mem
  · exact .inr (nat _ mem)
  · rw [String.toList_append, List.mem_append] at mem
    rcases mem with mem | mem
    · exact .inl (by simpa using mem)
    · exact .inr (nat _ mem)

theorem bar_notMem_isoWeek (at_ : Instant) : '|' ∉ (isoWeek at_).toList := by
  have number : ∀ n : ℤ, '|' ∉ (toString n).toList := by
    intro n mem
    rcases of_mem_toString mem with h | h <;> exact absurd h (by decide)
  unfold isoWeek Civil.pad
  simp only [String.toList_append, List.mem_append, String.toList_ofList, not_or]
  refine ⟨⟨number _, by decide⟩, fun mem => ?_, number _⟩
  exact absurd (List.eq_of_mem_replicate mem) (by decide)

section
variable {digest : Val → String}
  (injective : ∀ values values', digest (texts values) = digest (texts values') → values = values')
include injective

/-- The key of a group tells its week and its members. -/
theorem groupKey_injective {at_ at' : Instant} {component component' : List String}
    (same : groupKey digest (entryWeek at_) component =
      groupKey digest (entryWeek at') component') :
    sorted component = sorted component' := by
  have lists := congrArg String.toList same
  simp only [groupKey, String.toList_append] at lists
  have bar : "|".toList = ['|'] := rfl
  rw [bar, List.append_assoc, List.append_assoc, List.singleton_append, List.singleton_append] at lists
  exact injective _ _ (String.toList_inj.mp
    (split_unique lists (bar_notMem_isoWeek _) (bar_notMem_isoWeek _)).2)

end

/-- The group of a block. -/
def entry (digest : Val → String) (block : String × List Event) : String × List String :=
  (groupKey digest block.1 (block.2.map Event.physicalKey),
    sorted (block.2.map Event.physicalKey))

section
variable {events : List Event} {blocks : String → List (List Event)} {digest : Val → String}
  (distinct : (events.map Event.physicalKey).Nodup) (isBlocks : Blocks events blocks)
  (injective : ∀ values values', digest (texts values) = digest (texts values') → values = values')

theorem mem_blocksOf {block : String × List Event} :
    block ∈ blocksOf events blocks ↔ block.1 ∈ weeksOf events ∧ block.2 ∈ blocks block.1 := by
  unfold blocksOf
  rw [List.mem_flatMap]
  constructor
  · rintro ⟨week, hweek, mem⟩
    obtain ⟨own, hown, rfl⟩ := List.mem_map.mp mem
    exact ⟨hweek, hown⟩
  · rintro ⟨hweek, hown⟩
    exact ⟨block.1, hweek, List.mem_map.mpr ⟨block.2, hown, rfl⟩⟩

include isBlocks in
theorem exists_mem_block {block : String × List Event} (mem : block ∈ blocksOf events blocks) :
    ∃ x ∈ block.2, x ∈ events ∧ entryWeek x.entryAt = block.1 := by
  obtain ⟨-, mem⟩ := mem_blocksOf.mp mem
  obtain ⟨x, hx⟩ := List.exists_mem_of_ne_nil _ ((isBlocks.are block.1).nonempty _ mem)
  exact ⟨x, hx, week_of_mem isBlocks mem hx⟩

include distinct isBlocks injective in
theorem nodup_groupKeys : ((blocksOf events blocks).map fun block =>
    groupKey digest block.1 (block.2.map Event.physicalKey)).Nodup := by
  refine List.pairwise_map.mpr ?_
  refine (List.pairwise_map.mp (isComponents_blocksOf isBlocks).apart).imp_of_mem ?_
  intro block block' mem mem' disjoint same
  obtain ⟨x, hx, inside, week⟩ := exists_mem_block isBlocks mem
  obtain ⟨x', hx', -, week'⟩ := exists_mem_block isBlocks mem'
  rw [← week, ← week'] at same
  have keys := groupKey_injective injective same
  have shared : x.physicalKey ∈ block'.2.map Event.physicalKey := by
    have own : x.physicalKey ∈ sorted (block.2.map Event.physicalKey) :=
      mem_sortedBy.mpr (List.mem_map.mpr ⟨x, hx, rfl⟩)
    rw [keys] at own
    exact mem_sortedBy.mp own
  obtain ⟨z, hz, equal⟩ := List.mem_map.mp shared
  have there := (week_of_mem isBlocks (mem_blocksOf.mp mem').2 hz).1
  exact disjoint hx (Tables.eq_of_key distinct there inside equal ▸ hz)

include distinct isBlocks injective in
theorem factorGroups_eq : factorGroups digest events =
    sortedBy Prod.fst ((blocksOf events blocks).map (entry digest)) := by
  unfold factorGroups assign
  rw [weekComponents_eq isBlocks, List.map_map]
  refine congrArg _ (Tally.tally_of_nodup ?_)
  rw [Tally.keys, List.map_map]
  exact nodup_groupKeys distinct isBlocks injective

theorem sortedGroups_map (groups : List (String × List String)) : sortedGroups groups =
    sortedBy Prod.fst (groups.map fun group => (group.1, sorted group.2)) :=
  List.map_insertionSort _ _ _ _ fun _ _ _ _ => Iff.rfl

theorem sorted_sorted (values : List String) : sorted (sorted values) = sorted values :=
  sorted_perm (perm_sortedBy id values)

theorem sortedGroups_sortedBy {groups : List (String × List String)}
    (nodup : (groups.map Prod.fst).Nodup) : sortedGroups (sortedBy Prod.fst groups) =
      sortedGroups groups := by
  unfold sortedGroups
  refine congrArg _ (sortedBy_perm (perm_sortedBy _ _) fun x hx y hy same => ?_)
  rw [mem_sortedBy] at hx hy
  exact List.inj_on_of_nodup_map nodup hx hy same

include distinct isBlocks injective in
/-- **Both assign the same clusters.** -/
theorem factorClusters_eq (tenDigits : ℚ → String) : factorClusters digest tenDigits events =
    clusterSummary digest tenDigits (factorGroups digest events) := by
  have keys := nodup_groupKeys distinct isBlocks injective
  have raw : assign ((weekComponents events).map
      fun (week, component) => (groupKey digest week component, component)) =
      (blocksOf events blocks).map fun block =>
        (groupKey digest block.1 (block.2.map Event.physicalKey),
          block.2.map Event.physicalKey) := by
    unfold assign
    rw [weekComponents_eq isBlocks, List.map_map]
    refine Tally.tally_of_nodup ?_
    rw [Tally.keys, List.map_map]
    exact keys
  have same : sortedGroups (factorGroups digest events) = sortedGroups (assign
      ((weekComponents events).map
        fun (week, component) => (groupKey digest week component, component))) := by
    rw [raw, factorGroups_eq distinct isBlocks injective, sortedGroups_sortedBy, sortedGroups_map,
      sortedGroups_map, List.map_map, List.map_map]
    · refine congrArg _ (List.map_congr_left fun block _ => ?_)
      exact Prod.ext rfl (sorted_sorted _)
    · rw [List.map_map]
      exact keys
  unfold factorClusters clusterSummary
  rw [same]

include isBlocks in
theorem own_block {block block' : String × List Event} (mem : block ∈ blocksOf events blocks)
    (mem' : block' ∈ blocksOf events blocks) {x : Event} (hx : x ∈ block.2) (hx' : x ∈ block'.2) :
    block = block' := by
  have are := isComponents_blocksOf isBlocks
  have found := IsComponents.find?_eq are.apart (List.mem_map.mpr ⟨block, mem, rfl⟩) hx
  rw [IsComponents.find?_eq are.apart (List.mem_map.mpr ⟨block', mem', rfl⟩) hx'] at found
  refine Prod.ext ?_ (Option.some.inj found).symm
  rw [← (week_of_mem isBlocks (mem_blocksOf.mp mem).2 hx).2,
    ← (week_of_mem isBlocks (mem_blocksOf.mp mem').2 hx').2]

include distinct isBlocks in
theorem mem_block_iff {block : String × List Event} (mem : block ∈ blocksOf events blocks)
    {event : Event} (inside : event ∈ events) :
    event.physicalKey ∈ (entry digest block).2 ↔ event ∈ block.2 := by
  show event.physicalKey ∈ sorted (block.2.map Event.physicalKey) ↔ _
  rw [sorted, mem_sortedBy, List.mem_map]
  constructor
  · rintro ⟨x, hx, same⟩
    have there := (week_of_mem isBlocks (mem_blocksOf.mp mem).2 hx).1
    exact Tables.eq_of_key distinct there inside same ▸ hx
  · exact fun hx => ⟨event, hx, rfl⟩

include distinct isBlocks injective in
/-- **Each event is in exactly one cluster.** -/
theorem existsUnique_group {event : Event} (inside : event ∈ events) :
    ∃! group, group ∈ factorGroups digest events ∧ event.physicalKey ∈ group.2 := by
  have groups : ∀ group, group ∈ factorGroups digest events ↔
      ∃ block ∈ blocksOf events blocks, entry digest block = group := by
    intro group
    rw [factorGroups_eq distinct isBlocks injective, mem_sortedBy, List.mem_map]
  obtain ⟨_, mem, hx⟩ := ((isComponents_blocksOf isBlocks).covers event).mpr inside
  obtain ⟨block, hblock, rfl⟩ := List.mem_map.mp mem
  refine ⟨entry digest block, ⟨(groups _).mpr ⟨block, hblock, rfl⟩,
    (mem_block_iff distinct isBlocks hblock inside).mpr hx⟩, ?_⟩
  rintro group ⟨hgroup, member⟩
  obtain ⟨block', hblock', rfl⟩ := (groups group).mp hgroup
  have hx' := (mem_block_iff distinct isBlocks hblock' inside).mp member
  rw [own_block isBlocks hblock hblock' hx hx']

include isBlocks in
theorem nodup_block (distinct : (events.map Event.physicalKey).Nodup) {block : String × List Event}
    (mem : block ∈ blocksOf events blocks) : block.2.Nodup := by
  have rows : (rowsOf events block.1).Nodup := (List.Nodup.of_map _ distinct).filter _
  have flat := (isBlocks.flat block.1).nodup_iff.mpr rows
  exact flat.sublist (List.sublist_flatten_of_mem (mem_blocksOf.mp mem).2)

omit distinct in
/-- The events in another order have the same groups. -/
theorem entry_mem_of_perm {events' : List Event} {blocks' : String → List (List Event)}
    (distinct : (events.map Event.physicalKey).Nodup) (isBlocks : Blocks events blocks)
    (isBlocks' : Blocks events' blocks') (perm : events.Perm events') {block : String × List Event}
    (mem : block ∈ blocksOf events blocks) :
    entry digest block ∈ (blocksOf events' blocks').map (entry digest) := by
  have are' : IsComponents (· ∈ events) (within (· ∈ events) SharedFactor)
      ((blocksOf events' blocks').map Prod.snd) :=
    isComponents_congr (fun x => perm.mem_iff.symm) (isComponents_blocksOf isBlocks')
  obtain ⟨_, mem', same⟩ := (isComponents_blocksOf isBlocks).block_of are'
    (List.mem_map.mpr ⟨block, mem, rfl⟩)
  obtain ⟨block', hblock', rfl⟩ := List.mem_map.mp mem'
  have distinct' : (events'.map Event.physicalKey).Nodup := (perm.map _).nodup_iff.mp distinct
  have members : block'.2.Perm block.2 := (List.perm_ext_iff_of_nodup
    (nodup_block isBlocks' distinct' hblock') (nodup_block isBlocks distinct mem)).mpr same
  obtain ⟨x, hx, -, week⟩ := exists_mem_block isBlocks mem
  have week' := (week_of_mem isBlocks' (mem_blocksOf.mp hblock').2 ((same x).mpr hx)).2
  have keys : sorted (block'.2.map Event.physicalKey) = sorted (block.2.map Event.physicalKey) :=
    sorted_perm (members.map _)
  refine List.mem_map.mpr ⟨block', hblock', ?_⟩
  unfold entry groupKey
  rw [keys, ← week', week]

include distinct injective in
/-- **The order of the events does not matter.** -/
theorem factorGroups_perm {events' : List Event} (perm : events.Perm events') :
    factorGroups digest events' = factorGroups digest events := by
  have distinct' : (events'.map Event.physicalKey).Nodup := (perm.map _).nodup_iff.mp distinct
  obtain ⟨blocks, isBlocks⟩ := exists_blocks distinct
  obtain ⟨blocks', isBlocks'⟩ := exists_blocks distinct'
  have keys : (((blocksOf events blocks).map (entry digest)).map Prod.fst).Nodup := by
    rw [List.map_map]
    exact nodup_groupKeys distinct isBlocks injective
  have keys' : (((blocksOf events' blocks').map (entry digest)).map Prod.fst).Nodup := by
    rw [List.map_map]
    exact nodup_groupKeys distinct' isBlocks' injective
  rw [factorGroups_eq distinct isBlocks injective, factorGroups_eq distinct' isBlocks' injective]
  refine sortedBy_perm ((List.perm_ext_iff_of_nodup (List.Nodup.of_map _ keys')
    (List.Nodup.of_map _ keys)).mpr fun group => ⟨fun mem => ?_, fun mem => ?_⟩) ?_
  · obtain ⟨block, hblock, rfl⟩ := List.mem_map.mp mem
    exact entry_mem_of_perm distinct' isBlocks' isBlocks perm.symm hblock
  · obtain ⟨block, hblock, rfl⟩ := List.mem_map.mp mem
    exact entry_mem_of_perm distinct isBlocks isBlocks' perm hblock
  · exact fun x hx y hy same => List.inj_on_of_nodup_map keys' hx hy same

end

/-! ## Effective sizes -/

section
variable {events : List Event} {blocks : String → List (List Event)} {digest : Val → String}
  {tenDigits : ℚ → String}

/-- The effective size of a summary is that of its group sizes. -/
theorem kishExact_eq {groups groups' : List (String × List String)}
    (perm : (sortedBy Prod.fst groups).Perm groups') :
    (clusterSummary digest tenDigits groups).kishExact =
      kish (groups'.map fun group => group.2.length) := by
  show kish (((sortedGroups groups).map fun (key, values) => (key, values.length)).map Prod.snd) = _
  refine kish_perm ?_
  unfold sortedGroups
  rw [List.map_map, List.map_map]
  have lengths : ((Prod.snd ∘ fun (key, values) => (key, values.length)) ∘
      fun (key, values) => (key, sorted values)) =
      fun group : String × List String => group.2.length := by
    funext group
    exact (perm_sortedBy id group.2).length_eq
  rw [lengths]
  exact perm.map _

variable (distinct : (events.map Event.physicalKey).Nodup) (isBlocks : Blocks events blocks)
  (injective : ∀ values values', digest (texts values) = digest (texts values') → values = values')

/-- The sizes of the blocks of every week. -/
def blockSizes (events : List Event) (blocks : String → List (List Event)) : List (List ℕ) :=
  (weeksOf events).map fun week => (blocks week).map List.length

include isBlocks in
theorem kish_entryWeeks : (clusterSummary digest tenDigits (entryWeeks events)).kishExact =
    kish ((blockSizes events blocks).map List.sum) := by
  rw [kishExact_eq (List.Perm.refl _)]
  unfold entryWeeks blockSizes
  rw [sorted_collected, List.map_map, List.map_map]
  refine congrArg kish (List.map_congr_left fun week _ => ?_)
  show ((rowsOf events week).map Event.physicalKey).length = ((blocks week).map List.length).sum
  rw [List.length_map, ← List.length_flatten, (isBlocks.flat week).length_eq]

include distinct isBlocks injective in
theorem kish_factorClusters : (factorClusters digest tenDigits events).kishExact =
    kish (blockSizes events blocks).flatten := by
  have groups : (sortedBy Prod.fst (factorGroups digest events)).Perm
      ((blocksOf events blocks).map (entry digest)) := by
    rw [factorGroups_eq distinct isBlocks injective]
    exact (perm_sortedBy _ _).trans (perm_sortedBy _ _)
  rw [factorClusters_eq distinct isBlocks injective, kishExact_eq groups]
  unfold blocksOf blockSizes
  rw [List.map_map, List.map_flatMap, ← List.flatMap_def]
  refine congrArg kish (List.flatMap_congr fun week _ => ?_)
  rw [List.map_map]
  refine List.map_congr_left fun block _ => ?_
  show (sortedBy id (block.map Event.physicalKey)).length = block.length
  rw [(perm_sortedBy id _).length_eq, List.length_map]

include distinct isBlocks in
theorem sum_blockSizes : (blockSizes events blocks).flatten.sum = events.length := by
  have week_rows : ((weeksOf events).flatMap (rowsOf events)).Perm events := by
    have nodup : events.Nodup := List.Nodup.of_map _ distinct
    refine (List.perm_ext_iff_of_nodup (List.nodup_flatMap.mpr
      ⟨fun week _ => nodup.filter _, ?_⟩) nodup).mpr fun event => ?_
    · refine (pairwise_sortedOnce _).imp fun {week week'} less event mem mem' => ?_
      exact ne_of_lt less ((mem_rowsOf.mp mem).2.symm.trans (mem_rowsOf.mp mem').2)
    · rw [List.mem_flatMap]
      constructor
      · rintro ⟨week, -, mem⟩
        exact (mem_rowsOf.mp mem).1
      · intro mem
        exact ⟨entryWeek event.entryAt, mem_sortedOnce.mpr (List.mem_map.mpr ⟨event, mem, rfl⟩),
          mem_rowsOf.mpr ⟨mem, rfl⟩⟩
  rw [← week_rows.length_eq, List.length_flatMap, List.sum_flatten]
  unfold blockSizes
  rw [List.map_map]
  refine congrArg List.sum (List.map_congr_left fun week _ => ?_)
  show ((blocks week).map List.length).sum = _
  rw [← List.length_flatten, (isBlocks.flat week).length_eq]

end

/-- `_mde` takes the smaller sample, which has an effect to detect where it is not empty. -/
theorem mde_conservative {detectableEffect : ℚ → List (String × Option ℚ)}
    (detects : ∀ n, 0 < n → ∀ effect ∈ detectableEffect n, effect.2.isSome)
    {geometry : Geometry}
    (some_ : 0 < min geometry.entryWeeks.kishExact geometry.sharedFactors.kishExact)
    (eventCount : ℕ) : ∃ result, mde detectableEffect geometry eventCount = .ok result ∧
      result.conservativeEffectiveN =
        min geometry.entryWeeks.kishExact geometry.sharedFactors.kishExact := by
  have reachable : ∀ effect ∈ detectableEffect (min geometry.entryWeeks.kishExact
      geometry.sharedFactors.kishExact), ∃ target, adequacy effect = .ok target := by
    rintro ⟨sigma, value⟩ mem
    obtain ⟨found, rfl⟩ := Option.isSome_iff_exists.mp (detects _ some_ _ mem)
    exact ⟨_, rfl⟩
  obtain ⟨target, computed⟩ := mapE_returns reachable
  exact ⟨_, bind_eq_ok.mpr ⟨target, computed, rfl⟩, rfl⟩

/-- **Shared-factor clusters.** For events of distinct keys the groups are the components of events
of one week linked by shared currencies, in whatever order the events come; and the effective size
of the weeks is at least one, at most that of the clusters, at most the number of events. -/
theorem factorGroups_components {digest : Val → String} (tenDigits : ℚ → String)
    (injective : ∀ values values', digest (texts values) = digest (texts values') →
      values = values')
    {events : List Event} (distinct : (events.map Event.physicalKey).Nodup) :
    (∃ blocks : List (List Event),
      IsComponents (· ∈ events) (within (· ∈ events) SharedFactor) blocks ∧
      ((factorGroups digest events).map Prod.snd).Perm
        (blocks.map fun block => sorted (block.map Event.physicalKey))) ∧
    (∀ event ∈ events,
      ∃! group, group ∈ factorGroups digest events ∧ event.physicalKey ∈ group.2) ∧
    factorClusters digest tenDigits events =
      clusterSummary digest tenDigits (factorGroups digest events) ∧
    (∀ events', events.Perm events' →
      factorGroups digest events' = factorGroups digest events ∧
      factorClusters digest tenDigits events' = factorClusters digest tenDigits events) ∧
    (events ≠ [] →
      1 ≤ (geometry digest tenDigits events).entryWeeks.kishExact ∧
      (geometry digest tenDigits events).entryWeeks.kishExact ≤
        (geometry digest tenDigits events).sharedFactors.kishExact ∧
      (geometry digest tenDigits events).sharedFactors.kishExact ≤ events.length ∧
      ∀ detectableEffect, (∀ n, 0 < n → ∀ effect ∈ detectableEffect n, effect.2.isSome) →
        ∀ eventCount, ∃ result,
          mde detectableEffect (geometry digest tenDigits events) eventCount = .ok result ∧
          result.conservativeEffectiveN =
            (geometry digest tenDigits events).entryWeeks.kishExact) := by
  obtain ⟨blocks, isBlocks⟩ := exists_blocks distinct
  have clusters := factorClusters_eq distinct isBlocks injective tenDigits
  refine ⟨⟨_, isComponents_blocksOf isBlocks, ?_⟩,
    fun event inside => existsUnique_group distinct isBlocks injective inside, clusters,
    fun events' perm => ?_, fun some_ => ?_⟩
  · rw [factorGroups_eq distinct isBlocks injective, List.map_map]
    have groups := (perm_sortedBy Prod.fst ((blocksOf events blocks).map (entry digest))).map Prod.snd
    rw [List.map_map] at groups
    exact groups
  · have distinct' : (events'.map Event.physicalKey).Nodup := (perm.map _).nodup_iff.mp distinct
    obtain ⟨blocks', isBlocks'⟩ := exists_blocks distinct'
    have same := factorGroups_perm distinct injective perm
    refine ⟨same, ?_⟩
    rw [clusters, factorClusters_eq distinct' isBlocks' injective tenDigits, same]
  · have whole := sum_blockSizes distinct isBlocks
    have positive : 0 < (blockSizes events blocks).flatten.sum := by
      rw [whole]
      exact List.length_pos_iff.mpr some_
    have positive_weeks : 0 < ((blockSizes events blocks).map List.sum).sum := by
      rw [← List.sum_flatten]
      exact positive
    have weeks : (geometry digest tenDigits events).entryWeeks.kishExact = _ :=
      kish_entryWeeks isBlocks
    have factors : (geometry digest tenDigits events).sharedFactors.kishExact = _ :=
      kish_factorClusters distinct isBlocks injective
    have ordered : (geometry digest tenDigits events).entryWeeks.kishExact ≤
        (geometry digest tenDigits events).sharedFactors.kishExact := by
      rw [weeks, factors]
      exact kish_le_flatten positive
    have one_le : 1 ≤ (geometry digest tenDigits events).entryWeeks.kishExact := by
      rw [weeks]
      exact one_le_kish positive_weeks
    refine ⟨one_le, ordered, ?_, fun detectableEffect detects eventCount => ?_⟩
    · rw [factors, ← whole]
      exact kish_le_sum positive
    · have least := min_eq_left ordered
      rw [← least]
      refine mde_conservative detects ?_ eventCount
      rw [least]
      exact lt_of_lt_of_le one_pos one_le

/-! ## A chain of pairs -/

/-- A text with its characters marked, and its end. -/
def marks (text : List Char) : List Char := text.flatMap (fun c => ['c', c]) ++ ['e']

/-- A digest that tells lists of texts apart. -/
def marked : Val → String
  | .list items => String.ofList (items.flatMap fun
    | .str text => marks text.toList
    | _ => [])
  | _ => ""

theorem marks_append {text text' rest rest' : List Char}
    (same : marks text ++ rest = marks text' ++ rest') : text = text' ∧ rest = rest' := by
  induction text generalizing text' with
  | nil =>
    cases text' with
    | nil => exact ⟨rfl, (List.cons.inj same).2⟩
    | cons c text' => exact absurd (List.cons.inj same).1 (by decide)
  | cons c text ih =>
    cases text' with
    | nil => exact absurd (List.cons.inj same).1 (by decide)
    | cons c' text' =>
      obtain ⟨head, tail⟩ := List.cons.inj (List.cons.inj same).2
      obtain ⟨texts, rests⟩ := ih tail
      exact ⟨by rw [head, texts], rests⟩

theorem marked_injective (values values' : List String)
    (same : marked (texts values) = marked (texts values')) : values = values' := by
  have lists := String.ofList_injective same
  simp only [List.flatMap_map] at lists
  clear same
  induction values generalizing values' with
  | nil =>
    cases values' with
    | nil => rfl
    | cons value values' =>
      rw [List.flatMap_cons, List.flatMap_nil] at lists
      cases h : value.toList with
      | nil => simp [h, marks] at lists
      | cons c rest => simp [h, marks] at lists
  | cons value values ih =>
    cases values' with
    | nil => simp [marks] at lists
    | cons value' values' =>
      rw [List.flatMap_cons, List.flatMap_cons] at lists
      obtain ⟨head, tail⟩ := marks_append lists
      rw [String.toList_inj.mp head, ih values' tail]

/-- Three events of one week, the first and the last linked by the second. -/
def chain : List Event :=
  [⟨"a", 0, "EUR", "USD"⟩, ⟨"b", 0, "AUD", "NZD"⟩, ⟨"c", 0, "USD", "AUD"⟩]

theorem factorGroups_components_chain :
    (geometry marked (fun _ => "") chain).entryWeeks.kishExact ≤
      (geometry marked (fun _ => "") chain).sharedFactors.kishExact ∧
    ∃! group, group ∈ factorGroups marked chain ∧ "b" ∈ group.2 := by
  have all := factorGroups_components (fun _ => "") marked_injective
    (show (chain.map Event.physicalKey).Nodup by decide)
  exact ⟨(all.2.2.2.2 (by decide)).2.1, all.2.1 ⟨"b", 0, "AUD", "NZD"⟩ (by decide)⟩

end TradeRecommender.Strategy.Factors
