import Mathlib.Data.List.Chain
import TradeRecommender.Forecasts.Lifecycle

/-!
# The chain of lifecycle events

Whatever calls `transition`, in whatever transactions:

1. what one call can do to the table;
2. the events of a recommendation are a path of `TRANSITIONS`, each naming the one before it;
3. the greatest by `occurred_at, id` is the last;
4. a state is entered once, and a call made again changes nothing.

The table numbers rows of all recommendations from one sequence, so the numbers of one path increase
but are not dense.
-/

namespace TradeRecommender.Forecasts

open Py

section
variable {K : Type}

/-! ## Paths -/

/-- How an event follows another. -/
structure Follows (a b : LifecycleEvent K) : Prop where
  predecessor : b.predecessor = some a.id
  state : b.state ∈ transitions a.state
  time : a.occurredAt ≤ b.occurredAt
  id : a.id < b.id

/-- How the events of a recommendation start. -/
structure Starts (subject : Recommendation) (first : LifecycleEvent K) : Prop where
  predecessor : first.predecessor = none
  state : first.state = subject.initial
  time : subject.generatedAt ≤ first.occurredAt

/-- A path of `TRANSITIONS` from the initial state. -/
structure Path (subject : Recommendation) (events : List (LifecycleEvent K)) : Prop where
  starts : ∀ first ∈ events.head?, Starts subject first
  follows : events.IsChain Follows

/-- How far a state is from the first. -/
def LifecycleState.rank : LifecycleState → ℕ
  | .abstained | .awaitingPortfolioAssessment => 0
  | .awaitingOwnerDecision => 1
  | .admittedAwaitingEntry => 2
  | .entered => 3
  | _ => 4

theorem LifecycleState.rank_lt {a b : LifecycleState} (h : b ∈ transitions a) :
    a.rank < b.rank := by
  revert h
  cases a <;> cases b <;> decide

/-- Of two events of a path the later has the later time, the greater number and the further
state. -/
structure Before (a b : LifecycleEvent K) : Prop where
  time : a.occurredAt ≤ b.occurredAt
  id : a.id < b.id
  rank : a.state.rank < b.state.rank

instance : Trans (Before (K := K)) Before Before where
  trans first second :=
    ⟨Int.le_trans first.time second.time, lt_trans first.id second.id,
      lt_trans first.rank second.rank⟩

namespace Path

variable {subject : Recommendation} {events : List (LifecycleEvent K)}

theorem nil : Path subject ([] : List (LifecycleEvent K)) := ⟨by simp, .nil⟩

theorem pairwise (path : Path subject events) : events.Pairwise Before := by
  refine List.IsChain.pairwise (path.follows.imp fun a b follows => ?_)
  exact ⟨follows.time, follows.id, LifecycleState.rank_lt follows.state⟩

/-- **`lifecycle_events.first()` is the end of the path.** -/
theorem newest_eq (path : Path subject events) : newest events = events.getLast? := by
  refine Window.firstMax_of_pairwise (path.pairwise.imp fun {a b} before => ?_)
  rw [LifecycleEvent.earlier, Bool.or_eq_true, Bool.and_eq_true]
  rcases Int.lt_or_eq_of_le before.time with lt | eq
  · exact .inl (decide_eq_true lt)
  · exact .inr ⟨decide_eq_true eq, decide_eq_true before.id⟩

/-- No event is further than the last. -/
theorem rank_le_last (path : Path subject events) {event last : LifecycleEvent K}
    (mem : event ∈ events) (end_ : events.getLast? = some last) :
    event.state.rank ≤ last.state.rank := by
  obtain ⟨front, rfl⟩ := List.getLast?_eq_some_iff.mp end_
  rcases List.mem_append.mp mem with mem | mem
  · exact ((List.pairwise_append.mp path.pairwise).2.2 event mem last (by simp)).rank.le
  · rw [List.mem_singleton.mp mem]

/-- **No event follows a terminal state.** -/
theorem terminal (path : Path subject events) {before after : List (LifecycleEvent K)}
    {event : LifecycleEvent K} (split : events = before ++ event :: after)
    (terminal : transitions event.state = []) : after = [] := by
  cases after with
  | nil => rfl
  | cons next after =>
    have chain := path.follows
    rw [split] at chain
    have step := (List.isChain_append_cons_cons.mp chain).2.1.state
    rw [terminal] at step
    cases step

/-- A path goes on by an event that starts it or follows its end. -/
theorem snoc (path : Path subject events) {row : LifecycleEvent K}
    (first : events = [] → Starts subject row)
    (next : ∀ last ∈ events.getLast?, Follows last row) : Path subject (events ++ [row]) := by
  constructor
  · intro head mem
    cases events with
    | nil =>
      obtain rfl : row = head := Option.some.inj mem
      exact first rfl
    | cons event events => exact path.starts head mem
  · refine List.isChain_append.mpr ⟨path.follows, .singleton row, fun last mem other head => ?_⟩
    obtain rfl : row = other := Option.some.inj head
    exact next last mem

end Path

/-! ## Tables -/

variable {recs : ℕ → Recommendation} {digest : ℕ × LifecycleState × SourceType × ℕ → K}
  {t t' : EventTable K} {r : Request}

/-- The events of every recommendation are a path, and the sequence is ahead of them. -/
structure Chained (recs : ℕ → Recommendation) (t : EventTable K) : Prop where
  path : ∀ pk, Path (recs pk) (t.of pk)
  ids : ∀ event ∈ t.rows, event.id < t.nextId

theorem Chained.newest_eq (chained : Chained recs t) (pk : ℕ) :
    newest (t.of pk) = (t.of pk).getLast? := (chained.path pk).newest_eq

theorem chained_empty (recs : ℕ → Recommendation) : Chained recs ({} : EventTable K) :=
  ⟨fun _ => Path.nil, fun _ mem => by cases mem⟩

theorem of_append (t : EventTable K) (row : LifecycleEvent K) (n pk : ℕ) :
    EventTable.of { rows := t.rows ++ [row], nextId := n } pk =
      if row.recommendation = pk then t.of pk ++ [row] else t.of pk := by
  unfold EventTable.of
  rw [List.filter_append]
  by_cases same : row.recommendation = pk
  · rw [if_pos same, List.filter_cons_of_pos (by simpa using same), List.filter_nil]
  · rw [if_neg same, List.filter_cons_of_neg (by simpa using same), List.filter_nil,
      List.append_nil]

/-- A legal row continues the path of its recommendation. -/
theorem Chained.row_continues (chained : Chained recs t)
    (legal : r.legal (recs r.recommendation) (newest (t.of r.recommendation))) :
    Path (recs r.recommendation)
      (t.of r.recommendation ++ [r.row digest t (newest (t.of r.recommendation))]) := by
  refine (chained.path r.recommendation).snoc (fun empty => ?_) fun last mem => ?_
  · have none_ : newest (t.of r.recommendation) = none := by rw [empty]; rfl
    rw [none_] at legal ⊢
    exact ⟨rfl, legal.2, legal.1⟩
  · rw [chained.newest_eq, Option.mem_def.mp mem] at legal ⊢
    have row : last ∈ t.rows := List.mem_of_mem_filter (List.mem_of_getLast? mem)
    exact ⟨rfl, legal.2.1, legal.2.2, Nat.lt_add_right r.skipped (chained.ids last row)⟩

/-- The same recommendation, state and source; the reason and the time may be others. -/
structure Request.Repeats (again r : Request) : Prop where
  recommendation : again.recommendation = r.recommendation
  state : again.state = r.state
  source : again.source = r.source

theorem Request.Repeats.key_eq {again : Request} (repeats : again.Repeats r) :
    again.key digest = r.key digest := by
  unfold Request.key Request.origin
  rw [repeats.recommendation, repeats.state, repeats.source]

/-- The call has been made: its recommendation has an event of its key or of its state. -/
def Made (digest : ℕ × LifecycleState × SourceType × ℕ → K) (r : Request) (t : EventTable K) :
    Prop :=
  ∃ event ∈ t.of r.recommendation, event.idempotencyKey = r.key digest ∨ event.state = r.state

theorem Made.mono (made : Made digest r t) (more : t.rows <+: t'.rows) : Made digest r t' := by
  obtain ⟨event, mem, h⟩ := made
  obtain ⟨mem, same⟩ := List.mem_filter.mp mem
  exact ⟨event, List.mem_filter.mpr ⟨more.subset mem, same⟩, h⟩

/-! ## One call -/

variable [DecidableEq K]

theorem EventTable.create_eq {row : LifecycleEvent K} (h : t.create row = .ok t') :
    t' = { rows := t.rows ++ [row], nextId := row.id + 1 } := by
  unfold EventTable.create at h
  split_ifs at h
  all_goals first
    | exact absurd h raise_ne_ok
    | exact (Except.ok.inj h).symm

/-- **What a call of `transition` can do**: find an event of its key, find its state the latest, or
append a legal row. -/
theorem transition_cases {event : LifecycleEvent K}
    (h : transition recs digest t r = .ok (event, t')) :
    (t' = t ∧ event ∈ t.of r.recommendation ∧ event.idempotencyKey = r.key digest) ∨
    (t' = t ∧ newest (t.of r.recommendation) = some event ∧ event.state = r.state) ∨
    (t' = { rows := t.rows ++ [event], nextId := event.id + 1 } ∧
      event = r.row digest t (newest (t.of r.recommendation)) ∧
      r.legal (recs r.recommendation) (newest (t.of r.recommendation)) ∧
      ∀ other ∈ t.of r.recommendation, other.idempotencyKey ≠ r.key digest) := by
  unfold transition at h
  by_cases version : (recs r.recommendation).contractVersion ≠ 4
  · rw [if_pos version] at h
    exact absurd h raise_ne_ok
  rw [if_neg version] at h
  obtain ⟨_, -, h⟩ := bind_eq_ok.mp h
  dsimp only at h
  cases found : (t.of r.recommendation).find? fun event => event.idempotencyKey = r.key digest with
  | some existing =>
    rw [found] at h
    obtain ⟨rfl, rfl⟩ := Prod.mk.inj (Except.ok.inj h)
    have key := List.find?_some found
    exact .inl ⟨rfl, List.mem_of_find?_eq_some found, of_decide_eq_true key⟩
  | none =>
    rw [found] at h
    dsimp only at h
    cases same : (newest (t.of r.recommendation)).filter fun event => event.state = r.state with
    | some latest =>
      rw [same] at h
      obtain ⟨rfl, rfl⟩ := Prod.mk.inj (Except.ok.inj h)
      obtain ⟨latest, state⟩ := Option.filter_eq_some_iff.mp same
      exact .inr (.inl ⟨rfl, latest, of_decide_eq_true state⟩)
    | none =>
      rw [same] at h
      obtain ⟨_, -, h⟩ := bind_eq_ok.mp h
      by_cases legal : r.legal (recs r.recommendation) (newest (t.of r.recommendation))
      · rw [if_pos legal] at h
        obtain ⟨made, created, h⟩ := bind_eq_ok.mp h
        obtain ⟨rfl, rfl⟩ := Prod.mk.inj (Except.ok.inj h)
        refine .inr (.inr ⟨EventTable.create_eq created, rfl, legal, fun other mem key => ?_⟩)
        exact List.find?_eq_none.mp found other mem (decide_eq_true key)
      · rw [if_neg legal] at h
        exact absurd h raise_ne_ok

/-! ## Every table -/

/-- **A call keeps the chains.** -/
theorem transition_chained {event : LifecycleEvent K} (chained : Chained recs t)
    (h : transition recs digest t r = .ok (event, t')) : Chained recs t' := by
  obtain ⟨rfl, -⟩ | ⟨rfl, -⟩ | ⟨rfl, made, legal, -⟩ := transition_cases h
  · exact chained
  · exact chained
  · constructor
    · intro pk
      rw [of_append]
      by_cases same : event.recommendation = pk
      · rw [if_pos same, ← same, made]
        exact chained.row_continues legal
      · rw [if_neg same]
        exact chained.path pk
    · intro other mem
      rcases List.mem_append.mp mem with mem | mem
      · have lt := chained.ids other mem
        have id : event.id = t.nextId + r.skipped := by rw [made]; rfl
        show other.id < event.id + 1
        omega
      · rw [List.mem_singleton.mp mem]
        exact Nat.lt_succ_self _

/-- A call only adds to the table. -/
theorem transition_adds {event : LifecycleEvent K}
    (h : transition recs digest t r = .ok (event, t')) : t.rows <+: t'.rows := by
  obtain ⟨rfl, -⟩ | ⟨rfl, -⟩ | ⟨rfl, -⟩ := transition_cases h
  · exact List.prefix_rfl
  · exact List.prefix_rfl
  · exact List.prefix_append _ _

theorem run_keeps {caller : Caller K} (chained : Chained recs t)
    (h : caller.run recs digest t = .ok t') : Chained recs t' ∧ t.rows <+: t'.rows := by
  induction caller generalizing t with
  | nil =>
    obtain rfl := Except.ok.inj h
    exact ⟨chained, List.prefix_rfl⟩
  | cons call rest ih =>
    rw [Caller.run] at h
    cases asked : call t with
    | none =>
      rw [asked] at h
      exact ih chained h
    | some r =>
      rw [asked] at h
      obtain ⟨⟨event, middle⟩, made, h⟩ := bind_eq_ok.mp h
      obtain ⟨chained', more⟩ := ih (transition_chained chained made) h
      exact ⟨chained', (transition_adds made).trans more⟩

theorem commit_keeps (digest : ℕ × LifecycleState × SourceType × ℕ → K) (caller : Caller K)
    (chained : Chained recs t) :
    Chained recs (commit recs digest t caller) ∧ t.rows <+: (commit recs digest t caller).rows := by
  unfold commit
  cases ran : caller.run recs digest t with
  | ok t' => exact run_keeps chained ran
  | error e => exact ⟨chained, List.prefix_rfl⟩

/-- **Transactions keep the chains**, and only add to the table. -/
theorem commitAll_keeps (digest : ℕ × LifecycleState × SourceType × ℕ → K)
    (callers : List (Caller K)) (chained : Chained recs t) :
    Chained recs (commitAll recs digest t callers) ∧
      t.rows <+: (commitAll recs digest t callers).rows := by
  induction callers generalizing t with
  | nil => exact ⟨chained, List.prefix_rfl⟩
  | cons caller callers ih =>
    obtain ⟨chained', more⟩ := commit_keeps digest caller chained
    obtain ⟨chained'', more'⟩ := ih chained'
    exact ⟨chained'', more.trans more'⟩

/-! ## A call made again -/

theorem transition_made {event : LifecycleEvent K} (chained : Chained recs t)
    (h : transition recs digest t r = .ok (event, t')) : Made digest r t' := by
  obtain ⟨rfl, mem, key⟩ | ⟨rfl, latest, state⟩ | ⟨rfl, made, -⟩ := transition_cases h
  · exact ⟨event, mem, .inl key⟩
  · rw [chained.newest_eq] at latest
    exact ⟨event, List.mem_of_getLast? latest, .inr state⟩
  · have same : event.recommendation = r.recommendation := by rw [made]; rfl
    refine ⟨event, ?_, .inr (by rw [made]; rfl)⟩
    rw [of_append, if_pos same]
    exact List.mem_append_right _ List.mem_cons_self

/-- **A call that has been made changes nothing.** -/
theorem Made.unchanged {again : Request} {event : LifecycleEvent K} (chained : Chained recs t)
    (made : Made digest r t) (repeats : again.Repeats r)
    (h : transition recs digest t again = .ok (event, t')) : t' = t := by
  obtain ⟨rfl, -⟩ | ⟨rfl, -⟩ | ⟨-, -, legal, fresh⟩ := transition_cases h
  · rfl
  · rfl
  exfalso
  obtain ⟨first, mem, known⟩ := made
  rw [← repeats.recommendation] at mem
  rcases known with key | state
  · exact fresh first mem (key.trans repeats.key_eq.symm)
  -- the last event is at least as far as the state, which no transition goes back to
  · rw [chained.newest_eq] at legal
    cases end_ : (t.of again.recommendation).getLast? with
    | none =>
      rw [List.getLast?_eq_none_iff.mp end_] at mem
      cases mem
    | some last =>
      rw [end_] at legal
      have further := LifecycleState.rank_lt legal.2.1
      have behind := (chained.path again.recommendation).rank_le_last mem end_
      rw [repeats.state, ← state] at further
      omega

/-! ## Chains -/

/-- **Lifecycle chains.** After any transactions the events of a recommendation are a path of
`TRANSITIONS` from its initial state; nothing follows a terminal state; the projection reads the end
of the path; and a call that returned, made again after any more transactions, changes nothing. -/
theorem lifecycle_chain (recs : ℕ → Recommendation)
    (digest : ℕ × LifecycleState × SourceType × ℕ → K) (callers : List (Caller K)) (pk : ℕ) :
    let t := commitAll recs digest {} callers
    Path (recs pk) (t.of pk) ∧
    (∀ before event after, t.of pk = before ++ event :: after → transitions event.state = [] →
      after = []) ∧
    newest (t.of pk) = (t.of pk).getLast? ∧
    ∀ (r again : Request) (later : List (Caller K)) (out out' : LifecycleEvent K × EventTable K),
      transition recs digest t r = .ok out → again.Repeats r →
      let t' := commitAll recs digest out.2 later
      transition recs digest t' again = .ok out' → out'.2 = t' := by
  intro t
  obtain ⟨chained, -⟩ := commitAll_keeps digest callers (chained_empty recs)
  have path := chained.path pk
  refine ⟨path, fun before event after split terminal => path.terminal split terminal,
    path.newest_eq, ?_⟩
  intro r again later out out' first repeats t' second
  have chained' := transition_chained chained first
  obtain ⟨chained'', more⟩ := commitAll_keeps digest later chained'
  exact ((transition_made chained first).mono more).unchanged chained'' repeats second

end

/-- The keys themselves, in place of their digests. -/
abbrev PlainKey : Type := ℕ × LifecycleState × SourceType × ℕ

/-- Two recommendations issued one after the other, and the first assessed. -/
def twoIssued : List (Caller PlainKey) :=
  let subject : Recommendation := { contractVersion := 4, abstains := false, generatedAt := 0 }
  let first : Scope := { pk := 1, subject := subject, now := 0 }
  let second : Scope := { pk := 2, subject := subject, now := 0 }
  [first.issue, second.issue, first.assess (.member 1)]

/-- **The numbers of a chain are not dense**: the second event of the first recommendation is the
third of the table. -/
theorem chain_not_dense :
    ¬ ∀ (recs : ℕ → Recommendation) (callers : List (Caller PlainKey)) (pk : ℕ),
      (recs pk).contractVersion = 4 →
      ((commitAll recs id {} callers).of pk).IsChain fun a b => b.id = a.id + 1 := by
  intro dense
  have run := dense (fun _ => { contractVersion := 4, abstains := false, generatedAt := 0 })
    twoIssued 1 rfl
  revert run
  decide

end TradeRecommender.Forecasts
