import TradeRecommender.Forecasts.PortfolioRisk

/-!
# What every call keeps

1. `Sound`: what holds of the tables and the clock between any two calls;
2. `Quiet` and `Still`: a call that makes nothing active, and one that ends nothing either;
3. events and closures;
4. assessments, up to the selection;
5. paper accounts, and the rest of `reconcile_lifecycle`.
-/

namespace TradeRecommender.Forecasts.Portfolio

open Civil (Instant hour)
open Py Py.Transaction

/-! ## The invariant -/

/-- The facts of a recommendation end with a terminal one, whatever follows it. -/
def Settled (facts : List PaperLifecycleEvent) : Prop :=
  ∀ f ∈ facts, ∀ g ∈ facts, f.recommendation = g.recommendation → f.state.terminal.isSome →
    ¬ Window.moment PaperLifecycleEvent.occurredAt PaperLifecycleEvent.id g <
      Window.moment PaperLifecycleEvent.occurredAt PaperLifecycleEvent.id f →
    g.state.terminal.isSome

/-- What holds of the tables and the clock between any two calls. -/
structure Sound (env : Environment) (s : Server Tables) : Prop where
  chained : Chained env.subjects s.store.events
  granted : ∀ e ∈ s.store.events.rows, e.state = .admittedAwaitingEntry →
    e.occurredAt ≤ env.time s
  admissions : ∀ a ∈ s.store.admissions,
    a.occurredAt ≤ env.time s ∧ a.id ≤ s.store.admissions.length
  selections : ∀ x ∈ s.store.selections,
    x.selectedAt ≤ env.time s ∧ x.id ≤ s.store.selections.length
  once : (s.store.members.map CohortMember.recommendation).Nodup
  sized : ∀ m ∈ s.store.members, (s.store.positionSize m.recommendation).isSome
  belongs : ∀ a ∈ s.store.admissions, ∃ m ∈ s.store.members,
    m.cohort = a.cohort ∧ m.recommendation = a.recommendation
  chosen : ∀ pk a, s.store.lastAdmission pk = some a → a.state = .admitted →
    ∃ x, s.store.latestSelection a.cohort = some x ∧ pk ∈ x.selected
  settled : Settled s.store.facts
  ended : ∀ f ∈ s.store.facts, (env.recommendations f.recommendation).contractVersion = 4 →
    f.state.terminal.isSome
  noted : ∀ f ∈ s.store.facts, f.id ≤ s.store.facts.length ∧
    ((env.recommendations f.recommendation).contractVersion ≠ 4 →
      f.occurredAt ≤ max (env.time s) (env.recommendations f.recommendation).generatedAt)
  picked : ∀ x ∈ s.store.selections, ∀ pk ∈ x.selected, ∃ m ∈ s.store.members,
    m.cohort = x.cohort ∧ m.recommendation = pk
  known : ∀ x ∈ s.store.selections, x.cohort ≤ s.store.cohorts.length
  numbered : ∀ c ∈ s.store.cohorts, c.id ≤ s.store.cohorts.length

/-- A call that makes nothing active. -/
structure Quiet (env : Environment) (s t : Server Tables) : Prop where
  readings : s.readings ≤ t.readings
  admissions : t.store.admissions = s.store.admissions
  selections : t.store.selections = s.store.selections
  cohorts : s.store.cohorts <+: t.store.cohorts
  members : s.store.members <+: t.store.members
  sizes : ∀ pk, (s.store.positionSize pk).isSome → t.store.positionSize pk = s.store.positionSize pk
  active : ∀ pk asOf, Active env t.store pk asOf → Active env s.store pk asOf

/-- A call that makes nothing active and ends nothing active. -/
structure Still (env : Environment) (s t : Server Tables) : Prop extends Quiet env s t where
  kept : ∀ pk asOf, Active env s.store pk asOf → Active env t.store pk asOf

section
variable {env : Environment} {s t u : Server Tables}

theorem Environment.time_mono (env : Environment) (le : s.readings ≤ t.readings) :
    env.time s ≤ env.time t := env.clock.mono le

theorem Quiet.refl (env : Environment) (s : Server Tables) : Quiet env s s :=
  ⟨le_rfl, rfl, rfl, List.prefix_rfl, List.prefix_rfl, fun _ _ => rfl, fun _ _ h => h⟩

theorem Quiet.trans (env : Environment) (s t u : Server Tables) (first : Quiet env s t)
    (second : Quiet env t u) : Quiet env s u where
  readings := first.readings.trans second.readings
  admissions := second.admissions.trans first.admissions
  selections := second.selections.trans first.selections
  cohorts := first.cohorts.trans second.cohorts
  members := first.members.trans second.members
  sizes pk sized := by
    have same := first.sizes pk sized
    rw [second.sizes pk (by rw [same]; exact sized), same]
  active pk asOf h := first.active pk asOf (second.active pk asOf h)

theorem Still.refl (env : Environment) (s : Server Tables) : Still env s s :=
  ⟨Quiet.refl env s, fun _ _ h => h⟩

theorem Still.trans (env : Environment) (s t u : Server Tables) (first : Still env s t)
    (second : Still env t u) : Still env s u :=
  ⟨Quiet.trans env s t u first.toQuiet second.toQuiet,
    fun pk asOf h => second.kept pk asOf (first.kept pk asOf h)⟩

/-- The tables the invariant is about are the same, but for a cohort that takes the next number. -/
structure Agrees (s t : Server Tables) : Prop where
  readings : s.readings ≤ t.readings
  cohorts : t.store.cohorts = s.store.cohorts ∨ ∃ c,
    t.store.cohorts = s.store.cohorts ++ [c] ∧ c.id = s.store.cohorts.length + 1
  events : t.store.events = s.store.events
  positionSizes : t.store.positionSizes = s.store.positionSizes
  members : t.store.members = s.store.members
  selections : t.store.selections = s.store.selections
  admissions : t.store.admissions = s.store.admissions
  results : t.store.results = s.store.results
  facts : t.store.facts = s.store.facts

theorem Agrees.positionSize_eq (h : Agrees s t) (pk : ℕ) :
    t.store.positionSize pk = s.store.positionSize pk := by
  unfold Tables.positionSize
  rw [h.positionSizes]

theorem Agrees.active_iff (h : Agrees s t) {pk : ℕ} {asOf : Instant} :
    Active env t.store pk asOf ↔ Active env s.store pk asOf := by
  have admitted : t.store.Admitted pk asOf = s.store.Admitted pk asOf := by
    unfold Tables.Admitted Tables.latestAdmission
    rw [h.admissions]
  have unresolved : t.store.Unresolved pk asOf = s.store.Unresolved pk asOf := by
    unfold Tables.Unresolved Tables.resultBy Tables.latestFactBy
    rw [h.results, h.facts]
  constructor
  · rintro ⟨version, directional, admitted', held⟩
    rw [admitted] at admitted'
    rw [unresolved, h.events] at held
    exact ⟨version, directional, admitted', held⟩
  · rintro ⟨version, directional, admitted', held⟩
    rw [← admitted] at admitted'
    rw [← unresolved, ← h.events] at held
    exact ⟨version, directional, admitted', held⟩

theorem Agrees.still (h : Agrees s t) : Still env s t where
  readings := h.readings
  admissions := h.admissions
  selections := h.selections
  cohorts := by
    rcases h.cohorts with same | ⟨c, more, -⟩
    · rw [same]
    · rw [more]
      exact List.prefix_append _ _
  members := by rw [h.members]
  sizes pk _ := h.positionSize_eq pk
  active _ _ := h.active_iff.mp
  kept _ _ := h.active_iff.mpr

theorem Sound.agrees (sound : Sound env s) (h : Agrees s t) : Sound env t := by
  have later := env.time_mono h.readings
  constructor
  · rw [h.events]
    exact sound.chained
  · rw [h.events]
    exact fun e mem admitted => Int.le_trans (sound.granted e mem admitted) later
  · rw [h.admissions]
    exact fun a mem => ⟨Int.le_trans (sound.admissions a mem).1 later, (sound.admissions a mem).2⟩
  · rw [h.selections]
    exact fun x mem => ⟨Int.le_trans (sound.selections x mem).1 later, (sound.selections x mem).2⟩
  · rw [h.members]
    exact sound.once
  · rw [h.members]
    exact fun m mem => by rw [h.positionSize_eq]; exact sound.sized m mem
  · rw [h.admissions, h.members]
    exact sound.belongs
  · unfold Tables.lastAdmission Tables.latestSelection
    rw [h.admissions, h.selections]
    exact sound.chosen
  · rw [h.facts]
    exact sound.settled
  · rw [h.facts]
    exact sound.ended
  · rw [h.facts]
    intro f mem
    obtain ⟨id, time⟩ := sound.noted f mem
    exact ⟨id, fun old => (time old).trans (max_le_max_right _ later)⟩
  · rw [h.selections, h.members]
    exact sound.picked
  · rw [h.selections]
    intro x mem
    refine (sound.known x mem).trans ?_
    rcases h.cohorts with same | ⟨c, more, -⟩
    · rw [same]
    · rw [more, List.length_append]
      omega
  · intro c mem
    rcases h.cohorts with same | ⟨next, more, id⟩
    · rw [same] at mem ⊢
      exact sound.numbered c mem
    · rw [more] at mem ⊢
      rw [List.length_append]
      rcases List.mem_append.mp mem with mem | mem
      · exact (sound.numbered c mem).trans (Nat.le_add_right _ _)
      · rw [List.mem_singleton.mp mem, id]
        exact le_rfl

theorem agrees_tick (s : Server Tables) : Agrees s { s with readings := s.readings + 1 } :=
  ⟨Nat.le_succ _, .inl rfl, rfl, rfl, rfl, rfl, rfl, rfl, rfl⟩

theorem keeps_now : Keeps (Sound env) (Still env) (now env.clock) :=
  Keeps.now fun s sound => ⟨sound.agrees (agrees_tick s), (agrees_tick s).still⟩

theorem keeps_orNow (time : Option Instant) :
    Keeps (Sound env) (Still env) (orNow env.clock time) :=
  Keeps.orNow (Still.refl env)
    (fun s sound => ⟨sound.agrees (agrees_tick s), (agrees_tick s).still⟩) time

/-- A change of tables the invariant is not about. -/
theorem keeps_save {f : Tables → Tables}
    (h : ∀ s : Server Tables, Agrees s { s with store := f s.store }) :
    Keeps (Sound env) (Still env) (save f) :=
  Keeps.save fun s sound => ⟨sound.agrees (h s), (h s).still⟩

/-! ## Events -/

variable {r : Request} {row : LifecycleEvent PlainKey}

theorem Recorded.agrees_of_made (same : t.store = s.store) (later : s.readings ≤ t.readings) :
    Agrees s t := by
  constructor <;> first | exact later | exact .inl (by rw [same]) | rw [same]

theorem Recorded.sound (h : Recorded env r s t row) (sound : Sound env s)
    (granted : r.state = .admittedAwaitingEntry → row.occurredAt ≤ env.time t) : Sound env t := by
  have later := env.time_mono h.readings
  have tables := h.store
  constructor
  · exact h.chained
  · intro e mem admitted
    rw [tables] at mem
    rcases List.mem_append.mp mem with mem | mem
    · exact Int.le_trans (sound.granted e mem admitted) later
    · rw [List.mem_singleton.mp mem] at admitted ⊢
      exact granted (h.state.symm.trans admitted)
  · rw [tables]
    exact fun a mem => ⟨Int.le_trans (sound.admissions a mem).1 later, (sound.admissions a mem).2⟩
  · rw [tables]
    exact fun x mem => ⟨Int.le_trans (sound.selections x mem).1 later, (sound.selections x mem).2⟩
  · rw [tables]
    exact sound.once
  · rw [tables]
    exact sound.sized
  · rw [tables]
    exact sound.belongs
  · rw [tables]
    exact sound.chosen
  · rw [tables]
    exact sound.settled
  · rw [tables]
    exact sound.ended
  · rw [tables]
    intro f mem
    obtain ⟨id, time⟩ := sound.noted f mem
    exact ⟨id, fun old => (time old).trans (max_le_max_right _ later)⟩
  · rw [tables]
    exact sound.picked
  · rw [tables]
    exact sound.known
  · rw [tables]
    exact sound.numbered

theorem Recorded.quiet (h : Recorded env r s t row) (sound : Sound env s)
    (state : r.state ≠ .admittedAwaitingEntry) : Quiet env s t where
  readings := h.readings
  admissions := by rw [h.store]
  selections := by rw [h.store]
  cohorts := by rw [h.store]
  members := by rw [h.store]
  sizes pk _ := by rw [h.store]; rfl
  active pk asOf active :=
    (h.active sound.chained active).resolve_right fun admitted => state admitted.1

theorem Recorded.still (h : Recorded env r s t row) (sound : Sound env s) (idle : Idle r.state) :
    Still env s t where
  toQuiet := h.quiet sound (by rcases idle with eq | eq | eq <;> rw [eq] <;> decide)
  kept _ _ active := h.kept sound.chained idle active

/-- **`transition` makes nothing active**, where it does not admit. -/
theorem keeps_transition (state : r.state ≠ .admittedAwaitingEntry) :
    Keeps (Sound env) (Quiet env) (transition env r) := by
  intro s sound
  refine ensures_transition sound.chained (fun t same later _ => ?_) fun t row h => ?_
  · have agrees := Recorded.agrees_of_made same later
    exact ⟨sound.agrees agrees, agrees.still.toQuiet⟩
  · exact ⟨h.sound sound fun admitted => absurd admitted state, h.quiet sound state⟩

theorem still_transition (idle : Idle r.state) :
    Keeps (Sound env) (Still env) (transition env r) := by
  intro s sound
  refine ensures_transition sound.chained (fun t same later _ => ?_) fun t row h => ?_
  · have agrees := Recorded.agrees_of_made same later
    exact ⟨sound.agrees agrees, agrees.still⟩
  · refine ⟨h.sound sound fun admitted => ?_, h.still sound idle⟩
    rw [admitted] at idle
    simp [Idle] at idle

theorem keeps_initializeLifecycle (pk : ℕ) :
    Keeps (Sound env) (Quiet env) (initializeLifecycle env pk) := by
  refine Keeps.ite (fun _ => keeps_transition ?_) fun _ => Keeps.pure (Quiet.refl env) ()
  intro eq
  exact not_holds_initial _ (.inl eq)

theorem keeps_getOrCreateClosure (cohort : ℕ) (reasonCode : String) (superseding : Option ℕ)
    (closedAt : Instant) :
    Keeps (Sound env) (Still env) (getOrCreateClosure cohort reasonCode superseding closedAt) := by
  refine Keeps.bind (Still.trans env) (Keeps.load (Still.refl env) _) fun db => ?_
  cases db.closureOf cohort with
  | some closure => exact Keeps.pure (Still.refl env) _
  | none =>
    exact Keeps.bind (Still.trans env)
      (keeps_save fun s => ⟨le_rfl, .inl rfl, rfl, rfl, rfl, rfl, rfl, rfl, rfl⟩)
      fun _ => Keeps.pure (Still.refl env) _

theorem keeps_closeMember (reasonCode : String) (closure : ℕ) (asOf : Instant)
    (member : CohortMember) :
    Keeps (Sound env) (Still env) (closeMember env reasonCode closure asOf member) := by
  refine Keeps.bind (Still.trans env) (Keeps.load (Still.refl env) _) fun state => ?_
  exact Keeps.ite (fun _ => still_transition (.inr (.inr rfl)))
    fun _ => Keeps.pure (Still.refl env) ()

/-- **`close_cohort` neither makes nor ends anything active.** -/
theorem keeps_closeCohort (cohort : ℕ) (reasonCode : String) (superseding : Option ℕ)
    (asOf : Option Instant) :
    Keeps (Sound env) (Still env) (closeCohort env cohort reasonCode superseding asOf) := by
  refine Keeps.bind (Still.trans env) (keeps_orNow asOf) fun asOf => ?_
  refine Keeps.bind (Still.trans env) (keeps_getOrCreateClosure _ _ _ _) fun closure => ?_
  refine Keeps.bind (Still.trans env) (Keeps.load (Still.refl env) _) fun members => ?_
  exact Keeps.each (Still.refl env) (Still.trans env) fun member _ => keeps_closeMember _ _ _ member

/-! ## Assessments -/

theorem keeps_screen (generatedAt : Instant) (pk : ℕ) :
    Keeps (Sound env) (Still env) (screen env generatedAt pk) := by
  refine Keeps.ite (fun _ => Keeps.pure (Still.refl env) _) fun _ => ?_
  refine Keeps.bind (Still.trans env) keeps_now fun time => ?_
  refine Keeps.bind (Still.trans env) (Keeps.load (Still.refl env) _) fun state => ?_
  refine Keeps.ite (fun _ => Keeps.pure (Still.refl env) _) fun _ => ?_
  refine Keeps.bind (Still.trans env) (Keeps.load (Still.refl env) _) fun db => ?_
  refine Keeps.bind (Still.trans env) (Keeps.ofExcept (Still.refl env) _) fun reason => ?_
  cases reason with
  | none => exact Keeps.pure (Still.refl env) _
  | some reasonCode =>
    exact Keeps.bind (Still.trans env) (still_transition (.inl rfl))
      fun _ => Keeps.pure (Still.refl env) _

theorem keeps_policyActivation : Keeps (Sound env) (Still env) (policyActivation env) := by
  refine Keeps.bind (Still.trans env) keeps_now fun time => ?_
  refine Keeps.bind (Still.trans env) (Keeps.load (Still.refl env) _) fun db => ?_
  cases db.activation with
  | some effectiveAt => exact Keeps.pure (Still.refl env) _
  | none =>
    exact Keeps.bind (Still.trans env)
      (keeps_save fun s => ⟨le_rfl, .inl rfl, rfl, rfl, rfl, rfl, rfl, rfl, rfl⟩)
      fun _ => Keeps.pure (Still.refl env) _

/-- A member that is sized and new keeps the invariant. -/
theorem Sound.addMember (sound : Sound env s) (member : CohortMember)
    (fresh : ∀ other ∈ s.store.members, other.recommendation ≠ member.recommendation)
    (sized : (s.store.positionSize member.recommendation).isSome) :
    Sound env { s with store := { s.store with members := s.store.members ++ [member] } } where
  chained := sound.chained
  granted := sound.granted
  admissions := sound.admissions
  selections := sound.selections
  once := by
    show ((s.store.members ++ [member]).map _).Nodup
    rw [List.map_append, List.nodup_append]
    refine ⟨sound.once, by simp, fun pk mem pk' last => ?_⟩
    obtain ⟨other, old, rfl⟩ := List.mem_map.mp mem
    rw [List.mem_singleton.mp last]
    exact fresh other old
  sized m mem := by
    rcases List.mem_append.mp mem with mem | mem
    · exact sound.sized m mem
    · rw [List.mem_singleton.mp mem]
      exact sized
  belongs a mem := by
    obtain ⟨m, memM, same⟩ := sound.belongs a mem
    exact ⟨m, List.mem_append_left _ memM, same⟩
  chosen := sound.chosen
  settled := sound.settled
  ended := sound.ended
  noted := sound.noted
  picked x mem pk own := by
    obtain ⟨m, memM, same⟩ := sound.picked x mem pk own
    exact ⟨m, List.mem_append_left _ memM, same⟩
  known := sound.known
  numbered := sound.numbered

theorem still_addMember (s : Server Tables) (member : CohortMember) :
    Still env s { s with store := { s.store with members := s.store.members ++ [member] } } where
  readings := le_rfl
  admissions := rfl
  selections := rfl
  cohorts := List.prefix_rfl
  members := List.prefix_append _ _
  sizes _ _ := rfl
  active _ _ h := ⟨h.version, h.directional, h.admitted, h.held⟩
  kept _ _ h := ⟨h.version, h.directional, h.admitted, h.held⟩

theorem keeps_addMember (cohort pk : ℕ) :
    Keeps (Sound env) (Still env) (addMember env cohort pk) := by
  intro s sound
  unfold addMember
  rw [ensures_bind, ensures_load]
  cases sized : s.store.positionSize pk with
  | none =>
    rw [id_eq, sized]
    exact ensures_ofExcept.mpr fun _ h => absurd h raise_ne_ok
  | some risk =>
    rw [id_eq, sized]
    simp only [ensures_bind, ensures_refuseIf, ensures_save]
    intro fresh
    have sound' := sound.addMember {
        id := s.store.members.length + 1, cohort, recommendation := pk, projectedRisk := risk
        currencyLegs := (env.recommendations pk).legs }
      (fun other mem same => fresh ⟨other, mem, same⟩) (by rw [sized]; rfl)
    have tail : Keeps (Sound env) (Still env)
        (if (env.recommendations pk).contractVersion = 4 then
          transition env {
            recommendation := pk
            state := .awaitingOwnerDecision
            reasonCode := "cohort_member"
            source := some {
              type := .portfolioCohortMember, id := s.store.members.length + 1
              recommendation := some pk } }
        else pure ()) :=
      Keeps.ite (fun _ => still_transition (.inr (.inl rfl))) fun _ => Keeps.pure (Still.refl env) ()
    refine (tail _ sound').mono ?_
    rintro _ t ⟨sound'', moved⟩
    exact ⟨sound'', Still.trans env _ _ _ (still_addMember s _) moved⟩

/-! ## Facts, entries and results -/

/-- No fact of a recommendation of an earlier version is terminal. -/
def Unsettled (env : Environment) (pk : ℕ) (s : Server Tables) : Prop :=
  (env.recommendations pk).contractVersion ≠ 4 →
    ∀ f ∈ s.store.facts, f.recommendation = pk → f.state.terminal = none

/-- What a fact that is added has to meet. -/
structure Addable (env : Environment) (s : Server Tables) (fact : PaperLifecycleEvent) : Prop where
  id : fact.id = s.store.facts.length + 1
  four : (env.recommendations fact.recommendation).contractVersion = 4 → fact.state.terminal.isSome
  time : (env.recommendations fact.recommendation).contractVersion ≠ 4 →
    fact.occurredAt ≤ max (env.time s) (env.recommendations fact.recommendation).generatedAt
  last : (env.recommendations fact.recommendation).contractVersion ≠ 4 →
    ∀ f ∈ s.store.facts, f.recommendation = fact.recommendation → f.occurredAt ≤ fact.occurredAt
  unsettled : fact.state.terminal = none → Unsettled env fact.recommendation s

/-- The tables with one fact more. -/
def withFact (s : Server Tables) (fact : PaperLifecycleEvent) : Server Tables :=
  { s with store := { s.store with facts := s.store.facts ++ [fact] } }

variable {fact : PaperLifecycleEvent}

theorem Addable.settled (h : Addable env s fact) (sound : Sound env s) :
    Settled (withFact s fact).store.facts := by
  intro f memF g memG same terminal notBefore
  have new (f : PaperLifecycleEvent) (mem : f ∈ s.store.facts ++ [fact]) :
      f ∈ s.store.facts ∨ f = fact :=
    (List.mem_append.mp mem).imp_right List.mem_singleton.mp
  rcases new f memF with oldF | rfl
  · rcases new g memG with oldG | rfl
    · exact sound.settled f oldF g oldG same terminal notBefore
    · by_contra open_
      rw [Option.not_isSome_iff_eq_none] at open_
      by_cases four : (env.recommendations g.recommendation).contractVersion = 4
      · have ended := h.four four
        rw [open_] at ended
        cases ended
      · rw [h.unsettled open_ four f oldF same] at terminal
        cases terminal
  · rcases new g memG with oldG | rfl
    · by_cases four : (env.recommendations g.recommendation).contractVersion = 4
      · exact sound.ended g oldG four
      · exfalso
        refine notBefore ?_
        have time := h.last (by rw [same]; exact four) g oldG same.symm
        have id := (sound.noted g oldG).1
        rw [Window.moment, Window.moment, Prod.Lex.toLex_lt_toLex]
        rcases Int.lt_or_eq_of_le time with lt | eq
        · exact .inl lt
        · exact .inr ⟨eq, by rw [h.id]; exact Nat.lt_succ_of_le id⟩
    · exact terminal

theorem Addable.sound (h : Addable env s fact) (sound : Sound env s) :
    Sound env (withFact s fact) where
  chained := sound.chained
  granted := sound.granted
  admissions := sound.admissions
  selections := sound.selections
  once := sound.once
  sized := sound.sized
  belongs := sound.belongs
  chosen := sound.chosen
  settled := h.settled sound
  ended f mem four := by
    rcases List.mem_append.mp mem with mem | mem
    · exact sound.ended f mem four
    · rw [List.mem_singleton.mp mem] at four ⊢
      exact h.four four
  noted f mem := by
    have length : (withFact s fact).store.facts.length = s.store.facts.length + 1 :=
      List.length_append
    rcases List.mem_append.mp mem with mem | mem
    · obtain ⟨id, time⟩ := sound.noted f mem
      exact ⟨by omega, time⟩
    · rw [List.mem_singleton.mp mem]
      exact ⟨by rw [h.id, length], h.time⟩
  picked := sound.picked
  known := sound.known
  numbered := sound.numbered

/-- What no record has ended, none had ended before a fact came. -/
theorem Addable.unresolved (h : Addable env s fact) {pk : ℕ} {asOf : Instant}
    (open_ : (withFact s fact).store.Unresolved pk asOf) : s.store.Unresolved pk asOf := by
  obtain ⟨result, latest⟩ := open_
  refine ⟨result, fun f found => ?_⟩
  have added : (withFact s fact).store.facts = s.store.facts ++ [fact] := rfl
  unfold Tables.latestFactBy at latest found
  rw [added, filter_concat] at latest
  split_ifs at latest with own
  · obtain ⟨best, best_⟩ := Window.latest_isSome PaperLifecycleEvent.occurredAt
      PaperLifecycleEvent.id (List.mem_append_right
        (s.store.facts.filter fun f => f.recommendation = pk && f.occurredAt ≤ asOf)
        (List.mem_singleton.mpr rfl : fact ∈ [fact]))
    have nonterminal := latest best best_
    rcases Window.latest_append_cases best_ with rfl | old
    · -- a fact that is not terminal comes after none that is
      rw [Bool.and_eq_true, decide_eq_true_iff] at own
      by_cases four : (env.recommendations best.recommendation).contractVersion = 4
      · have ended := h.four four
        rw [nonterminal] at ended
        cases ended
      · obtain ⟨mem, same⟩ := List.mem_filter.mp (Window.latest_spec found).1
        rw [Bool.and_eq_true, decide_eq_true_iff] at same
        exact h.unsettled nonterminal four f mem (same.1.trans own.1.symm)
    · rw [found] at old
      obtain rfl := Option.some.inj old
      exact nonterminal
  · exact latest f found

theorem Addable.quiet (h : Addable env s fact) : Quiet env s (withFact s fact) where
  readings := le_rfl
  admissions := rfl
  selections := rfl
  cohorts := List.prefix_rfl
  members := List.prefix_rfl
  sizes _ _ := rfl
  active pk asOf active := by
    obtain ⟨version, directional, admitted, held⟩ := active
    exact ⟨version, directional, admitted, held.imp_right (And.imp_right h.unresolved)⟩

/-- `get_or_create` finds a fact, or adds one that may be added. -/
theorem ensures_getOrCreateFact {pk : ℕ} {state : PaperState} {reasonCode : String}
    {time : Instant} {Q : PaperLifecycleEvent → Server Tables → Prop}
    (found : ∀ fact, Q fact s)
    (made : ∀ fact, fact.id = s.store.facts.length + 1 → fact.recommendation = pk →
      fact.state = state → fact.occurredAt = time → Q fact (withFact s fact)) :
    Ensures (getOrCreateFact pk state reasonCode time) s Q := by
  unfold getOrCreateFact
  rw [ensures_bind, ensures_load]
  cases known : s.store.facts.find? fun fact => fact.recommendation = pk && fact.state = state with
  | some fact =>
    rw [id_eq, known]
    exact ensures_pure.mpr (found fact)
  | none =>
    rw [id_eq, known]
    simp only [ensures_bind, ensures_save, ensures_pure]
    exact made _ rfl rfl rfl rfl

/-- A terminal fact of a recommendation of version 4, at any time. -/
theorem keeps_terminalFact {pk : ℕ} {state : PaperState} {reasonCode : String} {time : Instant}
    (four : (env.recommendations pk).contractVersion = 4) (terminal : state.terminal.isSome) :
    Keeps (Sound env) (Quiet env) (getOrCreateFact pk state reasonCode time) := by
  intro s sound
  refine ensures_getOrCreateFact (fun fact => ⟨sound, Quiet.refl env s⟩) ?_
  rintro fact id rfl rfl rfl
  have addable : Addable env s fact := {
    id, four := fun _ => terminal, time := fun old => absurd four old
    last := fun old => absurd four old
    unsettled := fun open_ => by rw [open_] at terminal; cases terminal }
  exact ⟨addable.sound sound, addable.quiet⟩

/-- A fact of a recommendation of an earlier version, at the time of the clock: a terminal one, or
one that no terminal one comes before. -/
theorem ensures_legacyFact {pk : ℕ} {state : PaperState} {reasonCode : String}
    (sound : Sound env s) (old : (env.recommendations pk).contractVersion ≠ 4)
    (unsettled : state.terminal = none → Unsettled env pk s) :
    Ensures (do
      let time ← now env.clock
      let _ ← getOrCreateFact pk state reasonCode
        (max time (env.recommendations pk).generatedAt)
      pure ()) s fun _ t => Sound env t ∧ Quiet env s t ∧
        (state.terminal = none → Unsettled env pk t) := by
  rw [ensures_bind, ensures_now, ensures_bind]
  have tick := agrees_tick s
  have sound' := sound.agrees tick
  refine ensures_getOrCreateFact (fun fact => ?_) ?_
  · exact ensures_pure.mpr ⟨sound', tick.still.toQuiet, unsettled⟩
  · rintro fact id rfl rfl time
    have addable : Addable env { s with readings := s.readings + 1 } fact := {
      id
      four := fun four => absurd four old
      time := fun _ => by
        rw [time]
        exact max_le_max_right _ (env.time_mono (Nat.le_succ _))
      last := fun _ f mem same => by
        rw [time, ← same]
        exact (sound.noted f mem).2 (by rw [same]; exact old)
      unsettled }
    refine ensures_pure.mpr ⟨addable.sound sound', Quiet.trans env _ _ _ tick.still.toQuiet
      addable.quiet, fun open_ _ f mem own => ?_⟩
    rcases List.mem_append.mp mem with mem | mem
    · exact unsettled open_ old f mem own
    · rw [List.mem_singleton.mp mem]
      exact open_

theorem CoverageState.terminal (state : CoverageState) : state.fact.terminal = some state.state := by
  cases state <;> rfl

theorem keeps_recordCoverage (pk : ℕ) (coverage : Except Exc Unit)
    (noted : CoverageState × String) :
    Keeps (Sound env) (Quiet env) (recordCoverage env pk coverage noted) := by
  have terminal : noted.1.fact.terminal.isSome := by rw [noted.1.terminal]; rfl
  intro s sound
  unfold recordCoverage
  by_cases four : (env.recommendations pk).contractVersion = 4
  · have call : Keeps (Sound env) (Quiet env) (do
        let time ← now env.clock
        let fact ← getOrCreateFact pk noted.1.fact noted.2 time
        transition env {
          recommendation := pk
          state := noted.1.state
          reasonCode := noted.2
          source := some {
            type := .paperLifecycleEvent, id := fact.id, recommendation := some pk }
          coverage }) := by
      refine Keeps.bind (Quiet.trans env) (keeps_now.mono fun _ _ h => h.toQuiet) fun time => ?_
      refine Keeps.bind (Quiet.trans env) (keeps_terminalFact four terminal) fun fact => ?_
      refine keeps_transition ?_
      show noted.1.state ≠ .admittedAwaitingEntry
      cases noted.1 <;> decide
    simp only [if_pos four]
    exact call s sound
  · simp only [if_neg four]
    refine (ensures_legacyFact sound four fun open_ => ?_).mono fun _ t h => ⟨h.1, h.2.1⟩
    rw [open_] at terminal
    cases terminal

/-- `_record_lifecycle` on an entry or a result of an unsettled recommendation. -/
theorem keeps_recordFact {pk : ℕ} {state : PaperState} {event : Work Unit}
    (open_ : state.terminal = none) (event_ : Keeps (Sound env) (Quiet env) event) :
    Keeps (fun s => Sound env s ∧ Unsettled env pk s) (Quiet env)
      (recordFact env pk state event) := by
  rintro s ⟨sound, unsettled⟩
  unfold recordFact
  by_cases four : (env.recommendations pk).contractVersion = 4
  · rw [if_pos four]
    exact (event_ s sound).mono fun _ t h => ⟨⟨h.1, fun old => absurd four old⟩, h.2⟩
  · rw [if_neg four]
    exact (ensures_legacyFact sound four fun _ => unsettled).mono fun _ t h =>
      ⟨⟨h.1, h.2.2 open_⟩, h.2.1⟩

theorem keeps_recordResult (result : PaperTradeResult) (reasonCode : String)
    (occurredAt : Option Instant) :
    Keeps (Sound env) (Quiet env) (recordResult env result reasonCode occurredAt) := by
  refine keeps_transition ?_
  show result.outcome.state ≠ .admittedAwaitingEntry
  cases result.outcome <;> decide

theorem keeps_recordEntry (pk : ℕ) :
    Keeps (fun s => Sound env s ∧ Unsettled env pk s) (Quiet env) (recordEntry env pk) := by
  rintro s ⟨sound, unsettled⟩
  unfold recordEntry
  simp only [ensures_bind, ensures_now, ensures_load, id_eq]
  have tick := agrees_tick s
  by_cases known : ∃ entry ∈ s.store.entries, entry.recommendation = pk
  · rw [if_pos known]
    exact ensures_pure.mpr ⟨⟨sound.agrees tick, unsettled⟩, tick.still.toQuiet⟩
  · rw [if_neg known, ensures_bind, ensures_save]
    have agrees : Agrees s { s with
        store := { s.store with entries := s.store.entries ++ [{
          id := s.store.entries.length + 1, recommendation := pk, enteredAt := env.time s }] }
        readings := s.readings + 1 } := ⟨Nat.le_succ _, .inl rfl, rfl, rfl, rfl, rfl, rfl, rfl, rfl⟩
    refine (keeps_recordFact rfl (keeps_transition (by rintro ⟨⟩)) _
      ⟨sound.agrees agrees, unsettled⟩).mono fun _ t h => ?_
    exact ⟨h.1, Quiet.trans env _ _ _ agrees.still.toQuiet h.2⟩

/-- A result ends what is active, and begins nothing. -/
theorem quiet_addResult (s : Server Tables) (result : PaperTradeResult) :
    Quiet env s { s with store := { s.store with results := s.store.results ++ [result] } } where
  readings := le_rfl
  admissions := rfl
  selections := rfl
  cohorts := List.prefix_rfl
  members := List.prefix_rfl
  sizes _ _ := rfl
  active pk asOf active := by
    obtain ⟨version, directional, admitted, held⟩ := active
    refine ⟨version, directional, admitted, held.imp_right (And.imp_right fun open_ => ?_)⟩
    refine ⟨?_, open_.2⟩
    have none_ := open_.1
    unfold Tables.resultBy at none_ ⊢
    cases found : s.store.results.find? fun result => result.recommendation = pk with
    | none => rfl
    | some old =>
      rw [List.find?_append, found] at none_
      exact none_

theorem Sound.addResult (sound : Sound env s) (result : PaperTradeResult) :
    Sound env { s with store := { s.store with results := s.store.results ++ [result] } } :=
  ⟨sound.chained, sound.granted, sound.admissions, sound.selections, sound.once, sound.sized,
    sound.belongs, sound.chosen, sound.settled, sound.ended, sound.noted, sound.picked, sound.known,
    sound.numbered⟩

theorem keeps_createResult (pk : ℕ) (outcome : Scope.Outcome) :
    Keeps (fun s => Sound env s ∧ Unsettled env pk s) (Quiet env) (createResult env pk outcome) := by
  rintro s ⟨sound, unsettled⟩
  unfold createResult
  simp only [ensures_bind, ensures_now, ensures_load, ensures_save, id_eq]
  have tick := agrees_tick s
  refine (keeps_recordFact rfl (keeps_recordResult _ _ _) _
    ⟨(sound.agrees tick).addResult _, unsettled⟩).mono fun _ t h => ?_
  exact ⟨h.1, Quiet.trans env _ _ _ tick.still.toQuiet
    (Quiet.trans env _ _ _ (quiet_addResult _ _) h.2)⟩

theorem keeps_recordObservation (pk : ℕ) (seen : Observation) (sound : Sound env s)
    (unsettled : Unsettled env pk s) :
    Ensures (recordObservation env pk seen) s fun _ t => Sound env t ∧ Quiet env s t := by
  have entry : Keeps (fun s => Sound env s ∧ Unsettled env pk s) (Quiet env)
      (observeEntry env pk seen) :=
    Keeps.ite (fun _ => keeps_recordEntry pk) fun _ => Keeps.pure (Quiet.refl env) ()
  unfold recordObservation
  refine ensures_bind.mpr ((entry s ⟨sound, unsettled⟩).mono ?_)
  rintro _ t ⟨⟨sound', unsettled'⟩, moved⟩
  cases seen.ending with
  | result outcome =>
    refine (keeps_createResult pk outcome t ⟨sound', unsettled'⟩).mono fun _ u h => ?_
    exact ⟨h.1.1, Quiet.trans env _ _ _ moved h.2⟩
  | coverage facts =>
    have loop : Keeps (Sound env) (Quiet env) (each (recordCoverage env pk seen.coverage) facts) :=
      Keeps.each (Quiet.refl env) (Quiet.trans env) fun noted _ => keeps_recordCoverage pk _ noted
    exact (loop t sound').mono fun _ u h => ⟨h.1, Quiet.trans env _ _ _ moved h.2⟩

/-- What is gone on with has no terminal fact yet. -/
theorem Sound.unsettled (sound : Sound env s) {pk : ℕ} {last : PaperLifecycleEvent}
    (latest : s.store.latestFact pk = some last) (open_ : last.state.terminal = none) :
    Unsettled env pk s := by
  intro _ f mem own
  by_contra terminal
  obtain ⟨memLast, greatest⟩ := Window.latest_spec latest
  obtain ⟨memLast, ownLast⟩ := List.mem_filter.mp memLast
  have ended := sound.settled f mem last memLast (own.trans (of_decide_eq_true ownLast).symm)
    (Option.isSome_iff_ne_none.mpr terminal)
    (not_lt.mpr (greatest f (List.mem_filter.mpr ⟨mem, decide_eq_true own⟩)))
  rw [open_] at ended
  cases ended

theorem ensures_resolvable (pk : ℕ) (sound : Sound env s) :
    Ensures (resolvable env pk) s fun goes t =>
      Sound env t ∧ Quiet env s t ∧ (goes = true → Unsettled env pk t) := by
  have tick := agrees_tick s
  have refused : Sound env s ∧ Quiet env s s ∧ (false = true → Unsettled env pk s) :=
    ⟨sound, Quiet.refl env s, fun h => by cases h⟩
  have sound' := sound.agrees tick
  unfold resolvable
  simp only [ensures_bind, ensures_load, id_eq]
  refine ensures_ite.mpr ⟨fun _ => ensures_pure.mpr refused, fun _ => ?_⟩
  simp only [ensures_bind, ensures_now]
  refine ensures_ite.mpr ⟨fun _ => ensures_pure.mpr ⟨sound', tick.still.toQuiet, fun h => by cases h⟩,
    fun _ => ensures_ite.mpr ⟨fun four => ?_, fun old => ?_⟩⟩
  · simp only [ensures_bind, ensures_now, ensures_pure]
    have tick' := agrees_tick { s with readings := s.readings + 1 }
    exact ⟨sound'.agrees tick', Quiet.trans env _ _ _ tick.still.toQuiet tick'.still.toQuiet,
      fun _ old => absurd four old⟩
  · refine ensures_pure.mpr ⟨sound', tick.still.toQuiet, fun goes => ?_⟩
    obtain ⟨last, latest, open_⟩ := Option.any_eq_true _ _ |>.mp goes
    refine sound'.unsettled latest ?_
    revert open_
    cases last.state <;> decide

/-- **`resolve_paper_trade` makes nothing active.** -/
theorem keeps_resolvePaperTrade (pk : ℕ) (seen : Observation) :
    Keeps (Sound env) (Quiet env) (resolvePaperTrade env pk seen) := by
  intro s sound
  unfold resolvePaperTrade
  refine ensures_bind.mpr ((ensures_resolvable pk sound).mono ?_)
  rintro goes t ⟨sound', moved, unsettled⟩
  cases goes with
  | false => exact ensures_pure.mpr ⟨sound', moved⟩
  | true =>
    exact (keeps_recordObservation pk seen sound' (unsettled rfl)).mono fun _ u h =>
      ⟨h.1, Quiet.trans env _ _ _ moved h.2⟩

/-! ## The rest of `reconcile_lifecycle`, and new recommendations -/

theorem keeps_cancelOverdue {pk : ℕ} (four : (env.recommendations pk).contractVersion = 4)
    (asOf : Instant) : Keeps (Sound env) (Quiet env) (cancelOverdue env pk asOf) := by
  refine Keeps.bind (Quiet.trans env) (keeps_terminalFact four rfl) fun fact => ?_
  refine Keeps.bind (Quiet.trans env) (Keeps.load (Quiet.refl env) _) fun db => ?_
  exact keeps_transition (by rintro ⟨⟩)

theorem keeps_reconcileEntry (pk : ℕ) (asOf : Instant) :
    Keeps (Sound env) (Quiet env) (reconcileEntry env pk asOf) := by
  refine Keeps.bind (Quiet.trans env) (Keeps.load (Quiet.refl env) _) fun db => ?_
  cases db.entryBy pk asOf with
  | none => exact Keeps.pure (Quiet.refl env) ()
  | some entry =>
    exact Keeps.ite (fun _ => keeps_transition (by rintro ⟨⟩))
      fun _ => Keeps.pure (Quiet.refl env) ()

theorem keeps_reconcileResult (pk : ℕ) (asOf : Instant) :
    Keeps (Sound env) (Quiet env) (reconcileResult env pk asOf) := by
  refine Keeps.bind (Quiet.trans env) (Keeps.load (Quiet.refl env) _) fun db => ?_
  cases db.resultBy pk asOf with
  | none => exact Keeps.pure (Quiet.refl env) ()
  | some result => exact keeps_recordResult result _ _

theorem keeps_reconcileCohort (asOf : Instant) (cohort : Cohort) :
    Keeps (Sound env) (Still env) (reconcileCohort env asOf cohort) := by
  refine Keeps.bind (Still.trans env) (Keeps.load (Still.refl env) _) fun db => ?_
  refine Keeps.ite (fun _ => keeps_closeCohort _ _ _ _) fun _ => ?_
  exact Keeps.ite (fun _ => keeps_closeCohort _ _ _ _) fun _ => Keeps.pure (Still.refl env) ()

theorem keeps_issue (pk : ℕ) : Keeps (Sound env) (Quiet env) (issue env pk) := by
  refine Keeps.bind (Quiet.trans env) (Keeps.load (Quiet.refl env) _) fun db => ?_
  refine Keeps.bind (Quiet.trans env) (Keeps.refuseIf (Quiet.refl env)) fun _ => ?_
  refine Keeps.bind (Quiet.trans env) ?_ fun _ => keeps_initializeLifecycle pk
  exact (keeps_save fun s => ⟨le_rfl, .inl rfl, rfl, rfl, rfl, rfl, rfl, rfl, rfl⟩).mono
    fun _ _ h => h.toQuiet

/-- A size that is new leaves those that are known. -/
theorem positionSize_append {db : Tables} {pk other risk : ℕ}
    (sized : (db.positionSize pk).isSome) :
    ({ db with positionSizes := db.positionSizes ++ [(other, risk)] } : Tables).positionSize pk =
      db.positionSize pk := by
  unfold Tables.positionSize at sized ⊢
  cases found : db.positionSizes.find? fun size => size.1 = pk with
  | none =>
    rw [found] at sized
    cases sized
  | some size => rw [List.find?_append, found, Option.some_or]

theorem keeps_sizeRecommendation (pk risk : ℕ) :
    Keeps (Sound env) (Quiet env) (sizeRecommendation env pk risk) := by
  refine Keeps.bind (Quiet.trans env) (Keeps.load (Quiet.refl env) _) fun db => ?_
  refine Keeps.ite (fun _ => Keeps.pure (Quiet.refl env) ()) fun _ => Keeps.save fun s sound => ?_
  constructor
  · refine { sound with sized := fun m mem => ?_ }
    have sized := sound.sized m mem
    exact (congrArg Option.isSome (positionSize_append sized)).trans sized
  · exact ⟨le_rfl, rfl, rfl, List.prefix_rfl, List.prefix_rfl, fun _ sized => positionSize_append sized,
      fun _ _ h => ⟨h.version, h.directional, h.admitted, h.held⟩⟩

end

end TradeRecommender.Forecasts.Portfolio
