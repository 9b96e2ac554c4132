import TradeRecommender.Forecasts.PortfolioInvariant

/-!
# The capacity of the portfolio

In every run of calls, at every instant, what is active and admitted fits the caps.

1. what is active early and late;
2. admissions: the rows of a selection, and what they make active;
3. a selection that fits;
4. assessments and owner decisions;
5. runs.

Capacity is checked at one reading of the clock and used at every later instant, by which what was
active may have ended but nothing has begun that the selection did not admit.
-/

namespace TradeRecommender.Forecasts.Portfolio

open Civil (Instant)
open Py Py.Transaction

section
variable {env : Environment} {s t u : Server Tables} {pk : ℕ} {asOf since : Instant}

/-! ## Early and late -/

theorem latestAdmission_eq {db : Tables} (come : ∀ a ∈ db.admissions, a.occurredAt ≤ asOf) :
    db.latestAdmission pk asOf = db.lastAdmission pk := by
  unfold Tables.latestAdmission Tables.lastAdmission
  congr 1
  refine List.filter_congr fun a mem => ?_
  rw [decide_eq_true (come a mem), Bool.and_true]

theorem Sound.latestAdmission_eq (sound : Sound env s) (late : env.time s ≤ asOf) :
    s.store.latestAdmission pk asOf = s.store.lastAdmission pk :=
  Portfolio.latestAdmission_eq fun a mem => Int.le_trans (sound.admissions a mem).1 late

/-- What no fact has ended later, none had ended earlier. -/
theorem Sound.unresolved_earlier (sound : Sound env s) (le : since ≤ asOf)
    (open_ : s.store.Unresolved pk asOf) : s.store.Unresolved pk since := by
  obtain ⟨result, latest⟩ := open_
  constructor
  · unfold Tables.resultBy at result ⊢
    rw [Option.filter_eq_none_iff] at result ⊢
    intro row found come
    rw [decide_eq_true_iff] at come
    exact result row found (decide_eq_true (Int.le_trans come le))
  · intro f found
    unfold Tables.latestFactBy at latest found
    obtain ⟨mem, -⟩ := Window.latest_spec found
    obtain ⟨mem, own⟩ := List.mem_filter.mp mem
    rw [Bool.and_eq_true, decide_eq_true_iff, decide_eq_true_iff] at own
    have mem' : f ∈ s.store.facts.filter fun f => f.recommendation = pk && f.occurredAt ≤ asOf := by
      rw [List.mem_filter, Bool.and_eq_true, decide_eq_true_iff, decide_eq_true_iff]
      exact ⟨mem, own.1, Int.le_trans own.2 le⟩
    obtain ⟨last, last_⟩ := Window.latest_isSome PaperLifecycleEvent.occurredAt
      PaperLifecycleEvent.id mem'
    obtain ⟨memLast, greatest⟩ := Window.latest_spec last_
    obtain ⟨memLast, ownLast⟩ := List.mem_filter.mp memLast
    rw [Bool.and_eq_true, decide_eq_true_iff] at ownLast
    by_contra terminal
    have ended := sound.settled f mem last memLast (own.1.trans ownLast.1.symm)
      (Option.isSome_iff_ne_none.mpr terminal) (not_lt.mpr (greatest f mem'))
    rw [latest last last_] at ended
    cases ended

/-- **What is active later was active as soon as all that is admitted had been.** -/
theorem Sound.active_earlier (sound : Sound env s) (late : env.time s ≤ since) (le : since ≤ asOf)
    (active : Active env s.store pk asOf) : Active env s.store pk since := by
  obtain ⟨version, directional, admitted, held⟩ := active
  refine ⟨version, directional, ?_, ?_⟩
  · unfold Tables.Admitted at admitted ⊢
    rw [sound.latestAdmission_eq late]
    rwa [sound.latestAdmission_eq (Int.le_trans late le)] at admitted
  · rcases held with ⟨four, holding⟩ | ⟨without, unresolved⟩
    · exact .inl ⟨four, holding.earlier sound.chained le
        fun e mem admits => Int.le_trans (sound.granted e mem admits) late⟩
    · refine .inr ⟨without.imp_right fun none_ => ?_, sound.unresolved_earlier le unresolved⟩
      rw [newest, Window.firstMax_eq_none] at none_ ⊢
      refine List.eq_nil_iff_forall_not_mem.mpr fun event mem => ?_
      obtain ⟨mem, come⟩ := mem_eventsBy.mp mem
      have mem' : event ∈ eventsBy s.store.events pk asOf :=
        mem_eventsBy.mpr ⟨mem, Int.le_trans come le⟩
      rw [none_] at mem'
      cases mem'

/-- What is admitted is a member, and sized. -/
theorem Sound.member_of_admitted (sound : Sound env s) (admitted : s.store.Admitted pk asOf) :
    ∃ m ∈ s.store.members, m.recommendation = pk := by
  obtain ⟨a, latest, -⟩ := admitted
  obtain ⟨mem, own⟩ := List.mem_filter.mp (Window.latest_spec latest).1
  rw [Bool.and_eq_true, decide_eq_true_iff] at own
  obtain ⟨m, memM, -, same⟩ := sound.belongs a mem
  exact ⟨m, memM, same.trans own.1⟩

theorem Sound.sized_of_active (sound : Sound env s) (active : Active env s.store pk asOf) :
    (s.store.positionSize pk).isSome := by
  obtain ⟨m, mem, rfl⟩ := sound.member_of_admitted active.admitted
  exact sound.sized m mem

/-- What is active at every instant fits. -/
def Capped (env : Environment) (s : Server Tables) : Prop :=
  ∀ asOf, Fits env s.store (activeAdmitted env s.store [] asOf)

theorem mem_active : pk ∈ activeAdmitted env s.store [] asOf ↔ Active env s.store pk asOf := by
  rw [mem_activeAdmitted]
  simp

/-- A call that makes nothing active keeps to the caps. -/
theorem Quiet.capped (h : Quiet env s t) (sound : Sound env s) (capped : Capped env s) :
    Capped env t := by
  intro asOf
  refine (capped asOf).mono nodup_activeAdmitted (fun pk mem => ?_) fun pk mem => ?_
  · exact mem_active.mpr (h.active pk asOf (mem_active.mp mem))
  · have active := h.active pk asOf (mem_active.mp mem)
    unfold Tables.risk
    rw [h.sizes pk (sound.sized_of_active active)]

/-! ## The rows of a selection -/

/-- The tables with admissions added. -/
def withAdmissions (s : Server Tables) (news : List AdmissionEvent) : Server Tables :=
  { s with store := { s.store with admissions := s.store.admissions ++ news } }

/-- The admissions a selection adds to so many. -/
structure Adds (selection : Selection) (count : ℕ) (state : AdmissionState)
    (news : List AdmissionEvent) : Prop where
  state : ∀ a ∈ news, a.state = state
  cohort : ∀ a ∈ news, a.cohort = selection.cohort
  time : ∀ a ∈ news, a.occurredAt = selection.selectedAt
  after : ∀ a ∈ news, count < a.id
  upto : ∀ a ∈ news, a.id ≤ count + news.length

theorem ensures_createAdmissions (selection : Selection) (state : AdmissionState)
    (reasonCode : String) (pks : List ℕ) :
    Ensures (each (createAdmission env selection state reasonCode) pks) s fun _ t =>
      ∃ news, t = withAdmissions s news ∧ news.map AdmissionEvent.recommendation = pks ∧
        Adds selection s.store.admissions.length state news := by
  induction pks generalizing s with
  | nil =>
    refine ensures_pure.mpr ⟨[], ?_, rfl, ⟨nofun, nofun, nofun, nofun, nofun⟩⟩
    rw [withAdmissions, List.append_nil]
  | cons pk pks ih =>
    rw [each]
    unfold createAdmission
    simp only [ensures_bind, ensures_load, ensures_refuseIf, ensures_save, id_eq]
    intro _
    refine ih.mono ?_
    rintro _ t ⟨news, rfl, recs, adds⟩
    refine ⟨admissionRow s.store selection state reasonCode pk :: news, ?_, ?_, ?_⟩
    · rw [withAdmissions, withAdmissions, List.append_assoc, List.singleton_append]
    · rw [List.map_cons, recs]
      rfl
    · rw [List.length_append, List.length_singleton] at adds
      have after (a : AdmissionEvent) (mem : a ∈ news) := adds.after a mem
      have upto (a : AdmissionEvent) (mem : a ∈ news) := adds.upto a mem
      constructor
      · exact List.forall_mem_cons.mpr ⟨rfl, adds.state⟩
      · exact List.forall_mem_cons.mpr ⟨rfl, adds.cohort⟩
      · exact List.forall_mem_cons.mpr ⟨rfl, adds.time⟩
      · exact List.forall_mem_cons.mpr ⟨Nat.lt_succ_self _, fun a mem => by
          have := after a mem
          omega⟩
      · rw [List.length_cons]
        refine List.forall_mem_cons.mpr ⟨?_, fun a mem => ?_⟩
        · show s.store.admissions.length + 1 ≤ _
          omega
        · have := upto a mem
          omega

/-- What a selection writes before the events: its row, and the admissions and revocations. -/
structure Booked (env : Environment) (s t : Server Tables) (selection : Selection)
    (previous : Finset ℕ) (admitted revoked : List AdmissionEvent) : Prop where
  tables : t = { withAdmissions { s with store := { s.store with
    selections := s.store.selections ++ [selection] } } (admitted ++ revoked) with
    readings := s.readings + 1 }
  id : selection.id = s.store.selections.length + 1
  time : selection.selectedAt = env.time s
  first : Adds selection s.store.admissions.length .admitted admitted
  second : Adds selection (s.store.admissions.length + admitted.length) .revoked revoked
  enters : ∀ pk, pk ∈ admitted.map AdmissionEvent.recommendation ↔
    pk ∈ selection.selected ∧ pk ∉ previous
  leaves : ∀ pk, pk ∈ revoked.map AdmissionEvent.recommendation ↔
    pk ∈ previous ∧ pk ∉ selection.selected

variable {selection : Selection} {previous : Finset ℕ} {admitted revoked : List AdmissionEvent}

theorem Booked.news (h : Booked env s t selection previous admitted revoked) {a : AdmissionEvent}
    (mem : a ∈ admitted ++ revoked) :
    a.cohort = selection.cohort ∧ a.occurredAt = env.time s ∧
      s.store.admissions.length < a.id ∧
      a.id ≤ s.store.admissions.length + admitted.length + revoked.length := by
  rcases List.mem_append.mp mem with mem | mem
  · have upto := h.first.upto a mem
    exact ⟨h.first.cohort a mem, (h.first.time a mem).trans h.time, h.first.after a mem, by omega⟩
  · have after := h.second.after a mem
    exact ⟨h.second.cohort a mem, (h.second.time a mem).trans h.time, by omega,
      h.second.upto a mem⟩

/-- The last admission of a recommendation is one of the new, or there is no new one of it. -/
theorem Booked.lastAdmission_cases (h : Booked env s t selection previous admitted revoked)
    (sound : Sound env s) {a : AdmissionEvent} (last : t.store.lastAdmission pk = some a) :
    (a ∈ admitted ++ revoked ∧ a.recommendation = pk) ∨
      (s.store.lastAdmission pk = some a ∧
        ∀ other ∈ admitted ++ revoked, other.recommendation ≠ pk) := by
  have rows : t.store.admissions = s.store.admissions ++ (admitted ++ revoked) := by
    rw [h.tables]
    rfl
  unfold Tables.lastAdmission at last ⊢
  rw [rows, List.filter_append] at last
  by_cases none_ : ∀ other ∈ admitted ++ revoked, other.recommendation ≠ pk
  · right
    have empty : (admitted ++ revoked).filter (fun a => a.recommendation = pk) = [] :=
      List.filter_eq_nil_iff.mpr fun other mem => by simpa using none_ other mem
    rw [empty, List.append_nil] at last
    exact ⟨last, none_⟩
  · left
    push Not at none_
    obtain ⟨other, memOther, own⟩ := none_
    obtain ⟨mem, greatest⟩ := Window.latest_spec last
    rcases List.mem_append.mp mem with old | new
    · exfalso
      have later := greatest other (List.mem_append_right _
        (List.mem_filter.mpr ⟨memOther, decide_eq_true own⟩))
      obtain ⟨-, time, id, -⟩ := h.news memOther
      have bound := sound.admissions a (List.mem_of_mem_filter old)
      rw [Window.moment, Window.moment, Prod.Lex.toLex_le_toLex, time] at later
      rcases later with lt | ⟨-, le⟩
      · exact absurd bound.1 (Int.not_le.mpr lt)
      · exact absurd (Nat.lt_of_lt_of_le id le) (Nat.not_lt.mpr bound.2)
    · obtain ⟨mem, own⟩ := List.mem_filter.mp new
      exact ⟨mem, of_decide_eq_true own⟩

theorem Booked.latestSelection (h : Booked env s t selection previous admitted revoked)
    (sound : Sound env s) (cohort : ℕ) :
    t.store.latestSelection cohort =
      if selection.cohort = cohort then some selection else s.store.latestSelection cohort := by
  have rows : t.store.selections = s.store.selections ++ [selection] := by
    rw [h.tables]
    rfl
  unfold Tables.latestSelection
  rw [rows, filter_concat]
  by_cases same : selection.cohort = cohort
  · rw [if_pos (decide_eq_true same), if_pos same]
    refine Window.latest_append fun other mem => ?_
    obtain ⟨time, id⟩ := sound.selections other (List.mem_of_mem_filter mem)
    rw [Window.moment, Window.moment, Prod.Lex.toLex_lt_toLex, h.time, h.id]
    rcases Int.lt_or_eq_of_le time with lt | eq
    · exact .inl lt
    · exact .inr ⟨eq, Nat.lt_succ_of_le id⟩
  · rw [if_neg (by simpa using same), if_neg same]

/-- A member of a cohort that is admitted is in its latest selection. -/
theorem Sound.selected_of_member (sound : Sound env s) {m : CohortMember}
    (mem : m ∈ s.store.members) {a : AdmissionEvent}
    (last : s.store.lastAdmission m.recommendation = some a) (admits : a.state = .admitted) :
    a.cohort = m.cohort ∧
      ∃ x, s.store.latestSelection m.cohort = some x ∧ m.recommendation ∈ x.selected := by
  obtain ⟨memA, own⟩ := List.mem_filter.mp (Window.latest_spec last).1
  obtain ⟨other, memOther, cohort, same⟩ := sound.belongs a memA
  have unique : other = m := List.inj_on_of_nodup_map sound.once memOther mem
    (same.trans (of_decide_eq_true own))
  rw [unique] at cohort
  obtain ⟨x, latest, selected⟩ := sound.chosen m.recommendation a last admits
  rw [← cohort] at latest
  exact ⟨cohort.symm, x, latest, selected⟩

/-- The recommendations of the selection before one. -/
def Tables.previouslySelected (db : Tables) (cohort : ℕ) : Finset ℕ :=
  ((db.latestSelection cohort).map Selection.selected).getD ∅

theorem Booked.sound (h : Booked env s t selection previous admitted revoked)
    (sound : Sound env s) (before : previous = s.store.previouslySelected selection.cohort)
    (members : ∀ pk ∈ selection.selected, ∃ m ∈ s.store.members,
      m.cohort = selection.cohort ∧ m.recommendation = pk)
    (known : selection.cohort ≤ s.store.cohorts.length) : Sound env t := by
  have later : env.time s ≤ env.time t := by
    refine env.time_mono ?_
    rw [h.tables]
    exact Nat.le_succ _
  have admissions : t.store.admissions = s.store.admissions ++ (admitted ++ revoked) := by
    rw [h.tables]
    rfl
  have selections : t.store.selections = s.store.selections ++ [selection] := by
    rw [h.tables]
    rfl
  have old : ∀ pk ∈ previous, ∃ m ∈ s.store.members,
      m.cohort = selection.cohort ∧ m.recommendation = pk := by
    intro pk mem
    rw [before, Tables.previouslySelected] at mem
    cases latest : s.store.latestSelection selection.cohort with
    | none =>
      rw [latest] at mem
      exact absurd mem (Finset.notMem_empty pk)
    | some x =>
      rw [latest] at mem
      obtain ⟨memX, own⟩ := List.mem_filter.mp (Window.latest_spec latest).1
      obtain ⟨m, memM, cohort, same⟩ := sound.picked x memX pk mem
      exact ⟨m, memM, cohort.trans (of_decide_eq_true own), same⟩
  constructor
  · rw [h.tables]
    exact sound.chained
  · rw [show t.store.events = s.store.events by rw [h.tables]; rfl]
    exact fun e mem admits => Int.le_trans (sound.granted e mem admits) later
  · intro a mem
    rw [admissions] at mem ⊢
    rw [List.length_append, List.length_append]
    rcases List.mem_append.mp mem with mem | mem
    · obtain ⟨time, id⟩ := sound.admissions a mem
      exact ⟨Int.le_trans time later, by omega⟩
    · obtain ⟨-, time, -, upto⟩ := h.news mem
      exact ⟨by rw [time]; exact later, by omega⟩
  · intro x mem
    rw [selections] at mem ⊢
    rw [List.length_append, List.length_singleton]
    rcases List.mem_append.mp mem with mem | mem
    · obtain ⟨time, id⟩ := sound.selections x mem
      exact ⟨Int.le_trans time later, by omega⟩
    · rw [List.mem_singleton.mp mem, h.time, h.id]
      exact ⟨later, le_rfl⟩
  · rw [h.tables]
    exact sound.once
  · rw [h.tables]
    exact sound.sized
  · intro a mem
    rw [admissions] at mem
    rw [show t.store.members = s.store.members by rw [h.tables]; rfl]
    rcases List.mem_append.mp mem with mem | mem
    · exact sound.belongs a mem
    · rw [(h.news mem).1]
      rcases List.mem_append.mp mem with mem | mem
      · exact members _ ((h.enters _).mp (List.mem_map_of_mem mem)).1
      · exact old _ ((h.leaves _).mp (List.mem_map_of_mem mem)).1
  · intro pk a last admits
    rw [h.latestSelection sound]
    rcases h.lastAdmission_cases sound last with ⟨mem, rfl⟩ | ⟨last, none_⟩
    · rw [(h.news mem).1, if_pos rfl]
      rcases List.mem_append.mp mem with mem | mem
      · exact ⟨selection, rfl, ((h.enters _).mp (List.mem_map_of_mem mem)).1⟩
      · rw [h.second.state a mem] at admits
        cases admits
    · obtain ⟨x, latest, selected⟩ := sound.chosen pk a last admits
      split_ifs with same
      · -- selected before, and not revoked now
        refine ⟨selection, rfl, ?_⟩
        by_contra apart
        have was : pk ∈ previous := by
          rw [before, Tables.previouslySelected, same, latest]
          exact selected
        obtain ⟨other, mem, own⟩ := List.mem_map.mp ((h.leaves pk).mpr ⟨was, apart⟩)
        exact none_ other (List.mem_append_right _ mem) own
      · exact ⟨x, latest, selected⟩
  · rw [h.tables]
    exact sound.settled
  · rw [h.tables]
    exact sound.ended
  · intro f mem
    rw [show t.store.facts = s.store.facts by rw [h.tables]; rfl] at mem ⊢
    obtain ⟨id, time⟩ := sound.noted f mem
    exact ⟨id, fun old => (time old).trans (max_le_max_right _ later)⟩
  · intro x mem pk own
    rw [selections] at mem
    rw [show t.store.members = s.store.members by rw [h.tables]; rfl]
    rcases List.mem_append.mp mem with mem | mem
    · exact sound.picked x mem pk own
    · rw [List.mem_singleton.mp mem] at own ⊢
      exact members pk own
  · intro x mem
    rw [selections] at mem
    rw [show t.store.cohorts = s.store.cohorts by rw [h.tables]; rfl]
    rcases List.mem_append.mp mem with mem | mem
    · exact sound.known x mem
    · rw [List.mem_singleton.mp mem]
      exact known
  · rw [h.tables]
    exact sound.numbered

/-! ## What a selection makes active -/

/-- After a selection, what is active is what it selected, and what was active outside its
cohort. -/
structure Granted (env : Environment) (s t : Server Tables) (cohort : ℕ) (selected : Finset ℕ) :
    Prop where
  readings : s.readings ≤ t.readings
  members : s.store.members <+: t.store.members
  sizes : ∀ pk, (s.store.positionSize pk).isSome → t.store.positionSize pk = s.store.positionSize pk
  active : ∀ pk asOf, Active env t.store pk asOf →
    (Active env s.store pk asOf ∧ (env.time s ≤ asOf →
      ∀ m ∈ s.store.members, m.cohort = cohort → m.recommendation ≠ pk)) ∨
    (env.time s ≤ asOf ∧ pk ∈ selected)

theorem Granted.quiet {cohort : ℕ} {selected : Finset ℕ} (h : Granted env s t cohort selected)
    (moved : Quiet env t u) : Granted env s u cohort selected where
  readings := h.readings.trans moved.readings
  members := h.members.trans moved.members
  sizes pk sized := by
    have same := h.sizes pk sized
    rw [moved.sizes pk (by rw [same]; exact sized), same]
  active pk asOf active := h.active pk asOf (moved.active pk asOf active)

theorem Booked.granted (h : Booked env s t selection previous admitted revoked)
    (sound : Sound env s) (before : previous = s.store.previouslySelected selection.cohort) :
    Granted env s t selection.cohort selection.selected where
  readings := by rw [h.tables]; exact Nat.le_succ _
  members := by rw [h.tables]; exact List.prefix_rfl
  sizes pk _ := by rw [h.tables]; rfl
  active pk asOf active := by
    obtain ⟨version, directional, ⟨a, latest, admits⟩, held⟩ := active
    have rows : t.store.admissions = s.store.admissions ++ (admitted ++ revoked) := by
      rw [h.tables]
      rfl
    have same : ∀ pk asOf, t.store.Unresolved pk asOf = s.store.Unresolved pk asOf := by
      rw [h.tables]
      exact fun _ _ => rfl
    rw [same, show t.store.events = s.store.events by rw [h.tables]; rfl] at held
    by_cases late : env.time s ≤ asOf
    · have come : ∀ a ∈ t.store.admissions, a.occurredAt ≤ asOf := by
        intro a mem
        rw [rows] at mem
        rcases List.mem_append.mp mem with mem | mem
        · exact Int.le_trans (sound.admissions a mem).1 late
        · rw [(h.news mem).2.1]
          exact late
      rw [latestAdmission_eq come] at latest
      by_cases chosen : pk ∈ selection.selected
      · exact .inr ⟨late, chosen⟩
      · left
        rcases h.lastAdmission_cases sound latest with ⟨mem, rfl⟩ | ⟨last, none_⟩
        · exfalso
          rcases List.mem_append.mp mem with mem | mem
          · exact chosen ((h.enters _).mp (List.mem_map_of_mem mem)).1
          · rw [h.second.state a mem] at admits
            cases admits
        · refine ⟨⟨version, directional, ⟨a, ?_, admits⟩, held⟩, fun _ m mem cohort own => ?_⟩
          · rw [sound.latestAdmission_eq late]
            exact last
          · -- a member that is not selected again has been revoked
            rw [← own] at last
            obtain ⟨-, x, found, selected⟩ := sound.selected_of_member mem last admits
            have was : pk ∈ previous := by
              rw [before, Tables.previouslySelected, ← cohort, found, ← own]
              exact selected
            obtain ⟨other, mem, same⟩ := List.mem_map.mp ((h.leaves pk).mpr ⟨was, chosen⟩)
            exact none_ other (List.mem_append_right _ mem) same
    · refine .inl ⟨⟨version, directional, ⟨a, ?_, admits⟩, held⟩, fun come => absurd come late⟩
      unfold Tables.latestAdmission at latest ⊢
      have empty : (admitted ++ revoked).filter (fun a => a.recommendation = pk &&
          a.occurredAt ≤ asOf) = [] := by
        refine List.filter_eq_nil_iff.mpr fun a mem => ?_
        rw [(h.news mem).2.1, decide_eq_false late, Bool.and_false]
        exact Bool.false_ne_true
      rw [rows, List.filter_append, empty, List.append_nil] at latest
      exact latest

/-- **A turn of a selection on a member** makes nothing active that was not selected. -/
theorem keeps_selectMember (cohort : ℕ) (selected : Finset ℕ) (member : CohortMember) :
    Keeps (fun t => Sound env t ∧ Granted env s t cohort selected) (fun _ _ => True)
      (selectMember env selected member) := by
  rintro t ⟨sound, granted⟩
  have quiet {x : Work Unit} (kept : Keeps (Sound env) (Quiet env) x) {t : Server Tables}
      (sound : Sound env t) (granted : Granted env s t cohort selected) :
      Ensures x t fun _ u => (Sound env u ∧ Granted env s u cohort selected) ∧ True :=
    (kept t sound).mono fun _ u h => ⟨⟨h.1, granted.quiet h.2⟩, trivial⟩
  unfold selectMember
  refine ensures_ite.mpr ⟨fun _ => ensures_pure.mpr ⟨⟨sound, granted⟩, trivial⟩, fun _ => ?_⟩
  simp only [ensures_bind, ensures_now, ensures_load, id_eq]
  have tick := agrees_tick t
  have sound' := sound.agrees tick
  have granted' := granted.quiet tick.still.toQuiet
  refine ensures_ite.mpr ⟨fun chosen => ?_, fun _ => ensures_ite.mpr ⟨fun _ => ?_, fun _ => ?_⟩⟩
  · refine ensures_transition sound'.chained (fun u same later _ => ?_) fun u row h => ?_
    · have agrees := Recorded.agrees_of_made same later
      exact ⟨⟨sound'.agrees agrees, granted'.quiet agrees.still.toQuiet⟩, trivial⟩
    · have stamp : row.occurredAt = env.time { t with readings := t.readings + 1 } := h.time
      refine ⟨⟨h.sound sound' fun _ => ?_, ?_⟩, trivial⟩
      · rw [stamp]
        exact env.time_mono h.readings
      · constructor
        · exact granted'.readings.trans h.readings
        · rw [h.store]
          exact granted'.members
        · intro pk sized
          rw [show u.store.positionSize pk = t.store.positionSize pk by rw [h.store]; rfl]
          exact granted'.sizes pk sized
        · intro pk asOf active
          rcases h.active sound'.chained active with active | ⟨-, rfl, come⟩
          · exact granted'.active pk asOf active
          · refine .inr ⟨?_, chosen.1⟩
            rw [stamp] at come
            exact Int.le_trans (env.time_mono granted'.readings) come
  · exact quiet (keeps_transition (by rintro ⟨⟩)) sound' granted'
  · exact ensures_pure.mpr ⟨⟨sound', granted'⟩, trivial⟩

/-- **`_record_selection`** of members of a cohort. -/
theorem ensures_recordSelection {cohort : Cohort} {selected : Finset ℕ} {mode : SelectionMode}
    {supersedes : Option Selection} {key : SelectionKey} (sound : Sound env s)
    (latest : supersedes = s.store.latestSelection cohort.id)
    (members : ∀ pk ∈ selected, ∃ m ∈ s.store.members,
      m.cohort = cohort.id ∧ m.recommendation = pk)
    (known : cohort.id ≤ s.store.cohorts.length) :
    Ensures (recordSelection env cohort selected mode supersedes key) s fun _ t =>
      Sound env t ∧ Granted env s t cohort.id selected := by
  unfold recordSelection
  simp only [ensures_bind, ensures_now, ensures_load, ensures_refuseIf, ensures_save, id_eq]
  intro _
  refine (ensures_createAdmissions _ _ _ _).mono ?_
  rintro _ _ ⟨admitted, rfl, recs, first⟩
  refine (ensures_createAdmissions _ _ _ _).mono ?_
  rintro _ t ⟨revoked, tables, recs', second⟩
  have before : (supersedes.map Selection.selected).getD ∅ =
      s.store.previouslySelected cohort.id := by
    rw [latest]
    rfl
  rw [before] at recs recs'
  have booked : Booked env s t {
      id := s.store.selections.length + 1
      cohort := cohort.id
      supersedes := supersedes.map Selection.id
      mode
      key
      selectedAt := env.time s
      selected } (s.store.previouslySelected cohort.id) admitted revoked := {
    tables := by
      rw [tables]
      simp only [withAdmissions, List.append_assoc]
      rfl
    id := rfl
    time := rfl
    first
    second := by
      have length : (s.store.admissions ++ admitted).length =
        s.store.admissions.length + admitted.length := List.length_append
      rw [← length]
      exact second
    enters := fun pk => by rw [recs, Finset.mem_sort, Finset.mem_sdiff]
    leaves := fun pk => by rw [recs', Finset.mem_sort, Finset.mem_sdiff] }
  have sound' := booked.sound sound rfl members known
  have granted := booked.granted sound rfl
  have loop : Keeps (fun t => Sound env t ∧ Granted env s t cohort.id selected) (fun _ _ => True)
      (each (selectMember env selected) (t.store.membersOf cohort.id)) :=
    Keeps.each (fun _ => trivial) (fun _ _ _ _ _ => trivial)
      fun member _ => keeps_selectMember cohort.id selected member
  refine (loop t ⟨sound', granted⟩).mono ?_
  rintro _ u ⟨⟨sound'', granted'⟩, -⟩
  refine ensures_ite.mpr ⟨fun _ => ?_, fun _ => ensures_pure.mpr ⟨sound'', granted'⟩⟩
  exact (keeps_closeCohort _ _ _ _ u sound'').mono fun _ v h =>
    ⟨h.1, granted'.quiet h.2.toQuiet⟩

/-! ## A selection that fits -/

/-- What `_fits` accepted still fits after a selection. -/
theorem Granted.fits {cohort : ℕ} {selected : Finset ℕ} (h : Granted env s t cohort selected)
    {pks : List ℕ} (fit : Portfolio.fits env s.store pks = .ok true) : Fits env t.store pks := by
  refine (fits_of_ok fit).congr fun pk mem => ?_
  unfold Tables.risk
  rw [h.sizes pk (sized_of_fits fit pk mem)]

/-- **What was active outside the cohort and what is selected fit, so everything active fits.** -/
theorem Granted.capped {cohort : ℕ} {selected : Finset ℕ} (h : Granted env s t cohort selected)
    (sound : Sound env s) (capped : Capped env s) {pks : List ℕ}
    (fit : Portfolio.fits env s.store pks = .ok true) (chosen : ∀ pk ∈ selected, pk ∈ pks)
    (others : ∀ pk asOf, env.time s ≤ asOf → Active env s.store pk asOf →
      (∀ m ∈ s.store.members, m.cohort = cohort → m.recommendation ≠ pk) → pk ∈ pks) :
    Capped env t := by
  intro asOf
  by_cases late : env.time s ≤ asOf
  · refine (h.fits fit).mono nodup_activeAdmitted (fun pk mem => ?_) fun _ _ => rfl
    rcases h.active pk asOf (mem_active.mp mem) with ⟨active, apart⟩ | ⟨-, mem⟩
    · exact others pk asOf late active (apart late)
    · exact chosen pk mem
  · have early (pk : ℕ) (mem : pk ∈ activeAdmitted env t.store [] asOf) :
        Active env s.store pk asOf :=
      (h.active pk asOf (mem_active.mp mem)).elim And.left fun come => absurd come.1 late
    refine (capped asOf).mono nodup_activeAdmitted (fun pk mem => mem_active.mpr (early pk mem))
      fun pk mem => ?_
    unfold Tables.risk
    rw [h.sizes pk (sound.sized_of_active (early pk mem))]

/-- A call admits some: with what else was active at a reading of the clock they fit, and nothing
else becomes active. -/
def Admits (env : Environment) (s t : Server Tables) (excluding selected : List ℕ) : Prop :=
  (∃ n, s.readings ≤ n ∧ Fits env t.store
    (activeAdmitted env s.store excluding (env.clock.reading n) ++ selected)) ∧
  ∀ pk asOf, Active env t.store pk asOf → Active env s.store pk asOf ∨ pk ∈ selected

/-! ## Assessments -/

theorem keeps_addMembers (cohort : ℕ) {candidates : List ℕ} (sound : Sound env s) :
    Ensures (each (addMember env cohort) candidates) s fun _ t =>
      (Sound env t ∧ Still env s t) ∧
        ∀ pk ∈ candidates, ∃ m ∈ t.store.members, m.cohort = cohort ∧ m.recommendation = pk := by
  refine (ensures_loop (fun done _ t => (Sound env t ∧ Still env s t) ∧
    ∀ pk ∈ done, ∃ m ∈ t.store.members, m.cohort = cohort ∧ m.recommendation = pk)
    (fun done pk left t inv => ?_) ⟨⟨sound, Still.refl env s⟩, nofun⟩).mono
    fun _ t h => h
  obtain ⟨⟨sound', moved⟩, members⟩ := inv
  have entered : Ensures (addMember env cohort pk) t fun _ u =>
      ∃ m ∈ u.store.members, m.cohort = cohort ∧ m.recommendation = pk := by
    unfold addMember
    rw [ensures_bind, ensures_load]
    cases sized : t.store.positionSize pk with
    | none =>
      rw [id_eq, sized]
      exact ensures_ofExcept.mpr fun _ h => absurd h raise_ne_ok
    | some risk =>
      rw [id_eq, sized]
      simp only [ensures_bind, ensures_refuseIf, ensures_save]
      intro fresh
      have sound'' := sound'.addMember {
          id := t.store.members.length + 1, cohort, recommendation := pk, projectedRisk := risk
          currencyLegs := (env.recommendations pk).legs }
        (fun other mem same => fresh ⟨other, mem, same⟩) (by rw [sized]; rfl)
      refine ensures_ite.mpr ⟨fun _ => ?_, fun _ => ensures_pure.mpr ?_⟩
      · refine (still_transition (.inr (.inl rfl)) _ sound'').mono fun _ u h => ?_
        exact ⟨_, h.2.members.subset (List.mem_append_right _ (List.mem_singleton.mpr rfl)), rfl, rfl⟩
      · exact ⟨_, List.mem_append_right _ (List.mem_singleton.mpr rfl), rfl, rfl⟩
  refine ((keeps_addMember cohort pk t sound').and entered).mono ?_
  rintro _ u ⟨⟨sound'', moved'⟩, own⟩
  refine ⟨⟨sound'', Still.trans env _ _ _ moved moved'⟩, fun other mem => ?_⟩
  rcases List.mem_append.mp mem with mem | mem
  · obtain ⟨m, memM, same⟩ := members other mem
    exact ⟨m, moved'.members.subset memM, same⟩
  · rw [List.mem_singleton.mp mem]
    exact own

theorem keeps_closeCohorts (cohort : ℕ) (old : List Cohort) :
    Keeps (Sound env) (Still env) (each (fun other : Cohort =>
      closeCohort env other.id "new_target_superseded" (some cohort) none) old) :=
  Keeps.each (Still.refl env) (Still.trans env) fun other _ => keeps_closeCohort other.id _ _ _

/-- The end of an assessment keeps to the caps; either it admits nothing and ends nothing, or it
admits candidates that fit. -/
theorem ensures_openCohort (prospective : Bool) (candidates : List ℕ) (generatedAt : Instant)
    (sound : Sound env s) (capped : Capped env s) :
    Ensures (openCohort env prospective candidates generatedAt) s fun _ t =>
      (Sound env t ∧ Capped env t) ∧ (Still env s t ∨ Admits env s t candidates candidates) := by
  unfold openCohort
  simp only [ensures_bind, ensures_load, id_eq]
  refine ensures_ite.mpr ⟨fun _ => ensures_pure.mpr ⟨⟨sound, capped⟩, .inl (Still.refl env s)⟩,
    fun _ => ?_⟩
  simp only [ensures_bind, ensures_now, ensures_load, ensures_ofExcept, ensures_save, id_eq]
  rintro usage - deadline -
  generalize row : cohortRow s.store candidates _ usage generatedAt deadline = cohort
  have number : cohort.id = s.store.cohorts.length + 1 := by
    rw [← row]
    rfl
  have agrees : Agrees s { s with
      store := { s.store with cohorts := s.store.cohorts ++ [cohort] }
      readings := s.readings + 1 } :=
    ⟨Nat.le_succ _, .inr ⟨cohort, rfl, number⟩, rfl, rfl, rfl, rfl, rfl, rfl, rfl⟩
  have sound' := sound.agrees agrees
  refine (keeps_addMembers cohort.id sound').mono ?_
  rintro _ t ⟨⟨soundT, movedT⟩, membersT⟩
  refine (keeps_closeCohorts cohort.id _ t soundT).mono ?_
  rintro _ u ⟨soundU, movedU⟩ fit decided
  have still : Still env s u :=
    Still.trans env _ _ _ agrees.still (Still.trans env _ _ _ movedT movedU)
  have cappedU := still.toQuiet.capped sound capped
  refine ensures_ite.mpr ⟨fun yes => ?_, fun _ => ensures_pure.mpr ⟨⟨soundU, cappedU⟩, .inl still⟩⟩
  rw [yes] at decided
  have members : ∀ pk ∈ candidates.toFinset, ∃ m ∈ u.store.members,
      m.cohort = cohort.id ∧ m.recommendation = pk := by
    intro pk mem
    obtain ⟨m, memM, same⟩ := membersT pk (List.mem_toFinset.mp mem)
    exact ⟨m, movedU.members.subset memM, same⟩
  have fresh : u.store.latestSelection cohort.id = none := by
    unfold Tables.latestSelection
    rw [Window.latest, Window.firstMax_eq_none, List.filter_eq_nil_iff, still.selections]
    intro x mem
    have bound := sound.known x mem
    rw [decide_eq_true_iff, number]
    omega
  have known : cohort.id ≤ u.store.cohorts.length := by
    have more := (movedT.cohorts.trans movedU.cohorts).length_le
    rw [number]
    exact Nat.le_trans (by rw [List.length_append, List.length_singleton]) more
  have others (pk : ℕ) (asOf : Instant) (late : env.time u ≤ asOf)
      (active : Active env u.store pk asOf)
      (apart : ∀ m ∈ u.store.members, m.cohort = cohort.id → m.recommendation ≠ pk) :
      pk ∈ activeAdmitted env s.store candidates (env.time s) := by
    refine mem_activeAdmitted.mpr ⟨fun mem => ?_, ?_⟩
    · obtain ⟨m, memM, own, same⟩ := members pk (List.mem_toFinset.mpr mem)
      exact apart m memM own same
    · have still_active := still.active pk asOf active
      exact sound.active_earlier le_rfl (Int.le_trans (env.time_mono still.readings) late)
        still_active
  refine (ensures_recordSelection soundU fresh.symm members known).mono ?_
  rintro _ v ⟨soundV, granted⟩
  refine ⟨⟨soundV, granted.capped soundU cappedU decided
    (fun pk mem => List.mem_append_right _ (List.mem_toFinset.mp mem))
    fun pk asOf late active apart => List.mem_append_left _ (others pk asOf late active apart)⟩,
    .inr ⟨⟨s.readings, le_rfl, granted.fits decided⟩, fun pk asOf active => ?_⟩⟩
  rcases granted.active pk asOf active with ⟨active, -⟩ | ⟨-, mem⟩
  · exact .inl (still.active pk asOf active)
  · exact .inr (List.mem_toFinset.mp mem)

theorem Admits.of_still {excluding selected : List ℕ} (moved : Still env s t)
    (h : Admits env t u excluding selected) : Admits env s u excluding selected := by
  obtain ⟨⟨n, later, fits⟩, active⟩ := h
  have same (asOf : Instant) : activeAdmitted env s.store excluding asOf =
      activeAdmitted env t.store excluding asOf := by
    unfold activeAdmitted Tables.activeAdmittedRecommendationIds Tables.latestAdmission
    rw [moved.admissions]
    refine List.filter_congr fun pk _ => ?_
    have iff : currentRiskProjection env s.store pk asOf = currentRiskProjection env t.store pk asOf := by
      rw [Bool.eq_iff_iff, active_iff, active_iff]
      exact ⟨moved.kept pk asOf, moved.active pk asOf⟩
    rw [iff]
  refine ⟨⟨n, moved.readings.trans later, by rw [same]; exact fits⟩, fun pk asOf now => ?_⟩
  exact (active pk asOf now).imp_left (moved.active pk asOf)

/-- What an assessment leaves: the caps are kept; nothing has begun or ended that was active, or
some of the batch that fit are admitted. -/
structure Assessed (env : Environment) (s t : Server Tables) (pks : List ℕ) : Prop where
  sound : Sound env t
  capped : Capped env t
  outcome : Still env s t ∨ ∃ candidates ⊆ pks, Admits env s t candidates candidates

theorem Assessed.of_still {pks : List ℕ} (moved : Still env s t) (h : Assessed env t u pks) :
    Assessed env s u pks := by
  refine ⟨h.sound, h.capped, ?_⟩
  rcases h.outcome with still | ⟨candidates, subset, admits⟩
  · exact .inl (Still.trans env _ _ _ moved still)
  · exact .inr ⟨candidates, subset, admits.of_still moved⟩

theorem ensures_assessCandidates (prospective : Bool) (pks : List ℕ) (generatedAt : Instant)
    (sound : Sound env s) (capped : Capped env s) :
    Ensures (assessCandidates env prospective pks generatedAt) s fun _ t =>
      Assessed env s t pks := by
  unfold assessCandidates
  refine ensures_bind.mpr ((keeps_policyActivation s sound).mono ?_)
  rintro effectiveAt t ⟨sound', moved⟩
  have capped' := moved.toQuiet.capped sound capped
  simp only [ensures_bind, ensures_load, id_eq]
  refine ensures_ite.mpr ⟨fun _ => ensures_pure.mpr ⟨sound', capped', .inl moved⟩, fun _ => ?_⟩
  refine (ensures_openCohort _ _ _ sound' capped').mono ?_
  rintro _ u ⟨⟨soundU, cappedU⟩, outcome⟩
  refine Assessed.of_still moved ⟨soundU, cappedU, outcome.imp_right fun admits => ?_⟩
  exact ⟨_, fun _ mem => List.mem_of_mem_filter mem, admits⟩

/-- **`assess_recommendation_batch`** -/
theorem ensures_assess (pks : List ℕ) (generatedAt : Option Instant) (sound : Sound env s)
    (capped : Capped env s) :
    Ensures (assessRecommendationBatch env pks generatedAt) s fun _ t => Assessed env s t pks := by
  unfold assessRecommendationBatch
  refine ensures_bind.mpr ((keeps_orNow generatedAt s sound).mono ?_)
  rintro generatedAt t ⟨soundT, movedT⟩
  have screening : Keeps (Sound env) (Still env) (keepIf (screen env generatedAt)
      (pks.filter fun pk => (env.recommendations pk).contractVersion = 4)) :=
    Keeps.keepIf (Still.refl env) (Still.trans env) fun pk _ => keeps_screen generatedAt pk
  refine ensures_bind.mpr (((screening t soundT).and ensures_keepIf_subset).mono ?_)
  rintro eligible u ⟨⟨soundU, movedU⟩, subset⟩
  have moved := Still.trans env _ _ _ movedT movedU
  have cappedU := moved.toQuiet.capped sound capped
  have within : eligible ++ pks.filter (fun pk => (env.recommendations pk).contractVersion ≠ 4) ⊆
      pks :=
    List.append_subset.mpr ⟨fun _ mem => List.mem_of_mem_filter (subset mem),
      fun _ mem => List.mem_of_mem_filter mem⟩
  refine ensures_ite.mpr ⟨fun _ => ensures_pure.mpr ⟨soundU, cappedU, .inl moved⟩, fun _ => ?_⟩
  refine (ensures_assessCandidates _ _ _ soundU cappedU).mono fun _ v h => ?_
  have assessed := Assessed.of_still moved h
  refine ⟨assessed.sound, assessed.capped, assessed.outcome.imp_right ?_⟩
  rintro ⟨candidates, subset', admits⟩
  exact ⟨candidates, fun _ mem => within (subset' mem), admits⟩

/-! ## Owner decisions -/

theorem ensures_cohortIsOpen (cohort : Cohort) :
    Ensures (cohortIsOpen env cohort) s fun _ t =>
      t.store = s.store ∧ s.readings ≤ t.readings := by
  have past : Ensures (decisionOver env s.store cohort) s fun _ t =>
      t.store = s.store ∧ s.readings ≤ t.readings := by
    unfold decisionOver
    cases cohort.decisionDeadline with
    | none => exact ensures_pure.mpr ⟨rfl, le_rfl⟩
    | some deadline =>
      refine ensures_ite.mpr ⟨fun _ => ensures_pure.mpr ⟨rfl, le_rfl⟩, fun _ => ?_⟩
      rw [ensures_bind, ensures_now, ensures_pure]
      exact ⟨rfl, Nat.le_succ _⟩
  unfold cohortIsOpen
  simp only [ensures_bind, ensures_load, id_eq]
  refine ensures_ite.mpr ⟨fun _ => ensures_pure.mpr ⟨rfl, le_rfl⟩, fun _ => ?_⟩
  refine ensures_bind.mpr (past.mono ?_)
  rintro over_ t ⟨same, later⟩
  refine ensures_ite.mpr ⟨fun _ => ensures_pure.mpr ⟨same, later⟩, fun _ =>
    ensures_ite.mpr ⟨fun _ => ensures_pure.mpr ⟨same, later⟩, fun _ => ?_⟩⟩
  rw [ensures_bind, ensures_now, ensures_pure]
  exact ⟨same, Nat.le_succ_of_le later⟩

/-- The recommendations of a cohort. -/
def Tables.memberIds (db : Tables) (cohort : ℕ) : List ℕ :=
  (db.membersOf cohort).map CohortMember.recommendation

/-- What a decision of the owner leaves: the tables as they were, or what is selected admitted, as
it fits with what is active outside its cohort. -/
structure Decided (env : Environment) (s t : Server Tables) (cohort : ℕ)
    (selectedIds : Finset ℕ) : Prop where
  sound : Sound env t
  capped : Capped env t
  outcome : t.store = s.store ∨ Admits env s t (s.store.memberIds cohort)
    ((s.store.memberIds cohort).filter fun pk => pk ∈ selectedIds)

theorem ensures_selectCohort {cohort : Cohort} (selectedIds : Finset ℕ)
    (mem : cohort ∈ s.store.cohorts) (sound : Sound env s) (capped : Capped env s) :
    Ensures (selectCohort env cohort selectedIds) s fun _ t =>
      Decided env s t cohort.id selectedIds := by
  have unchanged : Decided env s s cohort.id selectedIds := ⟨sound, capped, .inl rfl⟩
  unfold selectCohort
  simp only [ensures_bind, ensures_load, ensures_refuseIf, id_eq]
  intro inside
  refine ensures_ite.mpr ⟨fun _ => ensures_pure.mpr unchanged, fun _ =>
    ensures_ite.mpr ⟨fun _ => ensures_pure.mpr unchanged, fun _ => ?_⟩⟩
  refine ensures_bind.mpr ((ensures_cohortIsOpen cohort).mono ?_)
  rintro isOpen t ⟨same, later⟩
  simp only [ensures_bind, ensures_now, ensures_load, ensures_ofExcept, ensures_refuseIf, id_eq,
    Bool.not_eq_false]
  rintro - - fit decided rfl
  have agrees : Agrees s { t with readings := t.readings + 1 } := by
    constructor <;> first | exact Nat.le_succ_of_le later | exact .inl (by rw [same]) | rw [same]
  have soundT := sound.agrees agrees
  have cappedT := agrees.still.toQuiet.capped sound capped
  have listed : ((s.store.membersOf cohort.id).filter fun member =>
      member.recommendation ∈ selectedIds).map CohortMember.recommendation =
      (s.store.memberIds cohort.id).filter fun pk => pk ∈ selectedIds := by
    rw [Tables.memberIds, List.filter_map]
    rfl
  rw [same, listed] at decided
  have members : ∀ pk ∈ selectedIds, ∃ m ∈ t.store.members,
      m.cohort = cohort.id ∧ m.recommendation = pk := by
    intro pk chosen
    push Not at inside
    obtain ⟨m, memM, own⟩ := List.mem_map.mp (inside pk chosen)
    obtain ⟨memM, cohort_⟩ := List.mem_filter.mp memM
    rw [same]
    exact ⟨m, memM, of_decide_eq_true cohort_, own⟩
  have known : cohort.id ≤ t.store.cohorts.length := by
    rw [same]
    exact sound.numbered cohort mem
  have latest : s.store.latestSelection cohort.id = t.store.latestSelection cohort.id := by
    rw [same]
  refine (ensures_recordSelection soundT latest members known).mono ?_
  rintro _ u ⟨soundU, granted⟩
  have late : env.time s ≤ env.time t := env.time_mono later
  have outside (pk : ℕ) (asOf : Instant)
      (come : env.time { t with readings := t.readings + 1 } ≤ asOf)
      (active : Active env t.store pk asOf)
      (apart : ∀ m ∈ t.store.members, m.cohort = cohort.id → m.recommendation ≠ pk) :
      pk ∈ activeAdmitted env s.store (s.store.memberIds cohort.id) (env.time t) := by
    rw [same] at active apart
    refine mem_activeAdmitted.mpr ⟨fun own => ?_, ?_⟩
    · obtain ⟨m, memM, own⟩ := List.mem_map.mp own
      obtain ⟨memM, cohort_⟩ := List.mem_filter.mp memM
      exact apart m memM (of_decide_eq_true cohort_) own
    · exact sound.active_earlier late
        (Int.le_trans (env.clock.mono (Nat.le_succ t.readings)) come) active
  have fit : fits env t.store (activeAdmitted env s.store (s.store.memberIds cohort.id) (env.time t) ++
      (s.store.memberIds cohort.id).filter fun pk => pk ∈ selectedIds) = .ok true := by
    rw [same]
    exact decided
  have chosen (pk : ℕ) (mem : pk ∈ selectedIds) :
      pk ∈ (s.store.memberIds cohort.id).filter fun pk => pk ∈ selectedIds := by
    push Not at inside
    exact List.mem_filter.mpr ⟨inside pk mem, decide_eq_true mem⟩
  refine ⟨soundU, granted.capped soundT cappedT fit
    (fun pk mem => List.mem_append_right _ (chosen pk mem))
    fun pk asOf come active apart => List.mem_append_left _ (outside pk asOf come active apart),
    .inr ⟨⟨t.readings, later, granted.fits fit⟩, fun pk asOf active => ?_⟩⟩
  rcases granted.active pk asOf active with ⟨active, -⟩ | ⟨-, mem⟩
  · rw [show ({ t with readings := t.readings + 1 } : Server Tables).store = s.store from same]
      at active
    exact .inl active
  · exact .inr (chosen pk mem)

/-- **`select_portfolio_cohort`** -/
theorem ensures_select (cohort : ℕ) (selectedIds : Finset ℕ) (superuser : Bool)
    (sound : Sound env s) (capped : Capped env s) :
    Ensures (selectPortfolioCohort env cohort selectedIds superuser) s fun _ t =>
      Decided env s t cohort selectedIds := by
  unfold selectPortfolioCohort
  simp only [ensures_bind, ensures_load, ensures_refuseIf, id_eq]
  intro _
  cases found : s.store.cohorts.find? fun row => row.id = cohort with
  | none => exact ensures_ofExcept.mpr fun _ h => absurd h raise_ne_ok
  | some row =>
    have own := List.find?_some found
    obtain rfl : row.id = cohort := of_decide_eq_true own
    exact ensures_selectCohort selectedIds (List.mem_of_find?_eq_some found) sound capped

/-! ## Runs -/

/-- Sound tables, within the caps. -/
def Kept (env : Environment) (s : Server Tables) : Prop := Sound env s ∧ Capped env s

theorem keeps_of_quiet {α : Type} {x : Work α} (quiet : Keeps (Sound env) (Quiet env) x) :
    Keeps (Kept env) (fun _ _ => True) x := by
  rintro s ⟨sound, capped⟩
  exact (quiet s sound).mono fun _ t h => ⟨⟨h.1, h.2.capped sound capped⟩, trivial⟩

theorem keeps_assess (pks : List ℕ) (generatedAt : Option Instant) :
    Keeps (Kept env) (fun _ _ => True) (assessRecommendationBatch env pks generatedAt) := by
  rintro s ⟨sound, capped⟩
  exact (ensures_assess pks generatedAt sound capped).mono fun _ t h =>
    ⟨⟨h.sound, h.capped⟩, trivial⟩

theorem keeps_reconcileRecommendation {pk : ℕ} (asOf : Instant)
    (four : (env.recommendations pk).contractVersion = 4) :
    Keeps (Kept env) (fun _ _ => True) (reconcileRecommendation env asOf pk) := by
  have trans (s t u : Server Tables) : True → True → True := fun _ _ => trivial
  have assessment : Keeps (Kept env) (fun _ _ => True) (reconcileAssessment env asOf pk) := by
    refine Keeps.bind trans (Keeps.load (fun _ => trivial) _) fun state => ?_
    refine Keeps.ite (fun _ => Keeps.ite (fun _ => ?_) fun _ => ?_) fun _ =>
      Keeps.pure (fun _ => trivial) ()
    · exact keeps_of_quiet (keeps_cancelOverdue four asOf)
    · exact keeps_assess _ _
  refine Keeps.bind trans (keeps_of_quiet (keeps_initializeLifecycle pk)) fun _ => ?_
  refine Keeps.bind trans assessment fun _ => ?_
  refine Keeps.bind trans (keeps_of_quiet (keeps_reconcileEntry pk asOf)) fun _ => ?_
  exact keeps_of_quiet (keeps_reconcileResult pk asOf)

theorem keeps_reconcile (instrument : Option ℕ) (asOf : Option Instant) :
    Keeps (Kept env) (fun _ _ => True) (reconcileLifecycle env instrument asOf) := by
  have trans (s t u : Server Tables) : True → True → True := fun _ _ => trivial
  have start : Keeps (Sound env) (Quiet env) (orNow env.clock asOf) :=
    (keeps_orNow asOf).mono fun _ _ h => h.toQuiet
  refine Keeps.bind trans (keeps_of_quiet start) fun asOf s kept => ?_
  rw [ensures_bind, ensures_load]
  have loop : Keeps (Kept env) (fun _ _ => True)
      (each (reconcileRecommendation env asOf) (reconciled env s.store instrument asOf)) := by
    refine Keeps.each (fun _ => trivial) trans fun pk mem => keeps_reconcileRecommendation asOf ?_
    have mem' := List.mem_mergeSort.mp mem
    have own := (List.mem_filter.mp mem').2
    rw [Bool.and_eq_true, Bool.and_eq_true, decide_eq_true_iff] at own
    exact own.1.1
  have closing : Keeps (Kept env) (fun _ _ => True) (do
      let cohorts ← load fun db => undecided db asOf
      each (reconcileCohort env asOf) cohorts) :=
    Keeps.bind trans (Keeps.load (fun _ => trivial) _) fun cohorts =>
      Keeps.each (fun _ => trivial) trans fun cohort _ =>
        keeps_of_quiet ((keeps_reconcileCohort asOf cohort).mono fun _ _ h => h.toQuiet)
  exact Keeps.bind trans loop (fun _ => closing) s kept

/-- The calls that may admit: an assessment, a decision of the owner, a reconciliation. -/
def Step.decides : Step → Bool
  | .assess .. | .select .. | .reconcile .. => true
  | .issue .. | .size .. | .ingest .. | .resolve .. => false

/-- The other calls make nothing active. -/
theorem keeps_undecided {step : Step} (undecided : step.decides = false) :
    Keeps (Sound env) (Quiet env) (step.work env) := by
  cases step with
  | issue pk => exact keeps_issue pk
  | size pk risk => exact keeps_sizeRecommendation pk risk
  | ingest candles =>
    have still : Keeps (Sound env) (Still env)
        (save fun db : Tables => { db with candles := db.candles ++ candles }) :=
      keeps_save fun s => ⟨le_rfl, .inl rfl, rfl, rfl, rfl, rfl, rfl, rfl, rfl⟩
    exact still.mono fun _ _ h => h.toQuiet
  | resolve pk seen => exact keeps_resolvePaperTrade pk seen
  | assess pks generatedAt => cases undecided
  | select cohort selectedIds superuser => cases undecided
  | reconcile instrument asOf => cases undecided

/-- **Every call keeps the caps.** -/
theorem keeps_step (step : Step) : Keeps (Kept env) (fun _ _ => True) (step.work env) := by
  cases step with
  | issue pk => exact keeps_of_quiet (keeps_undecided rfl)
  | size pk risk => exact keeps_of_quiet (keeps_undecided rfl)
  | ingest candles => exact keeps_of_quiet (keeps_undecided rfl)
  | assess pks generatedAt => exact keeps_assess pks generatedAt
  | select cohort selectedIds superuser =>
    rintro s ⟨sound, capped⟩
    exact (ensures_select cohort selectedIds superuser sound capped).mono fun _ t h =>
      ⟨⟨h.sound, h.capped⟩, trivial⟩
  | reconcile instrument asOf => exact keeps_reconcile instrument asOf
  | resolve pk seen => exact keeps_of_quiet (keeps_undecided rfl)

/-- A transaction that raises leaves the tables as they were, and the clock further on. -/
theorem agrees_of_raised (s : Server Tables) (n : ℕ) :
    Agrees s { s with readings := s.readings + n } :=
  ⟨Nat.le_add_right _ _, .inl rfl, rfl, rfl, rfl, rfl, rfl, rfl, rfl⟩

theorem kept_runAll (kept : Kept env s) (steps : List Step) : Kept env (runAll env s steps) := by
  induction steps generalizing s with
  | nil => exact kept
  | cons step steps ih =>
    show Kept env (runAll env (Transaction.commit (step.work env) s) steps)
    refine ih ?_
    rcases commit_cases (keeps_step step s kept) with ⟨-, after, -⟩ | ⟨n, raised⟩
    · exact after
    · rw [raised]
      have agrees := agrees_of_raised s n
      exact ⟨kept.1.agrees agrees, agrees.still.toQuiet.capped kept.1 kept.2⟩

/-- Of a run without such calls, nothing is active after it that was not before. -/
theorem quiet_runAll (sound : Sound env s) {steps : List Step}
    (undecided : ∀ step ∈ steps, step.decides = false) : Quiet env s (runAll env s steps) := by
  induction steps generalizing s with
  | nil => exact Quiet.refl env s
  | cons step steps ih =>
    have kept : Sound env (Transaction.commit (step.work env) s) ∧
        Quiet env s (Transaction.commit (step.work env) s) := by
      rcases commit_cases (keeps_undecided (undecided step List.mem_cons_self) s sound) with
        ⟨-, after⟩ | ⟨n, raised⟩
      · exact after
      · rw [raised]
        have agrees := agrees_of_raised s n
        exact ⟨sound.agrees agrees, agrees.still.toQuiet⟩
    obtain ⟨sound', moved⟩ := kept
    exact Quiet.trans env _ _ _ moved
      (ih sound' fun step mem => undecided step (List.mem_cons_of_mem _ mem))

end

/-- What migrations left before the first call: when the policy takes effect, and what was recorded
of the paper accounts of earlier versions. -/
structure Archive (env : Environment) where
  activation : Option Instant
  facts : List PaperLifecycleEvent
  settled : Settled facts
  earlier : ∀ f ∈ facts, (env.recommendations f.recommendation).contractVersion ≠ 4
  ids : ∀ f ∈ facts, f.id ≤ facts.length
  past : ∀ f ∈ facts, f.occurredAt ≤ env.clock.reading 0

/-- An empty portfolio. -/
def Archive.start {env : Environment} (archive : Archive env) : Server Tables where
  store := { activation := archive.activation, facts := archive.facts }

theorem Archive.kept {env : Environment} (archive : Archive env) : Kept env archive.start := by
  have sound : Sound env archive.start := {
    chained := chained_empty _
    granted := fun _ mem => absurd mem List.not_mem_nil
    admissions := fun _ mem => absurd mem List.not_mem_nil
    selections := fun _ mem => absurd mem List.not_mem_nil
    once := List.nodup_nil
    sized := fun _ mem => absurd mem List.not_mem_nil
    belongs := fun _ mem => absurd mem List.not_mem_nil
    chosen := fun _ _ last => by cases last
    settled := archive.settled
    ended := fun f mem four => absurd four (archive.earlier f mem)
    noted := fun f mem =>
      ⟨archive.ids f mem, fun _ => le_max_of_le_left (archive.past f mem)⟩
    picked := fun _ mem => absurd mem List.not_mem_nil
    known := fun _ mem => absurd mem List.not_mem_nil
    numbered := fun _ mem => absurd mem List.not_mem_nil }
  refine ⟨sound, fun asOf => ?_⟩
  have none_ : activeAdmitted env archive.start.store [] asOf = [] := by
    refine List.eq_nil_iff_forall_not_mem.mpr fun pk mem => ?_
    obtain ⟨a, latest, -⟩ := (mem_active.mp mem).admitted
    cases latest
  rw [none_]
  exact ⟨Nat.zero_le _, fun leg => Nat.zero_le _⟩

/-- **What a portfolio records.** Of every run of calls from an empty portfolio: the lifecycle
events are chained; a recommendation joins at most one cohort, once, and sized; what is admitted
last was chosen by the latest decision of its cohort, and decisions choose among the members of
their cohort only; after a terminal fact of a paper account only terminal ones follow. -/
theorem portfolio_records (env : Environment) (archive : Archive env) (steps : List Step) :
    let db := (runAll env archive.start steps).store
    Chained env.subjects db.events ∧
    (db.members.map CohortMember.recommendation).Nodup ∧
    (∀ m ∈ db.members, (db.positionSize m.recommendation).isSome) ∧
    (∀ pk a, db.lastAdmission pk = some a → a.state = .admitted →
      ∃ x, db.latestSelection a.cohort = some x ∧ pk ∈ x.selected) ∧
    (∀ x ∈ db.selections, ∀ pk ∈ x.selected, ∃ m ∈ db.members,
      m.cohort = x.cohort ∧ m.recommendation = pk) ∧
    Settled db.facts := by
  intro db
  obtain ⟨sound, -⟩ := kept_runAll archive.kept steps
  exact ⟨sound.chained, sound.once, sound.sized, sound.chosen, sound.picked, sound.settled⟩

/-- **Only decisions admit.** After every run of calls from an empty portfolio, of further calls
those that are no assessment, no decision of the owner and no reconciliation make nothing active,
admit and select nothing, and resize nothing. -/
theorem portfolio_undecided (env : Environment) (archive : Archive env)
    (steps more : List Step) :
    let s := runAll env archive.start steps
    let t := runAll env s (more.filter fun step => !step.decides)
    (∀ pk asOf, Active env t.store pk asOf → Active env s.store pk asOf) ∧
    t.store.admissions = s.store.admissions ∧ t.store.selections = s.store.selections ∧
    (∀ pk, (s.store.positionSize pk).isSome →
      t.store.positionSize pk = s.store.positionSize pk) := by
  intro s t
  obtain ⟨sound, -⟩ := kept_runAll archive.kept steps
  have quiet : Quiet env s t := by
    refine quiet_runAll sound fun step mem => ?_
    have undecided := (List.mem_filter.mp mem).2
    rwa [Bool.not_eq_true'] at undecided
  exact ⟨quiet.active, quiet.admissions, quiet.selections, quiet.sizes⟩

end TradeRecommender.Forecasts.Portfolio
