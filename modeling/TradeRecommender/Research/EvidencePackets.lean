import TradeRecommender.Research.EvidenceQuality

/-!
# Evidence packets

1. permuted candidates and permuted conflicts;
2. the loop that admits the ranked entries;
3. what an entry without an exclusion says of its candidate;
4. the packet: one for every order, replayed, capped, cleared and ready only with what it requires.
-/

namespace TradeRecommender.Evidence

open Py Civil

@[simp] theorem require_eq_ok {condition : Prop} [Decidable condition] {code : String} {u : Unit} :
    require condition code = .ok u ↔ condition := by
  unfold require
  split_ifs with h <;> simp [h]

/-! ## Permutations -/

/-- The same candidate with its conflicts in another order. -/
def Candidate.Same (c c' : Candidate) : Prop :=
  ∃ conflicts, conflicts.Perm c.conflicts ∧ c' = { c with conflicts := conflicts }

/-- The same candidates in another order, the conflicts of each in another order. -/
def Reordered (candidates candidates' : List Candidate) : Prop :=
  ∃ mid, List.Forall₂ Candidate.Same candidates mid ∧ candidates'.Perm mid

theorem conflictState_perm {events events' : List ConflictEvent} {cutoff : Instant}
    {state : ConflictState} (perm : events'.Perm events)
    (h : conflictState events cutoff = .ok state) : conflictState events' cutoff = .ok state := by
  obtain ⟨_, unique, h⟩ := bind_eq_ok.mp h
  obtain ⟨known, hknown, h⟩ := bind_eq_ok.mp h
  obtain ⟨known', hknown', permKnown⟩ := filterMapE_perm perm hknown
  have unique' : (events'.map (·.digest)).Nodup :=
    (perm.map _).nodup_iff.mpr (require_eq_ok.mp unique)
  have same : ∀ p : ConflictEvent → Bool, known'.any p = known.any p := by
    intro p
    rw [Bool.eq_iff_iff, List.any_eq_true, List.any_eq_true]
    exact exists_congr fun e => by rw [permKnown.mem_iff]
  have hnil : known' = [] ↔ known = [] := by
    rw [← List.length_eq_zero_iff, permKnown.length_eq, List.length_eq_zero_iff]
  have hevents : events' = [] ↔ events = [] := by
    rw [← List.length_eq_zero_iff, perm.length_eq, List.length_eq_zero_iff]
  refine bind_eq_ok.mpr ⟨(), require_eq_ok.mpr unique', bind_eq_ok.mpr ⟨known', hknown', ?_⟩⟩
  simpa only [same, ne_eq, hnil, hevents] using h

theorem conflictState_nodup {events : List ConflictEvent} {cutoff : Instant}
    {state : ConflictState} (h : conflictState events cutoff = .ok state) :
    (events.map (·.digest)).Nodup := by
  obtain ⟨_, unique, -⟩ := bind_eq_ok.mp h
  exact require_eq_ok.mp unique

section
variable {lib : Library} {instrument : String} {now : Instant} {required : List String}
  {c c' : Candidate} {e : Entry}

/-- What the body of the loop returns. -/
structure Validated (lib : Library) (instrument : String) (now : Instant) (required : List String)
    (c : Candidate) (e : Entry) : Prop where
  candidate : e.candidate = { c with conflicts := sortedBy (·.digest) c.conflicts }
  state : conflictState c.conflicts now = .ok e.conflictAtCutoff
  entry : ∃ published known retrieved rights decisions,
    instant? c.representation.publishedAt = .ok published ∧ instant c.knownAt = .ok known ∧
    instant c.representation.retrievedAt = .ok retrieved ∧
    rightsAvailable c now = .ok rights ∧ decisionsOf rights c.representation now = .ok decisions ∧
    e.rightsByField = decisions ∧
    e.exclusions = timeExclusions known retrieved now published ++
      when (c.representation.quality.retrievalIntegrity ≠ .hashChecked) .retrievalUnavailable ++
      when (decisions.rankable ∧ e.relevance.score = 0) .irrelevant ++
      when (decisions.headline.allowed = false) .rightsBlocked ++
      when (decisions.urlAttribution.allowed = false) .attributionRightsBlocked ++
      when (decisions.derivedLabel.allowed = false) .derivedLabelRightsBlocked ++
      requiredExclusions e.candidate e.conflictAtCutoff decisions

theorem validated_of_ok (h : entryOf lib instrument now required c = .ok e) :
    Validated lib instrument now required c e := by
  obtain ⟨-, -, h⟩ := bind_eq_ok.mp h
  obtain ⟨-, -, h⟩ := bind_eq_ok.mp h
  obtain ⟨-, -, h⟩ := bind_eq_ok.mp h
  obtain ⟨conflict, state, h⟩ := bind_eq_ok.mp h
  obtain ⟨published, hpublished, h⟩ := bind_eq_ok.mp h
  obtain ⟨known, hknown, h⟩ := bind_eq_ok.mp h
  obtain ⟨retrieved, hretrieved, h⟩ := bind_eq_ok.mp h
  obtain ⟨rights, hrights, h⟩ := bind_eq_ok.mp h
  obtain ⟨decisions, hdecisions, h⟩ := bind_eq_ok.mp h
  obtain ⟨rank, -, h⟩ := bind_eq_ok.mp h
  obtain rfl := Except.ok.inj h
  exact
    { candidate := rfl
      state := state
      entry := ⟨published, known, retrieved, rights, decisions, hpublished, hknown, hretrieved,
        hrights, hdecisions, rfl, rfl⟩ }

/-- The order of its conflicts does not change the entry of a candidate. -/
theorem entryOf_same (same : c.Same c') (h : entryOf lib instrument now required c = .ok e) :
    entryOf lib instrument now required c' = .ok e := by
  obtain ⟨conflicts, perm, rfl⟩ := same
  have hc := (validated_of_ok h).state
  have state : conflictState conflicts now = conflictState c.conflicts now :=
    (conflictState_perm perm hc).trans hc.symm
  have sorted : sortedBy (·.digest) conflicts = sortedBy (·.digest) c.conflicts := by
    refine sortedBy_perm perm fun a ha b hb heq => ?_
    have unique := conflictState_nodup (state.trans hc)
    exact List.inj_on_of_nodup_map unique ha hb heq
  rw [← h]
  unfold entryOf
  simp only [state, sorted]

/-- The same entries, permuted, for reordered candidates. -/
theorem entries_reordered {candidates candidates' : List Candidate} {entries : List Entry}
    (reordered : Reordered candidates candidates')
    (h : mapE (entryOf lib instrument now required) candidates = .ok entries) :
    ∃ entries', mapE (entryOf lib instrument now required) candidates' = .ok entries' ∧
      entries'.Perm entries := by
  obtain ⟨mid, same, perm⟩ := reordered
  have hmid : mapE (entryOf lib instrument now required) mid = .ok entries := by
    rw [mapE_eq_ok_iff] at h ⊢
    clear perm
    induction same generalizing entries with
    | nil => exact h
    | cons first _ ih =>
      cases h with
      | cons hfirst hrest => exact .cons (entryOf_same first hfirst) (ih hrest)
  exact mapE_perm perm hmid

end

/-! ## Admitting the ranked entries -/

/-- Excluded by its rank alone, if at all. -/
def Clear (e : Entry) : Prop := ∀ x ∈ e.exclusions, x = .duplicateDocument ∨ x = .cap

/-- Excluded by its candidate alone, if at all: what the loop over the candidates returns. -/
def Own (e : Entry) : Prop := .duplicateDocument ∉ e.exclusions ∧ .cap ∉ e.exclusions

theorem included_cons_of_nil {e : Entry} {entries : List Entry} (h : e.exclusions = []) :
    included (e :: entries) = e :: included entries := by
  simp [included, h]

theorem included_cons_of_ne {e : Entry} {entries : List Entry} (h : e.exclusions ≠ []) :
    included (e :: entries) = included entries := by
  simp [included, h]

/-- What one turn of the loop can do with the first entry. -/
theorem admitEntries_cons (index : ℕ) (seen : List String) (admitted : ℕ) (e : Entry)
    (rest : List Entry) : ∃ exclusions seen' admitted',
    admitEntries index seen admitted (e :: rest) =
      ({ e with rank := some index, exclusions := exclusions } ::
          (admitEntries (index + 1) seen' admitted' rest).1,
        (admitEntries (index + 1) seen' admitted' rest).2) ∧
    ((e.exclusions ≠ [] ∧ exclusions = e.exclusions ∧ seen' = seen ∧ admitted' = admitted) ∨
      (e.exclusions = [] ∧ e.document ∈ seen ∧ exclusions = [.duplicateDocument] ∧ seen' = seen ∧
        admitted' = admitted) ∨
      (e.exclusions = [] ∧ e.document ∉ seen ∧ admitted = capacity ∧ exclusions = [.cap] ∧
        seen' = e.document :: seen ∧ admitted' = admitted) ∨
      (e.exclusions = [] ∧ e.document ∉ seen ∧ admitted ≠ capacity ∧ exclusions = [] ∧
        seen' = e.document :: seen ∧ admitted' = admitted + 1)) := by
  rw [admitEntries]
  by_cases own : e.exclusions = []
  · by_cases dup : e.document ∈ seen
    · exact ⟨[.duplicateDocument], seen, admitted, by simp [own, dup],
        Or.inr (Or.inl ⟨own, dup, rfl, rfl, rfl⟩)⟩
    · by_cases full : admitted = capacity
      · exact ⟨[.cap], e.document :: seen, admitted, by simp [own, dup, full],
          Or.inr (Or.inr (Or.inl ⟨own, dup, full, rfl, rfl, rfl⟩))⟩
      · exact ⟨[], e.document :: seen, admitted + 1, by simp [own, dup, full],
          Or.inr (Or.inr (Or.inr ⟨own, dup, full, rfl, rfl, rfl⟩))⟩
  · exact ⟨e.exclusions, seen, admitted, by simp [own], Or.inl ⟨own, rfl, rfl, rfl⟩⟩

/-- An admitted entry is the ranked entry with the exclusion its place gave it. -/
theorem admitEntries_forall₂ (index : ℕ) (seen : List String) (admitted : ℕ)
    (entries : List Entry) :
    List.Forall₂ (fun e e' => (∃ rank exclusions,
        e' = { e with rank := rank, exclusions := exclusions }) ∧
      (e'.exclusions = [] → e.exclusions = []))
      entries (admitEntries index seen admitted entries).1 := by
  induction entries generalizing index seen admitted with
  | nil => exact .nil
  | cons e rest ih =>
    obtain ⟨exclusions, seen', admitted', turn, cases_⟩ :=
      admitEntries_cons index seen admitted e rest
    rw [turn]
    refine .cons ⟨⟨_, exclusions, rfl⟩, fun hnil => ?_⟩ (ih _ _ _)
    rcases cases_ with ⟨-, h, -⟩ | ⟨h, -⟩ | ⟨h, -⟩ | ⟨h, -⟩
    · exact h ▸ hnil
    · exact h
    · exact h
    · exact h

/-- The counter counts the included entries and never passes the cap. -/
theorem admitEntries_total {index : ℕ} {seen : List String} {admitted : ℕ} {entries : List Entry}
    (bound : admitted ≤ capacity) :
    (admitEntries index seen admitted entries).2 =
        admitted + (included (admitEntries index seen admitted entries).1).length ∧
      (admitEntries index seen admitted entries).2 ≤ capacity := by
  induction entries generalizing index seen admitted with
  | nil => exact ⟨rfl, bound⟩
  | cons e rest ih =>
    obtain ⟨exclusions, seen', admitted', turn, cases_⟩ :=
      admitEntries_cons index seen admitted e rest
    rw [turn]
    dsimp only
    rcases cases_ with ⟨own, rfl, rfl, rfl⟩ | ⟨-, -, rfl, rfl, rfl⟩ | ⟨-, -, -, rfl, rfl, rfl⟩ |
      ⟨-, -, room, rfl, rfl, rfl⟩
    · rw [included_cons_of_ne (e := { e with rank := some index }) own]
      exact ih bound
    · rw [included_cons_of_ne (by simp)]
      exact ih bound
    · rw [included_cons_of_ne (by simp)]
      exact ih bound
    · rw [included_cons_of_nil rfl, List.length_cons]
      have := @ih (index + 1) (e.document :: seen) (admitted + 1) (by omega)
      omega

/-- No two included entries are of one document, nor of one already seen. -/
theorem admitEntries_documents {index : ℕ} {seen : List String} {admitted : ℕ}
    {entries : List Entry} :
    ((included (admitEntries index seen admitted entries).1).map Entry.document).Nodup ∧
      ∀ e ∈ included (admitEntries index seen admitted entries).1, e.document ∉ seen := by
  induction entries generalizing index seen admitted with
  | nil => simp [admitEntries, included]
  | cons e rest ih =>
    obtain ⟨exclusions, seen', admitted', turn, cases_⟩ :=
      admitEntries_cons index seen admitted e rest
    rw [turn]
    dsimp only
    have later := @ih (index + 1) seen' admitted'
    rcases cases_ with ⟨own, rfl, rfl, rfl⟩ | ⟨-, -, rfl, rfl, rfl⟩ | ⟨-, -, -, rfl, rfl, rfl⟩ |
      ⟨-, fresh, -, rfl, rfl, rfl⟩
    · rw [included_cons_of_ne (e := { e with rank := some index }) own]
      exact later
    · rw [included_cons_of_ne (by simp)]
      exact later
    · rw [included_cons_of_ne (by simp)]
      exact ⟨later.1, fun f hf hseen => later.2 f hf (List.mem_cons_of_mem _ hseen)⟩
    · rw [included_cons_of_nil rfl, List.map_cons, List.nodup_cons]
      refine ⟨⟨fun hmem => ?_, later.1⟩, fun f hf => ?_⟩
      · obtain ⟨f, hf, same⟩ := List.mem_map.mp hmem
        exact later.2 f hf (same ▸ List.mem_cons_self)
      · rcases List.mem_cons.mp hf with rfl | hf
        · exact fresh
        · exact fun hseen => later.2 f hf (List.mem_cons_of_mem _ hseen)

/-- **The cut.** An entry that only its place excludes comes after an included entry of its document,
or after as many included entries as the packet takes. -/
theorem admitEntries_highest {index : ℕ} {seen : List String} {admitted : ℕ} {entries : List Entry}
    (bound : admitted ≤ capacity) (own : ∀ e ∈ entries, Own e) {front back : List Entry} {f : Entry}
    (h : (admitEntries index seen admitted entries).1 = front ++ f :: back) (clear : Clear f)
    (out : f.exclusions ≠ []) : f.document ∈ seen ∨
      (∃ g ∈ included front, g.document = f.document) ∨
      admitted + (included front).length = capacity := by
  induction entries generalizing index seen admitted front with
  | nil => simp [admitEntries] at h
  | cons e rest ih =>
    obtain ⟨exclusions, seen', admitted', turn, cases_⟩ :=
      admitEntries_cons index seen admitted e rest
    rw [turn] at h
    have ownRest : ∀ e ∈ rest, Own e := fun g hg => own g (List.mem_cons_of_mem _ hg)
    cases front with
    | nil =>
      obtain ⟨rfl, -⟩ := List.cons.inj h
      rcases cases_ with ⟨ne, rfl, -⟩ | ⟨-, dup, -⟩ | ⟨-, -, full, -⟩ | ⟨-, -, -, rfl, -⟩
      · -- its own exclusions are none of the two the place gives
        obtain ⟨x, hx⟩ := List.exists_mem_of_ne_nil _ ne
        rcases clear x hx with rfl | rfl
        · exact absurd hx (own e List.mem_cons_self).1
        · exact absurd hx (own e List.mem_cons_self).2
      · exact Or.inl dup
      · exact Or.inr (Or.inr (by simpa [included] using full))
      · exact absurd rfl out
    | cons g front =>
      obtain ⟨rfl, htail⟩ :
          _ ∧ (admitEntries (index + 1) seen' admitted' rest).1 = front ++ f :: back :=
        List.cons.inj h
      rcases cases_ with ⟨ne, rfl, rfl, rfl⟩ | ⟨-, -, rfl, rfl, rfl⟩ |
        ⟨-, -, full, rfl, rfl, rfl⟩ | ⟨-, -, room, rfl, rfl, rfl⟩
      · rw [included_cons_of_ne (e := { e with rank := some index }) ne]
        exact ih bound ownRest htail
      · rw [included_cons_of_ne (by simp)]
        exact ih bound ownRest htail
      · rw [included_cons_of_ne (by simp)]
        rcases ih bound ownRest htail with hseen | h | h
        · rcases List.mem_cons.mp hseen with same | hseen
          · -- the document was cut off itself, so the packet is full
            right
            right
            have total := @admitEntries_total (index + 1) (e.document :: seen) _ rest bound
            rw [htail, included, List.filter_append, List.length_append] at total
            have : (included front).length = (front.filter fun e => e.exclusions = []).length := rfl
            omega
          · exact Or.inl hseen
        · exact Or.inr (Or.inl h)
        · exact Or.inr (Or.inr h)
      · rw [included_cons_of_nil rfl]
        rcases ih (by omega) ownRest htail with hseen | ⟨g, hg, same⟩ | h
        · rcases List.mem_cons.mp hseen with same | hseen
          · exact Or.inr (Or.inl ⟨_, List.mem_cons_self, same.symm⟩)
          · exact Or.inl hseen
        · exact Or.inr (Or.inl ⟨g, List.mem_cons_of_mem _ hg, same⟩)
        · exact Or.inr (Or.inr (by rw [List.length_cons]; omega))

/-- The entries are ranked from the index on. -/
theorem admitEntries_ranks (index : ℕ) (seen : List String) (admitted : ℕ) (entries : List Entry) :
    (admitEntries index seen admitted entries).1.map Entry.rank =
      (List.range' index entries.length).map some := by
  induction entries generalizing index seen admitted with
  | nil => rfl
  | cons e rest ih =>
    obtain ⟨exclusions, seen', admitted', turn, -⟩ := admitEntries_cons index seen admitted e rest
    rw [turn, List.map_cons, ih, List.length_cons, List.range'_succ, List.map_cons]

/-! ## Entries without an exclusion -/

@[simp] theorem when_eq_nil {condition : Prop} [Decidable condition] {reason : Exclusion} :
    when condition reason = [] ↔ ¬ condition := by
  unfold when
  split_ifs with h <;> simp [h]

@[simp] theorem mem_when {condition : Prop} [Decidable condition] {reason x : Exclusion} :
    x ∈ when condition reason ↔ condition ∧ x = reason := by
  unfold when
  split_ifs with h <;> simp [h]

/-- A permission is granted by a review of the source and the processor, in force at the cutoff. -/
theorem permission_allowed {review : Option Review} {sourceId : ℤ} {field : Field} {use : Use}
    {processor : String} {cutoff : Instant}
    (h : permission review sourceId field use processor cutoff = .ok .allowed) :
    ∃ r, review = some r ∧ r.sourceId = sourceId ∧ r.processor = processor ∧
      (∃ t, instant r.reviewedAt = .ok t ∧ t ≤ cutoff) ∧
      (∃ t, instant r.expiresAt = .ok t ∧ cutoff < t) ∧ r.decisions field use = .allowed := by
  cases review with
  | none => cases h
  | some r =>
    obtain ⟨_, -, h⟩ := bind_eq_ok.mp h
    split_ifs at h with other
    · cases h
    obtain ⟨reviewed, hreviewed, h⟩ := bind_eq_ok.mp h
    split_ifs at h with late
    · cases h
    obtain ⟨expires, hexpires, h⟩ := bind_eq_ok.mp h
    split_ifs at h with past
    · cases h
    push Not at other
    exact ⟨r, rfl, other.1, other.2, ⟨reviewed, hreviewed, not_lt.mp late⟩,
      ⟨expires, hexpires, not_le.mp past⟩, Except.ok.inj h⟩

theorem rightsAvailable_some {c : Candidate} {now : Instant} {review : Review}
    (h : rightsAvailable c now = .ok (some review)) : c.rights = some review ∧
      ∃ text t, c.rightsKnownAt = some text ∧ instant text = .ok t ∧ t ≤ now := by
  unfold rightsAvailable at h
  cases hr : c.rights with
  | none =>
    rw [hr] at h
    cases h
  | some r =>
    rw [hr] at h
    cases hk : c.rightsKnownAt with
    | none =>
      rw [hk] at h
      cases h
    | some text =>
      rw [hk] at h
      obtain ⟨known, hknown, h⟩ := bind_eq_ok.mp h
      split_ifs at h with past
      · obtain rfl := Option.some.inj (Except.ok.inj h)
        exact ⟨rfl, text, known, rfl, hknown, past⟩
      · cases h

/-- Both uses of a field are granted. -/
theorem usesOf_allowed {rights : Option Review} {rep : Representation} {now : Instant}
    {field : Field} {uses : Uses} (h : usesOf rights rep now field = .ok uses)
    (allowed : uses.allowed = true) : ∀ use ∈ [Use.deterministicProcessing, .externalLlm],
      permission rights rep.sourceId field use "anthropic" now = .ok .allowed := by
  obtain ⟨deterministic, hd, h⟩ := bind_eq_ok.mp h
  obtain ⟨external, he, h⟩ := bind_eq_ok.mp h
  obtain rfl := Except.ok.inj h
  simp only [Uses.allowed, Bool.and_eq_true, decide_eq_true_eq] at allowed
  obtain ⟨rfl, rfl⟩ := allowed
  intro use huse
  simp only [List.mem_cons, List.not_mem_nil, or_false] at huse
  rcases huse with rfl | rfl
  · exact hd
  · exact he

theorem decisionsOf_eq_ok {rights : Option Review} {rep : Representation} {now : Instant}
    {d : Decisions} (h : decisionsOf rights rep now = .ok d) :
    usesOf rights rep now .headline = .ok d.headline ∧
      usesOf rights rep now .derivedLabel = .ok d.derivedLabel ∧
      usesOf rights rep now .urlAttribution = .ok d.urlAttribution := by
  obtain ⟨headline, h1, h⟩ := bind_eq_ok.mp h
  obtain ⟨summary, -, h⟩ := bind_eq_ok.mp h
  obtain ⟨fact, -, h⟩ := bind_eq_ok.mp h
  obtain ⟨label, h4, h⟩ := bind_eq_ok.mp h
  obtain ⟨url, h5, h⟩ := bind_eq_ok.mp h
  obtain rfl := Except.ok.inj h
  exact ⟨h1, h4, h5⟩

/-- Known, retrieved and published by the cutoff, and permitted by a review in force. -/
structure Cleared (now : Instant) (c : Candidate) : Prop where
  known : ∃ t, instant c.knownAt = .ok t ∧ t ≤ now
  retrieved : ∃ t, instant c.representation.retrievedAt = .ok t ∧ t ≤ now
  published : ∃ text t, c.representation.publishedAt = some text ∧ instant text = .ok t ∧ t ≤ now
  permitted : ∃ review, c.rights = some review ∧
    (∃ text t, c.rightsKnownAt = some text ∧ instant text = .ok t ∧ t ≤ now) ∧
    review.sourceId = c.representation.sourceId ∧ review.processor = "anthropic" ∧
    (∃ t, instant review.reviewedAt = .ok t ∧ t ≤ now) ∧
    (∃ t, instant review.expiresAt = .ok t ∧ now < t) ∧
    ∀ field ∈ [Field.headline, .derivedLabel, .urlAttribution],
      ∀ use ∈ [Use.deterministicProcessing, .externalLlm], review.decisions field use = .allowed

section
variable {lib : Library} {instrument : String} {now : Instant} {required : List String}
  {c : Candidate} {e : Entry}

/-- **No exclusion, no doubt.** -/
theorem Validated.cleared (v : Validated lib instrument now required c e)
    (none : e.exclusions = []) : Cleared now c := by
  obtain ⟨published, known, retrieved, rights, d, hpublished, hknown, hretrieved, hrights, hd, -,
    hexclusions⟩ := v.entry
  rw [none, eq_comm] at hexclusions
  simp only [List.append_eq_nil_iff, when_eq_nil, timeExclusions, not_or, not_lt,
    Bool.not_eq_false] at hexclusions
  obtain ⟨⟨⟨⟨⟨⟨⟨⟨past, retrievedPast, publishedPast⟩, present⟩, -⟩, -⟩, headline⟩, url⟩, label⟩, -⟩ :=
    hexclusions
  obtain ⟨uHeadline, uLabel, uUrl⟩ := decisionsOf_eq_ok hd
  have granted : ∀ field ∈ [Field.headline, .derivedLabel, .urlAttribution],
      ∀ use ∈ [Use.deterministicProcessing, .externalLlm],
        permission rights c.representation.sourceId field use "anthropic" now = .ok .allowed := by
    intro field hfield
    simp only [List.mem_cons, List.not_mem_nil, or_false] at hfield
    rcases hfield with rfl | rfl | rfl
    · exact usesOf_allowed uHeadline headline
    · exact usesOf_allowed uLabel label
    · exact usesOf_allowed uUrl url
  refine ⟨⟨known, hknown, past⟩, ⟨retrieved, hretrieved, retrievedPast⟩, ?_, ?_⟩
  · cases hp : c.representation.publishedAt with
    | none =>
      rw [hp] at hpublished
      obtain rfl := Except.ok.inj hpublished
      simp at present
    | some text =>
      rw [hp] at hpublished
      obtain ⟨t, ht, rfl⟩ := map_eq_ok.mp hpublished
      exact ⟨text, t, rfl, ht, by simpa using publishedPast⟩
  · obtain ⟨review, rfl, source, processor, reviewed, expires, -⟩ :=
      permission_allowed (granted .headline (by simp) .deterministicProcessing (by simp))
    obtain ⟨hreview, hknownAt⟩ := rightsAvailable_some hrights
    refine ⟨review, hreview, hknownAt, source, processor, reviewed, expires,
      fun field hfield use huse => ?_⟩
    obtain ⟨r, hr, -, -, -, -, allowed⟩ := permission_allowed (granted field hfield use huse)
    obtain rfl := Option.some.inj hr
    exact allowed

/-- The loop over the candidates excludes nothing for its place. -/
theorem Validated.own (v : Validated lib instrument now required c e) : Own e := by
  obtain ⟨published, known, retrieved, rights, d, -, -, -, -, -, -, hexclusions⟩ := v.entry
  have times : ∀ x ∈ timeExclusions known retrieved now published,
      x ≠ .duplicateDocument ∧ x ≠ .cap := by
    intro x hx
    unfold timeExclusions at hx
    cases published <;> simp at hx <;> rcases hx with ⟨-, rfl⟩ | hx <;> simp_all
  unfold Own
  rw [hexclusions]
  simp only [List.mem_append, mem_when, requiredExclusions, not_or]
  refine ⟨⟨⟨⟨⟨⟨⟨?_, ?_⟩, ?_⟩, ?_⟩, ?_⟩, ?_⟩, ?_, ?_⟩, ⟨⟨⟨⟨⟨⟨?_, ?_⟩, ?_⟩, ?_⟩, ?_⟩, ?_⟩, ?_, ?_⟩⟩
  case refine_1 => exact fun h => (times _ h).1 rfl
  case refine_9 => exact fun h => (times _ h).2 rfl
  all_goals rintro ⟨-, h⟩; cases h

end

/-! ## The packet -/

/-- A candidate every check of the loop accepts. -/
structure ValidCandidate (lib : Library) (required : List String) (c : Candidate) : Prop where
  representation : validateRepresentation c.representation = .ok ()
  identity : c.id = lib.digest c.representation
  role : c.role = .required ↔ c.id ∈ required
  conflicts : (c.conflicts.map (·.digest)).Nodup
  events : ∀ event ∈ c.conflicts, ∃ t, instant event.knownAt = .ok t
  known : ∃ t, instant c.knownAt = .ok t
  rights : ∀ review, c.rights = some review → validateReview review = .ok () ∧
    ∃ text t, c.rightsKnownAt = some text ∧ instant text = .ok t

/-- A call whose arguments are valid. -/
structure ValidCall (lib : Library) (instrument cutoff : String) (candidates : List Candidate)
    (required : List String) : Prop where
  cutoff : ∃ now, instant cutoff = .ok now
  instrument : ∃ names, pairNames instrument = .ok names
  hashes : ∀ id ∈ required, isHash id = true
  sorted : required = sortedOnce required
  each : ∀ c ∈ candidates, ValidCandidate lib required c
  distinct : (candidates.map (·.id)).Nodup

/-- What holds of a packet and of the call that built it. -/
structure Sound (lib : Library) (canonical : Packet → String) (instrument cutoff : String)
    (candidates : List Candidate) (required : List String) (packet : Packet) : Prop where
  ordered : ∀ candidates', Reordered candidates candidates' →
    buildPacket lib instrument cutoff candidates' required = .ok packet
  replayed : replay lib canonical packet = .ok (canonical packet)
  complete : (packet.entries.map (·.candidate.id)).Perm (candidates.map (·.id))
  sorted : packet.entries.Pairwise fun e f => e.key < f.key
  ranked : packet.entries.map (·.rank) = (List.range' 1 packet.entries.length).map some
  capped : (included packet.entries).length ≤ capacity
  documents : ((included packet.entries).map Entry.document).Nodup
  highest : ∀ front f back, packet.entries = front ++ f :: back → Clear f → f.exclusions ≠ [] →
    (∃ g ∈ included front, g.document = f.document) ∨ (included front).length = capacity
  cleared : ∃ now, instant cutoff = .ok now ∧
    ∀ e ∈ included packet.entries, Cleared now e.candidate
  ready : packet.readiness = .ready →
    ∀ id ∈ required, ∃ e ∈ included packet.entries, e.candidate.id = id

section
variable {lib : Library} {instrument cutoff : String} {now : Instant} {required : List String}
  {candidates : List Candidate} {c : Candidate}

theorem conflictState_returns {events : List ConflictEvent}
    (distinct : (events.map (·.digest)).Nodup)
    (times : ∀ event ∈ events, ∃ t, instant event.knownAt = .ok t) :
    ∃ state, conflictState events now = .ok state := by
  have known : ∃ known, knownEvents now events = .ok known :=
    filterMapE_returns fun event hevent => bind_returns (times event hevent) fun _ _ => ⟨_, rfl⟩
  refine bind_returns ⟨(), require_eq_ok.mpr distinct⟩ fun _ _ => bind_returns known fun _ _ => ?_
  split_ifs <;> exact ⟨_, rfl⟩

theorem times_of_representation {rep : Representation}
    (h : validateRepresentation rep = .ok ()) :
    (∃ published, instant? rep.publishedAt = .ok published) ∧
      ∃ retrieved, instant rep.retrievedAt = .ok retrieved := by
  obtain ⟨_, -, h⟩ := bind_eq_ok.mp h
  obtain ⟨_, -, h⟩ := bind_eq_ok.mp h
  obtain ⟨_, -, h⟩ := bind_eq_ok.mp h
  obtain ⟨_, -, h⟩ := bind_eq_ok.mp h
  obtain ⟨_, -, h⟩ := bind_eq_ok.mp h
  obtain ⟨_, -, h⟩ := bind_eq_ok.mp h
  obtain ⟨_, -, h⟩ := bind_eq_ok.mp h
  obtain ⟨published, hpublished, h⟩ := bind_eq_ok.mp h
  obtain ⟨first, -, h⟩ := bind_eq_ok.mp h
  obtain ⟨retrieved, hretrieved, -⟩ := bind_eq_ok.mp h
  exact ⟨⟨published, hpublished⟩, retrieved, hretrieved⟩

theorem times_of_review {review : Review} (h : validateReview review = .ok ()) :
    (∃ expires, instant review.expiresAt = .ok expires) ∧
      ∃ reviewed, instant review.reviewedAt = .ok reviewed := by
  obtain ⟨_, -, h⟩ := bind_eq_ok.mp h
  obtain ⟨_, -, h⟩ := bind_eq_ok.mp h
  obtain ⟨_, -, h⟩ := bind_eq_ok.mp h
  obtain ⟨_, -, h⟩ := bind_eq_ok.mp h
  obtain ⟨_, -, h⟩ := bind_eq_ok.mp h
  obtain ⟨_, -, h⟩ := bind_eq_ok.mp h
  obtain ⟨expires, hexpires, h⟩ := bind_eq_ok.mp h
  obtain ⟨reviewed, hreviewed, -⟩ := bind_eq_ok.mp h
  exact ⟨⟨expires, hexpires⟩, reviewed, hreviewed⟩

theorem permission_returns {review : Option Review} (sourceId : ℤ) (field : Field) (use : Use)
    (processor : String) (valid : ∀ r, review = some r → validateReview r = .ok ()) :
    ∃ state, permission review sourceId field use processor now = .ok state := by
  cases review with
  | none => exact ⟨_, rfl⟩
  | some r =>
    obtain ⟨expires, reviewed⟩ := times_of_review (valid r rfl)
    refine bind_returns ⟨(), valid r rfl⟩ fun _ _ => ?_
    split_ifs
    · exact ⟨_, rfl⟩
    refine bind_returns reviewed fun _ _ => ?_
    split_ifs
    · exact ⟨_, rfl⟩
    refine bind_returns expires fun _ _ => ?_
    split_ifs <;> exact ⟨_, rfl⟩

theorem decisionsOf_returns {rights : Option Review} (rep : Representation)
    (valid : ∀ r, rights = some r → validateReview r = .ok ()) :
    ∃ d, decisionsOf rights rep now = .ok d := by
  have uses : ∀ field, ∃ u, usesOf rights rep now field = .ok u := fun field =>
    bind_returns (permission_returns _ _ _ _ valid) fun _ _ =>
      bind_returns (permission_returns _ _ _ _ valid) fun _ _ => ⟨_, rfl⟩
  exact bind_returns (uses .headline) fun _ _ => bind_returns (uses .suppliedSummary) fun _ _ =>
    bind_returns (uses .normalizedFact) fun _ _ => bind_returns (uses .derivedLabel) fun _ _ =>
    bind_returns (uses .urlAttribution) fun _ _ => ⟨_, rfl⟩

theorem relevance_returns {rep : Representation} {conflict : ConflictState}
    (pair : ∃ names, pairNames instrument = .ok names)
    (times : ∃ published, instant? rep.publishedAt = .ok published) :
    ∃ r, relevance lib rep instrument now conflict = .ok r := by
  refine bind_returns pair fun _ _ => bind_returns times fun _ _ => ?_
  split_ifs <;> exact ⟨_, rfl⟩

theorem rightsAvailable_returns
    (valid : ∀ review, c.rights = some review → validateReview review = .ok () ∧
      ∃ text t, c.rightsKnownAt = some text ∧ instant text = .ok t) :
    ∃ rights, rightsAvailable c now = .ok rights ∧
      ∀ r, rights = some r → validateReview r = .ok () := by
  unfold rightsAvailable
  cases hr : c.rights with
  | none => exact ⟨none, rfl, fun r h => by cases h⟩
  | some review =>
    obtain ⟨hreview, text, t, htext, ht⟩ := valid review hr
    rw [htext]
    refine ⟨_, bind_eq_ok.mpr ⟨t, ht, rfl⟩, fun r h => ?_⟩
    split_ifs at h
    · obtain rfl := Option.some.inj h
      exact hreview

/-- A valid candidate gets an entry. -/
theorem entryOf_returns (valid : ValidCandidate lib required c)
    (pair : ∃ names, pairNames instrument = .ok names) :
    ∃ e, entryOf lib instrument now required c = .ok e := by
  obtain ⟨published, retrieved⟩ := times_of_representation valid.representation
  obtain ⟨rights, hrights, hvalid⟩ := rightsAvailable_returns valid.rights
  have rank : ∀ conflict d,
      ∃ r, rankOf lib c.representation instrument now conflict d = .ok r := by
    intro conflict d
    unfold rankOf
    split_ifs
    · exact relevance_returns pair published
    · exact ⟨_, rfl⟩
  refine bind_returns ⟨(), valid.representation⟩ fun _ _ => ?_
  refine bind_returns ⟨(), require_eq_ok.mpr valid.identity⟩ fun _ _ => ?_
  refine bind_returns ⟨(), require_eq_ok.mpr valid.role⟩ fun _ _ => ?_
  refine bind_returns (conflictState_returns valid.conflicts valid.events) fun _ _ => ?_
  refine bind_returns published fun _ _ => bind_returns valid.known fun _ _ => ?_
  refine bind_returns retrieved fun _ _ => bind_returns ⟨rights, hrights⟩ fun _ hr => ?_
  obtain rfl := Except.ok.inj (hrights.symm.trans hr)
  exact bind_returns (decisionsOf_returns _ hvalid) fun _ _ => bind_returns (rank _ _) fun _ _ =>
    ⟨_, rfl⟩

/-- A valid call returns a packet. -/
theorem buildPacket_returns (valid : ValidCall lib instrument cutoff candidates required) :
    ∃ packet, buildPacket lib instrument cutoff candidates required = .ok packet := by
  refine bind_returns valid.cutoff fun now _ => ?_
  refine bind_returns ⟨(), require_eq_ok.mpr valid.hashes⟩ fun _ _ => ?_
  refine bind_returns ⟨(), require_eq_ok.mpr valid.sorted⟩ fun _ _ => ?_
  refine bind_returns (mapE_returns fun c hc =>
    entryOf_returns (valid.each c hc) valid.instrument) fun _ _ => ?_
  exact bind_returns ⟨(), require_eq_ok.mpr valid.distinct⟩ fun _ _ => ⟨_, rfl⟩

/-- The parts of a packet that was built. -/
theorem buildPacket_eq_ok {packet : Packet}
    (h : buildPacket lib instrument cutoff candidates required = .ok packet) :
    ∃ now entries, instant cutoff = .ok now ∧ (∀ id ∈ required, isHash id = true) ∧
      required = sortedOnce required ∧
      mapE (entryOf lib instrument now required) candidates = .ok entries ∧
      (candidates.map (·.id)).Nodup ∧ packet = assemble instrument cutoff required entries := by
  obtain ⟨now, hnow, h⟩ := bind_eq_ok.mp h
  obtain ⟨_, hashes, h⟩ := bind_eq_ok.mp h
  obtain ⟨_, hsorted, h⟩ := bind_eq_ok.mp h
  obtain ⟨entries, hentries, h⟩ := bind_eq_ok.mp h
  obtain ⟨_, distinct, h⟩ := bind_eq_ok.mp h
  exact ⟨now, entries, hnow, require_eq_ok.mp hashes, require_eq_ok.mp hsorted, hentries,
    require_eq_ok.mp distinct, (Except.ok.inj h).symm⟩

/-- The entries keep the identities of their candidates. -/
theorem ids_of_entries {entries : List Entry}
    (h : mapE (entryOf lib instrument now required) candidates = .ok entries) :
    entries.map (·.candidate.id) = candidates.map (·.id) := by
  rw [mapE_eq_ok_iff] at h
  induction h with
  | nil => rfl
  | cons first _ ih =>
    rw [List.map_cons, List.map_cons, ih, (validated_of_ok first).candidate]

/-- The candidates of the entries are the candidates, with their conflicts sorted. -/
theorem same_of_entries {entries : List Entry}
    (h : mapE (entryOf lib instrument now required) candidates = .ok entries) :
    List.Forall₂ Candidate.Same candidates (entries.map (·.candidate)) := by
  rw [mapE_eq_ok_iff] at h
  induction h with
  | nil => exact .nil
  | cons first _ ih =>
    exact .cons ⟨_, perm_sortedBy _ _, (validated_of_ok first).candidate⟩ ih

/-- The packet of permuted entries. -/
theorem assemble_perm {entries entries' : List Entry} (perm : entries'.Perm entries)
    (distinct : (entries.map (·.candidate.id)).Nodup) :
    assemble instrument cutoff required entries' = assemble instrument cutoff required entries := by
  have sorted : sortedBy Entry.key entries' = sortedBy Entry.key entries := by
    refine sortedBy_perm perm fun a ha b hb same => ?_
    have ids : a.candidate.id = b.candidate.id :=
      (Prod.mk.inj (toLex.injective (Prod.mk.inj (toLex.injective same)).2)).2
    exact List.inj_on_of_nodup_map distinct (perm.mem_iff.mp ha) (perm.mem_iff.mp hb) ids
  rw [assemble, assemble, sorted]

theorem reordered_packet {packet : Packet} {candidates' : List Candidate}
    (h : buildPacket lib instrument cutoff candidates required = .ok packet)
    (reordered : Reordered candidates candidates') :
    buildPacket lib instrument cutoff candidates' required = .ok packet := by
  obtain ⟨now, entries, hnow, hashes, hsorted, hentries, distinct, rfl⟩ := buildPacket_eq_ok h
  obtain ⟨entries', hentries', perm⟩ := entries_reordered reordered hentries
  have ids := ids_of_entries hentries
  have distinct' : (candidates'.map (·.id)).Nodup := by
    rw [← ids_of_entries hentries', (perm.map _).nodup_iff, ids]
    exact distinct
  rw [← assemble_perm perm (ids ▸ distinct)]
  exact bind_eq_ok.mpr ⟨now, hnow, bind_eq_ok.mpr ⟨(), require_eq_ok.mpr hashes, bind_eq_ok.mpr
    ⟨(), require_eq_ok.mpr hsorted, bind_eq_ok.mpr ⟨entries', hentries', bind_eq_ok.mpr
    ⟨(), require_eq_ok.mpr distinct', rfl⟩⟩⟩⟩⟩

/-- What the packet keeps of the validated entries: each ranked and perhaps excluded for its place. -/
theorem admitted_forall₂ (entries : List Entry) :
    List.Forall₂ (fun e e' => (∃ rank exclusions,
        e' = { e with rank := rank, exclusions := exclusions }) ∧
      (e'.exclusions = [] → e.exclusions = []))
      (sortedBy Entry.key entries) (assemble instrument cutoff required entries).entries :=
  admitEntries_forall₂ 1 [] 0 (sortedBy Entry.key entries)

theorem map_of_forall₂ {β : Type} {f : Entry → β} {xs ys : List Entry}
    (h : List.Forall₂ (fun e e' => (∃ rank exclusions,
        e' = { e with rank := rank, exclusions := exclusions }) ∧
      (e'.exclusions = [] → e.exclusions = [])) xs ys)
    (keeps : ∀ e rank exclusions, f { e with rank := rank, exclusions := exclusions } = f e) :
    ys.map f = xs.map f := by
  induction h with
  | nil => rfl
  | cons first _ ih =>
    obtain ⟨⟨rank, exclusions, rfl⟩, -⟩ := first
    rw [List.map_cons, List.map_cons, ih, keeps]

theorem exists_of_forall₂_mem {R : Entry → Entry → Prop} {xs ys : List Entry}
    (h : List.Forall₂ R xs ys) {y : Entry} (hy : y ∈ ys) : ∃ x ∈ xs, R x y := by
  induction h with
  | nil => cases hy
  | cons first _ ih =>
    rcases List.mem_cons.mp hy with rfl | hy
    · exact ⟨_, List.mem_cons_self, first⟩
    · obtain ⟨x, hx, hr⟩ := ih hy
      exact ⟨x, List.mem_cons_of_mem _ hx, hr⟩

/-- The key ends in the identity, so no two entries share it. -/
theorem pairwise_lt_keys {entries : List Entry} (distinct : (entries.map (·.candidate.id)).Nodup) :
    ((sortedBy Entry.key entries).map Entry.key).Pairwise (· < ·) := by
  have ids : ((sortedBy Entry.key entries).map (·.candidate.id)).Nodup :=
    ((perm_sortedBy _ _).map _).nodup_iff.mpr distinct
  have weak := pairwise_sortedBy Entry.key entries
  have apart : (sortedBy Entry.key entries).Pairwise fun a b => a.candidate.id ≠ b.candidate.id :=
    List.pairwise_map.mp ids
  refine List.pairwise_map.mpr ((weak.and apart).imp fun h => lt_of_le_of_ne h.1 fun same => h.2 ?_)
  exact (Prod.mk.inj (toLex.injective (Prod.mk.inj (toLex.injective same)).2)).2

/-- **A packet is sound.** -/
theorem sound_of_ok (canonical : Packet → String) {packet : Packet}
    (h : buildPacket lib instrument cutoff candidates required = .ok packet) :
    Sound lib canonical instrument cutoff candidates required packet := by
  obtain ⟨now, entries, hnow, hashes, hsorted, hentries, distinct, rfl⟩ := buildPacket_eq_ok h
  have ids := ids_of_entries hentries
  have kept := @admitted_forall₂ instrument cutoff required entries
  have total := @admitEntries_total 1 [] 0 (sortedBy Entry.key entries) (by decide)
  have validated : ∀ e ∈ entries, ∃ c ∈ candidates, Validated lib instrument now required c e := by
    intro e he
    obtain ⟨c, hc, hce⟩ := mem_mapE hentries he
    exact ⟨c, hc, validated_of_ok hce⟩
  have own : ∀ e ∈ sortedBy Entry.key entries, Own e := by
    intro e he
    obtain ⟨c, -, hv⟩ := validated e (mem_sortedBy.mp he)
    exact hv.own
  have keys : (assemble instrument cutoff required entries).entries.map Entry.key =
      (sortedBy Entry.key entries).map Entry.key := map_of_forall₂ kept fun _ _ _ => rfl
  have candidatesKept : (assemble instrument cutoff required entries).entries.map (·.candidate) =
      (sortedBy Entry.key entries).map (·.candidate) := map_of_forall₂ kept fun _ _ _ => rfl
  have permCandidates : ((assemble instrument cutoff required entries).entries.map
      (·.candidate)).Perm (entries.map (·.candidate)) := by
    rw [candidatesKept]
    exact (perm_sortedBy _ _).map _
  exact
    { ordered := fun candidates' reordered => reordered_packet h reordered
      replayed := by
        have again := reordered_packet h ⟨_, same_of_entries hentries, permCandidates⟩
        exact bind_eq_ok.mpr ⟨(), require_eq_ok.mpr rfl, bind_eq_ok.mpr ⟨_, again, bind_eq_ok.mpr
          ⟨(), require_eq_ok.mpr rfl, rfl⟩⟩⟩
      complete := by
        have := permCandidates.map (·.id)
        rw [List.map_map, List.map_map] at this
        rw [← ids]
        exact this
      sorted := by
        rw [← List.pairwise_map (f := Entry.key), keys]
        exact pairwise_lt_keys (ids ▸ distinct)
      ranked := by
        rw [kept.length_eq.symm]
        exact admitEntries_ranks 1 [] 0 (sortedBy Entry.key entries)
      capped := by
        show (included (admitEntries 1 [] 0 (sortedBy Entry.key entries)).1).length ≤ capacity
        omega
      documents := admitEntries_documents.1
      highest := by
        intro front f back split clear out
        have cut := admitEntries_highest (by decide) own split clear out
        simpa using cut
      cleared := by
        refine ⟨now, hnow, fun e he => ?_⟩
        obtain ⟨hmem, hnil⟩ := List.mem_filter.mp he
        obtain ⟨e₀, he₀, ⟨rank, exclusions, rfl⟩, hfirst⟩ := exists_of_forall₂_mem kept hmem
        obtain ⟨c, -, hv⟩ := validated e₀ (mem_sortedBy.mp he₀)
        have clear := hv.cleared (hfirst (of_decide_eq_true hnil))
        show Cleared now e₀.candidate
        rw [hv.candidate]
        exact ⟨clear.known, clear.retrieved, clear.published, clear.permitted⟩
      ready := by
        intro hready id hid
        have open_ : ¬ (sortedOnce (required.filter (· ∉ (included
            (assemble instrument cutoff required entries).entries).map (·.candidate.id))) ≠ [] ∨
              (admitEntries 1 [] 0 (sortedBy Entry.key entries)).2 = 0) := by
          intro closed
          have : (assemble instrument cutoff required entries).readiness = .abstain := if_pos closed
          rw [this] at hready
          cases hready
        push Not at open_
        have present := List.filter_eq_nil_iff.mp (sortedOnce_eq_nil.mp open_.1) id hid
        simpa using present }

/-- **Evidence packets.** A valid call returns a packet, and every packet returned is sound: the same
for every order of the candidates and of their conflicts, accepted by `replay`, capped at the
highest-ranked entries of distinct documents, cleared, and ready only with what it requires. -/
theorem buildPacket_sound (lib : Library) (canonical : Packet → String)
    (instrument cutoff : String) (candidates : List Candidate) (required : List String) :
    (ValidCall lib instrument cutoff candidates required →
      ∃ packet, buildPacket lib instrument cutoff candidates required = .ok packet) ∧
    ∀ packet, buildPacket lib instrument cutoff candidates required = .ok packet →
      Sound lib canonical instrument cutoff candidates required packet :=
  ⟨buildPacket_returns, fun _ h => sound_of_ok canonical h⟩

end

/-- Sixty-four times one digit. -/
def sampleHash (c : Char) : String := String.ofList (List.replicate 64 c)

/-- ASCII letters and digits, and letters compared without their case. -/
def sampleLibrary : Library where
  digest _ := sampleHash 'd'
  isWord c := c.isAlphanum || c = '_'
  same c d := c.toLower = d.toLower
  lower text := text.map Char.toLower

/-- A headline on a pair, with every field and use allowed. -/
def sampleCandidate : Candidate where
  id := sampleHash 'd'
  representation :=
    { version := version, kind := .news, documentId := some 1, observationId := none
      retrievalId := 1, retrievalSha256 := sampleHash 'b', sourceId := 1, sourceItemId := "1"
      canonicalHash := sampleHash 'c', canonicalUrl := "https://official.example/1"
      headline := "Bank of Canada inflation statement", suppliedSummary := "", normalizedFact := ""
      publishedAt := some "2026-09-11T10:00:00+00:00"
      firstObservedAt := "2026-09-11T11:00:00+00:00", retrievedAt := "2026-09-11T11:00:00+00:00"
      language := "en", contentType := "application/rss+xml", storageReviewSha256 := sampleHash 'a'
      quality := ⟨.hashChecked, .providerExact, .primary, .direct, .singleSource⟩ }
  knownAt := "2026-09-11T11:30:00+00:00"
  rights := some
    { version := version, sourceId := 1, processor := "anthropic"
      termsUrl := "https://official.example/terms", termsSha256 := sampleHash 'a'
      reviewer := "reviewer", reviewedAt := "2026-09-10T12:00:00+00:00"
      expiresAt := "2026-12-20T12:00:00+00:00", jurisdiction := "CA", attribution := "source"
      retention := "review after expiry", deletion := "owner review", rationale := "permission"
      decisions := fun _ _ => .allowed, supersedes := none }
  rightsKnownAt := some "2026-09-11T07:00:00+00:00"
  conflicts := []
  role := .required

theorem validCall_sample : ValidCall sampleLibrary "USD_CAD" "2026-09-11T12:00:00+00:00"
    [sampleCandidate] [sampleHash 'd'] where
  cutoff := ⟨1789128000000000, by decide⟩
  instrument := ⟨_, rfl⟩
  hashes := by decide
  sorted := by decide
  each := by
    intro c hc
    obtain rfl := List.mem_singleton.mp hc
    exact
      { representation := by decide
        identity := rfl
        role := by decide
        conflicts := List.nodup_nil
        events := by simp [sampleCandidate]
        known := ⟨1789126200000000, by decide⟩
        rights := by
          intro review hreview
          obtain rfl := Option.some.inj hreview
          exact ⟨by decide +kernel, "2026-09-11T07:00:00+00:00", 1789110000000000, rfl,
            by decide⟩ }
  distinct := by simp

/-- The packet of one permitted headline exists and is sound. -/
theorem buildPacket_sound_sample : ∃ packet, buildPacket sampleLibrary "USD_CAD"
    "2026-09-11T12:00:00+00:00" [sampleCandidate] [sampleHash 'd'] = .ok packet ∧
      Sound sampleLibrary (fun _ => "") "USD_CAD" "2026-09-11T12:00:00+00:00" [sampleCandidate]
        [sampleHash 'd'] packet := by
  have sound := buildPacket_sound sampleLibrary (fun _ => "") "USD_CAD" "2026-09-11T12:00:00+00:00"
    [sampleCandidate] [sampleHash 'd']
  obtain ⟨packet, hpacket⟩ := sound.1 validCall_sample
  exact ⟨packet, hpacket, sound.2 packet hpacket⟩

end TradeRecommender.Evidence
