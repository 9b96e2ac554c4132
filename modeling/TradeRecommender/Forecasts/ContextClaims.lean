import TradeRecommender.Forecasts.EvidenceContext
import TradeRecommender.Research.EvidencePackets

/-!
# Accepted context is grounded

1. citations, claims and outputs as values;
2. what each reader accepts: a value that is the same as that of what it returns, and a check of
   what it returns;
3. items and the entries they come from;
4. an accepted result.

Because a reader asks of a value only what it is up to the order of entries, a result that has gone
through a column of JSON is read as before.
-/

namespace TradeRecommender.Evidence.Context

open Py

/-! ## Claims as values -/

def Citation.toVal (c : Citation) : Val := .dict
  [("evidence_id", .str c.evidenceId), ("field", .str (fieldCode c.field)),
    ("quote", .str c.quote), ("directness", .str (directnessCode c.directness)),
    ("conflict_state", .str (conflictCode c.conflictState))]

def Claim.toVal (c : Claim) : Val := .dict
  [("statement", .str c.statement), ("relationship", .str c.relationship.code),
    ("kind", .str c.kind.code), ("citations", .list (c.citations.map Citation.toVal))]

/-- The entry of a section. -/
def sectionEntry (s : Section × List Claim) : String × Val :=
  (s.1.code, .list (s.2.map Claim.toVal))

def Output.toVal (out : Output) : Val := .dict (out.map sectionEntry)

/-! ## Texts of closed vocabularies -/

theorem isStr_iff {v : Val} {text : String} : v.isStr text = true ↔ v = .str text := by
  cases v <;> simp [Val.isStr]

theorem fieldCode_inj {f g : Field} : fieldCode f = fieldCode g ↔ f = g := by
  cases f <;> cases g <;> decide

theorem Relationship.code_inj {r s : Relationship} : r.code = s.code ↔ r = s := by
  cases r <;> cases s <;> decide

theorem ClaimKind.code_inj {k l : ClaimKind} : k.code = l.code ↔ k = l := by
  cases k <;> cases l <;> decide

theorem Section.code_inj {s t : Section} : s.code = t.code ↔ s = t := by
  cases s <;> cases t <;> decide

/-- What is found by its key has the text for its key, and is the first that has. -/
theorem keyed_eq_ok {α : Type} {error : String} {values : List α} {key : α → String} {v : Val}
    {x : α} : keyed error values key v = .ok x ↔
      v = .str (key x) ∧ values.find? (fun y => key x = key y) = some x := by
  rw [keyed]
  by_cases hash : v.hashable = true
  · rw [if_pos hash]
    constructor
    · intro h
      cases found : values.find? fun y => v.isStr (key y) with
      | none =>
        rw [found] at h
        cases h
      | some y =>
        rw [found] at h
        cases h
        have same := List.find?_some found
        obtain rfl := isStr_iff.mp same
        exact ⟨rfl, found⟩
    · rintro ⟨rfl, found⟩
      have found' : values.find? (fun y => (Val.str (key x)).isStr (key y)) = some x := found
      rw [found']
  · rw [if_neg hash]
    refine ⟨fun h => (by cases h), ?_⟩
    rintro ⟨rfl, -⟩
    exact absurd rfl hash

theorem readRelationship_eq_ok {v : Val} {r : Relationship} :
    readRelationship v = .ok r ↔ v = .str r.code := by
  rw [readRelationship, keyed_eq_ok, and_iff_left]
  cases r <;> decide

theorem readKind_eq_ok {v : Val} {k : ClaimKind} : readKind v = .ok k ↔ v = .str k.code := by
  rw [readKind, keyed_eq_ok, and_iff_left]
  cases k <;> decide

/-! ## What the readers accept -/

/-- A list of values is read one by one when each is the same as that of what is read of it. -/
theorem mapE_same {α : Type} {f : Val → Except Exc α} {toVal : α → Val} {P : α → Prop}
    (each : ∀ v x, f v = .ok x ↔ v.Same (toVal x) ∧ P x) {items : List Val} {xs : List α} :
    mapE f items = .ok xs ↔ List.Forall₂ Val.Same items (xs.map toVal) ∧ ∀ x ∈ xs, P x := by
  have step : (fun v x => f v = .ok x) = fun v x => P x ∧ v.Same (toVal x) := by
    funext v x
    rw [each, and_comm]
  rw [mapE_eq_ok_iff, step, List.forall₂_map_right_iff]
  constructor
  · intro h
    have flipped : List.Forall₂ (fun x v => P x ∧ Val.Same v (toVal x)) xs items := h.flip
    obtain ⟨valid, same⟩ := (List.forall₂_and_left xs items).mp flipped
    exact ⟨same.flip, valid⟩
  · rintro ⟨same, valid⟩
    exact ((List.forall₂_and_left xs items).mpr ⟨valid, same.flip⟩).flip

/-- Rows made one for each key are told by the keys they have. -/
theorem mapE_keyed {α κ : Type} {f : κ → Except Exc α} {key : α → κ} {P : α → Prop}
    (each : ∀ k x, f k = .ok x ↔ key x = k ∧ P x) {keys : List κ} {xs : List α} :
    mapE f keys = .ok xs ↔ xs.map key = keys ∧ ∀ x ∈ xs, P x := by
  rw [mapE_eq_ok_iff]
  constructor
  · intro h
    induction h with
    | nil => exact ⟨rfl, by simp⟩
    | cons first _ ih =>
      obtain ⟨key_eq, valid⟩ := (each _ _).mp first
      exact ⟨by rw [List.map_cons, key_eq, ih.1], List.forall_mem_cons.mpr ⟨valid, ih.2⟩⟩
  · rintro ⟨rfl, valid⟩
    rw [List.forall₂_map_left_iff, List.forall₂_same]
    exact fun x mem => (each _ _).mpr ⟨rfl, valid x mem⟩

/-- A citation of an item of the evidence, with what it is of. -/
structure Citation.Valid (evidence : List Item) (relationship : Relationship) (kind : ClaimKind)
    (c : Citation) : Prop where
  cites : ∃ item, evidence.reverse.find? (fun other => c.evidenceId = other.evidenceId) = some item ∧
    item.fields.find? (fun field => fieldCode c.field = fieldCode field.1) =
      some (c.field, c.quote) ∧
    c.evidenceId = item.evidenceId ∧ c.directness = item.directness ∧
    c.conflictState = item.conflictState
  qualified : c.conflictState ∈ [ConflictState.material, .unknown] →
    relationship ∈ qualifying ∧ kind ≠ .fact

variable {evidence : List Item} {relationship : Relationship} {kind : ClaimKind}

theorem readCitation_eq_ok {v : Val} {c : Citation} :
    readCitation evidence relationship kind v = .ok c ↔
      v.Same c.toVal ∧ c.Valid evidence relationship kind := by
  have same_iff := Val.same_dict (v := v)
    [("evidence_id", .str c.evidenceId), ("field", .str (fieldCode c.field)),
      ("quote", .str c.quote), ("directness", .str (directnessCode c.directness)),
      ("conflict_state", .str (conflictCode c.conflictState))]
    (show ["evidence_id", "field", "quote", "directness", "conflict_state"].Nodup by decide)
  constructor
  · intro h
    rw [readCitation] at h
    obtain ⟨_, keys, h⟩ := bind_eq_ok.mp h
    obtain ⟨id, hid, h⟩ := bind_eq_ok.mp h
    obtain ⟨item, hitem, h⟩ := bind_eq_ok.mp h
    obtain ⟨name, hname, h⟩ := bind_eq_ok.mp h
    obtain ⟨field, hfield, h⟩ := bind_eq_ok.mp h
    obtain ⟨quote, hquote, h⟩ := bind_eq_ok.mp h
    obtain ⟨_, quoted, h⟩ := bind_eq_ok.mp h
    obtain ⟨directness, hdirectness, h⟩ := bind_eq_ok.mp h
    obtain ⟨state, hstate, h⟩ := bind_eq_ok.mp h
    obtain ⟨_, same, h⟩ := bind_eq_ok.mp h
    obtain ⟨_, conflict, h⟩ := bind_eq_ok.mp h
    cases h
    obtain ⟨rfl, found⟩ := keyed_eq_ok.mp hitem
    obtain ⟨rfl, foundField⟩ := keyed_eq_ok.mp hfield
    obtain rfl := isStr_iff.mp (require_eq_ok.mp quoted)
    obtain ⟨is_directness, is_state⟩ := require_eq_ok.mp same
    obtain rfl := isStr_iff.mp is_directness
    obtain rfl := isStr_iff.mp is_state
    refine ⟨same_iff.mpr ⟨require_eq_ok.mp keys, ?_⟩,
      ⟨item, found, foundField, rfl, rfl, rfl⟩, require_eq_ok.mp conflict⟩
    simp only [List.forall_mem_cons, Val.same_str]
    exact ⟨⟨_, hid, rfl⟩, ⟨_, hname, rfl⟩, ⟨_, hquote, rfl⟩, ⟨_, hdirectness, rfl⟩,
      ⟨_, hstate, rfl⟩, by simp⟩
  · rintro ⟨same, ⟨item, found, foundField, id_eq, directness_eq, state_eq⟩, conflict⟩
    obtain ⟨keys, values⟩ := same_iff.mp same
    simp only [List.forall_mem_cons, Val.same_str, exists_eq_right] at values
    obtain ⟨hid, hname, hquote, hdirectness, hstate, -⟩ := values
    have item_read : citedItem evidence (.str c.evidenceId) = .ok item := by
      rw [citedItem, keyed_eq_ok, ← id_eq]
      exact ⟨rfl, found⟩
    have field_read : citedField item (.str (fieldCode c.field)) = .ok (c.field, c.quote) :=
      keyed_eq_ok.mpr ⟨rfl, foundField⟩
    rw [readCitation]
    refine bind_eq_ok.mpr ⟨(), require_eq_ok.mpr keys, bind_eq_ok.mpr ⟨_, hid, ?_⟩⟩
    refine bind_eq_ok.mpr ⟨item, item_read, bind_eq_ok.mpr ⟨_, hname, ?_⟩⟩
    refine bind_eq_ok.mpr ⟨_, field_read, bind_eq_ok.mpr ⟨_, hquote, ?_⟩⟩
    refine bind_eq_ok.mpr ⟨(), require_eq_ok.mpr (isStr_iff.mpr rfl), ?_⟩
    refine bind_eq_ok.mpr ⟨_, hdirectness, bind_eq_ok.mpr ⟨_, hstate, ?_⟩⟩
    rw [← directness_eq, ← state_eq]
    refine bind_eq_ok.mpr ⟨(), require_eq_ok.mpr ⟨isStr_iff.mpr rfl, isStr_iff.mpr rfl⟩, ?_⟩
    refine bind_eq_ok.mpr ⟨(), require_eq_ok.mpr (state_eq ▸ conflict), ?_⟩
    rw [← id_eq]
    rfl

section
variable {lib : Library} {version : ℕ}

theorem digest_same {v w : Val} (h : v.Same w) : digest lib v = digest lib w := by
  rw [digest, digest, Val.canonical_same h]

/-- The digests of values are those of what they are the same as. -/
theorem mapE_digest_same {items items' : List Val} (same : List.Forall₂ Val.Same items items') :
    mapE (digest lib) items = mapE (digest lib) items' := by
  induction same with
  | nil => rfl
  | cons first _ ih => rw [mapE, mapE, digest_same first, ih]

/-- One to three citations with different digests, each of an item. -/
structure ValidCitations (lib : Library) (evidence : List Item) (relationship : Relationship)
    (kind : ClaimKind) (citations : List Citation) : Prop where
  bound : 1 ≤ citations.length ∧ citations.length ≤ 3
  different : ∃ digests, mapE (digest lib) (citations.map Citation.toVal) = .ok digests ∧
    digests.Nodup
  each : ∀ c ∈ citations, c.Valid evidence relationship kind

theorem readCitations_eq_ok {v : Val} {citations : List Citation} :
    readCitations lib evidence relationship kind v = .ok citations ↔
      v.Same (.list (citations.map Citation.toVal)) ∧
        ValidCitations lib evidence relationship kind citations := by
  constructor
  · intro h
    cases v with
    | list items =>
      rw [readCitations] at h
      obtain ⟨_, bound, h⟩ := bind_eq_ok.mp h
      obtain ⟨digests, hdigests, h⟩ := bind_eq_ok.mp h
      obtain ⟨_, different, h⟩ := bind_eq_ok.mp h
      obtain ⟨same, valid⟩ := (mapE_same fun _ _ => readCitation_eq_ok).mp h
      have length_eq : items.length = citations.length := by
        rw [same.length_eq, List.length_map]
      refine ⟨Val.same_list.mpr ⟨items, rfl, same⟩, ?_,
        ⟨digests, mapE_digest_same same ▸ hdigests, require_eq_ok.mp different⟩, valid⟩
      exact length_eq ▸ require_eq_ok.mp bound
    | _ => exact absurd h raise_ne_ok
  · rintro ⟨same, valid⟩
    obtain ⟨items, rfl, each⟩ := Val.same_list.mp same
    obtain ⟨digests, hdigests, different⟩ := valid.different
    have length_eq : items.length = citations.length := by
      rw [each.length_eq, List.length_map]
    rw [readCitations]
    refine bind_eq_ok.mpr ⟨(), require_eq_ok.mpr (length_eq ▸ valid.bound), ?_⟩
    refine bind_eq_ok.mpr ⟨digests, (mapE_digest_same each).trans hdigests, ?_⟩
    refine bind_eq_ok.mpr ⟨(), require_eq_ok.mpr different, ?_⟩
    exact (mapE_same fun _ _ => readCitation_eq_ok).mpr ⟨each, valid.each⟩

/-- What a claim says: the quote of its one citation as a fact, or else the template of its
relationship. -/
structure Said (version : ℕ) (kind : ClaimKind) (relationship : Relationship)
    (citations : List Citation) (text : String) : Prop where
  fact : kind = .fact → relationship = .uncertain ∧ ∃ c, citations = [c] ∧ text = c.quote
  template : kind ≠ .fact → relationship ∈ qualifying ∧ text = relationship.template ∧
    (relationship = .conflict ∧ 2 ≤ version → ∀ c ∈ citations,
      c.conflictState ∈ [ConflictState.unknown, .material])

theorem supported_eq_ok {v : Val} {citations : List Citation} {text : String} :
    supported version kind relationship v citations = .ok text ↔
      v = .str text ∧ Said version kind relationship citations text := by
  unfold supported
  by_cases fact : kind = .fact
  · rw [if_pos fact]
    constructor
    · intro h
      match citations with
      | [] => exact absurd h raise_ne_ok
      | [c] =>
        obtain ⟨_, quoted, h⟩ := bind_eq_ok.mp h
        obtain ⟨_, uncertain, h⟩ := bind_eq_ok.mp h
        cases h
        exact ⟨isStr_iff.mp (require_eq_ok.mp quoted), fun _ => ⟨require_eq_ok.mp uncertain, c, rfl,
          rfl⟩, fun other => absurd fact other⟩
      | _ :: _ :: _ => exact absurd h raise_ne_ok
    · rintro ⟨rfl, said⟩
      obtain ⟨uncertain, c, rfl, rfl⟩ := said.fact fact
      refine bind_eq_ok.mpr ⟨(), require_eq_ok.mpr (isStr_iff.mpr rfl), ?_⟩
      exact bind_eq_ok.mpr ⟨(), require_eq_ok.mpr uncertain, rfl⟩
  · rw [if_neg fact]
    constructor
    · intro h
      obtain ⟨_, template, h⟩ := bind_eq_ok.mp h
      obtain ⟨_, admitted, h⟩ := bind_eq_ok.mp h
      obtain ⟨_, conflict, h⟩ := bind_eq_ok.mp h
      cases h
      exact ⟨isStr_iff.mp (require_eq_ok.mp template), fun same => absurd same fact,
        fun _ => ⟨require_eq_ok.mp admitted, rfl, require_eq_ok.mp conflict⟩⟩
    · rintro ⟨rfl, said⟩
      obtain ⟨admitted, rfl, conflict⟩ := said.template fact
      refine bind_eq_ok.mpr ⟨(), require_eq_ok.mpr (isStr_iff.mpr rfl), ?_⟩
      refine bind_eq_ok.mpr ⟨(), require_eq_ok.mpr admitted, ?_⟩
      exact bind_eq_ok.mpr ⟨(), require_eq_ok.mpr conflict, rfl⟩

/-- A claim of a section over the evidence. -/
structure Claim.Valid (lib : Library) (version : ℕ) (evidence : List Item) (s : Section)
    (c : Claim) : Prop where
  statement : checkStatement lib version c.kind c.relationship (.str c.statement) = .ok ()
  citations : ValidCitations lib evidence c.relationship c.kind c.citations
  said : Said version c.kind c.relationship c.citations c.statement
  relationship : ∀ r ∈ s.relationship, r = c.relationship

theorem readClaim_eq_ok {s : Section} {v : Val} {c : Claim} :
    readClaim lib version evidence s v = .ok c ↔
      v.Same c.toVal ∧ c.Valid lib version evidence s := by
  have same_iff := Val.same_dict (v := v)
    [("statement", .str c.statement), ("relationship", .str c.relationship.code),
      ("kind", .str c.kind.code), ("citations", .list (c.citations.map Citation.toVal))]
    (show ["statement", "relationship", "kind", "citations"].Nodup by decide)
  constructor
  · intro h
    rw [readClaim] at h
    obtain ⟨_, keys, h⟩ := bind_eq_ok.mp h
    obtain ⟨_, hrelationship, h⟩ := bind_eq_ok.mp h
    obtain ⟨relationship, is_relationship, h⟩ := bind_eq_ok.mp h
    obtain ⟨_, hkind, h⟩ := bind_eq_ok.mp h
    obtain ⟨kind, is_kind, h⟩ := bind_eq_ok.mp h
    obtain ⟨statement, hstatement, h⟩ := bind_eq_ok.mp h
    obtain ⟨_, checked, h⟩ := bind_eq_ok.mp h
    obtain ⟨_, hcitations, h⟩ := bind_eq_ok.mp h
    obtain ⟨citations, read, h⟩ := bind_eq_ok.mp h
    obtain ⟨text, spoken, h⟩ := bind_eq_ok.mp h
    obtain ⟨_, placed, h⟩ := bind_eq_ok.mp h
    cases h
    obtain rfl := readRelationship_eq_ok.mp is_relationship
    obtain rfl := readKind_eq_ok.mp is_kind
    obtain ⟨rfl, said⟩ := supported_eq_ok.mp spoken
    obtain ⟨same, valid⟩ := readCitations_eq_ok.mp read
    refine ⟨same_iff.mpr ⟨require_eq_ok.mp keys, ?_⟩, checked, valid, said, ?_⟩
    · simp only [List.forall_mem_cons, Val.same_str]
      exact ⟨⟨_, hstatement, rfl⟩, ⟨_, hrelationship, rfl⟩, ⟨_, hkind, rfl⟩,
        ⟨_, hcitations, same⟩, by simp⟩
    · intro r hr
      have all := require_eq_ok.mp placed
      rw [hr] at all
      exact of_decide_eq_true all
  · rintro ⟨same, valid⟩
    obtain ⟨keys, values⟩ := same_iff.mp same
    simp only [List.forall_mem_cons, Val.same_str, exists_eq_right] at values
    obtain ⟨hstatement, hrelationship, hkind, ⟨citations, hcitations, same⟩, -⟩ := values
    have placed : c.relationship = c.relationship ∧
        s.relationship.all (· = c.relationship) = true := by
      refine ⟨rfl, ?_⟩
      cases expected : s.relationship with
      | none => rfl
      | some r => exact decide_eq_true (valid.relationship r expected)
    rw [readClaim]
    refine bind_eq_ok.mpr ⟨(), require_eq_ok.mpr keys, bind_eq_ok.mpr ⟨_, hrelationship, ?_⟩⟩
    refine bind_eq_ok.mpr ⟨_, readRelationship_eq_ok.mpr rfl, bind_eq_ok.mpr ⟨_, hkind, ?_⟩⟩
    refine bind_eq_ok.mpr ⟨_, readKind_eq_ok.mpr rfl, bind_eq_ok.mpr ⟨_, hstatement, ?_⟩⟩
    refine bind_eq_ok.mpr ⟨(), valid.statement, bind_eq_ok.mpr ⟨_, hcitations, ?_⟩⟩
    refine bind_eq_ok.mpr ⟨_, readCitations_eq_ok.mpr ⟨same, valid.citations⟩, ?_⟩
    refine bind_eq_ok.mpr ⟨_, supported_eq_ok.mpr ⟨rfl, valid.said⟩, ?_⟩
    exact bind_eq_ok.mpr ⟨(), require_eq_ok.mpr placed.2, rfl⟩

/-- At most three claims of a section. -/
structure ValidSection (lib : Library) (version : ℕ) (evidence : List Item)
    (s : Section × List Claim) : Prop where
  bound : s.2.length ≤ 3
  each : ∀ c ∈ s.2, c.Valid lib version evidence s.1

theorem readSection_eq_ok {output : Val} {s : Section} {read : Section × List Claim} :
    readSection lib version evidence output s = .ok read ↔
      read.1 = s ∧ ValidSection lib version evidence read ∧
        ∃ x, output.getItem read.1.code = .ok x ∧ x.Same (.list (read.2.map Claim.toVal)) := by
  rw [readSection, bind_eq_ok]
  constructor
  · rintro ⟨x, hx, h⟩
    cases x with
    | list items =>
      obtain ⟨_, bound, h⟩ := bind_eq_ok.mp h
      obtain ⟨claims, hclaims, h⟩ := bind_eq_ok.mp h
      cases h
      obtain ⟨same, valid⟩ := (mapE_same fun _ _ => readClaim_eq_ok).mp hclaims
      have length_eq : items.length = claims.length := by rw [same.length_eq, List.length_map]
      exact ⟨rfl, ⟨length_eq ▸ require_eq_ok.mp bound, valid⟩, _, hx,
        Val.same_list.mpr ⟨items, rfl, same⟩⟩
    | _ => exact absurd h raise_ne_ok
  · obtain ⟨t, claims⟩ := read
    rintro ⟨rfl, valid, x, hx, same⟩
    obtain ⟨items, rfl, each⟩ := Val.same_list.mp same
    have length_eq : items.length = claims.length := by rw [each.length_eq, List.length_map]
    refine ⟨_, hx, bind_eq_ok.mpr ⟨(), require_eq_ok.mpr (length_eq ▸ valid.bound), ?_⟩⟩
    exact bind_eq_ok.mpr ⟨claims, (mapE_same fun _ _ => readClaim_eq_ok).mpr
      ⟨each, valid.each⟩, rfl⟩

/-- An output over the evidence: all sections, with at most twelve claims and one to start with. -/
structure Output.Valid (lib : Library) (version maxBytes : ℕ) (evidence : List Item)
    (out : Output) : Prop where
  sections : out.map Prod.fst = sections
  short : ∃ text, out.toVal.canonical = .ok text ∧ Val.utf8Length text ≤ maxBytes
  each : ∀ s ∈ out, ValidSection lib version evidence s
  count : 1 ≤ claimCount out ∧ claimCount out ≤ 12 ∧
    ∀ s ∈ out, s.1 = .executiveSummary → s.2 ≠ []

theorem keys_sectionEntry (out : Output) :
    (out.map sectionEntry).map Prod.fst = (out.map Prod.fst).map Section.code := by
  rw [List.map_map, List.map_map]
  rfl

theorem readOutput_eq_ok {maxBytes : ℕ} {output : Val} {out : Output} :
    readOutput lib version maxBytes evidence output = .ok out ↔
      output.Same out.toVal ∧ out.Valid lib version maxBytes evidence := by
  have distinct : (sections.map Section.code).Nodup := by decide
  have read_iff : mapE (readSection lib version evidence output) sections = .ok out ↔
      out.map Prod.fst = sections ∧ ∀ s ∈ out, ValidSection lib version evidence s ∧
        ∃ x, output.getItem s.1.code = .ok x ∧ x.Same (.list (s.2.map Claim.toVal)) :=
    mapE_keyed fun _ _ => readSection_eq_ok
  have same_iff (all : out.map Prod.fst = sections) := Val.same_dict (v := output)
    (out.map sectionEntry) (by rw [keys_sectionEntry, all]; exact distinct)
  constructor
  · intro h
    rw [readOutput] at h
    obtain ⟨_, keys, h⟩ := bind_eq_ok.mp h
    obtain ⟨text, htext, h⟩ := bind_eq_ok.mp h
    obtain ⟨_, short, h⟩ := bind_eq_ok.mp h
    obtain ⟨_, read, h⟩ := bind_eq_ok.mp h
    obtain ⟨_, count, h⟩ := bind_eq_ok.mp h
    cases h
    obtain ⟨all, each⟩ := read_iff.mp read
    have same : output.Same out.toVal := by
      refine (same_iff all).mpr ⟨?_, ?_⟩
      · rw [keys_sectionEntry, all]
        exact require_eq_ok.mp keys
      · intro entry mem
        obtain ⟨s, hs, rfl⟩ := List.mem_map.mp mem
        exact (each s hs).2
    exact ⟨same, all, ⟨text, Val.canonical_same same ▸ htext, require_eq_ok.mp short⟩,
      fun s hs => (each s hs).1, require_eq_ok.mp count⟩
  · rintro ⟨same, valid⟩
    obtain ⟨keys, values⟩ := (same_iff valid.sections).mp same
    obtain ⟨text, htext, short⟩ := valid.short
    rw [keys_sectionEntry, valid.sections] at keys
    have read : mapE (readSection lib version evidence output) sections = .ok out :=
      read_iff.mpr ⟨valid.sections, fun s hs =>
        ⟨valid.each s hs, values _ (List.mem_map_of_mem hs)⟩⟩
    rw [readOutput]
    refine bind_eq_ok.mpr ⟨(), require_eq_ok.mpr keys, ?_⟩
    refine bind_eq_ok.mpr ⟨text, (Val.canonical_same same).trans htext, ?_⟩
    refine bind_eq_ok.mpr ⟨(), require_eq_ok.mpr short, bind_eq_ok.mpr ⟨out, read, ?_⟩⟩
    exact bind_eq_ok.mpr ⟨(), require_eq_ok.mpr valid.count, rfl⟩

end

/-! ## Items and entries -/

/-- An item of an entry: its permitted headline and summary, as they are. -/
structure Item.Of (entry : Entry) (item : Item) : Prop where
  id : item.evidenceId = entry.candidate.id
  fields : ∀ field ∈ item.fields, field.1 ∈ [Field.headline, .suppliedSummary] ∧
    field.1 ∈ entry.permittedFields ∧ field.2 = fieldText entry.candidate.representation field.1
  directness : item.directness = entry.candidate.representation.quality.directness
  conflictState : item.conflictState = entry.conflictAtCutoff

section
variable {lib : Library} {version : ℕ} {packet : Packet} {method : Method} {r : Result}

theorem itemOf_spec {entry : Entry} {item : Item} (h : itemOf lib version entry = .ok item) :
    item.Of entry := by
  rw [itemOf] at h
  obtain ⟨fields, hfields, h⟩ := bind_eq_ok.mp h
  obtain ⟨_, -, h⟩ := bind_eq_ok.mp h
  cases rights : entry.candidate.rights with
  | none =>
    rw [rights] at h
    cases h
  | some review =>
    rw [rights] at h
    obtain ⟨_, -, h⟩ := bind_eq_ok.mp h
    cases h
    refine ⟨rfl, fun field mem => ?_, rfl, rfl⟩
    obtain ⟨name, among, external⟩ := mem_filterMapE hfields mem
    by_cases permitted : name ∈ entry.permittedFields ∧
        fieldText entry.candidate.representation name ≠ ""
    · rw [if_pos permitted] at external
      obtain ⟨_, -, external⟩ := bind_eq_ok.mp external
      cases external
      exact ⟨among, permitted.1, rfl⟩
    · rw [if_neg permitted] at external
      cases external

/-- A request is made of a ready packet, and its items of entries without an exclusion. -/
theorem prepareRequest_spec {request : Request}
    (h : prepareRequest lib packet method = .ok request) :
    packet.readiness = .ready ∧ request.method = method ∧ request.schema = outputSchema ∧
      ∀ item ∈ request.input.evidence, ∃ entry ∈ packet.entries, entry.exclusions = [] ∧
        item.Of entry := by
  rw [prepareRequest] at h
  obtain ⟨projection, hprojection, h⟩ := bind_eq_ok.mp h
  obtain ⟨_, -, h⟩ := bind_eq_ok.mp h
  cases h
  rw [externalProjection] at hprojection
  obtain ⟨version, -, hprojection⟩ := bind_eq_ok.mp hprojection
  obtain ⟨_, -, hprojection⟩ := bind_eq_ok.mp hprojection
  obtain ⟨_, ready, hprojection⟩ := bind_eq_ok.mp hprojection
  obtain ⟨items, hitems, hprojection⟩ := bind_eq_ok.mp hprojection
  obtain ⟨_, -, hprojection⟩ := bind_eq_ok.mp hprojection
  cases hprojection
  refine ⟨require_eq_ok.mp ready, rfl, rfl, fun item mem => ?_⟩
  obtain ⟨entry, among, made⟩ := mem_mapE hitems mem
  obtain ⟨inside, free⟩ := List.mem_filter.mp among
  exact ⟨entry, inside, of_decide_eq_true free, itemOf_spec made⟩

/-! ## An accepted result -/

/-- A result a method can have over a packet. -/
structure Result.Admissible (lib : Library) (packet : Packet) (method : Method) (r : Result) :
    Prop where
  read : ∃ version request, methodVersion lib method = .ok version ∧
    prepareRequest lib packet method = .ok request ∧ r.method = request.method ∧
    r.requestSha256 = request.requestSha256 ∧
    ∃ out : Output, r.output.Same out.toVal ∧
      out.Valid lib version method.maxOutputTokens request.input.evidence
  model : r.returnedModel = method.requestedModel
  input : 0 ≤ r.inputTokens ∧ r.inputTokens ≤ method.maxInputTokens
  output : 0 ≤ r.outputTokens ∧ r.outputTokens ≤ method.maxOutputTokens
  capped : costOf method r.inputTokens r.outputTokens ≤ decimal method.maxCostUsd
  cost : r.costUsd = costText (costOf method r.inputTokens r.outputTokens)

/-- A response that states a result. -/
structure Responds (response : Val) (r : Result) : Prop where
  keys : response.hasKeys ["returned_model", "input_tokens", "output_tokens", "output"] = true
  model : response.getItem "returned_model" = .ok (.str r.returnedModel)
  inputTokens : response.getItem "input_tokens" = .ok (.int r.inputTokens)
  outputTokens : response.getItem "output_tokens" = .ok (.int r.outputTokens)
  output : response.getItem "output" = .ok r.output

theorem readTokens_eq_ok {response : Val} {key : String} {cap : ℕ} {n : ℤ} :
    readTokens response key cap = .ok n ↔
      response.getItem key = .ok (.int n) ∧ 0 ≤ n ∧ n ≤ cap := by
  rw [readTokens, bind_eq_ok]
  constructor
  · rintro ⟨v, hv, h⟩
    cases v with
    | int m =>
      obtain ⟨_, bounds, h⟩ := bind_eq_ok.mp h
      cases h
      exact ⟨hv, require_eq_ok.mp bounds⟩
    | _ => exact absurd h raise_ne_ok
  · rintro ⟨hv, bounds⟩
    exact ⟨_, hv, bind_eq_ok.mpr ⟨(), require_eq_ok.mpr bounds, rfl⟩⟩

theorem validateWith_eq_ok {response : Val} :
    validateWith lib packet response method = .ok r ↔
      Responds response r ∧ r.Admissible lib packet method := by
  constructor
  · intro h
    rw [validateWith] at h
    obtain ⟨version, hversion, h⟩ := bind_eq_ok.mp h
    obtain ⟨request, hrequest, h⟩ := bind_eq_ok.mp h
    obtain ⟨_, keys, h⟩ := bind_eq_ok.mp h
    obtain ⟨model, hmodel, h⟩ := bind_eq_ok.mp h
    obtain ⟨_, is_model, h⟩ := bind_eq_ok.mp h
    obtain ⟨input, hinput, h⟩ := bind_eq_ok.mp h
    obtain ⟨output, houtput, h⟩ := bind_eq_ok.mp h
    obtain ⟨_, capped, h⟩ := bind_eq_ok.mp h
    obtain ⟨value, hvalue, h⟩ := bind_eq_ok.mp h
    obtain ⟨out, hout, h⟩ := bind_eq_ok.mp h
    cases h
    obtain rfl := isStr_iff.mp (require_eq_ok.mp is_model)
    obtain ⟨hinput, input_bounds⟩ := readTokens_eq_ok.mp hinput
    obtain ⟨houtput, output_bounds⟩ := readTokens_eq_ok.mp houtput
    refine ⟨⟨require_eq_ok.mp keys, hmodel, hinput, houtput, hvalue⟩, ⟨version, request, hversion,
      hrequest, rfl, rfl, out, readOutput_eq_ok.mp hout⟩, rfl, input_bounds, output_bounds,
      require_eq_ok.mp capped, rfl⟩
  · rintro ⟨responds, admissible⟩
    obtain ⟨version, request, hversion, hrequest, method_eq, digest_eq, out, hout⟩ :=
      admissible.read
    have model := responds.model
    rw [admissible.model] at model
    rw [validateWith]
    refine bind_eq_ok.mpr ⟨version, hversion, bind_eq_ok.mpr ⟨request, hrequest, ?_⟩⟩
    refine bind_eq_ok.mpr ⟨(), require_eq_ok.mpr responds.keys, bind_eq_ok.mpr ⟨_, model, ?_⟩⟩
    refine bind_eq_ok.mpr ⟨(), require_eq_ok.mpr (isStr_iff.mpr rfl), ?_⟩
    refine bind_eq_ok.mpr ⟨_, readTokens_eq_ok.mpr ⟨responds.inputTokens, admissible.input⟩, ?_⟩
    refine bind_eq_ok.mpr ⟨_, readTokens_eq_ok.mpr ⟨responds.outputTokens, admissible.output⟩, ?_⟩
    refine bind_eq_ok.mpr ⟨(), require_eq_ok.mpr admissible.capped, ?_⟩
    refine bind_eq_ok.mpr ⟨_, responds.output, bind_eq_ok.mpr ⟨out, readOutput_eq_ok.mpr hout, ?_⟩⟩
    rw [← method_eq, ← digest_eq, ← admissible.model, ← admissible.cost]
    rfl

/-- The order of the entries of an output has no part in whether its result is admissible. -/
theorem Result.Admissible.same (admissible : r.Admissible lib packet method) {output : Val}
    (same : output.Same r.output) :
    ({ r with output := output } : Result).Admissible lib packet method := by
  obtain ⟨version, request, hversion, hrequest, method_eq, digest_eq, out, read, valid⟩ :=
    admissible.read
  exact ⟨⟨version, request, hversion, hrequest, method_eq, digest_eq, out, same.trans read, valid⟩,
    admissible.model, admissible.input, admissible.output, admissible.capped, admissible.cost⟩

/-- A citation quotes a permitted field of an entry without an exclusion, with what the entry is. -/
def Citation.Quotes (packet : Packet) (c : Citation) : Prop :=
  ∃ entry ∈ packet.entries, entry.exclusions = [] ∧ c.evidenceId = entry.candidate.id ∧
    c.field ∈ [Field.headline, .suppliedSummary] ∧ c.field ∈ entry.permittedFields ∧
    c.quote = fieldText entry.candidate.representation c.field ∧
    c.directness = entry.candidate.representation.quality.directness ∧
    c.conflictState = entry.conflictAtCutoff

/-- A claim over a packet says what an entry says, or only its template. -/
structure Claim.Grounded (packet : Packet) (claim : Claim) : Prop where
  cites : claim.citations ≠ [] ∧ ∀ c ∈ claim.citations, c.Quotes packet
  content : (claim.kind = .fact ∧ claim.relationship = .uncertain ∧
      ∃ c, claim.citations = [c] ∧ claim.statement = c.quote) ∨
    (claim.kind ≠ .fact ∧ claim.relationship ∈ qualifying ∧
      claim.statement = claim.relationship.template)
  settled : claim.kind = .fact → ∀ c ∈ claim.citations,
    c.conflictState ∉ [ConflictState.material, .unknown]

theorem Citation.Valid.quotes {request : Request} {c : Citation}
    (prepared : prepareRequest lib packet method = .ok request)
    (valid : c.Valid request.input.evidence relationship kind) : c.Quotes packet := by
  obtain ⟨item, found, field, id_eq, directness_eq, state_eq⟩ := valid.cites
  have mem := List.mem_reverse.mp (List.mem_of_find?_eq_some found)
  obtain ⟨entry, inside, free, of_entry⟩ := (prepareRequest_spec prepared).2.2.2 item mem
  obtain ⟨among, permitted, text⟩ := of_entry.fields _ (List.mem_of_find?_eq_some field)
  exact ⟨entry, inside, free, id_eq.trans of_entry.id, among, permitted, text,
    directness_eq.trans of_entry.directness, state_eq.trans of_entry.conflictState⟩

theorem Claim.Valid.grounded {request : Request} {s : Section} {claim : Claim}
    (prepared : prepareRequest lib packet method = .ok request)
    (valid : claim.Valid lib version request.input.evidence s) : claim.Grounded packet := by
  refine ⟨⟨?_, fun c mem => (valid.citations.each c mem).quotes prepared⟩, ?_, ?_⟩
  · rw [← List.length_pos_iff]
    exact valid.citations.bound.1
  · by_cases fact : claim.kind = .fact
    · exact .inl ⟨fact, valid.said.fact fact⟩
    · obtain ⟨admitted, text, -⟩ := valid.said.template fact
      exact .inr ⟨fact, admitted, text⟩
  · exact fun fact c mem conflict => ((valid.citations.each c mem).qualified conflict).2 fact

/-- What a caller of the boundary gets: claims grounded in a ready packet, within the caps. -/
structure Accepted (lib : Library) (packet : Packet) (response : Val) (r : Result) : Prop where
  ready : packet.readiness = .ready
  output : response.getItem "output" = .ok r.output
  claims : ∃ out : Output, r.output.Same out.toVal ∧ out.map Prod.fst = sections ∧
    ∀ s ∈ out, ∀ claim ∈ s.2, claim.Grounded packet
  tokens : response.getItem "input_tokens" = .ok (.int r.inputTokens) ∧
    response.getItem "output_tokens" = .ok (.int r.outputTokens) ∧
    0 ≤ r.inputTokens ∧ r.inputTokens ≤ (currentMethod lib).maxInputTokens ∧
    0 ≤ r.outputTokens ∧ r.outputTokens ≤ (currentMethod lib).maxOutputTokens
  cost : costOf (currentMethod lib) r.inputTokens r.outputTokens ≤
    decimal (currentMethod lib).maxCostUsd

theorem accepted_of_ok {response : Val} (h : validateResponse lib packet response = .ok r) :
    Accepted lib packet response r := by
  obtain ⟨responds, admissible⟩ := validateWith_eq_ok.mp h
  obtain ⟨version, request, -, prepared, -, -, out, same, valid⟩ := admissible.read
  refine ⟨(prepareRequest_spec prepared).1, responds.output, ⟨out, same, valid.sections, ?_⟩,
    ⟨responds.inputTokens, responds.outputTokens, admissible.input.1, admissible.input.2,
      admissible.output⟩, admissible.capped⟩
  exact fun s hs claim mem => ((valid.each s hs).each claim mem).grounded prepared

end

end TradeRecommender.Evidence.Context
