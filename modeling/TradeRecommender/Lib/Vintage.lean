import Mathlib.Order.Lattice
import Mathlib.Data.List.Forall2
import Mathlib.Data.List.Infix
import Mathlib.Data.List.Dedup
import Mathlib.Order.Defs.LinearOrder
import Mathlib.Tactic.Common

/-!
# Append-if-absent ledgers

A ledger that appends a delivered value unless it already holds it, at any position.  Such a
ledger keeps every distinct value once, in the order of first delivery (`replay`).  Its last entry
is the value delivered last exactly as long as no delivery returns to a value that was replaced
before (`tracks_iff_settled`).
-/

namespace Vintage

variable {α : Type*} [DecidableEq α]

/-- Append a value unless the ledger holds it already. -/
def record (l : List α) (v : α) : List α := if v ∈ l then l else l ++ [v]

/-- The ledger after a sequence of deliveries, oldest first. -/
def replay (vs : List α) : List α := vs.foldl record []

@[simp] theorem replay_nil : replay ([] : List α) = [] := rfl

@[simp] theorem replay_concat (vs : List α) (v : α) :
    replay (vs ++ [v]) = record (replay vs) v := by
  simp [replay]

theorem record_of_mem {l : List α} {v : α} (h : v ∈ l) : record l v = l := if_pos h

theorem record_of_not_mem {l : List α} {v : α} (h : v ∉ l) : record l v = l ++ [v] := if_neg h

@[simp] theorem mem_record {l : List α} {v w : α} : w ∈ record l v ↔ w ∈ l ∨ w = v := by
  by_cases h : v ∈ l
  · rw [record_of_mem h]
    exact ⟨Or.inl, fun hw => hw.elim id fun e => e ▸ h⟩
  · rw [record_of_not_mem h]
    simp

@[simp] theorem mem_replay {vs : List α} {w : α} : w ∈ replay vs ↔ w ∈ vs := by
  induction vs using List.reverseRecOn with
  | nil => simp
  | append_singleton vs v ih => simp [ih]

theorem nodup_record {l : List α} (hl : l.Nodup) (v : α) : (record l v).Nodup := by
  by_cases h : v ∈ l
  · rwa [record_of_mem h]
  · rw [record_of_not_mem h]
    simpa using hl.concat h

theorem nodup_replay (vs : List α) : (replay vs).Nodup := by
  induction vs using List.reverseRecOn with
  | nil => simp
  | append_singleton vs v ih => rw [replay_concat]; exact nodup_record ih v

theorem replay_prefix_concat (vs : List α) (v : α) : replay vs <+: replay (vs ++ [v]) := by
  rw [replay_concat]
  by_cases h : v ∈ replay vs
  · rw [record_of_mem h]
  · rw [record_of_not_mem h]
    exact List.prefix_append _ _

theorem length_record_le (l : List α) (v : α) : (record l v).length ≤ l.length + 1 := by
  unfold record
  split
  · omega
  · simp

theorem length_replay_append_le (vs ws : List α) :
    (replay (vs ++ ws)).length ≤ (replay vs).length + ws.length := by
  induction ws using List.reverseRecOn with
  | nil => simp
  | append_singleton ws w ih =>
    rw [← List.append_assoc, replay_concat, List.length_append, List.length_singleton]
    have step := length_record_le (replay (vs ++ ws)) w
    omega

/-- After every delivery the last entry is the value just delivered. -/
def Tracks (vs : List α) : Prop :=
  ∀ pre v, pre ++ [v] <+: vs → (replay (pre ++ [v])).getLast? = some v

/-- No delivery returns to a value that another one replaced before. -/
def Settled (vs : List α) : Prop :=
  ∀ pre v, pre ++ [v] <+: vs → v ∈ pre → pre.getLast? = some v

omit [DecidableEq α] in
theorem forall_concat_prefix {P : List α → α → Prop} {vs : List α} {v : α} :
    (∀ pre w, pre ++ [w] <+: vs ++ [v] → P pre w) ↔
      (∀ pre w, pre ++ [w] <+: vs → P pre w) ∧ P vs v := by
  constructor
  · intro h
    exact ⟨fun pre w hp => h pre w (hp.trans (List.prefix_append _ _)), h vs v List.prefix_rfl⟩
  · rintro ⟨h, hv⟩ pre w hp
    rcases List.prefix_concat_iff.mp hp with e | hp
    · obtain ⟨rfl, hw⟩ := List.append_inj' e rfl
      obtain rfl := List.singleton_inj.mp hw
      exact hv
    · exact h pre w hp

theorem tracks_concat {vs : List α} {v : α} :
    Tracks (vs ++ [v]) ↔ Tracks vs ∧ (replay (vs ++ [v])).getLast? = some v :=
  forall_concat_prefix

omit [DecidableEq α] in
theorem settled_concat {vs : List α} {v : α} :
    Settled (vs ++ [v]) ↔ Settled vs ∧ (v ∈ vs → vs.getLast? = some v) :=
  forall_concat_prefix

theorem Tracks.getLast?_replay {vs : List α} (h : Tracks vs) :
    (replay vs).getLast? = vs.getLast? := by
  induction vs using List.reverseRecOn with
  | nil => rfl
  | append_singleton vs v _ => rw [(tracks_concat.mp h).2, List.getLast?_concat]

/-- The last entry after one more delivery. -/
theorem getLast?_record_eq_some {l : List α} {v : α} :
    (record l v).getLast? = some v ↔ (v ∈ l → l.getLast? = some v) := by
  by_cases h : v ∈ l
  · rw [record_of_mem h]
    exact ⟨fun e _ => e, fun e => e h⟩
  · rw [record_of_not_mem h, List.getLast?_concat]
    exact ⟨fun _ hv => absurd hv h, fun _ => rfl⟩

/-- **Tracking.** The ledger's last entry follows the deliveries if and only if no delivery
returns to a replaced value. -/
theorem tracks_iff_settled (vs : List α) : Tracks vs ↔ Settled vs := by
  induction vs using List.reverseRecOn with
  | nil => simp [Tracks, Settled]
  | append_singleton vs v ih =>
    rw [tracks_concat, settled_concat, replay_concat, getLast?_record_eq_some, mem_replay, ih]
    refine and_congr_right fun hs => ?_
    rw [(ih.mpr hs).getLast?_replay]

/-! ## The newest entry with a property -/

/-- Entries stand in the order of their first delivery. -/
theorem pairwise_idxOf_replay (vs : List α) :
    (replay vs).Pairwise fun a b => vs.idxOf a < vs.idxOf b := by
  induction vs using List.reverseRecOn with
  | nil => simp
  | append_singleton vs v ih =>
    have before {a : α} (h : a ∈ replay vs) : (vs ++ [v]).idxOf a = vs.idxOf a :=
      List.idxOf_append_of_mem (mem_replay.mp h)
    have kept : (replay vs).Pairwise fun a b => (vs ++ [v]).idxOf a < (vs ++ [v]).idxOf b :=
      ih.imp_of_mem fun ha hb h => by rwa [before ha, before hb]
    rw [replay_concat]
    by_cases h : v ∈ replay vs
    · rwa [record_of_mem h]
    · rw [record_of_not_mem h, List.pairwise_append]
      refine ⟨kept, List.pairwise_singleton _ _, fun a ha b hb => ?_⟩
      obtain rfl := List.mem_singleton.mp hb
      have fresh : b ∉ vs := fun hb => h (mem_replay.mpr hb)
      rw [before ha, List.idxOf_append_of_notMem fresh, List.idxOf_cons_self]
      exact List.idxOf_lt_length_iff.mpr (mem_replay.mp ha)

omit [DecidableEq α] in
/-- The last element of a list that ascends along a measure has the largest one. -/
theorem getLast?_eq_some_of_ascending {κ : Type*} [LinearOrder κ] {f : α → κ} {l : List α}
    (ascending : l.Pairwise fun a b => f a < f b) {v : α} :
    l.getLast? = some v ↔ v ∈ l ∧ ∀ w ∈ l, f w ≤ f v := by
  induction l using List.reverseRecOn with
  | nil => simp
  | append_singleton l top _ =>
    obtain ⟨-, -, below⟩ := List.pairwise_append.mp ascending
    rw [List.getLast?_concat]
    constructor
    · rintro ⟨⟩
      refine ⟨by simp, fun w hw => ?_⟩
      rcases List.mem_append.mp hw with hw | hw
      · exact (below w hw _ (List.mem_singleton_self _)).le
      · rw [List.mem_singleton.mp hw]
    · rintro ⟨hv, largest⟩
      rcases List.mem_append.mp hv with hv | hv
      · have h₁ := below v hv top (List.mem_singleton_self _)
        exact absurd (largest top (by simp)) (not_le.mpr h₁)
      · rw [List.mem_singleton.mp hv]

/-- The newest entry with a property is the delivered one whose first delivery is latest. -/
theorem getLast?_filter_replay {vs : List α} {p : α → Bool} {v : α} :
    ((replay vs).filter p).getLast? = some v ↔
      v ∈ vs ∧ p v ∧ ∀ w ∈ vs, p w → vs.idxOf w ≤ vs.idxOf v := by
  rw [getLast?_eq_some_of_ascending ((pairwise_idxOf_replay vs).filter p)]
  simp only [List.mem_filter, mem_replay, and_imp, and_assoc]

theorem filter_replay_eq_nil {vs : List α} {p : α → Bool} :
    (replay vs).filter p = [] ↔ ∀ w ∈ vs, ¬ p w := by
  simp [List.filter_eq_nil_iff]

/-- **Selection.** The newest entry with a property is the last delivered value, if that has the
property, and there is none otherwise, exactly when every delivered value with the property was
first delivered no later than the last value, which then has it too. -/
theorem getLast?_filter_replay_eq_iff {vs : List α} {p : α → Bool} {last : Option α} :
    ((replay vs).filter p).getLast? = last.filter p ↔
      (∀ v, last = some v → p v → v ∈ vs) ∧
      ∀ w ∈ vs, p w → ∃ v, last = some v ∧ p v ∧ vs.idxOf w ≤ vs.idxOf v := by
  cases kept : last.filter p with
  | none =>
    have absent (v : α) (hv : last = some v) : ¬ p v := by
      rintro hp
      rw [hv, Option.filter_some, if_pos hp] at kept
      cases kept
    rw [List.getLast?_eq_none_iff, filter_replay_eq_nil]
    constructor
    · exact fun none => ⟨fun v hv hp => absurd hp (absent v hv), fun w hw hp =>
        absurd hp (none w hw)⟩
    · rintro ⟨-, all⟩ w hw hp
      obtain ⟨v, hv, hpv, -⟩ := all w hw hp
      exact absent v hv hpv
  | some v =>
    obtain ⟨hv, hp⟩ := Option.filter_eq_some_iff.mp kept
    rw [getLast?_filter_replay]
    constructor
    · rintro ⟨member, -, largest⟩
      refine ⟨fun v' hv' _ => ?_, fun w hw hpw => ⟨v, hv, hp, largest w hw hpw⟩⟩
      rw [hv] at hv'
      cases hv'
      exact member
    · rintro ⟨stored, all⟩
      refine ⟨stored v hv hp, hp, fun w hw hpw => ?_⟩
      obtain ⟨v', hv', -, le⟩ := all w hw hpw
      rw [hv] at hv'
      cases hv'
      exact le

/-! ## Lists that store a ledger -/

section
variable {β γ : Type*} {R : β → γ → Prop} {l : List β} {m : List γ}

theorem forall₂_concat (h : List.Forall₂ R l m) {b : β} {c : γ} (hbc : R b c) :
    List.Forall₂ R (l ++ [b]) (m ++ [c]) := by
  induction h with
  | nil => exact List.Forall₂.cons hbc List.Forall₂.nil
  | cons first _ ih => exact List.Forall₂.cons first ih

/-- Related lists stay related under filters that agree on related elements. -/
theorem forall₂_filter {p : β → Bool} {q : γ → Bool} (h : List.Forall₂ R l m)
    (agree : ∀ b ∈ l, ∀ c, R b c → p b = q c) :
    List.Forall₂ R (l.filter p) (m.filter q) := by
  induction h with
  | nil => exact List.Forall₂.nil
  | @cons b c l m first rest ih =>
    have same := agree b List.mem_cons_self c first
    have tail := ih fun b hb => agree b (List.mem_cons_of_mem _ hb)
    rw [List.filter_cons, List.filter_cons, same]
    split
    · exact List.Forall₂.cons first tail
    · exact tail

/-- The last elements of related lists are related. -/
theorem forall₂_getLast? (h : List.Forall₂ R l m) :
    (l.getLast? = none ∧ m.getLast? = none) ∨
      ∃ b c, l.getLast? = some b ∧ m.getLast? = some c ∧ R b c := by
  induction h with
  | nil => exact Or.inl ⟨rfl, rfl⟩
  | @cons b c l m first rest ih =>
    cases rest with
    | nil => exact Or.inr ⟨b, c, rfl, rfl, first⟩
    | cons _ _ =>
      rw [List.getLast?_cons_cons, List.getLast?_cons_cons]
      exact ih

theorem forall₂_exists_left (h : List.Forall₂ R l m) {c : γ} (hc : c ∈ m) : ∃ b ∈ l, R b c := by
  induction h with
  | nil => cases hc
  | cons first _ ih =>
    rcases List.mem_cons.mp hc with rfl | hc
    · exact ⟨_, List.mem_cons_self, first⟩
    · obtain ⟨b, hb, hr⟩ := ih hc
      exact ⟨b, List.mem_cons_of_mem _ hb, hr⟩

theorem forall₂_exists_right (h : List.Forall₂ R l m) {b : β} (hb : b ∈ l) : ∃ c ∈ m, R b c := by
  induction h with
  | nil => cases hb
  | cons first _ ih =>
    rcases List.mem_cons.mp hb with rfl | hb
    · exact ⟨_, List.mem_cons_self, first⟩
    · obtain ⟨c, hc, hr⟩ := ih hb
      exact ⟨c, List.mem_cons_of_mem _ hc, hr⟩

end

omit [DecidableEq α] in
theorem pairwise_of_length_le_one {r : α → α → Prop} {l : List α}
    (h : l.length ≤ 1) : l.Pairwise r := by
  match l with
  | [] => exact List.Pairwise.nil
  | [a] => exact List.pairwise_singleton r a

/-! ## One value per key -/

/-- Where the keys are distinct, at most one element has a given key. -/
theorem filter_key_cases {β κ : Type*} [DecidableEq κ] {key : β → κ} {l : List β}
    (nodup : (l.map key).Nodup) (k : κ) :
    l.filter (key · = k) = [] ∨ ∃ a ∈ l, key a = k ∧ l.filter (key · = k) = [a] := by
  cases found : l.filter (key · = k) with
  | nil => exact Or.inl rfl
  | cons a rest =>
    have member {b : β} (h : b ∈ a :: rest) : b ∈ l ∧ key b = k := by
      rw [← found, List.mem_filter] at h
      exact ⟨h.1, of_decide_eq_true h.2⟩
    obtain ⟨ha, hk⟩ := member List.mem_cons_self
    refine Or.inr ⟨a, ha, hk, ?_⟩
    cases rest with
    | nil => rfl
    | cons b rest =>
      have hb := member (List.mem_cons_of_mem _ List.mem_cons_self)
      have same : b = a := List.inj_on_of_nodup_map nodup hb.1 ha (hb.2.trans hk.symm)
      have distinct : (a :: b :: rest).Nodup := found ▸ (List.Nodup.of_map _ nodup).filter _
      simp [same] at distinct

end Vintage
