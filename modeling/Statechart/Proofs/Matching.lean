import Mathlib.Data.List.Perm.Subperm
import Statechart.Proofs.Related
import Statechart.Proofs.Union

/-!
# Tables that match

A table matches another if it has as many entries and each of them is found with a related value in
the other; so equal tables are those that match by equality (`Table.beq_iff_matches`). For tables with
distinct keys this is a matter of what is found under each key (`Table.Matches.rel_get?`), it goes both
ways (`Table.Matches.symm`), and unions of matching tables match (`Table.Matches.unions`).
-/

namespace Statechart.Table

variable {α β γ δ : Type} {R : α → β → Prop} {S : γ → δ → Prop}

/-- As many entries, and each of the first table is found with a related value in the second. -/
structure Matches (R : α → β → Prop) (t : Table α) (u : Table β) : Prop where
  size : t.size = u.size
  found : ∀ e ∈ t.entries, ∃ v, u.get? e.1 = some v ∧ R e.2 v

theorem beq_iff_matches [BEq α] {t u : Table α} : t == u ↔ t.Matches (· == ·) u := by
  have hbeq : (t == u) =
      (t.size == u.size && t.entries.all fun e => (u.get? e.1).any (e.2 == ·)) := rfl
  rw [hbeq, Bool.and_eq_true, beq_iff_eq, List.all_eq_true]
  simp only [Option.any_eq_true]
  exact ⟨fun h => ⟨h.1, h.2⟩, fun h => ⟨h.size, h.found⟩⟩

/-! ## Tables with any keys -/

theorem length_keys (t : Table α) : t.keys.length = t.size := List.length_map _

theorem get?_of_mem {t : Table α} (ht : t.Distinct) {e : String × α} (he : e ∈ t.entries) :
    t.get? e.1 = some e.2 := by
  rw [entries_eq ht] at he
  obtain ⟨k, _, hk⟩ := List.mem_filterMap.mp he
  obtain ⟨v, hv, rfl⟩ := Option.map_eq_some_iff.mp hk
  exact hv

theorem mem_of_get? {t : Table α} {k : String} {v : α} (h : t.get? k = some v) :
    (k, v) ∈ t.entries := by
  rw [get?, List.lookup_eq_some_iff] at h
  obtain ⟨before, after, hentries, -⟩ := h
  rw [hentries]
  exact List.mem_append_right before List.mem_cons_self

theorem Matches.trans {R' : β → γ → Prop} {R'' : α → γ → Prop} {t : Table α} {u : Table β}
    {w : Table γ} (h : t.Matches R u) (h' : u.Matches R' w)
    (hR : ∀ e ∈ t.entries, ∀ b c, R e.2 b → R' b c → R'' e.2 c) : t.Matches R'' w where
  size := h.size.trans h'.size
  found := by
    intro e he
    obtain ⟨b, hb, hab⟩ := h.found e he
    obtain ⟨c, hc, hbc⟩ := h'.found _ (mem_of_get? hb)
    exact ⟨c, hc, hR e he b c hab hbc⟩

theorem Matches.map {t : Table α} {u : Table β} (h : t.Matches R u) {f : α → γ} {g : β → δ}
    (hfg : ∀ e ∈ t.entries, ∀ v, R e.2 v → S (f e.2) (g v)) : (t.map f).Matches S (u.map g) where
  size := by rw [← length_keys, ← length_keys, keys_map, keys_map, length_keys, length_keys, h.size]
  found := by
    intro e he
    obtain ⟨e, hmem, rfl⟩ := List.mem_map.mp he
    obtain ⟨v, hv, hR⟩ := h.found e hmem
    exact ⟨g v, by rw [get?_map, hv]; rfl, hfg e hmem v hR⟩

/-- Tables match whose entries are related in their order. -/
theorem matches_of_forall₂ {es : List (String × α)} {es' : List (String × β)}
    (h : List.Forall₂ (fun e e' => e.1 = e'.1 ∧ R e.2 e'.2) es es') (hdistinct : (es'.map (·.1)).Nodup) :
    Matches R ⟨es⟩ ⟨es'⟩ where
  size := h.length_eq
  found := by
    have hfound (e) (he : e ∈ es) : ∃ e' ∈ es', e.1 = e'.1 ∧ R e.2 e'.2 := by
      clear hdistinct
      induction h with
      | nil => cases he
      | cons hab _ ih =>
          cases he with
          | head => exact ⟨_, List.mem_cons_self, hab⟩
          | tail _ he =>
              obtain ⟨e', he', hR⟩ := ih he
              exact ⟨e', List.mem_cons_of_mem _ he', hR⟩
    intro e he
    obtain ⟨e', he', hkey, hR⟩ := hfound e he
    exact ⟨e'.2, hkey ▸ get?_of_mem (t := ⟨es'⟩) hdistinct he', hR⟩

theorem Matches.isEmpty_eq {t : Table α} {u : Table β} (h : t.Matches R u) :
    t.isEmpty = u.isEmpty := by
  obtain ⟨es⟩ := t
  obtain ⟨es'⟩ := u
  have hsize : es.length = es'.length := h.size
  cases es <;> cases es' <;> first | rfl | cases hsize

/-! ## Tables with distinct keys -/

section

variable {t : Table α} {u : Table β} (ht : t.Distinct)

include ht

theorem Matches.perm_keys (h : t.Matches R u) : t.keys.Perm u.keys := by
  have hsubset : t.keys ⊆ u.keys := by
    intro k hk
    obtain ⟨e, he, rfl⟩ := List.mem_map.mp hk
    obtain ⟨v, hv, -⟩ := h.found e he
    exact mem_keys_iff.mpr (by rw [hv]; rfl)
  have hle : u.keys.length ≤ t.keys.length :=
    Nat.le_of_eq (by rw [length_keys, length_keys, h.size])
  exact (List.subperm_of_subset ht hsubset).perm_of_length_le hle

theorem Matches.distinct (h : t.Matches R u) : u.Distinct := (h.perm_keys ht).nodup_iff.mp ht

/-- The second table has no other keys than the first, so that matching goes both ways. -/
theorem Matches.symm {R' : β → α → Prop} (h : t.Matches R u)
    (hR : ∀ e ∈ t.entries, ∀ b, R e.2 b → R' b e.2) : u.Matches R' t where
  size := h.size.symm
  found := by
    intro e he
    have hk : e.1 ∈ t.keys := (h.perm_keys ht).mem_iff.mpr (List.mem_map_of_mem he)
    obtain ⟨e', he', hkey⟩ := List.mem_map.mp hk
    obtain ⟨v, hv, hab⟩ := h.found e' he'
    rw [hkey, get?_of_mem (h.distinct ht) he] at hv
    obtain rfl : e.2 = v := Option.some.inj hv
    exact ⟨e'.2, hkey ▸ get?_of_mem ht he', hR e' he' _ hab⟩

theorem Matches.rel_get? (h : t.Matches R u) (k : String) : Option.Rel R (t.get? k) (u.get? k) := by
  cases hv : t.get? k with
  | some v =>
      have hk : k ∈ t.keys := mem_keys_iff.mpr (by rw [hv]; rfl)
      obtain ⟨e, he, rfl⟩ := List.mem_map.mp hk
      obtain ⟨w, hw, hR⟩ := h.found e he
      obtain rfl : e.2 = v := Option.some.inj ((get?_of_mem ht he).symm.trans hv)
      rw [hw]
      exact .some hR
  | none =>
      -- The keys of both tables are the same, so the second does not have it either.
      have hk : k ∉ u.keys := by
        rw [← (h.perm_keys ht).mem_iff, mem_keys_iff, hv]
        nofun
      rw [mem_keys_iff, Option.not_isSome_iff_eq_none] at hk
      rw [hk]
      exact .none

theorem matches_of_rel_get? (hu : u.Distinct) (h : ∀ k, Option.Rel R (t.get? k) (u.get? k)) :
    t.Matches R u where
  size := by
    have hperm : t.keys.Perm u.keys := (List.perm_ext_iff_of_nodup ht hu).mpr fun k => by
      rw [mem_keys_iff, mem_keys_iff, isSome_eq_of_rel (h k)]
    rw [← length_keys, ← length_keys, hperm.length_eq]
  found := by
    intro e he
    have hrel := h e.1
    rw [get?_of_mem ht he] at hrel
    generalize u.get? e.1 = x at hrel
    cases hrel with
    | some hR => exact ⟨_, rfl, hR⟩

theorem Matches.insert (h : t.Matches R u) (k : String) {a : α} {b : β} (hab : R a b) :
    (t.insert k a).Matches R (u.insert k b) := by
  refine matches_of_rel_get? (ht.insert k a) ((h.distinct ht).insert k b) fun k' => ?_
  rw [get?_insert, get?_insert]
  by_cases hk : k' = k
  · rw [if_pos hk, if_pos hk]
    exact .some hab
  · rw [if_neg hk, if_neg hk]
    exact h.rel_get? ht k'

theorem Matches.erase (h : t.Matches R u) (k : String) : (t.erase k).Matches R (u.erase k) := by
  refine matches_of_rel_get? (ht.erase k) ((h.distinct ht).erase k) fun k' => ?_
  rw [get?_erase, get?_erase]
  by_cases hk : k' = k
  · rw [if_pos hk, if_pos hk]
    exact .none
  · rw [if_neg hk, if_neg hk]
    exact h.rel_get? ht k'

end

theorem beq_iff_rel_get? [BEq α] {t u : Table α} (ht : t.Distinct) (hu : u.Distinct) :
    t == u ↔ t.size = u.size ∧ ∀ k, Option.Rel (· == ·) (t.get? k) (u.get? k) := by
  rw [beq_iff_matches]
  constructor
  · intro h
    exact ⟨h.size, h.rel_get? ht⟩
  · rintro ⟨-, h⟩
    exact matches_of_rel_get? ht hu h

theorem Matches.unions {ts : List (Table α)} {us : List (Table β)} (hts : ∀ t ∈ ts, t.Distinct)
    (h : List.Forall₂ (Matches R) ts us) : (unions ts).Matches R (unions us) := by
  have hrel : List.Forall₂ (fun t u => t.Distinct ∧ t.Matches R u) ts us :=
    (List.forall₂_and_left ts us).mpr ⟨hts, h⟩
  have hus : ∀ u ∈ us, u.Distinct := by
    have hflip := (hrel.imp fun t u h => And.intro (h.2.distinct h.1) h.2).flip
    exact ((List.forall₂_and_left us ts).mp hflip).1
  refine matches_of_rel_get? (distinct_unions ts) (distinct_unions us) fun k => ?_
  rw [get?_unions hts, get?_unions hus]
  exact rel_findSomeRev? hrel fun _ _ h => h.2.rel_get? h.1 k

end Statechart.Table
