import Mathlib.Data.List.Nodup
import Statechart.Proofs.Relocation

/-!
# Assembled nodes as fragments

An assembled node can be taken apart into one fragment for each facet that is set. Assembling these
again gives the node back, in whatever order they stand and wherever they are nested
(`assemble_setFacets`).
-/

namespace Statechart

/-! ## The facets of a node as fragments -/

variable {ν : Type} [Assemblable ν] [Faceted ν]

theorem mem_setFacets {n : ν} {p : Fragment} :
    p ∈ setFacets n ↔ p.facet ∈ Faceted.facets ν ∧ Faceted.facet? n p.facet = some p := by
  rw [setFacets, List.mem_filterMap]
  constructor
  · rintro ⟨f, hf, hp⟩
    rw [Faceted.facet_of_facet? hp]
    exact ⟨hf, hp⟩
  · rintro ⟨hf, hp⟩
    exact ⟨p.facet, hf, hp⟩

theorem facets_setFacets (n : ν) :
    (setFacets n).map Fragment.facet =
      (Faceted.facets ν).filter fun f => (Faceted.facet? n f).isSome := by
  have hfacet (f : Facet) : (Faceted.facet? n f).map Fragment.facet =
      if (Faceted.facet? n f).isSome then some f else none := by
    cases h : Faceted.facet? n f with
    | none => rfl
    | some p => exact congrArg some (Faceted.facet_of_facet? h)
  rw [setFacets, List.map_filterMap, ← List.filterMap_eq_filter]
  exact List.filterMap_congr fun f _ => by rw [hfacet, Option.guard]

theorem nodup_facets_setFacets (n : ν) : ((setFacets n).map Fragment.facet).Nodup := by
  rw [facets_setFacets]
  exact Faceted.nodup_facets.filter _

/-- Among fragments of distinct facets, the last one for a facet is the only one. -/
theorem findRev?_of_mem {ps : List Fragment} (h : (ps.map Fragment.facet).Nodup) {p : Fragment}
    (hp : p ∈ ps) : ps.findRev? (·.facet = p.facet) = some p := by
  rw [List.findRev?_eq_find?_reverse]
  cases hq : ps.reverse.find? (·.facet = p.facet) with
  | none => simpa using List.find?_eq_none.mp hq p (List.mem_reverse.mpr hp)
  | some q =>
      have hfacet := List.find?_some hq
      have hmem : q ∈ ps := List.mem_reverse.mp (List.mem_of_find?_eq_some hq)
      rw [List.inj_on_of_nodup_map h hmem hp (of_decide_eq_true hfacet)]

/-- A node is described by the fragments for its facets, in any order. -/
theorem describes_of_perm {n : ν} {ps : List Fragment} (h : ps.Perm (setFacets n))
    (hfacets : ∀ f p, Faceted.facet? n f = some p → f ∈ Faceted.facets ν)
    (hbare : Faceted.bare n = Assemblable.blank) : Describes ps n where
  facet f := by
    have hnodup : (ps.map Fragment.facet).Nodup :=
      (h.map Fragment.facet).nodup_iff.mpr (nodup_facets_setFacets n)
    cases hp : Faceted.facet? n f with
    | some p =>
        have hfacet : p.facet = f := Faceted.facet_of_facet? hp
        subst hfacet
        exact (findRev?_of_mem hnodup (h.mem_iff.mpr (mem_setFacets.mpr ⟨hfacets _ p hp, hp⟩))).symm
    | none =>
        rw [List.findRev?_eq_find?_reverse, eq_comm, List.find?_eq_none]
        intro q hq hfacet
        have hset := (mem_setFacets.mp (h.mem_iff.mp (List.mem_reverse.mp hq))).2
        rw [of_decide_eq_true hfacet, hp] at hset
        cases hset
  bare := hbare

/-! ## Tables that assembly leaves as they are -/

theorem mem_onClause {table : EventTable} {p : Fragment} :
    p ∈ onClause table ↔ table.entries ≠ [] ∧ p = .on table := by
  unfold onClause
  split <;> simp [*]

theorem distinct_mergedEvents (fs : List Fragment) : (mergedEvents fs).Distinct := by
  rw [mergedEvents, ← Table.ofList_eq_gathered]
  exact Table.distinct_ofList _

theorem get?_otherEvents (table : EventTable) (event : String) :
    (otherEvents table).get? event =
      if event = errorEvent ∨ event = doneEvent then none else table.get? event := by
  rw [otherEvents, ← unreserved_eq, unreserved, Table.get?_erase, Table.get?_erase]
  split_ifs <;> simp_all

theorem otherEvents_otherEvents (table : EventTable) :
    otherEvents (otherEvents table) = otherEvents table := by
  simp [otherEvents, List.filter_filter]

theorem distinct_otherEvents {table : EventTable} (h : table.Distinct) :
    (otherEvents table).Distinct :=
  h.sublist (List.filter_sublist.map _)

theorem on_mem_eventClauses {table rest : EventTable} :
    .on rest ∈ eventClauses true table ↔ .on rest ∈ onClause (otherEvents table) := by
  simp [eventClauses, otherEvents]

/-- The events that are left to a table by its clauses are all that it then has. -/
theorem eventClauses_of_on {relocate : Bool} {table rest : EventTable} (hdistinct : table.Distinct)
    (h : .on rest ∈ eventClauses relocate table) :
    eventClauses relocate (Table.gathered rest.entries) = [.on rest] := by
  cases relocate with
  | false =>
      obtain ⟨hne, he⟩ := mem_onClause.mp h
      cases he
      rw [Table.gathered_entries hdistinct]
      exact if_neg hne
  | true =>
      obtain ⟨hne, he⟩ := mem_onClause.mp (on_mem_eventClauses.mp h)
      cases he
      rw [Table.gathered_entries (distinct_otherEvents hdistinct), eventClauses, if_pos rfl, ← otherEvents,
        otherEvents_otherEvents, get?_otherEvents, get?_otherEvents]
      simp [onClause, hne]

/-! ## Assembled nodes -/

/-- What is known of a node that was assembled from some list of fragments. -/
structure Assembled (relocate : Bool) (n : ν) : Prop where
  accepts : ∀ p ∈ setFacets n, accepts ν p = true
  facets : ∀ f p, Faceted.facet? n f = some p → f ∈ Faceted.facets ν
  bare : Faceted.bare n = Assemblable.blank
  on : ∀ table, .on table ∈ setFacets n →
    eventClauses relocate (Table.gathered table.entries) = [.on table]

theorem mem_effective {options : Options} {fs : List Fragment} {n : ν}
    (h : (assemble options fs).outcome = .ok n) {f : Facet} {p : Fragment}
    (hp : Faceted.facet? n f = some p) : p ∈ effective options.relocateReservedEvents fs := by
  rw [(outcome_assemble_eq_ok_iff.mp h).2.2.2.facet f, List.findRev?_eq_find?_reverse] at hp
  exact List.mem_reverse.mp (List.mem_of_find?_eq_some hp)

theorem assembled_of_outcome {options : Options} {fs : List Fragment} {n : ν}
    (h : (assemble options fs).outcome = .ok n) : Assembled options.relocateReservedEvents n := by
  obtain ⟨_, haccepts, _, hn⟩ := outcome_assemble_eq_ok_iff.mp h
  refine ⟨fun p hp => haccepts p (mem_effective h (mem_setFacets.mp hp).2), fun f p hp => ?_,
    hn.bare, fun table htable => ?_⟩
  · have haccept := haccepts p (mem_effective h hp)
    rw [Statechart.accepts, Faceted.facet_of_facet? hp, Bool.and_eq_true] at haccept
    exact of_decide_eq_true haccept.1
  · rcases List.mem_append.mp (mem_effective h (mem_setFacets.mp htable).2) with hrest | hclause
    · exact absurd rfl (of_decide_eq_true (List.mem_filter.mp hrest).2)
    · exact eventClauses_of_on (distinct_mergedEvents _) hclause

namespace Assembled

variable {relocate : Bool} {n : ν}

/-- Uniting the only event table of a node changes nothing. -/
theorem eventClauses_of_perm (h : Assembled relocate n) {ps : List Fragment} (hps : ps.Perm (setFacets n)) :
    eventClauses relocate (mergedEvents ps) = (setFacets n).filter (·.facet = .on) := by
  have hperm := hps.filter (·.facet = .on)
  rw [mergedEvents, filterMap_on?]
  cases hon : (setFacets n).filter (·.facet = .on) with
  | nil =>
      rw [hon, List.perm_nil] at hperm
      rw [hperm]
      exact eventClauses_nil relocate
  | cons p rest =>
      have hfacet : ∀ q ∈ p :: rest, q ∈ setFacets n ∧ q.facet = .on := by
        intro q hq
        rw [← hon] at hq
        simpa using hq
      have hnodup : ((p :: rest).map Fragment.facet).Nodup := by
        rw [← hon]
        exact (nodup_facets_setFacets n).sublist (List.filter_sublist.map _)
      obtain ⟨hmem, hp⟩ := hfacet p List.mem_cons_self
      obtain rfl : rest = [] := List.eq_nil_iff_forall_not_mem.mpr fun q hq =>
        (List.nodup_cons.mp hnodup).1 (List.mem_map.mpr
          ⟨q, hq, (hfacet q (List.mem_cons_of_mem _ hq)).2.trans hp.symm⟩)
      cases p with
      | on table =>
          have htables : [Fragment.on table].filterMap Fragment.on? = [table] := rfl
          rw [hon, List.perm_singleton] at hperm
          rw [hperm, htables, List.flatMap_singleton]
          exact h.on table hmem
      | _ => cases hp

theorem perm_effective (h : Assembled relocate n) {gs : List Fragment}
    (hgs : (unnested gs).Perm (setFacets n)) : (effective relocate gs).Perm (setFacets n) := by
  have hrest := hgs.filter fun p => !decide (p.facet = .on)
  have hsplit := List.filter_append_perm (·.facet = .on) (setFacets n)
  rw [effective, h.eventClauses_of_perm hgs]
  simp only [ne_eq, decide_not]
  exact (hrest.append_right _).trans (List.perm_append_comm.trans hsplit)

end Assembled

variable (ν) in
/-- The fragments for the facets of an assembled node are assembled into it, in any order, with any
of them nested, and under any policy. -/
theorem assemble_setFacets {options : Options} {fs : List Fragment} {n : ν}
    (hn : (assemble options fs).outcome = .ok n) {gs : List Fragment}
    (hnested : gs.countP (·.isNested) ≤ 1) (hgs : (unnested gs).Perm (setFacets n))
    (policy : DuplicatePolicy) :
    (assemble ⟨policy, options.relocateReservedEvents⟩ gs).outcome = .ok n := by
  have h := assembled_of_outcome hn
  have hperm := h.perm_effective hgs
  exact outcome_assemble_eq_ok_iff.mpr ⟨hnested, fun p hp => h.accepts p (hperm.mem_iff.mp hp),
    fun _ => (hperm.map _).nodup_iff.mpr (nodup_facets_setFacets n),
    describes_of_perm hperm h.facets h.bare⟩

/-- Facets in reverse order, some of them nested, are accepted where repetitions are rejected. -/
theorem assemble_setFacets_reversed :
    ∃ (n : StateNode) (gs : List Fragment),
      n = { initial := some "a", onDone := some [.ofTarget "a"], on := some ⟨[("GO", [])]⟩ } ∧
      gs = [.onDone [.ofTarget "a"], .nested [.on ⟨[("GO", [])]⟩, .initial "a"]] ∧
      (assemble {} [.onDone [], .on ⟨[("done", [.ofTarget "a"]), ("GO", [])]⟩, .initial "b",
        .nested [.initial "a"]]).outcome = .ok n ∧
      gs.countP (·.isNested) ≤ 1 ∧ (unnested gs).Perm (setFacets n) ∧
      (assemble ⟨.reject, true⟩ gs).outcome = .ok n := by
  have hn : (assemble {} [.onDone [], .on ⟨[("done", [.ofTarget "a"]), ("GO", [])]⟩, .initial "b",
      .nested [.initial "a"]]).outcome = .ok
        ({ initial := some "a", onDone := some [.ofTarget "a"], on := some ⟨[("GO", [])]⟩ } :
          StateNode) := rfl
  have hgs : (unnested [.onDone [.ofTarget "a"], .nested [.on ⟨[("GO", [])]⟩, .initial "a"]]).Perm
      (setFacets
        ({ initial := some "a", onDone := some [.ofTarget "a"], on := some ⟨[("GO", [])]⟩ } :
          StateNode)) :=
    List.reverse_perm
      ([.initial "a", .on ⟨[("GO", [])]⟩, .onDone [.ofTarget "a"]] : List Fragment)
  exact ⟨_, _, rfl, rfl, hn, by decide, hgs, assemble_setFacets StateNode hn (by decide) hgs .reject⟩

end Statechart
