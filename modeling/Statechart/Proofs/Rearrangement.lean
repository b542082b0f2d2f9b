import Statechart.Proofs.Meaning

/-!
# The order of fragments

Fragments of different facets can change places: what a list is assembled into depends only on the
order of the fragments of one facet among themselves (`assemble_rearranged`).
-/

namespace Statechart

/-! ## Lists that agree facet by facet -/

/-- The same fragments, and in the same order where they describe the same facet. -/
structure AgreeByFacet (ps qs : List Fragment) : Prop where
  perm : ps.Perm qs
  facet (f : Facet) : ps.filter (·.facet = f) = qs.filter (·.facet = f)

namespace AgreeByFacet

variable {ps qs : List Fragment}

theorem findRev? (h : AgreeByFacet ps qs) (f : Facet) :
    ps.findRev? (·.facet = f) = qs.findRev? (·.facet = f) := by
  rw [List.findRev?_eq_find?_reverse, List.findRev?_eq_find?_reverse, ← List.getLast?_filter,
    ← List.getLast?_filter, h.facet f]

theorem filter (h : AgreeByFacet ps qs) (keep : Fragment → Bool) :
    AgreeByFacet (ps.filter keep) (qs.filter keep) where
  perm := h.perm.filter keep
  facet f := by rw [List.filter_comm, h.facet f, List.filter_comm]

theorem append_right (h : AgreeByFacet ps qs) (rs : List Fragment) :
    AgreeByFacet (ps ++ rs) (qs ++ rs) where
  perm := h.perm.append_right rs
  facet f := by rw [List.filter_append, List.filter_append, h.facet f]

theorem mergedEvents (h : AgreeByFacet ps qs) : mergedEvents ps = mergedEvents qs := by
  rw [Statechart.mergedEvents, Statechart.mergedEvents, filterMap_on? ps, filterMap_on? qs,
    h.facet .on]

theorem describes {ν : Type} [Assemblable ν] [Faceted ν] {n : ν} (h : AgreeByFacet ps qs) :
    Describes ps n ↔ Describes qs n := by
  constructor
  · rintro ⟨hfacet, hbare⟩
    exact ⟨fun f => (hfacet f).trans (h.findRev? f), hbare⟩
  · rintro ⟨hfacet, hbare⟩
    exact ⟨fun f => (hfacet f).trans (h.findRev? f).symm, hbare⟩

end AgreeByFacet

/-! ## Rearranged lists -/

/-- A list with fragments in other places, but fragments of one facet in the same order, and likewise
those about nested states. -/
structure Rearranged (fs gs : List Fragment) : Prop where
  perm : fs.Perm gs
  facet (f : Facet) : (fs.filter fun p => !p.isNested && p.facet = f) =
    gs.filter fun p => !p.isNested && p.facet = f
  nested : fs.filter (·.isNested) = gs.filter (·.isNested)

namespace Rearranged

variable {fs gs : List Fragment}

theorem unnested (h : Rearranged fs gs) : AgreeByFacet (unnested fs) (unnested gs) := by
  have hflat : AgreeByFacet (fs.filter (!·.isNested)) (gs.filter (!·.isNested)) :=
    { perm := h.perm.filter _
      facet := fun f => by simpa only [List.filter_filter, Bool.and_comm] using h.facet f }
  rw [Statechart.unnested, Statechart.unnested, flatMap_contents fs, flatMap_contents gs, h.nested]
  exact hflat.append_right _

theorem effective (h : Rearranged fs gs) (relocate : Bool) :
    AgreeByFacet (effective relocate fs) (effective relocate gs) := by
  rw [Statechart.effective, Statechart.effective, h.unnested.mergedEvents]
  exact (h.unnested.filter _).append_right _

theorem outcome_assemble_iff {ν : Type} [Assemblable ν] [Faceted ν] (h : Rearranged fs gs)
    (options : Options) (n : ν) :
    (assemble options fs).outcome = .ok n ↔ (assemble options gs).outcome = .ok n := by
  have heff := h.effective options.relocateReservedEvents
  rw [outcome_assemble_eq_ok_iff, outcome_assemble_eq_ok_iff, h.perm.countP_eq, heff.describes,
    (heff.perm.map Fragment.facet).nodup_iff]
  simp only [heff.perm.mem_iff]

end Rearranged

variable (ν : Type) [Assemblable ν] [Faceted ν]

/-- A rearranged list is assembled into the same node, or neither list into any. -/
theorem assemble_rearranged (options : Options) {fs gs : List Fragment} (h : Rearranged fs gs) :
    ((∃ e, (assemble options fs : Report ν).outcome = .error e) ∧
      ∃ e, (assemble options gs : Report ν).outcome = .error e) ∨
    ∃ n : ν, (assemble options fs).outcome = .ok n ∧ (assemble options gs).outcome = .ok n := by
  cases hf : (assemble options fs : Report ν).outcome with
  | ok n => exact Or.inr ⟨n, rfl, (h.outcome_assemble_iff options n).mp hf⟩
  | error e =>
      cases hg : (assemble options gs : Report ν).outcome with
      | ok n =>
          rw [(h.outcome_assemble_iff options n).mpr hg] at hf
          cases hf
      | error e' => exact Or.inl ⟨⟨e, rfl⟩, e', rfl⟩

/-- A nested initial state moves past an explicit one, and an event table past a clause for an event
that it has. -/
theorem assemble_rearranged_nested :
    ∃ fs gs : List Fragment,
      fs = [.nested [.initial "a"], .initial "b", .onDone [], .on ⟨[("done", [.ofTarget "a"])]⟩] ∧
      gs = [.initial "b", .on ⟨[("done", [.ofTarget "a"])]⟩, .onDone [], .nested [.initial "a"]] ∧
      Rearranged fs gs ∧
      ∃ n : StateNode, (assemble {} fs).outcome = .ok n ∧ (assemble {} gs).outcome = .ok n := by
  refine ⟨_, _, rfl, rfl, ?_⟩
  have h : Rearranged
      [.nested [.initial "a"], .initial "b", .onDone [], .on ⟨[("done", [.ofTarget "a"])]⟩]
      [.initial "b", .on ⟨[("done", [.ofTarget "a"])]⟩, .onDone [], .nested [.initial "a"]] :=
    { perm := (List.perm_append_singleton _ [_, _, _]).symm.trans ((List.Perm.swap _ _ _).cons _)
      facet := fun f => by cases f <;> rfl
      nested := rfl }
  rcases assemble_rearranged StateNode {} h with ⟨⟨_, he⟩, _⟩ | hn
  · cases he
  · exact ⟨h, hn⟩

end Statechart
