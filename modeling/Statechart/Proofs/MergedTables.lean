import Statechart.Proofs.Meaning
import Statechart.Proofs.Merging

/-!
# Event tables merged before assembly

Event tables that stand side by side can be merged before the list is assembled: the node is the
same, and an error is the same but for its positions (`assemble_mergedTables`).
-/

namespace Statechart

/-! ## Errors without positions -/

/-- The error with all positions left out. -/
def AssemblyError.unplaced : AssemblyError → AssemblyError
  | unexpectedFragment facet _ site => unexpectedFragment facet 0 site
  | multipleNestedStates _ _ => multipleNestedStates 0 0
  | duplicateFacet facet _ site => duplicateFacet facet 0 site

theorem unplaced_of_hoist_eq_error {fs : List Fragment} {e : AssemblyError}
    (h : hoist fs = .error e) : e.unplaced = .multipleNestedStates 0 0 := by
  unfold hoist at h
  split at h
  · cases h
    rfl
  · cases h

section

variable {ν : Type} [Assemblable ν]

/-- What is written depends on the fragments, and on their positions only in what an error says. -/
theorem writeAll_unplaced (policy : DuplicatePolicy) (seen : List Facet) (node : ν)
    {ps qs : List Placed} (h : ps.map (·.fragment) = qs.map (·.fragment)) :
    (writeAll policy seen node ps).outcome.mapError AssemblyError.unplaced =
      (writeAll policy seen node qs).outcome.mapError AssemblyError.unplaced := by
  induction ps generalizing seen node qs with
  | nil =>
      rw [List.map_eq_nil_iff.mp h.symm]
  | cons p ps ih =>
      obtain ⟨q, qs, rfl⟩ := List.exists_cons_of_ne_nil (l := qs) (by rintro rfl; cases h)
      obtain ⟨hpq, hrest⟩ := List.cons.inj h
      obtain ⟨i, f⟩ := p
      obtain ⟨j, g⟩ := q
      obtain rfl : f = g := hpq
      rw [writeAll, writeAll]
      cases Assemblable.set? node f with
      | none => rfl
      | some m =>
          dsimp only
          rw [Report.outcome_bind, Report.outcome_bind]
          unfold DuplicatePolicy.admit
          by_cases hf : f.facet ∈ seen
          · rw [if_pos hf, if_pos hf]
            cases policy with
            | overwrite => exact ih _ m hrest
            | warn => exact ih _ m hrest
            | reject => rfl
          · rw [if_neg hf, if_neg hf]
            exact ih _ m hrest

/-- Lists with the same effective fragments are assembled into the same node, or fail alike. -/
theorem assemble_unplaced (options : Options) {fs gs : List Fragment}
    (hnested : fs.countP (·.isNested) = gs.countP (·.isNested))
    (h : effective options.relocateReservedEvents fs = effective options.relocateReservedEvents gs) :
    (assemble options fs : Report ν).outcome.mapError AssemblyError.unplaced =
      (assemble options gs : Report ν).outcome.mapError AssemblyError.unplaced := by
  have hok {fs : List Fragment} (h : fs.countP (·.isNested) ≤ 1) : hoist fs = .ok (hoisted fs) :=
    hoist_eq_ok_iff.mpr ⟨h, rfl⟩
  have herror {fs : List Fragment} (h : ¬fs.countP (·.isNested) ≤ 1) :
      (assemble options fs : Report ν).outcome.mapError AssemblyError.unplaced =
        .error (.multipleNestedStates 0 0) := by
    cases he : hoist fs with
    | ok placed => exact absurd (hoist_eq_ok_iff.mp he).1 h
    | error e =>
        rw [assemble_of_hoist_eq_error he, ← unplaced_of_hoist_eq_error he]
        rfl
  by_cases hfs : fs.countP (·.isNested) ≤ 1
  · rw [outcome_assemble, outcome_assemble, hok hfs, hok (hnested ▸ hfs)]
    refine writeAll_unplaced _ _ _ ?_
    rw [fragments_written, fragments_written, h]
  · rw [herror hfs, herror (hnested ▸ hfs)]

end

/-! ## Tables side by side -/

theorem mergedEvents_eq_unions (fs : List Fragment) :
    mergedEvents fs = .unions (fs.filterMap Fragment.on?) := by
  rw [mergedEvents, Table.unions_eq_gathered]

section

variable (before after : List Fragment)

theorem unnested_tables (tables : List EventTable) :
    unnested (before ++ tables.map .on ++ after) =
      before.filter (!·.isNested) ++ tables.map .on ++ (after.filter (!·.isNested) ++
        (before.flatMap Fragment.contents ++ after.flatMap Fragment.contents)) := by
  have hflat : (tables.map Fragment.on).filter (!·.isNested) = tables.map .on :=
    List.filter_eq_self.mpr (by simp [Fragment.isNested])
  have hcontents : (tables.map Fragment.on).flatMap Fragment.contents = [] :=
    List.flatMap_eq_nil_iff.mpr (by simp [Fragment.contents])
  simp only [unnested, List.filter_append, List.flatMap_append, hflat, hcontents, List.nil_append,
    List.append_assoc]

/-- Tables count as their union does, where they stand side by side. -/
theorem effective_tables (relocate : Bool) (tables : List EventTable) :
    effective relocate (before ++ .on (.unions tables) :: after) =
      effective relocate (before ++ tables.map .on ++ after) := by
  have hrest (ts : List EventTable) : (ts.map Fragment.on).filter (·.facet ≠ .on) = [] :=
    List.filter_eq_nil_iff.mpr (by simp [Fragment.facet])
  have htables (ts : List EventTable) : (ts.map Fragment.on).filterMap Fragment.on? = ts := by
    rw [List.filterMap_map]
    exact List.filterMap_some
  have hone : before ++ .on (.unions tables) :: after =
      before ++ [Table.unions tables].map .on ++ after := by
    simp
  rw [hone, effective, effective, unnested_tables, unnested_tables, mergedEvents_eq_unions,
    mergedEvents_eq_unions]
  simp only [List.filter_append, List.filterMap_append, hrest, htables]
  rw [← List.append_cons, Table.unions_append_unions]

end

/-- It makes no difference whether event tables that stand side by side are merged by themselves or
in the assembly of the list: the node is the same in every detail, and so is an error but for its
positions. -/
theorem assemble_mergedTables {ν : Type} [Assemblable ν] (options : Options)
    (before after : List Fragment) (tables : List EventTable) :
    ∃ f, mergeEventTables (tables.map .on) = .ok f ∧
      (assemble options (before ++ f :: after) : Report ν).outcome.mapError AssemblyError.unplaced =
        (assemble options (before ++ tables.map .on ++ after)).outcome.mapError
          AssemblyError.unplaced := by
  refine ⟨.on (.unions tables), ?_, assemble_unplaced options ?_ ?_⟩
  · rw [mergeEventTables, collect_map Fragment.on? .on fun _ => rfl]
    rfl
  · simp [Fragment.isNested]
  · exact effective_tables before after _ tables

end Statechart
