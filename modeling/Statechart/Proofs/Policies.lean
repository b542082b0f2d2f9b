import Mathlib.Data.Finset.Card
import Mathlib.Data.Finset.SDiff
import Statechart.Proofs.Meaning

/-!
# The policies for repeated facets

The policies differ only in what they say to a repeated facet: overwriting is warning without the
warnings, and rejecting fails with the first thing that would be warned of (`policies_refine`). The
warnings count the fragments that left nothing in the node.
-/

namespace Statechart

/-! ## Logged repetitions -/

/-- What an event says about a repeated facet: the facet, and where it was described again. -/
def Event.repetition? : Event → Option (Facet × Nat × Site)
  | .duplicateFacet facet position site => some (facet, position, site)
  | _ => none

/-- The repetitions that were logged, in order. -/
def Report.repetitions {α : Type} (r : Report α) : List (Facet × Nat × Site) :=
  r.events.filterMap Event.repetition?

variable {ν : Type} [Assemblable ν]

theorem repetitions_assemble {fs : List Fragment} {placed : List Placed}
    (h : hoist fs = .ok placed) (options : Options) :
    (assemble options fs : Report ν).repetitions =
      (writeAll options.duplicates [] (Assemblable.blank : ν)
        (uniteEvents options.relocateReservedEvents placed)).repetitions := by
  rw [assemble_of_hoist_eq_ok h, Report.repetitions, Report.events_bind, List.filterMap_append,
    Report.repetitions]
  cases (writeAll options.duplicates [] (Assemblable.blank : ν)
    (uniteEvents options.relocateReservedEvents placed)).outcome <;> exact List.append_nil _

/-! ## Counting repetitions -/

/-- Each fragment describes its facet either again or as the first. -/
theorem length_repeats (seen : List Facet) (ps : List Placed) :
    (repeats seen ps).length + ((ps.map (·.fragment.facet)).toFinset \ seen.toFinset).card =
      ps.length := by
  induction ps generalizing seen with
  | nil => simp [repeats]
  | cons p ps ih =>
      have hps := ih (p.fragment.facet :: seen)
      rw [List.toFinset_cons] at hps
      rw [repeats, List.map_cons, List.toFinset_cons, List.length_cons]
      -- Only a fragment whose facet is not in `seen` adds to the facets that are new.
      by_cases hp : p.fragment.facet ∈ seen
      · have hseen : insert p.fragment.facet seen.toFinset = seen.toFinset :=
          Finset.insert_eq_of_mem (List.mem_toFinset.mpr hp)
        rw [hseen] at hps
        rw [if_pos hp, Finset.insert_sdiff_of_mem _ (List.mem_toFinset.mpr hp), List.length_cons]
        omega
      · have hsplit : insert p.fragment.facet (ps.map (·.fragment.facet)).toFinset \ seen.toFinset =
            insert p.fragment.facet ((ps.map (·.fragment.facet)).toFinset \
              insert p.fragment.facet seen.toFinset) := by
          ext f
          simp only [Finset.mem_sdiff, Finset.mem_insert, List.mem_toFinset]
          by_cases hf : f = p.fragment.facet <;> simp [hf, hp]
        rw [if_neg hp, hsplit, Finset.card_insert_of_notMem (by simp)]
        omega

variable [Faceted ν]

/-- A described node has as many facets set as the fragments describe. -/
theorem Describes.length_setFacets {ps : List Fragment} {n : ν} (h : Describes ps n)
    (hps : ∀ p ∈ ps, accepts ν p = true) :
    (setFacets n).length = (ps.map Fragment.facet).toFinset.card := by
  have hset (f : Facet) : (Faceted.facet? n f).isSome ↔ f ∈ ps.map Fragment.facet := by
    rw [h.facet f, List.findRev?_eq_find?_reverse, List.find?_isSome]
    simp
  have hcard : ((Faceted.facets ν).filter fun f => (Faceted.facet? n f).isSome).toFinset =
      (ps.map Fragment.facet).toFinset := by
    ext f
    rw [List.mem_toFinset, List.mem_toFinset, List.mem_filter, hset]
    refine and_iff_right_of_imp fun hf => ?_
    obtain ⟨p, hp, rfl⟩ := List.mem_map.mp hf
    have hp := hps p hp
    simp only [accepts, Bool.and_eq_true, decide_eq_true_eq] at hp
    exact hp.1
  rw [setFacets, List.length_filterMap_eq_countP, List.countP_eq_length_filter, ← hcard,
    List.toFinset_card_of_nodup (Faceted.nodup_facets.filter _)]

/-! ## Runs under the three policies -/

theorem repetitions_writeAll_warn (node : ν) (ps : List Placed) :
    (writeAll .warn [] node ps).repetitions =
      (repeats [] (ps.takeWhile (accepts ν ·.fragment))).map fun p =>
        (p.fragment.facet, p.position, Assemblable.site ν) := by
  rw [writeAll_warn, Report.repetitions, List.filterMap_map]
  exact congrFun List.filterMap_eq_map _

theorem length_repetitions_writeAll {ps : List Placed} {n : ν}
    (h : (writeAll .warn [] Assemblable.blank ps).outcome = .ok n) :
    (writeAll .warn [] (Assemblable.blank : ν) ps).repetitions.length + (setFacets n).length =
      ps.length := by
  obtain ⟨hps, _, hn⟩ := outcome_writeAll_eq_ok_iff.mp h
  have hcount := length_repeats [] ps
  rw [List.toFinset_nil, Finset.sdiff_empty] at hcount
  rw [repetitions_writeAll_warn, takeWhile_accepts hps, List.length_map,
    hn.length_setFacets hps, List.map_map]
  exact hcount

theorem outcome_overwrite (relocate : Bool) (fs : List Fragment) :
    (assemble ⟨.overwrite, relocate⟩ fs : Report ν).outcome =
      (assemble ⟨.warn, relocate⟩ fs : Report ν).outcome := by
  rw [outcome_assemble, outcome_assemble]
  congr 1
  funext placed
  rw [outcome_writeAll (by simp), outcome_writeAll (by simp)]

theorem repetitions_overwrite (relocate : Bool) (fs : List Fragment) :
    (assemble ⟨.overwrite, relocate⟩ fs : Report ν).repetitions = [] := by
  cases h : hoist fs with
  | error e => rw [assemble_of_hoist_eq_error h]; rfl
  | ok placed => rw [repetitions_assemble h, writeAll_overwrite]; rfl

theorem reject_of_repetitions_eq_nil {relocate : Bool} {fs : List Fragment}
    (hw : (assemble ⟨.warn, relocate⟩ fs : Report ν).repetitions = []) :
    (assemble ⟨.reject, relocate⟩ fs : Report ν) = assemble ⟨.warn, relocate⟩ fs := by
  cases h : hoist fs with
  | error e => rw [assemble_of_hoist_eq_error h, assemble_of_hoist_eq_error h]
  | ok placed =>
      rw [repetitions_assemble h, repetitions_writeAll_warn, List.map_eq_nil_iff] at hw
      rw [assemble_of_hoist_eq_ok h, assemble_of_hoist_eq_ok h, writeAll_of_no_repeats hw,
        writeAll_of_no_repeats hw]

theorem reject_of_repetitions_eq_cons {relocate : Bool} {fs : List Fragment} {facet : Facet}
    {position : Nat} {site : Site} {rest : List (Facet × Nat × Site)}
    (hw : (assemble ⟨.warn, relocate⟩ fs : Report ν).repetitions = (facet, position, site) :: rest) :
    (assemble ⟨.reject, relocate⟩ fs : Report ν).outcome =
      .error (.duplicateFacet facet position site) := by
  cases h : hoist fs with
  | error e =>
      rw [assemble_of_hoist_eq_error h] at hw
      cases hw
  | ok placed =>
      rw [repetitions_assemble h, repetitions_writeAll_warn] at hw
      obtain ⟨p, ps, hps, hp, _⟩ := List.map_eq_cons_iff.mp hw
      cases hp
      rw [assemble_of_hoist_eq_ok h, writeAll_reject_of_repeats hps]
      rfl

theorem length_repetitions {relocate : Bool} {fs : List Fragment} {n : ν}
    (hn : (assemble ⟨.warn, relocate⟩ fs).outcome = .ok n) :
    (assemble ⟨.warn, relocate⟩ fs : Report ν).repetitions.length + (setFacets n).length =
      (effective relocate fs).length := by
  rw [outcome_assemble] at hn
  cases h : hoist fs with
  | error e =>
      rw [h] at hn
      cases hn
  | ok placed =>
      rw [h] at hn
      rw [repetitions_assemble h, length_repetitions_writeAll hn, ← fragments_written,
        (hoist_eq_ok_iff.mp h).2, List.length_map]

variable (ν) in
/-- Overwriting has the outcome of warning and warns of nothing. Rejecting is warning where nothing
is warned of, and else fails with the first repetition. A successful run warns of all fragments but
those that are left in the node. -/
theorem policies_refine (relocate : Bool) (fs : List Fragment) :
    let overwritten : Report ν := assemble ⟨.overwrite, relocate⟩ fs
    let warned : Report ν := assemble ⟨.warn, relocate⟩ fs
    let rejected : Report ν := assemble ⟨.reject, relocate⟩ fs
    overwritten.outcome = warned.outcome ∧ overwritten.repetitions = [] ∧
    (warned.repetitions = [] → rejected = warned) ∧
    (∀ facet position site rest, warned.repetitions = (facet, position, site) :: rest →
      rejected.outcome = .error (.duplicateFacet facet position site)) ∧
    ∀ n, warned.outcome = .ok n →
      warned.repetitions.length + (setFacets n).length = (effective relocate fs).length :=
  ⟨outcome_overwrite relocate fs, repetitions_overwrite relocate fs, reject_of_repetitions_eq_nil,
    fun _ _ _ _ => reject_of_repetitions_eq_cons, fun _ => length_repetitions⟩

end Statechart
