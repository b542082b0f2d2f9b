import Statechart.Proofs.Equality
import Statechart.Proofs.RelatedAssembly

/-!
# Assembling equal fragments

Equal lists of fragments are assembled into nodes with equal facets, or fail with the same error, and
log the same events (`agree_assemble`). Each step keeps positions, and keeps fragments equal.
-/

namespace Statechart

/-! ## Equal fragments at the same position -/

/-- The same position, and equal fragments there. -/
structure Placed.Matches (p q : Placed) : Prop where
  position : p.position = q.position
  fragment : p.fragment == q.fragment

theorem Placed.Matches.parts {p q : Placed} (h : p.Matches q) : p.fragment.Matches q.fragment :=
  Fragment.matches_of_beq h.fragment

theorem Placed.contents_eq (p : Placed) : p.contents = p.fragment.contents.map (⟨p.position, ·⟩) := by
  obtain ⟨i, f⟩ := p
  cases f <;> rfl

theorem forall₂_placed {fs gs : List Fragment} (h : List.Forall₂ (· == ·) fs gs) {i j : Nat}
    (hij : i = j) : List.Forall₂ Placed.Matches (fs.map (⟨i, ·⟩)) (gs.map (⟨j, ·⟩)) :=
  List.rel_map (fun _ _ hfg => ⟨hij, hfg⟩) h

theorem tracks_matches : Placed.Tracks Placed.Matches where
  position h := h.position
  facet h := h.parts.facet
  isNested h := h.parts.isNested
  contents {p q} h := by
    rw [p.contents_eq, q.contents_eq]
    exact forall₂_placed h.parts.contents h.position

theorem forall₂_ofList {fs gs : List Fragment} (h : List.Forall₂ (· == ·) fs gs) :
    List.Forall₂ Placed.Matches (Placed.ofList fs) (Placed.ofList gs) := by
  have hzip (i : Nat) : List.Forall₂ (fun e e' => e.2 = e'.2 ∧ e.1 == e'.1) (fs.zipIdx i)
      (gs.zipIdx i) := by
    induction h generalizing i with
    | nil => exact .nil
    | cons hfg _ ih => exact .cons ⟨rfl, hfg⟩ (ih (i + 1))
  exact List.rel_map (fun _ _ he => ⟨he.1, he.2⟩) (hzip 0)

/-! ## Lists of one kind -/

section

variable {fs gs : List Fragment} (h : List.Forall₂ (· == ·) fs gs)

include h

theorem requireAll_eq_of_forall₂ {accepts : Fragment → Bool}
    (haccepts : ∀ f g, f == g → accepts f = accepts g) (site : Site) :
    requireAll accepts site fs = requireAll accepts site gs :=
  requireAll_eq_of_tracks tracks_matches (forall₂_ofList h)
    (fun _ _ hpq => haccepts _ _ hpq.fragment) site

theorem agree_collect {α : Type} {R : α → α → Prop} {part? : Fragment → Option α}
    (hpart : ∀ f g, f == g → Option.Rel R (part? f) (part? g)) (site : Site) :
    Agree (fun as bs => as = fs.filterMap part? ∧ List.Forall₂ R as bs) (collect part? site fs)
      (collect part? site gs) := by
  rw [collect, collect,
    requireAll_eq_of_forall₂ h (fun f g hfg => isSome_eq_of_rel (hpart f g hfg)) site]
  cases requireAll (fun f => (part? f).isSome) site gs with
  | error e => exact .error e
  | ok _ => exact .ok ⟨rfl, List.rel_filterMap (fun f g hfg => hpart f g hfg) h⟩

end

/-! ## Events -/

theorem forall₂_eventFragments {t u : EventTable} (ht : t.Distinct) (h : t.Matches (· == ·) u)
    (relocate : Bool) :
    List.Forall₂ (· == ·) (eventFragments relocate t) (eventFragments relocate u) := by
  have hevent (event : String) {make : List Transition → Fragment}
      (hmake : ∀ ts us, ts == us → make ts == make us) :
      List.Forall₂ (· == ·) ((t.get? event).map make).toList ((u.get? event).map make).toList :=
    forall₂_toList (rel_map (h.rel_get? ht event) hmake)
  have hrest {t u : EventTable} (h : t.Matches (· == ·) u) : List.Forall₂ (· == ·)
      (if t.isEmpty then [] else [Fragment.on t]) (if u.isEmpty then [] else [Fragment.on u]) := by
    rw [h.isEmpty_eq]
    by_cases hu : u.isEmpty
    · rw [if_pos hu, if_pos hu]
      exact .nil
    · rw [if_neg hu, if_neg hu]
      exact .cons (Table.beq_iff_matches.mpr h) .nil
  cases relocate with
  | false => exact hrest h
  | true =>
      have hunreserved : (unreserved t).Matches (· == ·) (unreserved u) :=
        (h.erase ht _).erase (ht.erase _) _
      exact List.rel_append (List.rel_append (hevent _ fun _ _ h => h) (hevent _ fun _ _ h => h))
        (hrest hunreserved)

theorem matches_unions {ps qs : List Placed} (h : List.Forall₂ Placed.Matches ps qs)
    (hdistinct : ∀ table ∈ ps.filterMap (·.fragment.on?), table.Distinct) :
    (Table.unions (ps.filterMap (·.fragment.on?))).Matches (· == ·)
      (.unions (qs.filterMap (·.fragment.on?))) :=
  Table.Matches.unions hdistinct (List.rel_filterMap (fun _ _ hpq => hpq.parts.on?) h)

/-! ## Assembly -/

/-- Equal lists of fragments are assembled into nodes with equal facets, or fail alike. -/
theorem agree_assemble {ν : Type} [Assemblable ν] [Faceted ν] {fs gs : List Fragment}
    (h : List.Forall₂ (· == ·) fs gs)
    (hdistinct : ∀ table ∈ (unnested fs).filterMap Fragment.on?, table.Distinct) (options : Options) :
    (assemble options fs : Report ν).Agree Alike (assemble options gs) := by
  rw [← fragments_hoisted, List.filterMap_map] at hdistinct
  have hplaced := forall₂_ofList h
  have htables := matches_unions (forall₂_hoisted tracks_matches hplaced) hdistinct
  have hclauses := forall₂_eventFragments (Table.distinct_unions _) htables
    options.relocateReservedEvents
  exact agree_assemble_of_tracks tracks_matches (fun _ _ _ _ hnm hpq => rel_set? hnm hpq.fragment)
    alike_blank options hplaced fun _ _ hpq => forall₂_placed hclauses hpq.position

end Statechart
