import Statechart.Proofs.Effective
import Statechart.Proofs.Related

/-!
# Assembling related fragments

Assembly asks of a fragment where it stands and what facet it is about, and hands on what it says. So
a relation that keeps the positions and the facets (`Placed.Tracks`) is kept by every step, and lists
of related fragments are assembled into related nodes, or fail alike (`agree_assemble_of_tracks`).
-/

namespace Statechart

/-- Related fragments stand at one position and are about one facet; if they are about nested states,
their contents are related one by one. -/
structure Placed.Tracks (S : Placed → Placed → Prop) : Prop where
  position {p q : Placed} : S p q → p.position = q.position
  facet {p q : Placed} : S p q → p.fragment.facet = q.fragment.facet
  isNested {p q : Placed} : S p q → p.fragment.isNested = q.fragment.isNested
  contents {p q : Placed} : S p q → List.Forall₂ S p.contents q.contents

section

variable {S : Placed → Placed → Prop} (hS : Placed.Tracks S)

include hS

theorem Placed.Tracks.unexpected {p q : Placed} (h : S p q) (site : Site) :
    p.unexpected site = q.unexpected site := by
  rw [Placed.unexpected, Placed.unexpected, hS.position h, hS.facet h]

theorem Placed.Tracks.isNone_on? {p q : Placed} (h : S p q) :
    p.fragment.on?.isNone = q.fragment.on?.isNone := by
  rw [← facet_ne_on, ← facet_ne_on, hS.facet h]

/-! ## Lists of one kind and nested states -/

section

variable {fs gs : List Fragment} (h : List.Forall₂ S (Placed.ofList fs) (Placed.ofList gs))

include h

theorem requireAll_eq_of_tracks {accepts : Fragment → Bool}
    (haccepts : ∀ p q, S p q → accepts p.fragment = accepts q.fragment) (site : Site) :
    requireAll accepts site fs = requireAll accepts site gs := by
  have hrel := rel_find? (p := (!accepts ·.fragment)) (q := (!accepts ·.fragment)) h
    fun p q hpq => congrArg (!·) (haccepts p q hpq)
  rw [requireAll, requireAll]
  generalize (Placed.ofList fs).find? _ = x at hrel ⊢
  generalize (Placed.ofList gs).find? _ = y at hrel ⊢
  cases hrel with
  | none => rfl
  | some hpq => exact congrArg Except.error (hS.unexpected hpq site)

theorem forall₂_hoisted : List.Forall₂ S (hoisted fs) (hoisted gs) :=
  List.rel_append (rel_filter h fun _ _ hpq => congrArg (!·) (hS.isNested hpq))
    (List.rel_flatMap h fun _ _ hpq => hS.contents hpq)

theorem agree_hoist :
    Agree (fun ps qs => ps = hoisted fs ∧ qs = hoisted gs) (hoist fs) (hoist gs) := by
  have hnested := rel_filter (p := (·.fragment.isNested)) (q := (·.fragment.isNested)) h
    fun _ _ hpq => hS.isNested hpq
  rw [hoist, hoist]
  generalize (Placed.ofList fs).filter _ = ps at hnested ⊢
  generalize (Placed.ofList gs).filter _ = qs at hnested ⊢
  cases hnested with
  | nil => exact .ok ⟨rfl, rfl⟩
  | cons hfirst hrest =>
      cases hrest with
      | nil => exact .ok ⟨rfl, rfl⟩
      | cons hsecond _ =>
          simp only [hS.position hfirst, hS.position hsecond]
          exact .error _

end

/-! ## Events -/

/-- The fragments that are no event tables stay related; the clauses of the united tables have to be
related by themselves. -/
theorem forall₂_uniteEvents_of_tracks {ps qs : List Placed} (h : List.Forall₂ S ps qs)
    {relocate : Bool} (hclauses : ∀ p q, S p q → List.Forall₂ S
      ((eventFragments relocate (.unions (ps.filterMap (·.fragment.on?)))).map (⟨p.position, ·⟩))
      ((eventFragments relocate (.unions (qs.filterMap (·.fragment.on?)))).map (⟨q.position, ·⟩))) :
    List.Forall₂ S (uniteEvents relocate ps) (uniteEvents relocate qs) := by
  have hrest := rel_filter (p := (·.fragment.on?.isNone)) (q := (·.fragment.on?.isNone)) h
    fun _ _ hpq => hS.isNone_on? hpq
  have hlast := rel_getLast? (rel_filter (p := (·.fragment.on?.isSome))
    (q := (·.fragment.on?.isSome)) h fun p q hpq => by
      rw [← Option.not_isNone, ← Option.not_isNone, hS.isNone_on? hpq])
  unfold uniteEvents
  generalize (ps.filter (·.fragment.on?.isSome)).getLast? = x at hlast ⊢
  generalize (qs.filter (·.fragment.on?.isSome)).getLast? = y at hlast ⊢
  cases hlast with
  | none => exact hrest
  | some hpq => exact List.rel_append hrest (hclauses _ _ hpq)

/-! ## Writing -/

theorem admit_eq_of_tracks (policy : DuplicatePolicy) (seen : List Facet) {p q : Placed} (h : S p q)
    (site : Site) : policy.admit seen p site = policy.admit seen q site := by
  unfold DuplicatePolicy.admit
  rw [hS.position h, hS.facet h]

variable {ν : Type} [Assemblable ν] {R : ν → ν → Prop}
  (hset : ∀ n m p q, R n m → S p q →
    Option.Rel R (Assemblable.set? n p.fragment) (Assemblable.set? m q.fragment))

include hset

theorem agree_writeAll_of_tracks (policy : DuplicatePolicy) (seen : List Facet) {n m : ν}
    (hnm : R n m) {ps qs : List Placed} (h : List.Forall₂ S ps qs) :
    (writeAll policy seen n ps).Agree R (writeAll policy seen m qs) := by
  induction h generalizing seen n m with
  | nil => exact Report.agree_pure hnm
  | @cons p q ps qs hpq _ ih =>
      have hwritten := hset n m p q hnm hpq
      rw [writeAll, writeAll]
      generalize Assemblable.set? n p.fragment = x at hwritten ⊢
      generalize Assemblable.set? m q.fragment = y at hwritten ⊢
      cases hwritten with
      | none =>
          rw [hS.unexpected hpq]
          exact Report.agree_fail _
      | some hrel =>
          -- The policy asks for facets and positions only, and these are the same.
          dsimp only
          rw [admit_eq_of_tracks hS policy seen hpq, hS.facet hpq]
          exact (Report.agree_refl _).bind fun _ _ _ => ih _ hrel

/-- Lists of related fragments are assembled into related nodes, or fail alike, with the same events. -/
theorem agree_assemble_of_tracks (hblank : R Assemblable.blank Assemblable.blank) (options : Options)
    {fs gs : List Fragment} (h : List.Forall₂ S (Placed.ofList fs) (Placed.ofList gs))
    (hclauses : ∀ p q, S p q → List.Forall₂ S
      ((eventFragments options.relocateReservedEvents
        (.unions ((hoisted fs).filterMap (·.fragment.on?)))).map (⟨p.position, ·⟩))
      ((eventFragments options.relocateReservedEvents
        (.unions ((hoisted gs).filterMap (·.fragment.on?)))).map (⟨q.position, ·⟩))) :
    (assemble options fs).Agree R (assemble options gs) := by
  have hlength : fs.length = gs.length := by
    simpa [Placed.ofList] using h.length_eq
  unfold assemble
  refine (Report.agree_ofExcept (agree_hoist hS h)).bind ?_
  rintro _ _ ⟨rfl, rfl⟩
  have hunited := forall₂_uniteEvents_of_tracks hS (forall₂_hoisted hS h) hclauses
  refine (agree_writeAll_of_tracks hS hset options.duplicates [] hblank hunited).bind fun n m hnm => ?_
  rw [hlength]
  exact (Report.agree_refl _).bind fun _ _ _ => Report.agree_pure hnm

end

end Statechart
