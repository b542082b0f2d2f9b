import Mathlib.Data.List.Basic
import Statechart.Assembly.Node

/-!
# Nodes by facet

A node is what it says about each of its facets, and the rest of it, which no fragment changes.
Writing a list of fragments leaves in each facet the last fragment that describes it
(`facet?_fill`).
-/

namespace Statechart

/-! ## Nodes made of facets -/

/-- A kind of node in which a fragment changes the facet that it describes and nothing else. -/
class Faceted (ν : Type) [Assemblable ν] where
  /-- The facets that such a node can have, in the order in which they are rendered. -/
  facets : List Facet
  /-- A facet as the node has it, if it is set. -/
  facet? : ν → Facet → Option Fragment
  /-- The node without its facets. -/
  bare : ν → ν
  nodup_facets : facets.Nodup
  facet_of_facet? {n : ν} {f : Facet} {p : Fragment} : facet? n f = some p → p.facet = f
  facet?_blank (f : Facet) : facet? Assemblable.blank f = none
  bare_blank : bare Assemblable.blank = Assemblable.blank
  isSome_set? (n : ν) (p : Fragment) :
    (Assemblable.set? n p).isSome = (decide (p.facet ∈ facets) && !p.isNested)
  facet?_set? {n m : ν} {p : Fragment} (h : Assemblable.set? n p = some m) (f : Facet) :
    facet? m f = if f = p.facet then some p else facet? n f
  bare_set? {n m : ν} {p : Fragment} : Assemblable.set? n p = some m → bare m = bare n
  ext {n m : ν} : bare n = bare m → (∀ f, facet? n f = facet? m f) → n = m

namespace StateNode

/-- The facets of a state. -/
def facets : List Facet :=
  [.id, .initial, .kind, .context, .history, .target, .states, .on, .entry, .exit, .invoke,
    .onDone, .onError, .after, .always, .activities, .metadata, .data, .delimiter]

/-- A facet of a state as the fragment that describes it. -/
def facet? (n : StateNode) : Facet → Option Fragment
  | .id => n.id.map .id
  | .initial => n.initial.map .initial
  | .kind => n.kind.map .kind
  | .context => n.context.map .context
  | .history => n.history.map .history
  | .target => n.target.map .target
  | .states => n.states.map .states
  | .on => n.on.map .on
  | .onDone => n.onDone.map .onDone
  | .onError => n.onError.map .onError
  | .entry => n.entry.map .entry
  | .exit => n.exit.map .exit
  | .invoke => n.invoke.map .invoke
  | .always => n.always.map .always
  | .after => n.after.map .after
  | .activities => n.activities.map .activities
  | .metadata => n.metadata.map .metadata
  | .data => n.data.map .data
  | .delimiter => n.delimiter.map .delimiter
  | .autoForward | .actions | .cond | .transition => none

theorem facet_of_facet? {n : StateNode} {f : Facet} {p : Fragment} (h : n.facet? f = some p) :
    p.facet = f := by
  cases f <;> simp only [facet?, Option.map_eq_some_iff, reduceCtorEq] at h <;>
    obtain ⟨_, _, rfl⟩ := h <;> rfl

theorem isSome_set? (n : StateNode) (p : Fragment) :
    (n.set? p).isSome = (decide (p.facet ∈ facets) && !p.isNested) := by
  cases p <;> rfl

theorem facet?_set? {n m : StateNode} {p : Fragment} (h : n.set? p = some m) (f : Facet) :
    m.facet? f = if f = p.facet then some p else n.facet? f := by
  cases p <;> simp only [set?, Option.some.injEq, reduceCtorEq] at h <;> subst h <;>
    cases f <;> rfl

theorem ext_facets {n m : StateNode} (h : ∀ f, n.facet? f = m.facet? f) : n = m := by
  cases n
  cases m
  simp only [StateNode.mk.injEq]
  exact ⟨Option.map_injective (fun _ _ => Fragment.id.inj) (h .id),
    Option.map_injective (fun _ _ => Fragment.initial.inj) (h .initial),
    Option.map_injective (fun _ _ => Fragment.kind.inj) (h .kind),
    Option.map_injective (fun _ _ => Fragment.context.inj) (h .context),
    Option.map_injective (fun _ _ => Fragment.history.inj) (h .history),
    Option.map_injective (fun _ _ => Fragment.target.inj) (h .target),
    Option.map_injective (fun _ _ => Fragment.states.inj) (h .states),
    Option.map_injective (fun _ _ => Fragment.on.inj) (h .on),
    Option.map_injective (fun _ _ => Fragment.entry.inj) (h .entry),
    Option.map_injective (fun _ _ => Fragment.exit.inj) (h .exit),
    Option.map_injective (fun _ _ => Fragment.invoke.inj) (h .invoke),
    Option.map_injective (fun _ _ => Fragment.onDone.inj) (h .onDone),
    Option.map_injective (fun _ _ => Fragment.onError.inj) (h .onError),
    Option.map_injective (fun _ _ => Fragment.after.inj) (h .after),
    Option.map_injective (fun _ _ => Fragment.always.inj) (h .always),
    Option.map_injective (fun _ _ => Fragment.activities.inj) (h .activities),
    Option.map_injective (fun _ _ => Fragment.metadata.inj) (h .metadata),
    Option.map_injective (fun _ _ => Fragment.data.inj) (h .data),
    Option.map_injective (fun _ _ => Fragment.delimiter.inj) (h .delimiter)⟩

instance : Faceted StateNode where
  facets := facets
  facet? := facet?
  bare _ := {}
  nodup_facets := by decide
  facet_of_facet? := facet_of_facet?
  facet?_blank f := by cases f <;> rfl
  bare_blank := rfl
  isSome_set? := isSome_set?
  facet?_set? := facet?_set?
  bare_set? _ := rfl
  ext _ := ext_facets

end StateNode

namespace Invocation

/-- The facets of a service. -/
def facets : List Facet := [.id, .data, .onDone, .onError, .autoForward]

/-- A facet of a service as the fragment that describes it. -/
def facet? (i : Invocation) : Facet → Option Fragment
  | .id => i.id.map .id
  | .data => i.data.map .data
  | .onDone => i.onDone.map .onDone
  | .onError => i.onError.map .onError
  | .autoForward => i.autoForward.map .autoForward
  | _ => none

theorem facet_of_facet? {i : Invocation} {f : Facet} {p : Fragment} (h : i.facet? f = some p) :
    p.facet = f := by
  cases f <;> simp only [facet?, Option.map_eq_some_iff, reduceCtorEq] at h <;>
    obtain ⟨_, _, rfl⟩ := h <;> rfl

theorem isSome_set? (i : Invocation) (p : Fragment) :
    (i.set? p).isSome = (decide (p.facet ∈ facets) && !p.isNested) := by
  cases p <;> rfl

theorem facet?_set? {i j : Invocation} {p : Fragment} (h : i.set? p = some j) (f : Facet) :
    j.facet? f = if f = p.facet then some p else i.facet? f := by
  cases p <;> simp only [set?, Option.some.injEq, reduceCtorEq] at h <;> subst h <;>
    cases f <;> rfl

theorem src_set? {i j : Invocation} {p : Fragment} (h : i.set? p = some j) : j.src = i.src := by
  cases p <;> simp only [set?, Option.some.injEq, reduceCtorEq] at h <;> subst h <;> rfl

theorem ext_facets {i j : Invocation} (hs : i.src = j.src) (h : ∀ f, i.facet? f = j.facet? f) :
    i = j := by
  cases i
  cases j
  simp only [Invocation.mk.injEq]
  exact ⟨hs,
    Option.map_injective (fun _ _ => Fragment.id.inj) (h .id),
    Option.map_injective (fun _ _ => Fragment.data.inj) (h .data),
    Option.map_injective (fun _ _ => Fragment.onDone.inj) (h .onDone),
    Option.map_injective (fun _ _ => Fragment.onError.inj) (h .onError),
    Option.map_injective (fun _ _ => Fragment.autoForward.inj) (h .autoForward)⟩

instance : Faceted Invocation where
  facets := facets
  facet? := facet?
  bare i := { src := i.src }
  nodup_facets := by decide
  facet_of_facet? := facet_of_facet?
  facet?_blank f := by cases f <;> rfl
  bare_blank := rfl
  isSome_set? := isSome_set?
  facet?_set? := facet?_set?
  bare_set? h := congrArg (fun src => ({ src } : Invocation)) (src_set? h)
  ext h := ext_facets (Invocation.mk.inj h).1

end Invocation

/-! ## Writing several fragments -/

variable {ν : Type} [Assemblable ν]

/-- The node with the fragments written one after the other. -/
def fill (node : ν) (ps : List Fragment) : ν :=
  ps.foldl (fun n p => (Assemblable.set? n p).getD n) node

theorem fill_cons {n m : ν} {p : Fragment} (h : Assemblable.set? n p = some m)
    (ps : List Fragment) : fill n (p :: ps) = fill m ps := by
  simp [fill, h]

/-! ## What a node takes -/

variable [Faceted ν]

/-- Whether nodes of the kind `ν` take the fragment. -/
def accepts (ν : Type) [Assemblable ν] [Faceted ν] (p : Fragment) : Bool :=
  decide (p.facet ∈ Faceted.facets ν) && !p.isNested

theorem exists_set? {p : Fragment} (h : accepts ν p = true) (n : ν) :
    ∃ m, Assemblable.set? n p = some m :=
  Option.isSome_iff_exists.mp ((Faceted.isSome_set? n p).trans h)

theorem set?_eq_none {p : Fragment} (h : accepts ν p = false) (n : ν) :
    Assemblable.set? n p = none :=
  Option.not_isSome_iff_eq_none.mp (by rw [Faceted.isSome_set?, ← accepts, h]; exact Bool.false_ne_true)

/-- The fragments that describe the facets of a node that are set. -/
def setFacets (n : ν) : List Fragment := (Faceted.facets ν).filterMap (Faceted.facet? n)

/-! ## What is left in each facet -/

theorem bare_fill (n : ν) (ps : List Fragment) (hps : ∀ p ∈ ps, accepts ν p = true) :
    Faceted.bare (fill n ps) = Faceted.bare n := by
  induction ps generalizing n with
  | nil => rfl
  | cons p ps ih =>
      obtain ⟨m, hm⟩ := exists_set? (hps p (by simp)) n
      rw [fill_cons hm, ih m fun q hq => hps q (by simp [hq]), Faceted.bare_set? hm]

theorem facet?_fill (n : ν) (ps : List Fragment) (hps : ∀ p ∈ ps, accepts ν p = true) (f : Facet) :
    Faceted.facet? (fill n ps) f = (ps.findRev? (·.facet = f)).or (Faceted.facet? n f) := by
  induction ps generalizing n with
  | nil => rfl
  | cons p ps ih =>
      obtain ⟨m, hm⟩ := exists_set? (hps p (by simp)) n
      rw [fill_cons hm, ih m fun q hq => hps q (by simp [hq]), Faceted.facet?_set? hm]
      by_cases hf : p.facet = f
      · cases ps.reverse.find? (·.facet = f) <;> simp [hf]
      · have hf' : ¬f = p.facet := fun h => hf h.symm
        simp [hf, hf']

/-- A node described by fragments: each facet is as the last fragment for it says, and nothing else
is set. -/
structure Describes (ps : List Fragment) (n : ν) : Prop where
  facet (f : Facet) : Faceted.facet? n f = ps.findRev? (·.facet = f)
  bare : Faceted.bare n = Assemblable.blank

theorem describes_fill {ps : List Fragment} (hps : ∀ p ∈ ps, accepts ν p = true) :
    Describes ps (fill (Assemblable.blank : ν) ps) where
  facet f := by rw [facet?_fill _ ps hps, Faceted.facet?_blank, Option.or_none]
  bare := (bare_fill _ ps hps).trans Faceted.bare_blank

theorem Describes.unique {ps : List Fragment} {n m : ν} (hn : Describes ps n)
    (hm : Describes ps m) : n = m :=
  Faceted.ext (hn.bare.trans hm.bare.symm) fun f => (hn.facet f).trans (hm.facet f).symm

end Statechart
