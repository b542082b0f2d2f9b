import Statechart.Proofs.NormalForm
import Statechart.Proofs.WireText

/-!
# Rendered nodes

A rendered node has one member for each facet that its fragments describe, in a fixed order, under
the name of the facet and with the value of the last fragment for it (`renders_assembled`).
-/

namespace Statechart

theorem Fragment.isSome_payload? (p : Fragment) : p.payload?.isSome = !p.isNested := by
  cases p <;> rfl

/-! ## Members of an object -/

theorem Json.mem_setMembers {fields : List (String × Option Json)} {key : String} {json : Json} :
    (key, json) ∈ setMembers fields ↔ (key, some json) ∈ fields := by
  rw [setMembers, List.mem_flatMap]
  constructor
  · rintro ⟨⟨k, v⟩, hf, hm⟩
    obtain ⟨_, rfl, hkey⟩ := Option.map_eq_some_iff.mp (Option.mem_toList.mp hm)
    cases hkey
    exact hf
  · intro h
    exact ⟨_, h, List.mem_singleton_self _⟩

theorem Json.keys_setMembers (fields : List (String × Option Json)) :
    (setMembers fields).map (·.1) = (fields.filter (·.2.isSome)).map (·.1) := by
  induction fields with
  | nil => rfl
  | cons f fields ih =>
      obtain ⟨key, v⟩ := f
      have hcons : setMembers ((key, v) :: fields) = optional key v ++ setMembers fields := rfl
      rw [hcons, List.map_append, ih]
      cases v <;> rfl

theorem Json.nodup_setMembers {fields : List (String × Option Json)}
    (h : (fields.map (·.1)).Nodup) : ((setMembers fields).map (·.1)).Nodup := by
  rw [keys_setMembers]
  exact h.sublist (List.filter_sublist.map _)

/-- The members that fragments give an object which has the members `names`, in this order, if they
are set. -/
structure Renders (names : List String) (ps : List Fragment) (members : List (String × Json)) :
    Prop where
  keys : members.map (·.1) = names.filter (· ∈ ps.map (·.facet.key))
  nodup : (members.map (·.1)).Nodup
  known : ∀ p ∈ ps, p.facet.key ∈ names
  value : ∀ f p, ps.findRev? (·.facet = f) = some p →
    ∃ json, p.payload? = some json ∧ (f.key, json) ∈ members

/-! ## Members of a node -/

section

variable {ν : Type} [Assemblable ν] [Faceted ν]

/-- The facets that a node can have, under their names, with the values of those that are set. -/
def facetFields (n : ν) : List (String × Option Json) :=
  (Faceted.facets ν).map fun f => (f.key, (Faceted.facet? n f).bind Fragment.payload?)

section

variable {ps : List Fragment} (hps : ∀ p ∈ ps, accepts ν p = true)

include hps

theorem facet_mem_facets {p : Fragment} (hp : p ∈ ps) : p.facet ∈ Faceted.facets ν :=
  of_decide_eq_true (Bool.and_eq_true_iff.mp (hps p hp)).1

variable {n : ν} (hn : Describes ps n)

include hn

theorem exists_payload {f : Facet} {p : Fragment} (hp : ps.findRev? (·.facet = f) = some p) :
    ∃ json, p.payload? = some json ∧ (f.key, json) ∈ Json.setMembers (facetFields n) := by
  rw [List.findRev?_eq_find?_reverse] at hp
  have hmem : p ∈ ps := List.mem_reverse.mp (List.mem_of_find?_eq_some hp)
  obtain rfl : p.facet = f := by simpa using List.find?_some hp
  obtain ⟨json, hjson⟩ : ∃ json, p.payload? = some json := by
    rw [← Option.isSome_iff_exists, p.isSome_payload?]
    exact (Bool.and_eq_true_iff.mp (hps p hmem)).2
  have hfacet : Faceted.facet? n p.facet = some p := by
    rw [hn.facet, List.findRev?_eq_find?_reverse, hp]
  refine ⟨json, hjson, Json.mem_setMembers.mpr (List.mem_map.mpr ⟨_, facet_mem_facets hps hmem, ?_⟩)⟩
  rw [hfacet, Option.bind_some, hjson]

theorem isSome_bind_payload? (f : Facet) :
    ((Faceted.facet? n f).bind Fragment.payload?).isSome = decide (f ∈ ps.map Fragment.facet) := by
  cases hp : ps.findRev? (·.facet = f) with
  | none =>
      rw [hn.facet, hp]
      rw [List.findRev?_eq_find?_reverse, List.find?_eq_none] at hp
      symm
      simpa using hp
  | some p =>
      obtain ⟨json, hjson, _⟩ := exists_payload hps hn hp
      rw [hn.facet, hp, Option.bind_some, hjson]
      rw [List.findRev?_eq_find?_reverse] at hp
      obtain rfl : p.facet = f := by simpa using List.find?_some hp
      have hmem : p ∈ ps := List.mem_reverse.mp (List.mem_of_find?_eq_some hp)
      exact (decide_eq_true (List.mem_map_of_mem hmem)).symm

theorem renders_facetFields (hkeys : ((Faceted.facets ν).map Facet.key).Nodup) :
    Renders ((Faceted.facets ν).map Facet.key) ps (Json.setMembers (facetFields n)) := by
  have hmembers : (Json.setMembers (facetFields n)).map (·.1) =
      ((Faceted.facets ν).map Facet.key).filter (· ∈ ps.map (·.facet.key)) := by
    rw [Json.keys_setMembers, facetFields, List.filter_map, List.filter_map, List.map_map]
    refine congrArg (List.map Facet.key) (List.filter_congr fun f hf => ?_)
    refine (isSome_bind_payload? hps hn f).trans (decide_eq_decide.mpr ?_)
    -- Facets of the node can be told by their names.
    rw [List.mem_map, List.mem_map]
    constructor
    · rintro ⟨p, hp, rfl⟩
      exact ⟨p, hp, rfl⟩
    · rintro ⟨p, hp, hkey⟩
      exact ⟨p, hp, List.inj_on_of_nodup_map hkeys (facet_mem_facets hps hp) hf hkey⟩
  exact {
    keys := hmembers
    nodup := hmembers ▸ hkeys.filter _
    known := fun p hp => List.mem_map_of_mem (facet_mem_facets hps hp)
    value := fun _ _ => exists_payload hps hn }

end

end

namespace StateNode

theorem toJson_eq_facetFields (n : StateNode) :
    n.toJson = .object (Json.setMembers (facetFields n)) := by
  have hfields : n.fields (n.states.map fun t => .obj (t.map toJson)) = facetFields n := by
    simp only [fields, facetFields, Faceted.facets, facets, Faceted.facet?, facet?, List.map_cons,
      List.map_nil, Option.bind_map, Function.comp_def, Fragment.payload?, Facet.key]
    simp only [Option.map_eq_bind, Function.comp_def, Option.bind_fun_some]
  rw [toJson_eq, members_eq, hfields]

/-- The names of the members that a node can have, in their order. -/
def memberNames : List String :=
  ["id", "initial", "type", "context", "history", "target", "states", "on", "entry", "exit",
    "invoke", "onDone", "onError", "after", "always", "activities", "meta", "data", "delimiter"]

theorem nodup_memberNames : memberNames.Nodup := by
  simp [memberNames]

theorem nodup_facetFields (n : StateNode) : ((facetFields n).map (·.1)).Nodup := by
  rw [facetFields, List.map_map]
  exact nodup_memberNames

end StateNode

namespace Invocation

theorem fields_eq (i : Invocation) : i.fields = ("src", some (.str i.src)) :: facetFields i := by
  simp only [fields, facetFields, Faceted.facets, facets, Faceted.facet?, facet?, List.map_cons,
    List.map_nil, Option.bind_map, Function.comp_def, Fragment.payload?, Facet.key]
  simp only [Option.map_eq_bind, Function.comp_def]

theorem toJson_eq_facetFields (i : Invocation) :
    i.toJson = .object (("src", .str i.src) :: Json.setMembers (facetFields i)) := by
  rw [toJson_eq, fields_eq]
  rfl

/-- The names of the members that a service can have besides `src`, in their order. -/
def memberNames : List String := ["id", "data", "onDone", "onError", "autoForward"]

theorem nodup_memberNames : memberNames.Nodup := by
  simp [memberNames]

end Invocation

/-! ## Assembled nodes -/

theorem renders_assembled {ν : Type} [Assemblable ν] [Faceted ν] {options : Options}
    {fs : List Fragment} {n : ν} (hn : (assemble options fs).outcome = .ok n)
    (hkeys : ((Faceted.facets ν).map Facet.key).Nodup) :
    Renders ((Faceted.facets ν).map Facet.key) (effective options.relocateReservedEvents fs)
      (Json.setMembers (facetFields n)) := by
  obtain ⟨_, haccepts, _, hdescribes⟩ := outcome_assemble_eq_ok_iff.mp hn
  exact renders_facetFields haccepts hdescribes hkeys

end Statechart
