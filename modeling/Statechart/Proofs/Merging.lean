import Statechart.Assembly.ActionList
import Statechart.Proofs.Effective

/-!
# Merged actions

Merging gathers what the actions assign to properties in one assignment, which comes first
(`mergeActions_eq_latest`). It makes no difference whether some of the actions were merged before
(`mergeActions_premerged`).
-/

namespace Statechart

/-! ## Lists of one kind -/

theorem requireAll_eq_ok {accepts : Fragment → Bool} {fs : List Fragment}
    (h : ∀ f ∈ fs, accepts f = true) (site : Site) : requireAll accepts site fs = .ok () := by
  have hfind : (Placed.ofList fs).find? (!accepts ·.fragment) = none := by
    rw [List.find?_eq_none]
    intro p hp
    have hmem : p.fragment ∈ fs := fragments_ofList fs ▸ List.mem_map_of_mem hp
    simp [h p.fragment hmem]
  rw [requireAll, hfind]

theorem collect_eq_ok {α : Type} {part? : Fragment → Option α} {fs : List Fragment}
    (h : ∀ f ∈ fs, (part? f).isSome = true) (site : Site) :
    collect part? site fs = .ok (fs.filterMap part?) := by
  rw [collect, requireAll_eq_ok h]
  rfl

theorem collect_map {α : Type} (part? : Fragment → Option α) (make : α → Fragment)
    (h : ∀ a, part? (make a) = some a) (site : Site) (as : List α) :
    collect part? site (as.map make) = .ok as := by
  have hall : ∀ f ∈ as.map make, (part? f).isSome = true := by
    rw [List.forall_mem_map]
    intro a _
    rw [h, Option.isSome_some]
  have hparts : (as.map make).filterMap part? = as := by
    rw [List.filterMap_map, Function.comp_def]
    simp [h]
  rw [collect_eq_ok hall, hparts]

/-! ## Assignments -/

/-- One assignment of the properties in all tables, if there is any table. -/
def gatheredAssign : List (Table Property) → List Action
  | [] => []
  | tables => [.assign (.properties (.unions tables))]

theorem mergeAssigns_eq (as : List Action) :
    mergeAssigns as = gatheredAssign (as.filterMap Action.properties?) ++ as.filter (!·.isMergeable) := by
  rw [mergeAssigns]
  cases as.filterMap Action.properties? <;> rfl

theorem filter_mergeAssigns (as : List Action) :
    (mergeAssigns as).filter (!·.isMergeable) = as.filter (!·.isMergeable) := by
  have hassign : (gatheredAssign (as.filterMap Action.properties?)).filter (!·.isMergeable) = [] := by
    cases as.filterMap Action.properties? <;> rfl
  rw [mergeAssigns_eq, List.filter_append, hassign, List.filter_filter]
  simp

theorem filterMap_mergeAssigns (as : List Action) :
    (mergeAssigns as).filterMap Action.properties? =
      (gatheredAssign (as.filterMap Action.properties?)).filterMap Action.properties? := by
  have hothers : (as.filter (!·.isMergeable)).filterMap Action.properties? = [] := by
    rw [List.filterMap_eq_nil_iff]
    intro a ha
    simpa [Action.isMergeable] using (List.mem_filter.mp ha).2
  rw [mergeAssigns_eq, List.filterMap_append, hothers, List.append_nil]

theorem gatheredAssign_append (ts us vs : List (Table Property)) :
    gatheredAssign (ts ++ (gatheredAssign us).filterMap Action.properties? ++ vs) =
      gatheredAssign (ts ++ us ++ vs) := by
  have hcons {ts : List (Table Property)} (h : ts ≠ []) :
      gatheredAssign ts = [.assign (.properties (.unions ts))] := by
    cases ts with
    | nil => exact absurd rfl h
    | cons t ts => rfl
  cases us with
  | nil => rfl
  | cons u us =>
      have hone : (gatheredAssign (u :: us)).filterMap Action.properties? = [.unions (u :: us)] := rfl
      rw [hone, hcons (by simp), hcons (by simp), List.append_assoc, List.singleton_append,
        Table.unions_append_unions]

/-- Some of the actions can be merged first. -/
theorem mergeAssigns_append (as bs cs : List Action) :
    mergeAssigns (as ++ mergeAssigns bs ++ cs) = mergeAssigns (as ++ bs ++ cs) := by
  rw [mergeAssigns_eq, mergeAssigns_eq (as ++ bs ++ cs)]
  simp only [List.filterMap_append, List.filter_append, filter_mergeAssigns, filterMap_mergeAssigns,
    gatheredAssign_append]

/-! ## Actions as fragments -/

theorem mergeActions_map (as : List Action) :
    mergeActions (as.map .action) =
      ⟨[.merged (mergeAssigns (as.flatMap Action.parts)).length],
        .ok (.action (.composed (mergeAssigns (as.flatMap Action.parts))))⟩ := by
  rw [mergeActions, collect_map Fragment.action? .action fun _ => rfl]
  rfl

/-- Where properties are assigned, merging puts one assignment before the other actions, which keep
their order: it has the keys in the order in which they first occur, each with the last value
assigned to it. Otherwise nothing changes. Actions given as fragments are flattened by one level. -/
theorem mergeActions_eq_latest (as : List Action) :
    (as.filterMap Action.properties? = [] → mergeAssigns as = as) ∧
    (as.filterMap Action.properties? ≠ [] →
      (∀ table ∈ as.filterMap Action.properties?, table.Distinct) →
      mergeAssigns as =
        .assign (.properties (.latest (as.filterMap Action.properties?))) ::
          as.filter (!·.isMergeable)) ∧
    mergeActions (as.map .action) =
      ⟨[.merged (mergeAssigns (as.flatMap Action.parts)).length],
        .ok (.action (.composed (mergeAssigns (as.flatMap Action.parts))))⟩ := by
  refine ⟨fun h => ?_, fun hne hdistinct => ?_, mergeActions_map as⟩
  · have hothers : as.filter (!·.isMergeable) = as := by
      rw [List.filter_eq_self]
      intro a ha
      simp [Action.isMergeable, List.filterMap_eq_nil_iff.mp h a ha]
    rw [mergeAssigns_eq, h, hothers]
    rfl
  · rw [mergeAssigns_eq, ← Table.unions_eq_latest hdistinct]
    cases h : as.filterMap Action.properties? with
    | nil => exact absurd h hne
    | cons t ts => rfl

/-- A key keeps its place and takes the later value; an assignment of a value that is no object stays
where it is, and a list without any other assignment stays as it is. -/
theorem mergeActions_eq_latest_overlapping :
    let e : Expr := ⟨⟨"count", 0⟩, fun context _ => context⟩
    let as : List Action := [.named "a",
      .assign (.properties ⟨[("x", .value .null), ("y", .expr e)]⟩), .assign (.value .null),
      .assign (.properties ⟨[("z", .value .null), ("x", .value (.bool true))]⟩)]
    let bs : List Action := [.named "a", .assign (.value .null)]
    as.filterMap Action.properties? ≠ [] ∧
    (∀ table ∈ as.filterMap Action.properties?, table.Distinct) ∧
    mergeAssigns as = .assign (.properties
      ⟨[("x", .value (.bool true)), ("y", .expr e), ("z", .value .null)]⟩) :: bs ∧
    bs.filterMap Action.properties? = [] ∧ mergeAssigns bs = bs := by
  intro e as bs
  have hdistinct : ∀ table ∈ as.filterMap Action.properties?, table.Distinct := by
    intro table htable
    simp only [as, List.filterMap_cons, Action.properties?, List.filterMap_nil, List.mem_cons,
      List.not_mem_nil, or_false] at htable
    rcases htable with rfl | rfl <;> simp [Table.Distinct, Table.keys]
  have hne : as.filterMap Action.properties? ≠ [] := List.cons_ne_nil _ _
  exact ⟨hne, hdistinct, (mergeActions_eq_latest as).2.1 hne hdistinct, rfl,
    (mergeActions_eq_latest bs).1 rfl⟩

/-- Actions that were merged before are merged with others like the actions that they were made
from. -/
theorem mergeActions_premerged (bs : List Action) :
    ∃ f, (mergeActions (bs.map .action)).outcome = .ok f ∧ ∀ as cs : List Action,
      mergeActions (as.map .action ++ f :: cs.map .action) =
        mergeActions (as.map .action ++ bs.map .action ++ cs.map .action) := by
  refine ⟨_, congrArg Report.outcome (mergeActions_map bs), fun as cs => ?_⟩
  have hmap (b : Action) : as.map Fragment.action ++ .action b :: cs.map .action =
      (as ++ b :: cs).map .action := by
    simp
  rw [hmap, ← List.map_append, ← List.map_append, mergeActions_map, mergeActions_map]
  simp only [List.flatMap_append, List.flatMap_cons, Action.parts]
  rw [← List.append_assoc, mergeAssigns_append]

end Statechart
