import Mathlib.Logic.Equiv.Basic
import Statechart.Proofs.MergedTables
import Statechart.Proofs.RelatedAssembly

/-!
# Renamed events

Events other than the reserved ones are told apart by their names, and by nothing else about them: if
they are renamed in the event tables that a node is made of, they are renamed in its event table, and
nothing else changes (`assemble_map_renameEvents`).
-/

namespace Statechart

/-! ## Tables with other keys -/

namespace Table

variable {α : Type}

/-- The table with its keys renamed. -/
def rename (r : String → String) (t : Table α) : Table α := ⟨t.entries.map fun e => (r e.1, e.2)⟩

theorem isEmpty_rename (r : String → String) (t : Table α) : (t.rename r).isEmpty = t.isEmpty :=
  List.isEmpty_map

variable {r : String → String} (hr : Function.Injective r)

include hr

theorem get?_rename (t : Table α) (k : String) : (t.rename r).get? (r k) = t.get? k := by
  obtain ⟨es⟩ := t
  induction es with
  | nil => rfl
  | cons e es ih =>
      rw [get?_cons, ← ih]
      exact (get?_cons _ _ _ _).trans (by simp only [hr.eq_iff]; rfl)

theorem erase_rename (t : Table α) (k : String) : (t.rename r).erase (r k) = (t.erase k).rename r := by
  simp only [erase, rename, List.filter_map, Function.comp_def, ne_eq, hr.eq_iff]

/-- Different keys stay different, and so an insertion finds its place. -/
theorem insert_rename (t : Table α) (k : String) (v : α) :
    (t.rename r).insert (r k) v = (t.insert k v).rename r := by
  obtain ⟨es⟩ := t
  simp only [insert, rename, mk.injEq]
  induction es with
  | nil => rfl
  | cons e es ih =>
      rw [List.map_cons, insertEntry, insertEntry]
      by_cases h : e.1 = k
      · rw [if_pos h, if_pos (congrArg r h)]
        rfl
      · rw [if_neg h, if_neg (hr.ne h), ih]
        rfl

theorem insertAll_rename (t : Table α) (es : List (String × α)) :
    (t.rename r).insertAll (es.map fun e => (r e.1, e.2)) = (t.insertAll es).rename r := by
  induction es generalizing t with
  | nil => rfl
  | cons e es ih =>
      have hstep := ih (t.insert e.1 e.2)
      rw [← insert_rename hr] at hstep
      exact hstep

theorem unions_rename (ts : List (Table α)) :
    unions (ts.map (rename r)) = (unions ts).rename r := by
  have hentries : (ts.map (rename r)).flatMap (·.entries) =
      (ts.flatMap (·.entries)).map fun e => (r e.1, e.2) := by
    rw [List.flatMap_map, List.map_flatMap]
    rfl
  rw [unions_eq_ofList, unions_eq_ofList, hentries]
  exact insertAll_rename hr ⟨[]⟩ _

end Table

/-! ## Fragments with other events -/

namespace Fragment

mutual
/-- The fragment with the events of its event tables renamed: of its own one, or of those in its
contents. -/
def renameEvents (r : String → String) : Fragment → Fragment
  | on table => on (table.rename r)
  | nested contents => nested (renameEventsList r contents)
  | f => f

/-- The fragments of a list with their events renamed. -/
def renameEventsList (r : String → String) : List Fragment → List Fragment
  | [] => []
  | f :: fs => renameEvents r f :: renameEventsList r fs
end

variable (r : String → String)

theorem renameEventsList_eq (fs : List Fragment) : renameEventsList r fs = fs.map (renameEvents r) := by
  induction fs with
  | nil => rfl
  | cons f fs ih => rw [renameEventsList, ih, List.map_cons]

theorem facet_renameEvents (f : Fragment) : (f.renameEvents r).facet = f.facet := by
  cases f <;> rfl

theorem isNested_renameEvents (f : Fragment) : (f.renameEvents r).isNested = f.isNested := by
  cases f <;> rfl

theorem on?_renameEvents (f : Fragment) : (f.renameEvents r).on? = f.on?.map (Table.rename r) := by
  cases f <;> rfl

end Fragment

/-- The fragment at its position, with events renamed. -/
def Placed.renameEvents (r : String → String) (p : Placed) : Placed :=
  ⟨p.position, p.fragment.renameEvents r⟩

/-- The node with the events of its own event table renamed. -/
def StateNode.renameEvents (r : String → String) (n : StateNode) : StateNode :=
  { n with on := n.on.map (·.rename r) }

/-! ## Lists of renamed fragments -/

theorem forall₂_map_iff {α β : Type} {g : α → β} {as : List α} {bs : List β} :
    List.Forall₂ (fun a b => b = g a) as bs ↔ bs = as.map g := by
  simp only [@eq_comm _ _ (g _)]
  rw [eq_comm, ← List.forall₂_eq_eq_eq, List.forall₂_map_left_iff]

section

variable (r : String → String)

theorem contents_renameEvents (p : Placed) :
    (p.renameEvents r).contents = p.contents.map (Placed.renameEvents r) := by
  obtain ⟨i, f⟩ := p
  cases f with
  | nested contents =>
      change (Fragment.renameEventsList r contents).map (Placed.mk i) =
        (contents.map (Placed.mk i)).map (Placed.renameEvents r)
      rw [Fragment.renameEventsList_eq, List.map_map, List.map_map]
      rfl
  | _ => rfl

theorem tracks_renameEvents : Placed.Tracks fun p q => q = p.renameEvents r where
  position := by
    rintro p _ rfl
    rfl
  facet := by
    rintro p _ rfl
    exact (p.fragment.facet_renameEvents r).symm
  isNested := by
    rintro p _ rfl
    exact (p.fragment.isNested_renameEvents r).symm
  contents := by
    rintro p _ rfl
    exact forall₂_map_iff.mpr (contents_renameEvents r p)

theorem ofList_renameEvents (fs : List Fragment) :
    Placed.ofList (fs.map (.renameEvents r)) = (Placed.ofList fs).map (Placed.renameEvents r) := by
  rw [Placed.ofList, Placed.ofList, List.zipIdx_map, List.map_map, List.map_map]
  rfl

theorem tables_renameEvents (ps : List Placed) :
    (ps.map (Placed.renameEvents r)).filterMap (·.fragment.on?) =
      (ps.filterMap (·.fragment.on?)).map (Table.rename r) := by
  rw [List.filterMap_map, List.map_filterMap]
  exact List.filterMap_congr fun p _ => p.fragment.on?_renameEvents r

end

/-! ## Results for renamed lists -/

theorem Report.Agree.eq_map {α β : Type} {f : α → β} {x : Report α} {y : Report β}
    (h : x.Agree (fun a b => b = f a) y) : y = f <$> x := by
  obtain ⟨es, o⟩ := x
  obtain ⟨es', o'⟩ := y
  obtain ⟨rfl, ho⟩ := h
  cases ho with
  | error e => rfl
  | ok hab =>
      rw [hab]
      exact congrArg (Report.mk · _) (List.append_nil es).symm

theorem Report.id_map {α : Type} (x : Report α) : id <$> x = x := by
  obtain ⟨es, o⟩ := x
  cases o with
  | error e => rfl
  | ok a => exact congrArg (Report.mk · _) (List.append_nil es)

section

variable {r : String → String} (hr : Function.Injective r)

include hr

theorem mergeEventTables_map_renameEvents (fs : List Fragment) :
    mergeEventTables (fs.map (.renameEvents r)) = Fragment.renameEvents r <$> mergeEventTables fs := by
  have hplaced := forall₂_map_iff.mpr (ofList_renameEvents r fs)
  have haccepts (p q : Placed) (hpq : q = p.renameEvents r) :
      p.fragment.on?.isSome = q.fragment.on?.isSome := by
    rw [hpq, Placed.renameEvents, Fragment.on?_renameEvents, Option.isSome_map]
  have htables : (fs.map (.renameEvents r)).filterMap Fragment.on? =
      (fs.filterMap Fragment.on?).map (Table.rename r) := by
    rw [List.filterMap_map, List.map_filterMap]
    exact List.filterMap_congr fun f _ => f.on?_renameEvents r
  rw [mergeEventTables, mergeEventTables, collect, collect, htables,
    requireAll_eq_of_tracks (tracks_renameEvents r) hplaced haccepts]
  cases requireAll (fun f => f.on?.isSome) .eventTableMerge (fs.map (.renameEvents r)) with
  | error e => rfl
  | ok _ => exact congrArg (Except.ok ∘ Fragment.on) (Table.unions_rename hr _)

variable (hdone : r doneEvent = doneEvent) (herror : r errorEvent = errorEvent)

include hdone herror

/-- The reserved events are found and removed under their own names. -/
theorem eventFragments_rename (relocate : Bool) (table : EventTable) :
    eventFragments relocate (table.rename r) =
      (eventFragments relocate table).map (.renameEvents r) := by
  have hrest (t : EventTable) : (if (t.rename r).isEmpty then [] else [Fragment.on (t.rename r)]) =
      (if t.isEmpty then [] else [.on t]).map (Fragment.renameEvents r) := by
    rw [Table.isEmpty_rename]
    split <;> rfl
  cases relocate with
  | false => exact hrest table
  | true =>
      have hget {event : String} (h : r event = event) :
          (table.rename r).get? event = table.get? event := by
        rw [← Table.get?_rename hr table event, h]
      have hunreserved : unreserved (table.rename r) = (unreserved table).rename r := by
        rw [unreserved, unreserved, ← Table.erase_rename hr, ← Table.erase_rename hr, hdone, herror]
      have hevent (event : String) (make : List Transition → Fragment)
          (hmake : ∀ ts, (make ts).renameEvents r = make ts) :
          ((table.get? event).map make).toList =
            ((table.get? event).map make).toList.map (.renameEvents r) := by
        cases table.get? event with
        | none => rfl
        | some ts => exact congrArg (· :: []) (hmake ts).symm
      simp only [eventFragments, if_true, hget hdone, hget herror, hunreserved, hrest,
        List.map_append]
      rw [← hevent doneEvent .onDone fun _ => rfl, ← hevent errorEvent .onError fun _ => rfl]

/-- What is written in the renamed list is the renamed form of what is written in the list itself. -/
theorem assemble_map_renameEvents_of_set? {ν : Type} [Assemblable ν] (rename : ν → ν)
    (hblank : Assemblable.blank = rename Assemblable.blank)
    (hset : ∀ n f, Assemblable.set? (rename n) (f.renameEvents r) =
      (Assemblable.set? n f).map rename) (options : Options) (fs : List Fragment) :
    (assemble options (fs.map (.renameEvents r)) : Report ν) = rename <$> assemble options fs := by
  have hplaced := forall₂_map_iff.mpr (ofList_renameEvents r fs)
  have hhoisted := forall₂_map_iff.mp (forall₂_hoisted (tracks_renameEvents r) hplaced)
  refine (agree_assemble_of_tracks (tracks_renameEvents r) ?_ hblank options hplaced ?_).eq_map
  · rintro n _ ⟨i, f⟩ _ rfl rfl
    rw [Placed.renameEvents, hset]
    cases Assemblable.set? n f with
    | none => exact .none
    | some m => exact .some rfl
  · rintro p _ rfl
    rw [hhoisted, tables_renameEvents, Table.unions_rename hr, eventFragments_rename hr hdone herror,
      forall₂_map_iff, List.map_map, List.map_map]
    rfl

/-- Renaming the events of a list, the reserved ones apart, renames the events of the state node that
is made of it, or of the table that its tables are merged into, and changes nothing else: no other
facet, no error and no logged event. -/
theorem assemble_map_renameEvents (fs : List Fragment) :
    (∀ options, (assemble options (fs.map (.renameEvents r)) : Report StateNode) =
      StateNode.renameEvents r <$> assemble options fs) ∧
    (∀ options, (assemble options (fs.map (.renameEvents r)) : Report Invocation) =
      assemble options fs) ∧
    mergeEventTables (fs.map (.renameEvents r)) = Fragment.renameEvents r <$> mergeEventTables fs := by
  refine ⟨fun options => ?_, fun options => ?_, mergeEventTables_map_renameEvents hr fs⟩
  · refine assemble_map_renameEvents_of_set? hr hdone herror _ rfl (fun n f => ?_) options fs
    cases f <;> rfl
  · rw [← (assemble options fs).id_map]
    refine assemble_map_renameEvents_of_set? hr hdone herror id rfl (fun n f => ?_) options fs
    cases f <;> rfl

end

/-- Two events change names, in tables that stand side by side and in nested states. -/
theorem assemble_map_renameEvents_swap :
    let r : String → String := Equiv.swap "GO" "STOP"
    let fs : List Fragment := [.on ⟨[("GO", [.ofTarget "a"]), ("done", [.ofTarget "b"])]⟩,
      .nested [.on ⟨[("STOP", [.ofTarget "c"])]⟩], .on ⟨[("GO", [.ofTarget "d"])]⟩]
    Function.Injective r ∧ r doneEvent = doneEvent ∧ r errorEvent = errorEvent ∧
    (assemble {} fs : Report StateNode).outcome = .ok
      { on := some ⟨[("GO", [.ofTarget "d"]), ("STOP", [.ofTarget "c"])]⟩
        onDone := some [.ofTarget "b"] } ∧
    (assemble {} (fs.map (.renameEvents r)) : Report StateNode).outcome = .ok
      { on := some ⟨[("STOP", [.ofTarget "d"]), ("GO", [.ofTarget "c"])]⟩
        onDone := some [.ofTarget "b"] } ∧
    (assemble {} (fs.map (.renameEvents r)) : Report Invocation) = assemble {} fs ∧
    mergeEventTables (fs.map (.renameEvents r)) = Fragment.renameEvents r <$> mergeEventTables fs := by
  intro r fs
  have hinj : Function.Injective r := (Equiv.swap "GO" "STOP").injective
  obtain ⟨hstate, hservice, hmerge⟩ := assemble_map_renameEvents hinj (by decide) (by decide) fs
  refine ⟨hinj, by decide, by decide, rfl, ?_, hservice {}, hmerge⟩
  rw [hstate]
  rfl

end Statechart
