import Statechart.Assembly.Node
import Statechart.Proofs.Union

/-!
# The fragments that count

What a list of fragments comes to before it is written into a node: the contents of nested
fragments stand after all others, and the event tables are replaced by one clause for each reserved
event and one for the rest of the events.
-/

namespace Statechart

/-! ## Nested contents -/

/-- The fragments that a fragment about nested states contains. -/
def Fragment.contents : Fragment → List Fragment
  | .nested contents => contents
  | _ => []

/-- The fragments that are not about nested states, and then the contents of those that are. -/
def unnested (fs : List Fragment) : List Fragment :=
  fs.filter (!·.isNested) ++ fs.flatMap Fragment.contents

theorem flatMap_contents (fs : List Fragment) :
    fs.flatMap Fragment.contents = (fs.filter (·.isNested)).flatMap Fragment.contents := by
  induction fs with
  | nil => rfl
  | cons f fs ih =>
      rw [List.flatMap_cons, ih]
      cases f <;> rfl

theorem filter_eq_singleton {α : Type} {q : α → Bool} {as : List α} (h : as.countP q ≤ 1) {a : α}
    (ha : a ∈ as) (hq : q a = true) : as.filter q = [a] := by
  have hmem : a ∈ as.filter q := List.mem_filter.mpr ⟨ha, hq⟩
  rw [List.countP_eq_length_filter] at h
  generalize as.filter q = bs at hmem h
  rcases bs with _ | ⟨b, _ | ⟨_, _⟩⟩
  · cases hmem
  · rw [List.mem_singleton.mp hmem]
  · simp at h

theorem flatMap_contents_of_mem {fs : List Fragment} (hnested : fs.countP (·.isNested) ≤ 1)
    {f : Fragment} (hf : f ∈ fs) (h : f.isNested = true) :
    fs.flatMap Fragment.contents = f.contents := by
  rw [flatMap_contents, filter_eq_singleton hnested hf h, List.flatMap_singleton]

theorem fragments_ofList (fs : List Fragment) : (Placed.ofList fs).map (·.fragment) = fs := by
  rw [Placed.ofList, List.map_map]
  exact List.zipIdx_map_fst 0 fs

theorem fragments_contents (p : Placed) : p.contents.map (·.fragment) = p.fragment.contents := by
  obtain ⟨i, f⟩ := p
  cases f <;> simp [Placed.contents, Fragment.contents, Function.comp_def]

theorem fragments_hoisted (fs : List Fragment) : (hoisted fs).map (·.fragment) = unnested fs := by
  have hflat : ((Placed.ofList fs).flatMap Placed.contents).map (·.fragment) =
      ((Placed.ofList fs).map (·.fragment)).flatMap Fragment.contents := by
    rw [List.map_flatMap, List.flatMap_map]
    exact List.flatMap_congr fun p _ => fragments_contents p
  rw [hoisted, List.map_append, hflat, fragments_ofList, unnested]
  congr 1
  conv_rhs => rw [← fragments_ofList fs, List.filter_map]
  rfl

/-- Nested contents can be moved to the end if there is at most one list of them. -/
theorem hoist_eq_ok_iff {fs : List Fragment} {ps : List Placed} :
    hoist fs = .ok ps ↔ fs.countP (·.isNested) ≤ 1 ∧ hoisted fs = ps := by
  have hcount : fs.countP (·.isNested) = ((Placed.ofList fs).filter (·.fragment.isNested)).length := by
    conv_lhs => rw [← fragments_ofList fs, List.countP_map]
    exact List.countP_eq_length_filter
  rw [hcount]
  unfold hoist
  generalize (Placed.ofList fs).filter (·.fragment.isNested) = nested
  rcases nested with _ | ⟨first, _ | ⟨second, rest⟩⟩ <;> simp

/-! ## Events -/

/-- The events of all event tables in the order in which they first occur, each with the
transitions that the last table that has it gives it. -/
def mergedEvents (fs : List Fragment) : EventTable :=
  Table.gathered ((fs.filterMap Fragment.on?).flatMap (·.entries))

/-- The clause for the events of a table, if it has any. -/
def onClause (table : EventTable) : List Fragment :=
  if table.entries = [] then [] else [.on table]

/-- The clauses that say what a table of events says: with relocation, one for each reserved event
that it has, and one for the other events. -/
def eventClauses (relocate : Bool) (table : EventTable) : List Fragment :=
  if relocate then
    ((table.get? doneEvent).map .onDone).toList ++ ((table.get? errorEvent).map .onError).toList ++
      onClause ⟨table.entries.filter fun e => e.1 ≠ doneEvent ∧ e.1 ≠ errorEvent⟩
  else onClause table

/-- The fragments that are written into a node, in the order in which they are. -/
def effective (relocate : Bool) (fs : List Fragment) : List Fragment :=
  (unnested fs).filter (·.facet ≠ .on) ++ eventClauses relocate (mergedEvents (unnested fs))

theorem unreserved_eq (table : EventTable) :
    unreserved table = ⟨table.entries.filter fun e => e.1 ≠ doneEvent ∧ e.1 ≠ errorEvent⟩ := by
  rw [unreserved, Table.erase, Table.erase, List.filter_filter]
  congr 2
  funext e
  rw [Bool.eq_iff_iff]
  simp [and_comm]

theorem eventFragments_eq (relocate : Bool) (table : EventTable) :
    eventFragments relocate table = eventClauses relocate table := by
  have hclause (t : EventTable) : (if t.isEmpty then [] else [.on t]) = onClause t := by
    obtain ⟨es⟩ := t
    cases es <;> rfl
  cases relocate with
  | false => simp only [eventFragments, eventClauses, hclause]; rfl
  | true => simp only [eventFragments, eventClauses, hclause, unreserved_eq, if_true]

theorem facet_ne_on (p : Fragment) : decide (p.facet ≠ .on) = p.on?.isNone := by
  cases p <;> rfl

theorem filterMap_on? (fs : List Fragment) :
    fs.filterMap Fragment.on? = (fs.filter (·.facet = .on)).filterMap Fragment.on? := by
  rw [List.filterMap_filter]
  congr 1
  funext p
  cases p <;> rfl

theorem eventClauses_nil (relocate : Bool) : eventClauses relocate ⟨[]⟩ = [] := by
  cases relocate <;> rfl

/-- The clauses of the event tables stand after all other fragments, at the position of the last
table. -/
theorem uniteEvents_eq (relocate : Bool) (ps : List Placed) :
    uniteEvents relocate ps = ps.filter (·.fragment.facet ≠ .on) ++
      (ps.filter (·.fragment.on?.isSome)).getLast?.elim [] fun last =>
        (eventClauses relocate (mergedEvents (ps.map (·.fragment)))).map (⟨last.position, ·⟩) := by
  have hrest : ps.filter (·.fragment.on?.isNone) = ps.filter (·.fragment.facet ≠ .on) :=
    List.filter_congr fun p _ => (facet_ne_on p.fragment).symm
  have htable : Table.unions (ps.filterMap (·.fragment.on?)) =
      mergedEvents (ps.map (·.fragment)) := by
    rw [Table.unions_eq_gathered, mergedEvents, List.filterMap_map]
    rfl
  unfold uniteEvents
  cases (ps.filter (·.fragment.on?.isSome)).getLast? with
  | none => exact hrest.trans (List.append_nil _).symm
  | some last => simp only [hrest, htable, eventFragments_eq, Option.elim_some]

theorem mergedEvents_of_no_tables {ps : List Placed}
    (h : (ps.filter (·.fragment.on?.isSome)).getLast? = none) :
    mergedEvents (ps.map (·.fragment)) = ⟨[]⟩ := by
  rw [List.getLast?_eq_none_iff, List.filter_eq_nil_iff] at h
  have hnone : (ps.map (·.fragment)).filterMap Fragment.on? = [] := by simpa using h
  rw [mergedEvents, hnone]
  rfl

theorem fragments_uniteEvents (relocate : Bool) (ps : List Placed) :
    (uniteEvents relocate ps).map (·.fragment) =
      (ps.map (·.fragment)).filter (·.facet ≠ .on) ++
        eventClauses relocate (mergedEvents (ps.map (·.fragment))) := by
  rw [uniteEvents_eq, List.map_append, List.filter_map]
  congr 1
  cases h : (ps.filter (·.fragment.on?.isSome)).getLast? with
  | none => rw [mergedEvents_of_no_tables h, eventClauses_nil]; rfl
  | some last =>
      rw [Option.elim_some, List.map_map]
      exact List.map_id _

theorem fragments_written (relocate : Bool) (fs : List Fragment) :
    (uniteEvents relocate (hoisted fs)).map (·.fragment) = effective relocate fs := by
  rw [fragments_uniteEvents, fragments_hoisted, effective]

end Statechart
