import Statechart.Proofs.Related
import Statechart.Proofs.Sketch

/-!
# Going down in machines

States that are described with builder calls are found again in the machine that the calls make, by
their names and with the transitions of their descriptions (`descend_of_outcome`).
-/

namespace Statechart.Builder

/-! ## Nested states -/

/-- The fragment is what the descriptions of nested states are built as. -/
def NestedAs (children : List Sketch) (f : Fragment) : Prop :=
  ∃ entries, List.Forall₂ (·.build.outcome = .ok ·) children entries ∧
    f = .states (childTable entries)

theorem rel_get? {children : List Sketch} {entries : List StateEntry}
    (h : List.Forall₂ (·.build.outcome = .ok ·) children entries) (name : String) :
    Option.Rel Sketch.Makes (children.findRev? (·.name = name)) ((childTable entries).get? name) := by
  have hname (s : Sketch) (e : StateEntry) (h : s.build.outcome = .ok e) :
      decide (s.name = name) = decide (e.name = name) := by
    rw [(s.becomes_of_build h).name]
  have hlast := rel_map (S := Sketch.Makes) (f := id) (rel_findRev? h hname)
    fun _ e h => ⟨e, h, rfl⟩
  rw [Option.map_id_apply] at hlast
  rw [childTable, Table.get?_ofList_map]
  exact hlast

theorem Part.Becomes.contents {p : Part} {f : Fragment} (h : p.Becomes f) :
    f.isNested = p.children?.isSome ∧
      Option.Rel NestedAs p.children? (f.contents.findRev? (·.facet = .states)) := by
  cases h with
  | on _ => exact ⟨rfl, .none⟩
  | other _ hstates =>
      cases f with
      | nested contents => exact absurd rfl hstates
      | _ => exact ⟨rfl, .none⟩
  | @states children entries hchildren =>
      refine ⟨rfl, ?_⟩
      cases h : initialOf? entries <;> exact .some ⟨entries, hchildren, rfl⟩
  | parallelStates hchildren => exact ⟨rfl, .some ⟨_, hchildren, rfl⟩⟩

theorem rel_contents {parts : List Part} {fs : List Fragment}
    (hfs : List.Forall₂ Part.Becomes parts fs) (hnested : fs.countP (·.isNested) ≤ 1) :
    Option.Rel NestedAs (parts.findSome? Part.children?)
      ((fs.flatMap Fragment.contents).findRev? (·.facet = .states)) := by
  induction hfs with
  | nil => exact .none
  | @cons part f parts fs hpart _ ih =>
      obtain ⟨hcount, hrel⟩ := hpart.contents
      rw [List.countP_cons, hcount] at hnested
      rw [List.findSome?_cons, List.flatMap_cons, findRev?_append]
      generalize part.children? = children at hnested hrel ⊢
      generalize f.contents.findRev? _ = nested at hrel ⊢
      cases hrel with
      | none =>
          rw [Option.or_none]
          exact ih (by simpa using hnested)
      | some h =>
          -- Nothing is nested in the fragments that follow.
          have hzero : fs.countP (·.isNested) = 0 := by simpa using hnested
          rw [flatMap_contents, List.filter_eq_nil_iff.mpr (List.countP_eq_zero.mp hzero)]
          exact .some h

/-- Nested states stand in the contents of a fragment, and no events do. -/
theorem Part.Becomes.nesting {p : Part} {f : Fragment} (h : p.Becomes f) :
    (f.facet = .states → f.isNested = true) ∧ f.contents.filterMap Fragment.on? = [] := by
  cases h with
  | on _ => exact ⟨nofun, rfl⟩
  | other _ hstates =>
      cases f with
      | nested contents => exact absurd rfl hstates
      | _ => exact ⟨fun h => absurd h hstates, rfl⟩
  | @states _ entries _ =>
      refine ⟨fun _ => rfl, ?_⟩
      cases h : initialOf? entries <;> rfl
  | parallelStates _ => exact ⟨fun _ => rfl, rfl⟩

theorem forall_nesting {parts : List Part} {fs : List Fragment}
    (hfs : List.Forall₂ Part.Becomes parts fs) :
    ∀ f ∈ fs, (f.facet = .states → f.isNested = true) ∧ f.contents.filterMap Fragment.on? = [] :=
  ((List.forall₂_and_left _ _).mp (List.Forall₂.flip (hfs.imp fun _ _ h => ⟨h.nesting, h⟩))).1

/-! ## Clauses -/

/-- The table is what a clause for an event is built as. -/
def TabledAs (clause : String × List Fragment) (table : EventTable) : Prop :=
  ∃ ts, (groupRun clause.2).outcome = .ok ts ∧ table = ⟨[(clause.1, ts)]⟩

theorem Part.Becomes.clause {p : Part} {f : Fragment} (h : p.Becomes f) :
    Option.Rel TabledAs p.clause? f.on? := by
  cases h with
  | on hrun => exact .some ⟨_, hrun, rfl⟩
  | states _ | parallelStates _ => exact .none
  | other hon _ =>
      cases f with
      | on table => exact absurd rfl hon
      | _ => exact .none

theorem forall₂_entries {clauses : List (String × List Fragment)} {tables : List EventTable}
    (h : List.Forall₂ TabledAs clauses tables) :
    List.Forall₂ (fun clause e => clause.1 = e.1 ∧ (groupRun clause.2).outcome = .ok e.2) clauses
      (tables.flatMap (·.entries)) := by
  induction h with
  | nil => exact .nil
  | cons htable _ ih =>
      obtain ⟨ts, hrun, rfl⟩ := htable
      exact .cons ⟨rfl, hrun⟩ ih

section

variable {parts : List Part} {fs : List Fragment} (hfs : List.Forall₂ Part.Becomes parts fs)

include hfs

theorem filterMap_on?_unnested : (unnested fs).filterMap Fragment.on? = fs.filterMap Fragment.on? := by
  have hcontents : (fs.flatMap Fragment.contents).filterMap Fragment.on? = [] := by
    rw [List.filterMap_flatMap, List.flatMap_eq_nil_iff]
    exact fun f hf => (forall_nesting hfs f hf).2
  rw [unnested, List.filterMap_append, hcontents, List.append_nil, List.filterMap_filter]
  refine List.filterMap_congr fun f _ => ?_
  cases f <;> rfl

theorem rel_mergedEvents (event : String) :
    Option.Rel (fun run ts => (groupRun run).outcome = .ok ts)
      (((parts.filterMap Part.clause?).findRev? (·.1 = event)).map (·.2))
      ((mergedEvents (unnested fs)).get? event) := by
  rw [mergedEvents, filterMap_on?_unnested hfs, ← Table.ofList_eq_gathered, Table.get?_ofList]
  have hclauses := List.rel_filterMap (fun _ _ h => h.clause) hfs
  refine rel_map (rel_findRev? (forall₂_entries hclauses) ?_) fun _ _ h => h.2
  intro clause e h
  rw [h.1]

variable {n : StateNode} (hn : (assemble {} fs).outcome = .ok n)

include hn

theorem rel_state? (name : String) :
    Option.Rel Sketch.Makes
      ((parts.findSome? Part.children?).bind (·.findRev? (·.name = name))) (n.state? name) := by
  obtain ⟨hnested, _, _, hdescribes⟩ := outcome_assemble_eq_ok_iff.mp hn
  have hflat : (fs.filter (!·.isNested)).findRev? (·.facet = .states) = none := by
    rw [List.findRev?_eq_find?_reverse, List.find?_eq_none]
    intro f hf hfacet
    obtain ⟨hf, hflat⟩ := List.mem_filter.mp (List.mem_reverse.mp hf)
    rw [(forall_nesting hfs f hf).1 (of_decide_eq_true hfacet)] at hflat
    cases hflat
  have hstates := hdescribes.facet .states
  rw [findRev?_effective _ _ (by simp), hflat, Option.or_none] at hstates
  have hrel := rel_contents hfs hnested
  rw [← hstates] at hrel
  change Option.Rel _ _ (n.states.map Fragment.states) at hrel
  rw [StateNode.state?]
  generalize n.states = states at hrel ⊢
  generalize parts.findSome? Part.children? = children at hrel ⊢
  cases states with
  | none =>
      cases hrel
      exact .none
  | some table =>
      cases hrel with
      | some h =>
          obtain ⟨entries, hentries, ⟨⟩⟩ := h
          exact rel_get? hentries name

theorem rel_transitions? (event : String) :
    Option.Rel (fun run ts => (groupRun run).outcome = .ok ts)
      (if event = errorEvent ∨ event = doneEvent then none
        else ((parts.filterMap Part.clause?).findRev? (·.1 = event)).map (·.2))
      (n.transitions? event) := by
  obtain ⟨_, _, _, hdescribes⟩ := outcome_assemble_eq_ok_iff.mp hn
  rw [transitions?_of_on hdescribes.on_eq, get?_otherEvents]
  split
  · exact .none
  · exact rel_mergedEvents hfs event

end

/-! ## Going down -/

namespace Sketch.Makes

variable {s : Sketch} {n : StateNode} (h : s.Makes n)

include h

theorem child (name : String) : Option.Rel Makes (s.child? name) (n.state? name) := by
  obtain ⟨e, he, rfl⟩ := h
  rw [child?]
  cases becomes_of_build he with
  | assembled _ hparts hn => exact rel_state? hparts hn name
  | leaf _ hparts hstates _ =>
      rw [hparts, StateNode.state?, hstates]
      exact .none

theorem transitions (event : String) :
    Option.Rel (fun run ts => (groupRun run).outcome = .ok ts)
      (if event = errorEvent ∨ event = doneEvent then none else s.run? event)
      (n.transitions? event) := by
  obtain ⟨e, he, rfl⟩ := h
  rw [run?]
  cases becomes_of_build he with
  | assembled _ hparts hn => exact rel_transitions? hparts hn event
  | leaf _ hparts _ hon =>
      rw [hparts, StateNode.transitions?, hon]
      split <;> exact .none

theorem descend (path : List String) :
    match s.descend path with
    | .ok s => ∃ c, s.Makes c ∧ n.descend path = .ok c
    | .error i => n.descend path = .error i := by
  induction path generalizing s n with
  | nil => exact ⟨n, h, rfl⟩
  | cons name path ih =>
      -- The next description and the next node are there both or not at all.
      have hrel := h.child name
      rw [Sketch.descend, StateNode.descend]
      generalize s.child? name = child at hrel ⊢
      generalize n.state? name = node at hrel ⊢
      cases hrel with
      | none => rfl
      | @some s c h =>
          have hpath := ih h
          dsimp only at hpath ⊢
          cases hs : s.descend path with
          | ok s =>
              rw [hs] at hpath
              obtain ⟨c', hc, hpath⟩ := hpath
              exact ⟨c', hc, by rw [hpath]; rfl⟩
          | error i =>
              rw [hs] at hpath
              rw [hpath]
              rfl

end Sketch.Makes

/-- Going down in a machine is going down in its description, whose root needs no name: it leads to
the node that the description is built as, or fails at the same name. The node has, for each event
that is not reserved, the transitions of the last run for it. -/
theorem descend_of_outcome {parts : List Part} {m : Machine}
    (h : (Part.buildAll parts >>= Machine.assemble {}).outcome = .ok m) (path : List String) :
    match (Sketch.state "" parts).descend path with
    | .error i => m.root.descend path = .error i
    | .ok s => ∃ n, s.Makes n ∧ m.root.descend path = .ok n ∧ ∀ event,
        Option.Rel (fun run ts => (groupRun run).outcome = .ok ts)
          (if event = errorEvent ∨ event = doneEvent then none else s.run? event)
          (n.transitions? event) := by
  have hroot : (Sketch.state "" parts).Makes m.root := by
    obtain ⟨fs, hfs, hm⟩ := Report.outcome_bind_eq_ok_iff.mp h
    have hstate : (state "" fs).outcome = .ok { name := "", node := m.root } :=
      Report.outcome_bind_eq_ok_iff.mpr ⟨m.root, Machine.assembled_root hm, rfl⟩
    refine ⟨{ name := "", node := m.root }, ?_, rfl⟩
    rw [Sketch.build]
    exact Report.outcome_bind_eq_ok_iff.mpr ⟨fs, hfs, hstate⟩
  have hpath := hroot.descend path
  generalize (Sketch.state "" parts).descend path = reached at hpath ⊢
  cases reached with
  | error i => exact hpath
  | ok s =>
      obtain ⟨n, hs, hn⟩ := hpath
      exact ⟨n, hs, hn, hs.transitions⟩

/-- Of two states of one name the last one is found, and of two clauses for one event the last one
counts. -/
theorem descend_of_outcome_repeated :
    let parts : List Part := [
      .on "GO" [.target "a"],
      .parallelStates [
        .state "a" [.states [.bare "b"]],
        .marked (.state "a" [
          .on "GO" [.target "b"], .states [.finalState "b", .bare "c"], .on "done" [.target "b"],
          .other (.id "last") (by decide) (by decide), .on "GO" [.cond (.named "ok"), .target "c"]])]]
    ∃ (m : Machine) (n : StateNode), (Part.buildAll parts >>= Machine.assemble {}).outcome = .ok m ∧
      m.root.descend ["a"] = .ok n ∧ n.id = some "last" ∧ n.transitions? "done" = none ∧
      n.transitions? "GO" = some [{ cond := some (.named "ok") }, .ofTarget "c"] ∧
      m.root.descend ["a", "c", "b"] = .error 2 := by
  intro parts
  obtain ⟨m, hm⟩ : ∃ m, (Part.buildAll parts >>= Machine.assemble {}).outcome = .ok m := ⟨_, rfl⟩
  obtain ⟨n, hmakes, hn, htransitions⟩ := descend_of_outcome hm ["a"]
  have hdone := htransitions "done"
  have hgo := htransitions "GO"
  change Option.Rel _ none _ at hdone
  change Option.Rel _ (some [Fragment.cond (.named "ok"), .target "c"]) _ at hgo
  refine ⟨m, n, hm, hn, ?_, ?_, ?_, descend_of_outcome hm ["a", "c", "b"]⟩
  · obtain ⟨e, ⟨⟩, rfl⟩ := hmakes
    rfl
  · generalize n.transitions? "done" = ts at hdone
    cases hdone
    rfl
  · generalize n.transitions? "GO" = ts at hgo
    cases hgo with
    | some h =>
        cases h
        rfl

end Statechart.Builder
