import Statechart.Proofs.Soundness

/-!
# Nested states in a list of fragments

Nested states determine the children and the initial state of the node wherever they stand in its
list of fragments, against all other fragments that describe these (`nested_of_outcome`).
-/

namespace Statechart

/-! ## Repeated names -/

/-- The names that stand among `seen` or before in the list, at each place where they do. -/
def repeatedNames (seen names : List String) : List String :=
  (names.zipIdx.filter fun (name, i) => name ∈ seen ++ names.take i).map (·.1)

theorem repeatedNames_cons (seen : List String) (name : String) (names : List String) :
    repeatedNames seen (name :: names) =
      (if name ∈ seen then [name] else []) ++ repeatedNames (seen ++ [name]) names := by
  have hrest : (names.zipIdx 1).filter (fun (n, i) => n ∈ seen ++ (name :: names).take i) =
      (names.zipIdx.filter fun (n, i) => n ∈ seen ++ [name] ++ names.take i).map
        fun (n, i) => (n, i + 1) := by
    rw [List.zipIdx_succ, List.filter_map]
    simp [Function.comp_def]
  rw [repeatedNames, repeatedNames, List.zipIdx_cons, List.filter_cons, hrest]
  by_cases h : name ∈ seen <;> simp [h, Function.comp_def]

theorem repeatedNames_congr {seen seen' : List String} (h : ∀ name, name ∈ seen ↔ name ∈ seen')
    (names : List String) : repeatedNames seen names = repeatedNames seen' names := by
  simp only [repeatedNames, List.mem_append, h]

namespace Builder

theorem events_addStates (children : Table StateNode) (entries : List StateEntry) :
    (addStates children entries).events =
      (repeatedNames children.keys (entries.map (·.name))).map .duplicateState := by
  induction entries generalizing children with
  | nil => rfl
  | cons e rest ih =>
      have hseen : ∀ name, name ∈ (children.insert e.name e.node).keys ↔
          name ∈ children.keys ++ [e.name] := by
        intro name
        rw [Table.mem_keys_insert, List.mem_append, List.mem_singleton]
      rw [addStates, Report.events_bind, Report.outcome_logIf, Report.events_logIf]
      dsimp only
      rw [ih, repeatedNames_congr hseen, List.map_cons, repeatedNames_cons, List.map_append]
      by_cases he : e.name ∈ children.keys <;> simp [he]

theorem events_states (entries : List StateEntry) :
    (states entries).events = (repeatedNames [] (entries.map (·.name))).map .duplicateState := by
  rw [states, Report.events_bind, events_addStates, outcome_addStates]
  exact List.append_nil _

theorem events_parallelStates (entries : List StateEntry) :
    (parallelStates entries).events =
      (repeatedNames [] (entries.map (·.name))).map .duplicateState := by
  rw [parallelStates, Report.events_bind, events_addStates, outcome_addStates]
  exact List.append_nil _

/-! ## The initial entry -/

/-- The entry is the first one that is marked, or the first of all if none is. -/
inductive IsInitialOf (e : StateEntry) (entries : List StateEntry) : Prop
  | marked {front back} : entries = front ++ e :: back → e.isInitial = true →
      (∀ x ∈ front, x.isInitial = false) → IsInitialOf e entries
  | first {rest} : entries = e :: rest → (∀ x ∈ entries, x.isInitial = false) →
      IsInitialOf e entries

theorem isInitialOf_of_initialOf? {entries : List StateEntry} {e : StateEntry}
    (h : initialOf? entries = some e) : IsInitialOf e entries := by
  rcases Option.or_eq_some_iff.mp h with hmarked | ⟨hnone, hfirst⟩
  · obtain ⟨he, front, back, hsplit, hfront⟩ := List.find?_eq_some_iff_append.mp hmarked
    exact .marked hsplit he (by simpa using hfront)
  · obtain ⟨rest, hrest⟩ := List.head?_eq_some_iff.mp hfirst
    exact .first hrest (by simpa using hnone)

theorem exists_initialOf? {entries : List StateEntry} (h : entries ≠ []) :
    ∃ e, initialOf? entries = some e :=
  Option.ne_none_iff_exists'.mp fun hnone => h (entries_eq_nil_of_initialOf? hnone)

end Builder

/-! ## Nested contents and other fragments -/

/-- The name that a fragment by itself gives to the initial state. -/
def Fragment.initial? : Fragment → Option String
  | .initial name => some name
  | _ => none

theorem findRev?_initial (fs : List Fragment) :
    fs.findRev? (·.facet = .initial) = (fs.filterMap Fragment.initial?).getLast?.map .initial := by
  have hinitial (f : Fragment) :
      f.initial?.map .initial = Option.guard (fun f => f.facet = .initial) f := by
    cases f <;> rfl
  rw [List.findRev?_eq_find?_reverse, ← List.getLast?_filter, ← List.getLast?_map, List.map_filterMap,
    ← List.filterMap_eq_filter]
  simp only [hinitial]

theorem filterMap_initial?_flat (fs : List Fragment) :
    (fs.filter (!·.isNested)).filterMap Fragment.initial? = fs.filterMap Fragment.initial? := by
  rw [List.filterMap_filter]
  refine List.filterMap_congr fun f _ => ?_
  cases f <;> rfl

section

variable {options : Options} {fs contents : List Fragment} {n : StateNode}
  (hf : .nested contents ∈ fs) (hn : (assemble options fs).outcome = .ok n)

include hf hn

/-- Nested contents come before all else, for a facet that event tables have no part in. -/
theorem facet?_of_nested (facet : Facet) (h : facet ≠ .on ∧ facet ≠ .onDone ∧ facet ≠ .onError) :
    n.facet? facet = (contents.findRev? (·.facet = facet)).or
      ((fs.filter (!·.isNested)).findRev? (·.facet = facet)) := by
  obtain ⟨hnested, _, _, hdescribes⟩ := outcome_assemble_eq_ok_iff.mp hn
  have hcontents : fs.flatMap Fragment.contents = contents :=
    flatMap_contents_of_mem hnested hf rfl
  have hfacet := hdescribes.facet facet
  rw [findRev?_effective _ _ h, hcontents] at hfacet
  exact hfacet

theorem states_of_nested {children : Table StateNode}
    (h : contents.findRev? (·.facet = .states) = some (.states children)) :
    n.states = some children := by
  have hfacet := facet?_of_nested hf hn .states (by decide)
  rw [h, Option.some_or] at hfacet
  exact Option.map_injective (fun _ _ => Fragment.states.inj) hfacet

theorem initial_of_nested :
    n.initial = (contents.filterMap Fragment.initial?).getLast?.or
      (fs.filterMap Fragment.initial?).getLast? := by
  have hfacet := facet?_of_nested hf hn .initial (by decide)
  rw [findRev?_initial, findRev?_initial, filterMap_initial?_flat, ← Option.map_or] at hfacet
  exact Option.map_injective (fun _ _ => Fragment.initial.inj) hfacet

end

/-! ## Nested states of a node -/

/-- The node has the states of the entries, in the order in which their names first occur, and of
each name the last one. -/
def StateNode.HasEntries (n : StateNode) (entries : List StateEntry) : Prop :=
  ∃ children, n.states = some children ∧ children.keys = (entries.map (·.name)).eraseDups ∧
    ∀ name, children.get? name = (entries.findRev? (·.name = name)).map (·.node)

namespace Builder

theorem hasEntries_of_states {n : StateNode} {entries : List StateEntry}
    (h : n.states = some (childTable entries)) : n.HasEntries entries := by
  exact ⟨_, h, Table.keys_ofList_map _ _, Table.get?_ofList_map _ _⟩

theorem isSome_state?_of_initialOf? {n : StateNode} {entries : List StateEntry} {e : StateEntry}
    (hstates : n.states = some (childTable entries)) (he : initialOf? entries = some e) :
    (n.state? e.name).isSome = true := by
  rw [StateNode.state?, hstates, Option.bind_some, ← Table.mem_keys_iff, mem_keys_childTable]
  exact ⟨e, mem_of_initialOf? he, rfl⟩

/-- Nested states are built from all entries, with a warning for each repeated name. The node then has
the states that they declare and no others. Its initial state is the one that they declare; states in
parallel, or no states at all, leave it to the other fragments. -/
theorem nested_of_outcome (entries : List StateEntry) :
    (states entries).events = (repeatedNames [] (entries.map (·.name))).map .duplicateState ∧
    (parallelStates entries).events =
      (repeatedNames [] (entries.map (·.name))).map .duplicateState ∧
    (∃ f, (states entries).outcome = .ok f ∧
      ∀ options fs (n : StateNode), f ∈ fs → (assemble options fs).outcome = .ok n →
        n.HasEntries entries ∧
        (entries ≠ [] → ∃ e, IsInitialOf e entries ∧ n.initial = some e.name ∧
          (n.state? e.name).isSome = true) ∧
        (entries = [] → n.initial = (fs.filterMap Fragment.initial?).getLast?)) ∧
    ∃ f, (parallelStates entries).outcome = .ok f ∧
      ∀ options fs (n : StateNode), f ∈ fs → (assemble options fs).outcome = .ok n →
        n.HasEntries entries ∧ n.kind = some .parallel ∧
        n.initial = (fs.filterMap Fragment.initial?).getLast? := by
  refine ⟨events_states entries, events_parallelStates entries,
    ⟨_, outcome_states entries, fun options fs n hf hn => ?_⟩,
    ⟨_, outcome_parallelStates entries, fun options fs n hf hn => ?_⟩⟩
  · have hstates : n.states = some (childTable entries) := by
      apply states_of_nested hf hn
      cases initialOf? entries <;> rfl
    have hinitial : n.initial = ((initialOf? entries).map (·.name)).or
        (fs.filterMap Fragment.initial?).getLast? := by
      rw [initial_of_nested hf hn]
      cases initialOf? entries <;> rfl
    refine ⟨hasEntries_of_states hstates, fun hne => ?_, ?_⟩
    · obtain ⟨e, he⟩ := exists_initialOf? hne
      rw [he] at hinitial
      exact ⟨e, isInitialOf_of_initialOf? he, hinitial, isSome_state?_of_initialOf? hstates he⟩
    · rintro rfl
      exact hinitial
  · have hkind := facet?_of_nested hf hn .kind (by decide)
    exact ⟨hasEntries_of_states (states_of_nested hf hn rfl),
      Option.map_injective (fun _ _ => Fragment.kind.inj) hkind, initial_of_nested hf hn⟩

/-- A mark on the first declaration of a name counts, though the second declaration gives the node;
other fragments have no part in this. States in parallel leave the initial state to the last fragment
about it. -/
theorem nested_of_outcome_repeated :
    let entries : List StateEntry := [.bare "b", (StateEntry.bare "a").marked, finalState "a"]
    let others : List Fragment := [.states ⟨[("z", {})]⟩, .initial "z", .kind .atomic, .initial "y"]
    ∃ (f g : Fragment) (n m : StateNode),
      (states entries).events = [.duplicateState "a"] ∧ (states entries).outcome = .ok f ∧
      f ∈ .initial "x" :: f :: others ∧
      (assemble {} (.initial "x" :: f :: others)).outcome = .ok n ∧ n.HasEntries entries ∧
      (∃ e, IsInitialOf e entries ∧ n.initial = some e.name ∧ (n.state? e.name).isSome = true) ∧
      n.initial = some "a" ∧ n.states = some ⟨[("b", {}), ("a", .ofKind .final)]⟩ ∧
      (parallelStates entries).outcome = .ok g ∧ g ∈ .initial "x" :: g :: others ∧
      (assemble {} (.initial "x" :: g :: others)).outcome = .ok m ∧ m.HasEntries entries ∧
      m.kind = some .parallel ∧ m.initial = some "y" := by
  intro entries others
  obtain ⟨hevents, _, ⟨f, hf, hstates⟩, g, hg, hparallel⟩ := nested_of_outcome entries
  obtain rfl := Except.ok.inj hf
  obtain rfl := Except.ok.inj hg
  have hmem (p : Fragment) : p ∈ .initial "x" :: p :: others :=
    List.mem_cons_of_mem _ List.mem_cons_self
  obtain ⟨hentries, hinitial, _⟩ := hstates {} (.initial "x" :: _ :: others) _ (hmem _) rfl
  obtain ⟨hentries', hkind, hlast⟩ := hparallel {} (.initial "x" :: _ :: others) _ (hmem _) rfl
  exact ⟨_, _, _, _, hevents, hf, hmem _, rfl, hentries, hinitial (List.cons_ne_nil _ _), rfl, rfl,
    hg, hmem _, rfl, hentries', hkind, hlast⟩

end Builder

end Statechart
