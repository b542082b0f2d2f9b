import Mathlib.Logic.Relation
import Statechart.Builder.Clause
import Statechart.Builder.Children
import Statechart.Machine
import Statechart.Proofs.NormalForm

/-!
# Sound machines

Machines that are made with builders only are sound at every depth: initial states exist, events are
not reserved, and states of a special kind have the facets of their kind and no others
(`sound_of_built`).
-/

namespace Statechart

/-! ## What builders make -/

namespace Builder

mutual

/-- A fragment that builders make. A clause may be made from any fragments, since no nested states
get into it; nested states are made from states that builders make. -/
inductive Built : Fragment → Prop
  | id (name : String) : Built (.id name)
  | context (json : Json) : Built (.context json)
  | metadata (json : Json) : Built (.metadata json)
  | data (json : Json) : Built (.dataOf json)
  | dataWith (e : Expr) : Built (.data (.function e))
  | history (mode : HistoryMode) : Built (.history mode)
  | activities (items : List Activity) : Built (.activities items)
  | delimiter (text : String) : Built (.delimiter text)
  | autoForward : Built (.autoForward true)
  | target (name : String) : Built (.target name)
  | action (a : Action) : Built (.action a)
  | cond (guard : Guard) : Built (.cond guard)
  | transition (t : Transition) : Built (.transition t)
  | on {event run f} : (Builder.on event run).outcome = .ok f → Built f
  | onDone {run f} : (Builder.onDone run).outcome = .ok f → Built f
  | onError {run f} : (Builder.onError run).outcome = .ok f → Built f
  | always {run f} : (Builder.always run).outcome = .ok f → Built f
  | after (delays : List Delayed) : Built (Builder.after delays)
  | entry {fs f} : Builder.entry fs = .ok f → Built f
  | exit {fs f} : Builder.exit fs = .ok f → Built f
  | invoke {src fs f} : (Builder.invoke src fs).outcome = .ok f → Built f
  | mergeActions {fs f} : (mergeActions fs).outcome = .ok f → Built f
  | mergeEventTables {fs f} : mergeEventTables fs = .ok f → Built f
  | states {entries f} : (∀ e ∈ entries, BuiltState e) →
      (Builder.states entries).outcome = .ok f → Built f
  | parallelStates {entries f} : (∀ e ∈ entries, BuiltState e) →
      (Builder.parallelStates entries).outcome = .ok f → Built f

/-- A named state that builders make. -/
inductive BuiltState : StateEntry → Prop
  | state {name fs e} : (∀ p ∈ fs, Built p) → (Builder.state name fs).outcome = .ok e → BuiltState e
  | initialState {name fs e} : (∀ p ∈ fs, Built p) →
      (Builder.initialState name fs).outcome = .ok e → BuiltState e
  | finalState (name : String) : BuiltState (Builder.finalState name)
  | historyState (name : String) (mode : Option HistoryMode) (target : Option String) :
      BuiltState (Builder.historyState name mode target)
  | bare (name : String) : BuiltState (.bare name)
  | marked {e} : BuiltState e → BuiltState e.marked

end

end Builder

/-- A machine builder in use: options are set, and fragments that builders make are added. -/
inductive MachineBuilder.Reached : MachineBuilder → Prop
  | new : Reached {}
  | withOptions {b} (options : Options) : Reached b → Reached (b.withOptions options)
  | add {b f} : Reached b → Builder.Built f → Reached (b.add f)
  | tryAdd {b b' f} : Reached b → (∀ p, f = .ok p → Builder.Built p) → b.tryAdd f = .ok b' → Reached b'
  | addAll {b fs} : Reached b → (∀ p ∈ fs, Builder.Built p) → Reached (b.addAll fs)

/-- A machine that builders make, with the reserved events of its root relocated or not. -/
inductive Machine.Built : Bool → Machine → Prop
  | assemble {options fs m} : (∀ p ∈ fs, Builder.Built p) →
      (Machine.assemble options fs).outcome = .ok m → Built options.relocateReservedEvents m
  | build {b : MachineBuilder} {m} : b.Reached → b.build.outcome = .ok m →
      Built b.options.relocateReservedEvents m

/-! ## Soundness -/

namespace StateNode

/-- A node whose parts fit together; `relocate` says whether its reserved events were relocated. -/
structure Sound (relocate : Bool) (n : StateNode) : Prop where
  on : ∀ table, n.on = some table → table.Distinct ∧ table.entries ≠ [] ∧
    (relocate = true → doneEvent ∉ table.keys ∧ errorEvent ∉ table.keys)
  initial : ∀ name, n.initial = some name → ∃ children, n.states = some children ∧ name ∈ children.keys
  hasInitial : ∀ children, n.states = some children → children.entries ≠ [] →
    n.kind ≠ some .parallel → n.initial.isSome
  parallel : n.kind = some .parallel → n.states.isSome ∧ n.initial = none
  final : n.kind = some .final → n = .ofKind .final
  history : n.kind = some .history →
    ∃ mode target, n = { kind := some .history, history := some mode, target }
  kind : n.kind ≠ some .atomic ∧ n.kind ≠ some .compound
  states : ∀ children, n.states = some children → children.Distinct

end StateNode

/-! ## What builders make of nested states -/

/-- Whether builders describe the facet by nested states only. -/
def Facet.isNesting : Facet → Bool
  | initial | kind | states => true
  | _ => false

namespace Builder

/-- The states as they are nested: of states of one name, the last one. -/
def childTable (entries : List StateEntry) : Table StateNode :=
  .ofList (entries.map fun e => (e.name, e.node))

theorem outcome_addStates (children : Table StateNode) (entries : List StateEntry) :
    (addStates children entries).outcome =
      .ok (children.insertAll (entries.map fun e => (e.name, e.node))) := by
  induction entries generalizing children with
  | nil => rfl
  | cons e rest ih =>
      rw [addStates, Report.outcome_bind, Report.outcome_logIf]
      exact ih _

theorem outcome_states (entries : List StateEntry) :
    (states entries).outcome = .ok (.nested
      (.states (childTable entries) :: ((initialOf? entries).map (.initial ·.name)).toList)) := by
  rw [states, Report.outcome_bind, outcome_addStates]
  rfl

theorem outcome_parallelStates (entries : List StateEntry) :
    (parallelStates entries).outcome =
      .ok (.nested [.states (childTable entries), .kind .parallel]) := by
  rw [parallelStates, Report.outcome_bind, outcome_addStates]
  rfl

theorem assembled_of_state {name : String} {fs : List Fragment} {e : StateEntry}
    (h : (state name fs).outcome = .ok e) :
    e.name = name ∧ (assemble {} fs).outcome = .ok e.node := by
  obtain ⟨n, hn, ⟨⟩⟩ := Report.outcome_bind_eq_ok_iff.mp h
  exact ⟨rfl, hn⟩

theorem assembled_of_initialState {name : String} {fs : List Fragment} {e : StateEntry}
    (h : (initialState name fs).outcome = .ok e) :
    e.name = name ∧ (assemble {} fs).outcome = .ok e.node := by
  obtain ⟨e, he, ⟨⟩⟩ := Report.outcome_bind_eq_ok_iff.mp h
  obtain ⟨hname, hn⟩ := assembled_of_state he
  exact ⟨hname, hn⟩

theorem exists_of_bind_eq_ok {α β : Type} {x : Except AssemblyError α}
    {f : α → Except AssemblyError β} {b : β} (h : x >>= f = .ok b) : ∃ a, f a = .ok b := by
  cases x with
  | error e => cases h
  | ok a => exact ⟨a, h⟩

/-- A fragment about nested states that builders make. -/
inductive NestsStates : Fragment → Prop
  | states {entries} : (∀ e ∈ entries, BuiltState e) → NestsStates (.nested
      (.states (childTable entries) :: ((initialOf? entries).map (.initial ·.name)).toList))
  | parallel {entries} : (∀ e ∈ entries, BuiltState e) → NestsStates
      (.nested [.states (childTable entries), .kind .parallel])

theorem Built.shape {p : Fragment} (h : Built p) : p.facet.isNesting = false ∨ NestsStates p := by
  match h with
  | .id _ | .context _ | .metadata _ | .data _ | .dataWith _ | .history _ | .activities _
  | .delimiter _ | .autoForward | .target _ | .action _ | .cond _ | .transition _ | .after _ =>
      exact Or.inl rfl
  | .on h | .onDone h | .onError h | .always h | .invoke h =>
      obtain ⟨_, _, ⟨⟩⟩ := Report.outcome_bind_eq_ok_iff.mp h
      exact Or.inl rfl
  | .mergeActions h =>
      obtain ⟨_, _, h⟩ := Report.outcome_bind_eq_ok_iff.mp h
      obtain ⟨_, _, ⟨⟩⟩ := Report.outcome_bind_eq_ok_iff.mp h
      exact Or.inl rfl
  | .entry h | .exit h | .mergeEventTables h =>
      obtain ⟨_, ⟨⟩⟩ := exists_of_bind_eq_ok h
      exact Or.inl rfl
  | .states hentries h =>
      rw [outcome_states] at h
      cases h
      exact Or.inr (.states hentries)
  | .parallelStates hentries h =>
      rw [outcome_parallelStates] at h
      cases h
      exact Or.inr (.parallel hentries)

/-- A node with the nested states that a builder gives it. -/
inductive Nesting (n : StateNode) : Prop
  | leaf : n.states = none → n.initial = none → n.kind = none → Nesting n
  | states {entries} : (∀ e ∈ entries, BuiltState e) → n.states = some (childTable entries) →
      n.initial = (initialOf? entries).map (·.name) → n.kind = none → Nesting n
  | parallel {entries} : (∀ e ∈ entries, BuiltState e) → n.states = some (childTable entries) →
      n.initial = none → n.kind = some .parallel → Nesting n

end Builder

/-! ## Assembled nodes -/

section

variable {fs : List Fragment} (hfs : ∀ p ∈ fs, Builder.Built p)

include hfs

/-- Only nested contents describe the facets of nested states. -/
theorem findRev?_effective_of_built (relocate : Bool) {f : Facet} (hf : f.isNesting = true) :
    (effective relocate fs).findRev? (·.facet = f) =
      (fs.flatMap Fragment.contents).findRev? (·.facet = f) := by
  have hflat : (fs.filter (!·.isNested)).findRev? (·.facet = f) = none := by
    rw [List.findRev?_eq_find?_reverse, List.find?_eq_none]
    intro p hp he
    obtain ⟨hp, hflat⟩ := List.mem_filter.mp (List.mem_reverse.mp hp)
    rw [← of_decide_eq_true he] at hf
    rcases (hfs p hp).shape with h | h
    · rw [h] at hf
      cases hf
    · cases h <;> cases hflat
  rw [findRev?_effective relocate fs (by cases f <;> cases hf <;> simp), hflat, Option.or_none]

theorem contents_cases (hnested : fs.countP (·.isNested) ≤ 1) :
    fs.flatMap Fragment.contents = [] ∨
      ∃ p, Builder.NestsStates p ∧ fs.flatMap Fragment.contents = p.contents := by
  by_cases h : ∃ p ∈ fs, p.isNested = true
  · obtain ⟨p, hp, hpn⟩ := h
    rcases (hfs p hp).shape with hshape | hshape
    · cases p <;> cases hpn
      cases hshape
    · exact Or.inr ⟨p, hshape, flatMap_contents_of_mem hnested hp hpn⟩
  · have hnone : fs.filter (·.isNested) = [] :=
      List.filter_eq_nil_iff.mpr fun p hp hpn => h ⟨p, hp, hpn⟩
    rw [flatMap_contents, hnone]
    exact Or.inl rfl

theorem nesting_of_outcome {options : Options} {n : StateNode}
    (hn : (assemble options fs).outcome = .ok n) : Builder.Nesting n := by
  obtain ⟨hnested, _, _, hdescribes⟩ := outcome_assemble_eq_ok_iff.mp hn
  have hfacet (f : Facet) (hf : f.isNesting = true) : n.facet? f =
      (fs.flatMap Fragment.contents).findRev? (·.facet = f) :=
    (hdescribes.facet f).trans (findRev?_effective_of_built hfs _ hf)
  have hstates := hfacet .states rfl
  have hinitial := hfacet .initial rfl
  have hkind := hfacet .kind rfl
  simp only [StateNode.facet?] at hstates hinitial hkind
  rcases contents_cases hfs hnested with h | ⟨p, hp, h⟩
  · rw [h] at hstates hinitial hkind
    exact .leaf (by simpa using hstates) (by simpa using hinitial) (by simpa using hkind)
  · rw [h] at hstates hinitial hkind
    cases hp with
    | @states entries hentries =>
        cases hi : Builder.initialOf? entries <;>
          simp only [hi, Fragment.contents] at hstates hinitial hkind <;>
          exact .states hentries (by simpa [Fragment.facet] using hstates)
            (by simpa [Fragment.facet, hi] using hinitial) (by simpa [Fragment.facet] using hkind)
    | parallel hentries =>
        simp only [Fragment.contents] at hstates hinitial hkind
        exact .parallel hentries (by simpa [Fragment.facet] using hstates)
          (by simpa [Fragment.facet] using hinitial) (by simpa [Fragment.facet] using hkind)

end

/-- The events that are left to a table, if any are, are not reserved. -/
theorem sound_of_mem_eventClauses {relocate : Bool} {table rest : EventTable}
    (hdistinct : table.Distinct) (h : .on rest ∈ eventClauses relocate table) :
    rest.Distinct ∧ rest.entries ≠ [] ∧
      (relocate = true → doneEvent ∉ rest.keys ∧ errorEvent ∉ rest.keys) := by
  cases relocate with
  | false =>
      obtain ⟨hne, he⟩ := mem_onClause.mp h
      cases he
      exact ⟨hdistinct, hne, fun hr => by cases hr⟩
  | true =>
      obtain ⟨hne, he⟩ := mem_onClause.mp (on_mem_eventClauses.mp h)
      cases he
      have hkeys {event : String} (h : event ∈ (otherEvents table).keys) :
          event ≠ doneEvent ∧ event ≠ errorEvent := by
        obtain ⟨e, he, rfl⟩ := List.mem_map.mp h
        exact of_decide_eq_true (List.mem_filter.mp he).2
      exact ⟨distinct_otherEvents hdistinct, hne, fun _ =>
        ⟨fun h => (hkeys h).1 rfl, fun h => (hkeys h).2 rfl⟩⟩

namespace Builder

theorem mem_keys_childTable {entries : List StateEntry} {name : String} :
    name ∈ (childTable entries).keys ↔ ∃ e ∈ entries, e.name = name := by
  simp [childTable, Table.mem_keys_ofList]

theorem mem_of_initialOf? {entries : List StateEntry} {e : StateEntry}
    (h : initialOf? entries = some e) : e ∈ entries := by
  rcases Option.or_eq_some_iff.mp h with h | ⟨_, h⟩
  · exact List.mem_of_find?_eq_some h
  · exact List.mem_of_mem_head? h

theorem entries_eq_nil_of_initialOf? {entries : List StateEntry} (h : initialOf? entries = none) :
    entries = [] :=
  List.head?_eq_none_iff.mp (Option.or_eq_none_iff.mp h).2

/-- The nodes below a node are those of the states that are nested in it. -/
theorem Nesting.child {n c : StateNode} (h : Nesting n) (hc : n.HasChild c) :
    ∃ e, BuiltState e ∧ e.node = c := by
  obtain ⟨children, hchildren, name, hmem⟩ := hc
  have hentry {entries : List StateEntry} (hentries : ∀ e ∈ entries, BuiltState e)
      (hstates : n.states = some (childTable entries)) : ∃ e, BuiltState e ∧ e.node = c := by
    rw [hstates, Option.some.injEq] at hchildren
    subst hchildren
    obtain ⟨e, he, heq⟩ := List.mem_map.mp (Table.mem_of_mem_ofList hmem)
    exact ⟨e, hentries e he, congrArg Prod.snd heq⟩
  cases h with
  | leaf hstates =>
      rw [hstates] at hchildren
      cases hchildren
  | states hentries hstates => exact hentry hentries hstates
  | parallel hentries hstates => exact hentry hentries hstates

section

variable {relocate : Bool} {n : StateNode}
  (hon : ∀ table, n.on = some table → table.Distinct ∧ table.entries ≠ [] ∧
    (relocate = true → doneEvent ∉ table.keys ∧ errorEvent ∉ table.keys))

include hon

theorem sound_of_kind (hkind : n.kind = none)
    (hinitial : ∀ name, n.initial = some name →
      ∃ children, n.states = some children ∧ name ∈ children.keys)
    (hhas : ∀ children, n.states = some children → children.entries ≠ [] → n.initial.isSome)
    (hstates : ∀ children, n.states = some children → children.Distinct) : n.Sound relocate where
  on := hon
  initial := hinitial
  hasInitial children hchildren hne _ := hhas children hchildren hne
  parallel := by simp [hkind]
  final := by simp [hkind]
  history := by simp [hkind]
  kind := by simp [hkind]
  states := hstates

theorem Nesting.sound (h : Nesting n) : n.Sound relocate := by
  have hdistinct (entries : List StateEntry) : (childTable entries).Distinct :=
    Table.distinct_ofList _
  cases h with
  | leaf hstates hinitial hkind =>
      exact sound_of_kind hon hkind (by simp [hinitial]) (by simp [hstates]) (by simp [hstates])
  | @states entries hentries hstates hinitial hkind =>
      refine sound_of_kind hon hkind ?_ ?_ (by simp [hstates, hdistinct])
      · intro name hname
        obtain ⟨e, he, rfl⟩ := Option.map_eq_some_iff.mp (hinitial.symm.trans hname)
        exact ⟨_, hstates, mem_keys_childTable.mpr ⟨e, mem_of_initialOf? he, rfl⟩⟩
      · intro children hchildren hne
        rw [hinitial, Option.isSome_map]
        cases hi : initialOf? entries with
        | some e => rfl
        | none =>
            -- Without an initial state there are no entries, and then the table is empty.
            obtain rfl := entries_eq_nil_of_initialOf? hi
            cases hstates.symm.trans hchildren
            exact absurd rfl hne
  | parallel hentries hstates hinitial hkind =>
      exact {
        on := hon
        initial := by simp [hinitial]
        hasInitial := by simp [hkind]
        parallel := by simp [hstates, hinitial]
        final := by simp [hkind]
        history := by simp [hkind]
        kind := by simp [hkind]
        states := by simp [hstates, hdistinct] }

end

/-- One level: a node that is assembled from what builders make is sound, and the nodes nested in it
are again those of states that builders make. -/
theorem sound_of_outcome {options : Options} {fs : List Fragment} (hfs : ∀ p ∈ fs, Built p)
    {n : StateNode} (hn : (assemble options fs).outcome = .ok n) :
    n.Sound options.relocateReservedEvents ∧
      ∀ c, n.HasChild c → ∃ e, BuiltState e ∧ e.node = c := by
  have hnesting := nesting_of_outcome hfs hn
  refine ⟨Nesting.sound (fun table htable => ?_) hnesting, fun _ => hnesting.child⟩
  have hfacet : Faceted.facet? n .on = some (.on table) := congrArg (Option.map Fragment.on) htable
  rcases List.mem_append.mp (mem_effective hn hfacet) with h | h
  · exact absurd rfl (of_decide_eq_true (List.mem_filter.mp h).2)
  · exact sound_of_mem_eventClauses (distinct_mergedEvents _) h

theorem BuiltState.sound {e : StateEntry} (h : BuiltState e) :
    e.node.Sound true ∧ ∀ c, e.node.HasChild c → ∃ e', BuiltState e' ∧ e'.node = c := by
  match h with
  | .state hfs h => exact sound_of_outcome hfs (assembled_of_state h).2
  | .initialState hfs h => exact sound_of_outcome hfs (assembled_of_initialState h).2
  | .finalState _ =>
      refine ⟨⟨nofun, nofun, nofun, nofun, fun _ => rfl, nofun, ⟨nofun, nofun⟩, nofun⟩, ?_⟩
      rintro _ ⟨_, ⟨⟩, _⟩
  | .historyState _ mode target =>
      refine ⟨⟨nofun, nofun, nofun, nofun, nofun, fun _ => ⟨_, target, rfl⟩,
        ⟨nofun, nofun⟩, nofun⟩, ?_⟩
      rintro _ ⟨_, ⟨⟩, _⟩
  | .bare _ => exact @sound_of_outcome {} [] (List.forall_mem_nil _) _ rfl
  | .marked h => exact h.sound

end Builder

/-- All nodes of a state that builders make are sound. -/
theorem Builder.BuiltState.sound_of_below {e : StateEntry} (h : BuiltState e) {n : StateNode}
    (hn : Relation.ReflTransGen StateNode.HasChild e.node n) : n.Sound true := by
  have hbuilt : ∃ e', BuiltState e' ∧ e'.node = n := by
    induction hn with
    | refl => exact ⟨e, h, rfl⟩
    | tail _ hc ih =>
        obtain ⟨e', he', rfl⟩ := ih
        exact he'.sound.2 _ hc
  obtain ⟨e', he', rfl⟩ := hbuilt
  exact he'.sound.1

/-! ## Machines -/

theorem MachineBuilder.Reached.built {b : MachineBuilder} (h : b.Reached) :
    ∀ p ∈ b.fragments, Builder.Built p := by
  induction h with
  | new => exact List.forall_mem_nil _
  | withOptions _ _ ih => exact ih
  | add _ hf ih => exact List.forall_mem_append.mpr ⟨ih, List.forall_mem_singleton.mpr hf⟩
  | @tryAdd b b' f _ hf hb ih =>
      cases f with
      | error e => cases hb
      | ok p =>
          cases hb
          exact List.forall_mem_append.mpr ⟨ih, List.forall_mem_singleton.mpr (hf p rfl)⟩
  | addAll _ hfs ih => exact List.forall_mem_append.mpr ⟨ih, hfs⟩

theorem Machine.assembled_root {options : Options} {fs : List Fragment} {m : Machine}
    (h : (Machine.assemble options fs).outcome = .ok m) :
    (Statechart.assemble options fs).outcome = .ok m.root := by
  obtain ⟨n, hn, ⟨⟩⟩ := Report.outcome_bind_eq_ok_iff.mp h
  exact hn

theorem Machine.Built.exists_fragments {relocate : Bool} {m : Machine} (h : m.Built relocate) :
    ∃ options fs, (∀ p ∈ fs, Builder.Built p) ∧ options.relocateReservedEvents = relocate ∧
      (Statechart.assemble options fs).outcome = .ok m.root := by
  cases h with
  | assemble hfs hm => exact ⟨_, _, hfs, rfl, Machine.assembled_root hm⟩
  | build hb hm => exact ⟨_, _, hb.built, rfl, Machine.assembled_root hm⟩

/-- All nodes of a machine that builders make are sound. The reserved events of the root may have
been left in its event table; those of all other nodes are relocated. -/
theorem sound_of_built {relocate : Bool} {m : Machine} (h : m.Built relocate) :
    m.root.Sound relocate ∧
      ∀ n, Relation.TransGen StateNode.HasChild m.root n → n.Sound true := by
  obtain ⟨options, fs, hfs, rfl, hroot⟩ := h.exists_fragments
  obtain ⟨hsound, hchild⟩ := Builder.sound_of_outcome hfs hroot
  refine ⟨hsound, fun n hn => ?_⟩
  obtain ⟨c, hc, hbelow⟩ := Relation.TransGen.head'_iff.mp hn
  obtain ⟨e, he, rfl⟩ := hchild c hc
  exact he.sound_of_below hbelow

/-- A machine in use of a builder without relocation: its root keeps the event `done`, and its state
`a` does not. -/
theorem sound_of_built_nested :
    ∃ m : Machine, m.Built false ∧
      m.root.on = some ⟨[("done", [.ofTarget "a"])]⟩ ∧ m.root.initial = some "a" ∧
      m.root.state? "a" = some { onDone := some [.ofTarget "b"] } ∧ m.root.Sound false ∧
      ∀ n, Relation.TransGen StateNode.HasChild m.root n → n.Sound true := by
  have ha : Builder.BuiltState ⟨"a", { onDone := some [.ofTarget "b"] }, false⟩ :=
    @Builder.BuiltState.state "a" [.on ⟨[("done", [.ofTarget "b"])]⟩] _
      (List.forall_mem_singleton.mpr (@Builder.Built.on "done" [.target "b"] _ rfl)) rfl
  have hb : Builder.BuiltState ⟨"b", .ofKind .final, false⟩ := .finalState "b"
  have hstates := @Builder.Built.states [⟨"a", { onDone := some [.ofTarget "b"] }, false⟩,
    ⟨"b", .ofKind .final, false⟩] _
    (List.forall_mem_cons.mpr ⟨ha, List.forall_mem_singleton.mpr hb⟩) rfl
  have hreached := ((MachineBuilder.Reached.new.withOptions ⟨.warn, false⟩).add hstates).add
    (@Builder.Built.on "done" [.target "a"] _ rfl)
  have hbuilt := @Machine.Built.build _ ⟨{
    initial := some "a"
    states := some ⟨[("a", { onDone := some [.ofTarget "b"] }), ("b", .ofKind .final)]⟩
    on := some ⟨[("done", [.ofTarget "a"])]⟩ }⟩ hreached rfl
  exact ⟨_, hbuilt, rfl, rfl, rfl, sound_of_built hbuilt⟩

end Statechart
