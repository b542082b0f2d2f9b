import Statechart.Builder.Children
import Statechart.Builder.Clause
import Statechart.Proofs.EqualAssembly
import Statechart.Proofs.EqualRendering
import Statechart.Proofs.Merging

/-!
# Equal inputs

Everything that is made from lists of fragments or states is equal for equal lists, or fails with the
same error (`agree_of_beq`). So the order in which the keys of a table are declared has no influence
but on the order of keys in what is made.
-/

namespace Statechart

/-! ## Runs -/

section

variable {t u : Transition} (h : t == u)

include h

theorem Transition.beq_withTarget (name : String) : t.withTarget name == u.withTarget name :=
  beq_iff.mpr ⟨beq_self_eq_true _, (beq_iff.mp h).2⟩

theorem Transition.beq_withAction {a b : Action} (hab : a == b) :
    t.withAction a == u.withAction b := by
  obtain ⟨htarget, hactions, hcond⟩ := beq_iff.mp h
  have hlist : List.Forall₂ (· == ·) (t.actions.getD []) (u.actions.getD []) :=
    beq_iff_forall₂.mp (rel_getD (beq_iff_rel.mp hactions) rfl)
  have happend := List.rel_append hlist (.cons hab .nil)
  exact beq_iff.mpr ⟨htarget, beq_iff_forall₂.mpr happend, hcond⟩

theorem Transition.beq_withCond {c d : Guard} (hcd : c == d) : t.withCond c == u.withCond d := by
  obtain ⟨htarget, hactions, _⟩ := beq_iff.mp h
  exact beq_iff.mpr ⟨htarget, hactions, hcd⟩

end

theorem forall₂_groupFrom {ks ks' : List Token} (h : List.Forall₂ (· == ·) ks ks')
    {current current' : Option Transition} (hcurrent : Option.Rel (· == ·) current current') :
    List.Forall₂ (· == ·) (groupFrom current ks) (groupFrom current' ks') := by
  induction h generalizing current current' with
  | nil => exact forall₂_toList hcurrent
  | @cons k k' ks ks' hk _ ih =>
      -- Open transitions stay equal, and are finished by tokens of the same kind.
      have hopen : current.getD {} == current'.getD {} := rel_getD hcurrent rfl
      cases k with
      | transition t =>
          cases k' with
          | transition u => exact List.rel_append (forall₂_toList hcurrent) (.cons hk (ih .none))
          | _ => cases hk
      | target name =>
          cases k' with
          | target name' =>
              obtain rfl : name = name' := beq_iff_eq.mp hk
              exact ih (.some (Transition.beq_withTarget hopen name))
          | _ => cases hk
      | action a =>
          cases k' with
          | action b => exact ih (.some (Transition.beq_withAction hopen hk))
          | _ => cases hk
      | cond c =>
          cases k' with
          | cond d => exact .cons (Transition.beq_withCond hopen hk) (ih .none)
          | _ => cases hk

section

variable {fs gs : List Fragment} (h : List.Forall₂ (· == ·) fs gs)

include h

theorem agree_groupRun : (groupRun fs).Agree (· == ·) (groupRun gs) := by
  have hcollect := agree_collect h (fun _ _ hfg => (Fragment.matches_of_beq hfg).token?) .transitionRun
  refine (Report.agree_ofExcept hcollect).bind fun ks ks' hks => ?_
  have hgroup : List.Forall₂ (· == ·) (group ks) (group ks') := forall₂_groupFrom hks.2 .none
  rw [groupTokens, groupTokens, hgroup.length_eq]
  exact (Report.agree_refl _).bind fun _ _ _ => Report.agree_pure (beq_iff_forall₂.mpr hgroup)

end

/-! ## Actions -/

theorem forall₂_flattenActions {as bs : List Action} (h : List.Forall₂ (· == ·) as bs) :
    List.Forall₂ (· == ·) (flattenActions as) (flattenActions bs) :=
  List.rel_flatMap h fun _ _ hab => Action.forall₂_parts hab

theorem forall₂_mergeAssigns {as bs : List Action} (h : List.Forall₂ (· == ·) as bs)
    (hdistinct : ∀ table ∈ as.filterMap Action.properties?, table.Distinct) :
    List.Forall₂ (· == ·) (mergeAssigns as) (mergeAssigns bs) := by
  have htables := List.rel_filterMap (fun a b (hab : a == b) => Action.rel_properties? hab) h
  have hothers := rel_filter (p := (!·.isMergeable)) (q := (!·.isMergeable)) h
    fun _ _ hab => congrArg (!·) (isSome_eq_of_rel (Action.rel_properties? hab))
  rw [mergeAssigns_eq, mergeAssigns_eq]
  refine List.rel_append ?_ hothers
  have hunions := Table.Matches.unions hdistinct htables
  generalize as.filterMap Action.properties? = ts at htables hunions ⊢
  generalize bs.filterMap Action.properties? = us at htables hunions ⊢
  cases htables with
  | nil => exact .nil
  | cons _ _ => exact .cons (Table.beq_iff_matches.mpr hunions) .nil

section

variable {fs gs : List Fragment} (h : List.Forall₂ (· == ·) fs gs)

include h

theorem forall₂_extractActions : List.Forall₂ (· == ·) (extractActions fs) (extractActions gs) := by
  have hactions : List.Forall₂ (· == ·) (fs.filterMap Fragment.action?)
      (gs.filterMap Fragment.action?) :=
    List.rel_filterMap (fun f g (hfg : f == g) => (Fragment.matches_of_beq hfg).action?) h
  exact forall₂_flattenActions hactions

theorem agree_mergeActions
    (hdistinct : ∀ table ∈ (extractActions fs).filterMap Action.properties?, table.Distinct) :
    (mergeActions fs).Agree (· == ·) (mergeActions gs) := by
  have hcollect := agree_collect h (fun _ _ hfg => (Fragment.matches_of_beq hfg).action?) .actionMerge
  refine (Report.agree_ofExcept hcollect).bind ?_
  rintro _ bs ⟨rfl, has⟩
  have hmerged := forall₂_mergeAssigns (forall₂_flattenActions has) hdistinct
  dsimp only
  rw [hmerged.length_eq]
  refine (Report.agree_refl _).bind fun _ _ _ => Report.agree_pure ?_
  exact (Action.beq_composed _ _).trans (beq_iff_forall₂.mpr hmerged)

theorem agree_mergeEventTables (hdistinct : ∀ table ∈ fs.filterMap Fragment.on?, table.Distinct) :
    Agree (· == ·) (mergeEventTables fs) (mergeEventTables gs) := by
  refine (agree_collect h (fun _ _ hfg => (Fragment.matches_of_beq hfg).on?) .eventTableMerge).bind ?_
  rintro _ us ⟨rfl, htables⟩
  exact .ok (Table.beq_iff_matches.mpr (Table.Matches.unions hdistinct htables))

end

/-! ## Clauses -/

namespace Builder

section

variable {fs gs : List Fragment} (h : List.Forall₂ (· == ·) fs gs)

include h

theorem rel_lastGuard :
    Option.Rel (· == ·) (extractGuards fs).getLast? (extractGuards gs).getLast? := by
  have hguards : List.Forall₂ (· == ·) (extractGuards fs) (extractGuards gs) :=
    List.rel_filterMap (fun f g (hfg : f == g) => (Fragment.matches_of_beq hfg).cond?) h
  exact rel_getLast? hguards

theorem agree_collectActions (site : Site) :
    Agree (· == ·) (collectActions site fs) (collectActions site gs) :=
  (agree_collect h (fun _ _ hfg => (Fragment.matches_of_beq hfg).action?) site).bind
    fun _ _ has => .ok (beq_iff_forall₂.mpr (forall₂_flattenActions has.2))

theorem agree_transition : Agree (· == ·) (transition fs) (transition gs) := by
  have hparts (f g : Fragment) (hfg : f == g) : isTransitionPart f = isTransitionPart g := by
    have hm := Fragment.matches_of_beq hfg
    simp only [isTransitionPart, isSome_eq_of_rel hm.target?, isSome_eq_of_rel hm.action?,
      isSome_eq_of_rel hm.cond?]
  have htarget : Option.Rel (· == ·) (fs.findSome? Fragment.target?) (gs.findSome? Fragment.target?) :=
    rel_findSome? h fun _ _ hfg => (Fragment.matches_of_beq hfg).target?
  have hactions := forall₂_extractActions h
  have hset : (if (extractActions fs).isEmpty then none else some (extractActions fs)) ==
      (if (extractActions gs).isEmpty then none else some (extractActions gs)) := by
    generalize extractActions fs = as at hactions
    generalize extractActions gs = bs at hactions
    cases hactions with
    | nil => rfl
    | cons hab hrest => exact beq_iff_forall₂.mpr (.cons hab hrest)
  rw [transition, transition, requireAll_eq_of_forall₂ h hparts]
  cases requireAll isTransitionPart .transition gs with
  | error e => exact .error e
  | ok _ =>
      exact .ok (Transition.beq_iff.mpr
        ⟨beq_iff_rel.mpr htarget, hset, beq_iff_rel.mpr (rel_lastGuard h)⟩)

theorem agree_branch : Agree (· == ·) (branch fs) (branch gs) := by
  have hparts (f g : Fragment) (hfg : f == g) : isBranchPart f = isBranchPart g := by
    have hm := Fragment.matches_of_beq hfg
    simp only [isBranchPart, isSome_eq_of_rel hm.action?, isSome_eq_of_rel hm.cond?]
  rw [branch, branch, requireAll_eq_of_forall₂ h hparts]
  cases requireAll isBranchPart .branch gs with
  | error e => exact .error e
  | ok _ =>
      exact .ok (Bool.and_eq_true_iff.mpr ⟨beq_iff_rel.mpr (rel_lastGuard h),
        beq_iff_forall₂.mpr (forall₂_extractActions h)⟩)

end

/-! ## Nested states -/

theorem StateEntry.beq_iff {e e' : StateEntry} :
    e == e' ↔ e.name = e'.name ∧ e.node == e'.node ∧ e.isInitial = e'.isInitial := by
  have hbeq : (e == e') = (e.name == e'.name && (e.node == e'.node && e.isInitial == e'.isInitial)) := rfl
  simp only [hbeq, Bool.and_eq_true, beq_iff_eq]

section

variable {entries entries' : List StateEntry} (h : List.Forall₂ (· == ·) entries entries')

include h

theorem agree_addStates {t u : Table StateNode} (ht : t.Distinct) (htu : t.Matches (· == ·) u) :
    (addStates t entries).Agree (Table.Matches (· == ·)) (addStates u entries') := by
  induction h generalizing t u with
  | nil => exact Report.agree_pure htu
  | @cons e e' entries entries' he _ ih =>
      obtain ⟨hname, hnode, -⟩ := StateEntry.beq_iff.mp he
      have hlog : Report.logIf (e.name ∈ t.keys) (.duplicateState e.name) =
          Report.logIf (e'.name ∈ u.keys) (.duplicateState e'.name) := by
        simp only [Report.logIf, hname, (htu.perm_keys ht).mem_iff]
      rw [addStates, addStates, hlog, hname]
      exact (Report.agree_refl _).bind fun _ _ _ => ih (ht.insert _ _) (htu.insert ht _ hnode)

theorem rel_initialOf? : Option.Rel (· == ·) (initialOf? entries) (initialOf? entries') :=
  rel_or (rel_find? h fun _ _ he => (StateEntry.beq_iff.mp he).2.2) (rel_head? h)

theorem agree_states : (states entries).Agree (· == ·) (states entries') := by
  refine (agree_addStates h Table.distinct_nil ⟨rfl, nofun⟩).bind fun t u htu => Report.agree_pure ?_
  rw [Fragment.beq_nested, beq_iff_forall₂]
  have hname (e e' : StateEntry) (he : e == e') :
      Fragment.initial e.name == Fragment.initial e'.name := by
    rw [(StateEntry.beq_iff.mp he).1]
    exact beq_self_eq_true e'.name
  exact .cons (Table.beq_iff_matches.mpr htu) (forall₂_toList (rel_map (rel_initialOf? h) hname))

theorem agree_parallelStates : (parallelStates entries).Agree (· == ·) (parallelStates entries') := by
  refine (agree_addStates h Table.distinct_nil ⟨rfl, nofun⟩).bind fun t u htu => Report.agree_pure ?_
  rw [Fragment.beq_nested, beq_iff_forall₂]
  exact .cons (Table.beq_iff_matches.mpr htu) (.cons rfl .nil)

end

end Builder

/-! ## All inputs -/

/-- The tables of a fragment that can be merged with those of others have distinct keys: the event
tables of the fragment and of its contents, and the properties that its actions assign. Tables that
are built by insertions have them (`Table.distinct_ofList`). -/
structure Fragment.Keyed (f : Fragment) : Prop where
  events : ∀ g ∈ f :: f.contents, ∀ table, g.on? = some table → table.Distinct
  properties : ∀ a, f.action? = some a → ∀ part ∈ a.parts, ∀ table,
    part.properties? = some table → table.Distinct

section

variable {fs : List Fragment} (h : ∀ f ∈ fs, f.Keyed)

include h

theorem distinct_of_mem_tables : ∀ table ∈ fs.filterMap Fragment.on?, table.Distinct := by
  intro table htable
  obtain ⟨f, hf, hon⟩ := List.mem_filterMap.mp htable
  exact (h f hf).events f List.mem_cons_self table hon

theorem distinct_of_mem_unnested : ∀ table ∈ (unnested fs).filterMap Fragment.on?, table.Distinct := by
  intro table htable
  obtain ⟨g, hg, hon⟩ := List.mem_filterMap.mp htable
  rcases List.mem_append.mp hg with hg | hg
  · exact (h g (List.mem_filter.mp hg).1).events g List.mem_cons_self table hon
  · obtain ⟨f, hf, hg⟩ := List.mem_flatMap.mp hg
    exact (h f hf).events g (List.mem_cons_of_mem f hg) table hon

theorem distinct_of_mem_properties :
    ∀ table ∈ (extractActions fs).filterMap Action.properties?, table.Distinct := by
  intro table htable
  obtain ⟨part, hpart, hproperties⟩ := List.mem_filterMap.mp htable
  obtain ⟨a, ha, hpart⟩ := List.mem_flatMap.mp hpart
  obtain ⟨f, hf, ha⟩ := List.mem_filterMap.mp ha
  exact (h f hf).properties a ha part hpart table hproperties

end

/-- What is made from lists of fragments or of states is equal for equal lists, or fails with the
same error; the events on the way are the same. Equal nodes are rendered as equal values. -/
theorem agree_of_beq :
    (∀ fs gs : List Fragment, fs == gs → (∀ f ∈ fs, f.Keyed) →
      (∀ options : Options,
        (assemble options fs : Report StateNode).Agree (· == ·) (assemble options gs) ∧
        (assemble options fs : Report Invocation).Agree (· == ·) (assemble options gs)) ∧
      (groupRun fs).Agree (· == ·) (groupRun gs) ∧
      (mergeActions fs).Agree (· == ·) (mergeActions gs) ∧
      Agree (· == ·) (mergeEventTables fs) (mergeEventTables gs) ∧
      Agree (· == ·) (Builder.entry fs) (Builder.entry gs) ∧
      Agree (· == ·) (Builder.exit fs) (Builder.exit gs) ∧
      Agree (· == ·) (Builder.transition fs) (Builder.transition gs) ∧
      Agree (· == ·) (Builder.branch fs) (Builder.branch gs)) ∧
    (∀ entries entries' : List StateEntry, entries == entries' →
      (Builder.states entries).Agree (· == ·) (Builder.states entries') ∧
      (Builder.parallelStates entries).Agree (· == ·) (Builder.parallelStates entries')) ∧
    (∀ n m : StateNode, n == m → n.toJson == m.toJson) ∧
    ∀ i j : Invocation, i == j → i.toJson == j.toJson := by
  refine ⟨fun fs gs hbeq hkeyed => ?_, fun entries entries' hbeq => ?_, StateNode.beq_toJson,
    Invocation.beq_toJson⟩
  · have h := beq_iff_forall₂.mp hbeq
    refine ⟨fun options => ?_, agree_groupRun h,
      agree_mergeActions h (distinct_of_mem_properties hkeyed),
      agree_mergeEventTables h (distinct_of_mem_tables hkeyed),
      (Builder.agree_collectActions h .entry).bind fun _ _ has => .ok has,
      (Builder.agree_collectActions h .exit).bind fun _ _ has => .ok has,
      Builder.agree_transition h, Builder.agree_branch h⟩
    have hdistinct := distinct_of_mem_unnested hkeyed
    exact ⟨(agree_assemble h hdistinct options).imp fun _ _ => StateNode.beq_iff_alike.mpr,
      (agree_assemble h hdistinct options).imp fun _ _ => Invocation.beq_iff_alike.mpr⟩
  · have h := beq_iff_forall₂.mp hbeq
    exact ⟨Builder.agree_states h, Builder.agree_parallelStates h⟩

/-- The keys of an event table, of objects and of assigned properties in another order. -/
theorem agree_of_beq_reordered :
    let json : Json := .object [("x", .null), ("y", .bool true)]
    let json' : Json := .object [("y", .bool true), ("x", .null)]
    let fs : List Fragment := [.on ⟨[("done", []), ("GO", [.ofTarget "a"])]⟩, .context json]
    let gs : List Fragment := [.on ⟨[("GO", [.ofTarget "a"]), ("done", [])]⟩, .context json']
    let n : StateNode := { context := some json }
    let m : StateNode := { context := some json' }
    let i : Invocation := { data := some (.ofJson json) }
    let j : Invocation := { data := some (.ofJson json') }
    (fs == gs) = true ∧ (∀ f ∈ fs, f.Keyed) ∧
    (assemble {} fs : Report StateNode).Agree (· == ·) (assemble {} gs) ∧
    ([Fragment.assign json] == [.assign json']) = true ∧ (∀ f ∈ [Fragment.assign json], f.Keyed) ∧
    (mergeActions [.assign json]).Agree (· == ·) (mergeActions [.assign json']) ∧
    ([(⟨"a", n, false⟩ : StateEntry)] == [⟨"a", m, false⟩]) = true ∧
    (Builder.states [⟨"a", n, false⟩]).Agree (· == ·) (Builder.states [⟨"a", m, false⟩]) ∧
    (n == m) = true ∧ (n.toJson == m.toJson) = true ∧
    (i == j) = true ∧ (i.toJson == j.toJson) = true := by
  intro json json' fs gs n m i j
  have hfs : ∀ f ∈ fs, f.Keyed := by
    simp only [fs, List.forall_mem_cons]
    refine ⟨⟨?_, nofun⟩, ⟨?_, nofun⟩, nofun⟩ <;>
      simp [Fragment.contents, Fragment.on?, Table.Distinct, Table.keys]
  have has : ∀ f ∈ [Fragment.assign json], f.Keyed := by
    simp only [List.forall_mem_cons]
    refine ⟨⟨?_, ?_⟩, nofun⟩
    · simp [Fragment.assign, Fragment.contents, Fragment.on?]
    · simp [Fragment.assign, Fragment.action?, Action.parts, Mapping.ofJson, json, Json.object,
        Action.properties?, Table.Distinct, Table.keys, Table.map]
  obtain ⟨hlists, hstates, hnode, hservice⟩ := agree_of_beq
  exact ⟨rfl, hfs, ((hlists fs gs rfl hfs).1 {}).1, rfl, has, (hlists _ _ rfl has).2.2.1, rfl,
    (hstates _ _ rfl).1, rfl, hnode n m rfl, rfl, hservice i j rfl⟩

end Statechart
