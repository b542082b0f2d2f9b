import Statechart.Proofs.Faults

/-!
# What an error points at

An error that names a facet points at a fragment that says something about it, with one exception:
what event tables say is blamed on the last of them, which need not be the one that says it
(`contributes_of_outcome_eq_error`, `not_contributes_last_table`).
-/

namespace Statechart

/-! ## Fragments that say something about a facet -/

/-- Whether a fragment says something about a facet. An event table does so by the events that it
has, any other fragment if it is for that facet. -/
def Contributes (relocate : Bool) (f : Facet) : Fragment → Prop
  | .on table => f = .onDone ∧ relocate = true ∧ doneEvent ∈ table.keys ∨
      f = .onError ∧ relocate = true ∧ errorEvent ∈ table.keys ∨
      f = .on ∧ ∃ event ∈ table.keys, relocate = true → event ≠ doneEvent ∧ event ≠ errorEvent
  | p => p.facet = f

theorem contributes_of_facet {p : Fragment} (h : p.facet ≠ .on) (relocate : Bool) :
    Contributes relocate p.facet p := by
  cases p <;> first | rfl | exact absurd rfl h

theorem mem_keys_mergedEvents {fs : List Fragment} {event : String} :
    event ∈ (mergedEvents fs).keys ↔ ∃ table, .on table ∈ fs ∧ event ∈ table.keys := by
  rw [mergedEvents, ← Table.ofList_eq_gathered, Table.mem_keys_ofList, List.map_flatMap,
    List.mem_flatMap]
  constructor
  · rintro ⟨table, htable, hevent⟩
    obtain ⟨p, hp, hon⟩ := List.mem_filterMap.mp htable
    cases p <;> cases hon
    exact ⟨table, hp, hevent⟩
  · rintro ⟨table, hp, hevent⟩
    exact ⟨table, List.mem_filterMap.mpr ⟨_, hp, rfl⟩, hevent⟩

theorem exists_event_of_leftEvents {relocate : Bool} {table : EventTable}
    (h : (leftEvents relocate table).entries ≠ []) :
    ∃ event ∈ table.keys, relocate = true → event ≠ doneEvent ∧ event ≠ errorEvent := by
  obtain ⟨e, he⟩ := List.exists_mem_of_ne_nil _ h
  cases relocate with
  | false => exact ⟨e.1, List.mem_map_of_mem he, nofun⟩
  | true =>
      obtain ⟨hmem, hother⟩ := List.mem_filter.mp he
      exact ⟨e.1, List.mem_map_of_mem hmem, fun _ => of_decide_eq_true hother⟩

/-- Each clause says what one of the tables says. -/
theorem exists_table_of_mem_eventClauses {relocate : Bool} {fs : List Fragment} {p : Fragment}
    (h : p ∈ eventClauses relocate (mergedEvents fs)) :
    ∃ table, .on table ∈ fs ∧ Contributes relocate p.facet (.on table) := by
  rw [eventClauses_eq, List.mem_append] at h
  rcases h with h | h
  · cases relocate with
    | false => cases h
    | true =>
        simp only [if_true, List.mem_append, Option.mem_toList, Option.map_eq_some_iff] at h
        obtain ⟨_, hget, rfl⟩ | ⟨_, hget, rfl⟩ := h
        · obtain ⟨table, htable, hevent⟩ :=
            mem_keys_mergedEvents.mp (Table.mem_keys_iff.mpr (Option.isSome_of_eq_some hget))
          exact ⟨table, htable, Or.inl ⟨rfl, rfl, hevent⟩⟩
        · obtain ⟨table, htable, hevent⟩ :=
            mem_keys_mergedEvents.mp (Table.mem_keys_iff.mpr (Option.isSome_of_eq_some hget))
          exact ⟨table, htable, Or.inr (Or.inl ⟨rfl, rfl, hevent⟩)⟩
  · obtain ⟨hentries, rfl⟩ := mem_onClause.mp h
    obtain ⟨event, hevent, hleft⟩ := exists_event_of_leftEvents hentries
    obtain ⟨table, htable, hmem⟩ := mem_keys_mergedEvents.mp hevent
    exact ⟨table, htable, Or.inr (Or.inr ⟨rfl, event, hmem, hleft⟩)⟩

/-! ## Errors of a run -/

theorem repeats_sublist (seen : List Facet) (ps : List Placed) : (repeats seen ps).Sublist ps := by
  induction ps generalizing seen with
  | nil => exact .slnil
  | cons p ps ih =>
      rw [repeats]
      split
      · exact (ih _).cons_cons _
      · exact (ih _).cons _

variable {ν : Type} [Assemblable ν] [Faceted ν]

theorem exists_of_outcome_writeAll_eq_error {policy : DuplicatePolicy} {seen : List Facet} {node : ν}
    {ps : List Placed} {e : AssemblyError} (h : (writeAll policy seen node ps).outcome = .error e) :
    ∃ p ∈ ps, e = p.unexpected (Assemblable.site ν) ∨
      e = .duplicateFacet p.fragment.facet p.position (Assemblable.site ν) := by
  have hwritten (h : written node ps = .error e) :
      ∃ p ∈ ps, e = p.unexpected (Assemblable.site ν) ∨
        e = .duplicateFacet p.fragment.facet p.position (Assemblable.site ν) := by
    rw [written] at h
    cases hfind : ps.find? (!accepts ν ·.fragment) with
    | none => rw [hfind] at h; cases h
    | some p =>
        rw [hfind] at h
        cases h
        exact ⟨p, List.mem_of_find?_eq_some hfind, Or.inl rfl⟩
  by_cases hpolicy : policy = .reject
  · subst hpolicy
    cases hrepeats : repeats seen (ps.takeWhile (accepts ν ·.fragment)) with
    | nil =>
        rw [writeAll_of_no_repeats hrepeats] at h
        exact hwritten h
    | cons p rest =>
        rw [writeAll_reject_of_repeats hrepeats] at h
        cases h
        have hmem : p ∈ repeats seen (ps.takeWhile (accepts ν ·.fragment)) :=
          hrepeats ▸ List.mem_cons_self
        have hps := (repeats_sublist _ _).mem hmem
        exact ⟨p, (List.takeWhile_sublist _).mem hps, Or.inr rfl⟩
  · rw [outcome_writeAll hpolicy] at h
    exact hwritten h

/-- An error about a facet is about one of the fragments that were to be written. -/
theorem mem_uniteEvents_of_outcome_eq_error {options : Options} {fs : List Fragment} {f : Facet}
    {i : Nat} {site : Site}
    (h : (assemble options fs : Report ν).outcome = .error (.unexpectedFragment f i site) ∨
      (assemble options fs : Report ν).outcome = .error (.duplicateFacet f i site)) :
    fs.countP (·.isNested) ≤ 1 ∧
      ∃ p ∈ uniteEvents options.relocateReservedEvents (hoisted fs),
        p.fragment.facet = f ∧ p.position = i := by
  rw [outcome_assemble] at h
  cases hfs : hoist fs with
  | error e =>
      obtain ⟨_, _, _, rfl⟩ := hoist_eq_error_iff.mp hfs
      rw [hfs] at h
      rcases h with h | h <;> cases h
  | ok placed =>
      obtain ⟨hnested, rfl⟩ := hoist_eq_ok_iff.mp hfs
      rw [hfs] at h
      refine ⟨hnested, ?_⟩
      rcases h with h | h
      · obtain ⟨p, hp, he | he⟩ := exists_of_outcome_writeAll_eq_error h <;> cases he
        exact ⟨p, hp, rfl, rfl⟩
      · obtain ⟨p, hp, he | he⟩ := exists_of_outcome_writeAll_eq_error h <;> cases he
        exact ⟨p, hp, rfl, rfl⟩

/-! ## What is blamed -/

theorem LastTableAt.countsAt {fs : List Fragment} {i : Nat} (h : LastTableAt fs i) :
    ∃ table, CountsAt fs i (.on table) := by
  cases h with
  | nested hi htable => exact ⟨_, .nested hi htable⟩
  | direct _ hi _ => exact ⟨_, .direct hi rfl⟩

/-- An error that names a facet and a position is about a fragment there that says something about
the facet, or else about an event table that does so elsewhere, while the last table counts there.
Where all tables count at one position, it is the former. -/
theorem contributes_of_outcome_eq_error {options : Options} {fs : List Fragment} {f : Facet} {i : Nat}
    {site : Site}
    (h : (assemble options fs : Report ν).outcome = .error (.unexpectedFragment f i site) ∨
      (assemble options fs : Report ν).outcome = .error (.duplicateFacet f i site)) :
    ((∃ g, CountsAt fs i g ∧ Contributes options.relocateReservedEvents f g) ∨
      LastTableAt fs i ∧ ∃ j table, j ≠ i ∧ CountsAt fs j (.on table) ∧
        Contributes options.relocateReservedEvents f (.on table)) ∧
    ((∀ j k t u, CountsAt fs j (.on t) → CountsAt fs k (.on u) → j = k) →
      ∃ g, CountsAt fs i g ∧ Contributes options.relocateReservedEvents f g) := by
  obtain ⟨hnested, p, hp, rfl, rfl⟩ := mem_uniteEvents_of_outcome_eq_error h
  rcases (mem_uniteEvents hnested).mp hp with ⟨hcounts, hfacet⟩ | ⟨hlast, hclause⟩
  · have hguilty : ∃ g, CountsAt fs p.position g ∧
        Contributes options.relocateReservedEvents p.fragment.facet g :=
      ⟨p.fragment, hcounts, contributes_of_facet hfacet _⟩
    exact ⟨Or.inl hguilty, fun _ => hguilty⟩
  · obtain ⟨table, htable, hcontributes⟩ := exists_table_of_mem_eventClauses hclause
    obtain ⟨j, hj⟩ := mem_unnested.mp htable
    obtain ⟨last, hposition⟩ := hlast.countsAt
    refine ⟨?_, fun hone => ⟨.on table, hone _ _ _ _ hj hposition ▸ hj, hcontributes⟩⟩
    by_cases heq : j = p.position
    · exact Or.inl ⟨.on table, heq ▸ hj, hcontributes⟩
    · exact Or.inr ⟨hlast, j, table, heq, hj, hcontributes⟩

/-- The only table has an event that clashes with an explicit clause, and is blamed for it. -/
theorem contributes_of_outcome_eq_error_done :
    let fs : List Fragment := [.nested [.on ⟨[("done", [.ofTarget "b"])]⟩], .onDone [.ofTarget "a"]]
    (assemble ⟨.reject, true⟩ fs : Report StateNode).outcome =
        .error (.duplicateFacet .onDone 0 .state) ∧
      (∀ j k t u, CountsAt fs j (.on t) → CountsAt fs k (.on u) → j = k) ∧
      ∃ g, CountsAt fs 0 g ∧ Contributes true .onDone g := by
  intro fs
  have houtcome : (assemble ⟨.reject, true⟩ fs : Report StateNode).outcome =
      .error (.duplicateFacet .onDone 0 .state) := rfl
  have hzero (j : Nat) (t : EventTable) (h : CountsAt fs j (.on t)) : j = 0 := by
    rcases j with _ | _ | j
    · rfl
    · rcases h with h | ⟨h, _⟩ <;> cases h
    · rcases h with h | ⟨h, _⟩ <;> cases h
  have hone : ∀ j k t u, CountsAt fs j (.on t) → CountsAt fs k (.on u) → j = k :=
    fun j k t u hj hk => (hzero j t hj).trans (hzero k u hk).symm
  exact ⟨houtcome, hone, (contributes_of_outcome_eq_error (Or.inr houtcome)).2 hone⟩

/-- The event that a service has no table for stands in the table at position 0, and the table at
position 1, which is blamed, has only an event with a facet of its own. -/
theorem not_contributes_last_table :
    let fs : List Fragment := [.on ⟨[("GO", [.ofTarget "a"])]⟩, .on ⟨[("done", [.ofTarget "b"])]⟩]
    (assemble {} fs : Report Invocation).outcome = .error (.unexpectedFragment .on 1 .invocation) ∧
      ¬∃ g, CountsAt fs 1 g ∧ Contributes true .on g := by
  intro fs
  refine ⟨rfl, ?_⟩
  rintro ⟨g, hcounts, hcontributes⟩
  cases hcounts with
  | nested h => cases h
  | direct h =>
      cases h
      simp [Contributes, Table.keys, doneEvent] at hcontributes

end Statechart
