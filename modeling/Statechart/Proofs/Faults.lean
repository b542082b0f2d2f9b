import Statechart.Proofs.Positions

/-!
# The faults of a list

Why a list of fragments cannot be assembled, where repetitions are no error. Of several faults the
one that is reported is determined, with its position: `Fault` says which it is, and
`outcome_eq_error_iff_fault` that it is the outcome.
-/

namespace Statechart

/-! ## Which fault is reported -/

/-- The first two fragments about nested states stand at the positions `i` and `j`. -/
structure NestedTwice (fs : List Fragment) (i j : Nat) : Prop where
  lt : i < j
  first : ∃ contents, fs[i]? = some (.nested contents)
  second : ∃ contents, fs[j]? = some (.nested contents)
  others : ∀ k < j, k ≠ i → ∀ contents, fs[k]? ≠ some (.nested contents)

variable (ν : Type) [Assemblable ν] [Faceted ν]

/-- Whether a fragment is no event table and nodes of the kind `ν` do not take it. -/
def isForeign (p : Fragment) : Bool := decide (p.facet ≠ .on) && !accepts ν p

/-- The fault that is reported of a list of fragments: two lists of nested contents before all
others, then a foreign fragment of the list itself, then one of the nested contents, and at last
events in nodes that have no table for them. -/
inductive Fault (relocate : Bool) (fs : List Fragment) : AssemblyError → Prop
  | nestedTwice {i j} : NestedTwice fs i j → Fault relocate fs (.multipleNestedStates i j)
  | foreign {i p} : fs.countP (·.isNested) ≤ 1 →
      FirstAt (fun g => !g.isNested && isForeign ν g) fs i p →
      Fault relocate fs (.unexpectedFragment p.facet i (Assemblable.site ν))
  | nestedForeign {i contents k p} : fs.countP (·.isNested) ≤ 1 →
      (∀ g ∈ fs, g.isNested = false → isForeign ν g = false) →
      fs[i]? = some (.nested contents) → FirstAt (isForeign ν) contents k p →
      Fault relocate fs (.unexpectedFragment p.facet i (Assemblable.site ν))
  | events {i} : fs.countP (·.isNested) ≤ 1 → (∀ g ∈ unnested fs, isForeign ν g = false) →
      .on ∉ Faceted.facets ν → (leftEvents relocate (mergedEvents (unnested fs))).entries ≠ [] →
      LastTableAt fs i → Fault relocate fs (.unexpectedFragment .on i (Assemblable.site ν))

/-! ## Nested contents twice -/

theorem isNested_iff {p : Fragment} : p.isNested = true ↔ ∃ contents, p = .nested contents := by
  cases p <;> simp [Fragment.isNested]

/-- In a list that is strictly ordered by `r`, the first two elements are those with no other one
before the second. -/
theorem exists_cons_cons_iff_of_pairwise {α : Type} {r : α → α → Prop} {xs : List α}
    (h : xs.Pairwise r) (hr : ∀ a b, r a b → ¬r b a) {a b : α} :
    (∃ rest, xs = a :: b :: rest) ↔ a ∈ xs ∧ b ∈ xs ∧ r a b ∧ ∀ c ∈ xs, r c b → c = a := by
  constructor
  · rintro ⟨rest, rfl⟩
    obtain ⟨ha, hrest⟩ := List.pairwise_cons.mp h
    refine ⟨by simp, by simp, ha b List.mem_cons_self, fun c hc hcb => ?_⟩
    rcases List.mem_cons.mp hc with rfl | hc
    · rfl
    rcases List.mem_cons.mp hc with rfl | hc
    · exact absurd hcb (hr _ _ hcb)
    · exact absurd hcb (hr _ _ (List.rel_of_pairwise_cons hrest hc))
  · rintro ⟨ha, hb, hab, honly⟩
    rcases xs with _ | ⟨x, xs⟩
    · cases ha
    obtain ⟨hx, hxs⟩ := List.pairwise_cons.mp h
    have hbxs : b ∈ xs := by
      rcases List.mem_cons.mp hb with rfl | hb
      · rcases List.mem_cons.mp ha with rfl | ha
        · exact absurd hab (hr _ _ hab)
        · exact absurd hab (hr _ _ (hx a ha))
      · exact hb
    obtain rfl := honly x List.mem_cons_self (hx b hbxs)
    rcases xs with _ | ⟨y, rest⟩
    · cases hbxs
    rcases List.mem_cons.mp hbxs with rfl | hbrest
    · exact ⟨rest, rfl⟩
    · have hxy := hx y List.mem_cons_self
      rw [honly y (by simp) (List.rel_of_pairwise_cons hxs hbrest)] at hxy
      exact absurd hxy (hr _ _ hxy)

/-- The two positions are those of the first two members of the list of nested contents. -/
theorem nestedTwice_iff {fs : List Fragment} {i j : Nat} :
    NestedTwice fs i j ↔ ∃ p q, p.position = i ∧ q.position = j ∧
      ∃ rest, (Placed.ofList fs).filter (·.fragment.isNested) = p :: q :: rest := by
  have hmem {p : Placed} : p ∈ (Placed.ofList fs).filter (·.fragment.isNested) ↔
      ∃ contents, p.fragment = .nested contents ∧ fs[p.position]? = some (.nested contents) := by
    rw [List.mem_filter, mem_ofList, isNested_iff]
    constructor
    · rintro ⟨hp, contents, hcontents⟩
      exact ⟨contents, hcontents, hcontents ▸ hp⟩
    · rintro ⟨contents, hcontents, hp⟩
      exact ⟨hcontents ▸ hp, contents, hcontents⟩
  simp only [exists_cons_cons_iff_of_pairwise
    ((pairwise_ofList fs).filter (·.fragment.isNested)) fun _ _ => Nat.lt_asymm, hmem]
  constructor
  · rintro ⟨hlt, ⟨as, hi⟩, ⟨bs, hj⟩, hothers⟩
    refine ⟨⟨i, .nested as⟩, ⟨j, .nested bs⟩, rfl, rfl, ⟨as, rfl, hi⟩, ⟨bs, rfl, hj⟩, hlt, ?_⟩
    rintro ⟨k, _⟩ ⟨contents, rfl, hk⟩ hkj
    obtain rfl : k = i := by
      by_contra hne
      exact hothers k hkj hne contents hk
    rw [Option.some.inj (hk.symm.trans hi)]
  · rintro ⟨p, q, rfl, rfl, ⟨as, _, hi⟩, ⟨bs, _, hj⟩, hlt, honly⟩
    refine ⟨hlt, ⟨as, hi⟩, ⟨bs, hj⟩, fun k hk hne contents hcontents => hne ?_⟩
    exact congrArg Placed.position (honly ⟨k, .nested contents⟩ ⟨contents, rfl, hcontents⟩ hk)

theorem hoist_eq_error_iff {fs : List Fragment} {e : AssemblyError} :
    hoist fs = .error e ↔ ∃ i j, NestedTwice fs i j ∧ e = .multipleNestedStates i j := by
  simp only [nestedTwice_iff]
  unfold hoist
  generalize (Placed.ofList fs).filter (·.fragment.isNested) = nested
  rcases nested with _ | ⟨p, _ | ⟨q, rest⟩⟩ <;> simp [eq_comm]

theorem countP_nested_of_nestedTwice {fs : List Fragment} {i j : Nat} (h : NestedTwice fs i j) :
    ¬fs.countP (·.isNested) ≤ 1 := by
  intro hle
  have hok := hoist_eq_ok_iff.mpr ⟨hle, rfl⟩
  rw [hoist_eq_error_iff.mpr ⟨i, j, h, rfl⟩] at hok
  cases hok

/-! ## The first fragment that is not taken -/

theorem find?_eq_some_iff_firstAt {q : Fragment → Bool} {fs : List Fragment} {p : Fragment} :
    fs.find? q = some p ↔ ∃ k, FirstAt q fs k p := by
  conv_lhs => rw [← fragments_ofList fs, List.find?_map, Option.map_eq_some_iff]
  constructor
  · rintro ⟨r, hr, rfl⟩
    exact ⟨r.position, find?_ofList.mp hr⟩
  · rintro ⟨k, hk⟩
    exact ⟨⟨k, p⟩, find?_ofList.mpr hk, rfl⟩

/-- Fragments of the list itself are found before those of nested contents. -/
theorem find?_hoisted {fs : List Fragment} (hnested : fs.countP (·.isNested) ≤ 1)
    {q : Fragment → Bool} {p : Placed} :
    (hoisted fs).find? (q ·.fragment) = some p ↔
      FirstAt (fun g => !g.isNested && q g) fs p.position p.fragment ∨
      (∀ g ∈ fs, g.isNested = false → q g = false) ∧
        ∃ contents k, fs[p.position]? = some (.nested contents) ∧ FirstAt q contents k p.fragment := by
  have hdirect : ((Placed.ofList fs).filter (!·.fragment.isNested)).find? (q ·.fragment) =
      (Placed.ofList fs).find? (fun g => !g.fragment.isNested && q g.fragment) := by
    rw [List.find?_filter]
    congr 1
    funext g
    rw [Bool.decide_and, Bool.decide_eq_true, Bool.decide_eq_true]
  have hnone : (Placed.ofList fs).find? (fun g => !g.fragment.isNested && q g.fragment) = none ↔
      ∀ g ∈ fs, g.isNested = false → q g = false := by
    conv_rhs => rw [← fragments_ofList fs]
    simp
  rw [hoisted, List.find?_append, Option.or_eq_some_iff, hdirect, hnone,
    find?_ofList (q := fun g => !g.isNested && q g)]
  refine or_congr_right (and_congr_right fun _ => ?_)
  constructor
  · intro hp
    obtain ⟨r, hr, hpr⟩ := List.mem_flatMap.mp (List.mem_of_find?_eq_some hp)
    obtain ⟨contents, hfragment, hposition, _⟩ := mem_contents.mp hpr
    rw [mem_ofList, hfragment, hposition] at hr
    rw [flatMap_contents_ofList hnested hr, List.find?_map, Option.map_eq_some_iff] at hp
    obtain ⟨g, hg, hgp⟩ := hp
    obtain ⟨k, hk⟩ := find?_eq_some_iff_firstAt.mp hg
    exact ⟨contents, k, hr, congrArg Placed.fragment hgp ▸ hk⟩
  · rintro ⟨contents, k, hcontents, hk⟩
    rw [flatMap_contents_ofList hnested hcontents, List.find?_map, Option.map_eq_some_iff]
    exact ⟨p.fragment, find?_eq_some_iff_firstAt.mpr ⟨k, hk⟩, rfl⟩

/-! ## Clauses of event tables that are not taken -/

section

variable {ν} (hends : .onDone ∈ Faceted.facets ν ∧ .onError ∈ Faceted.facets ν)

include hends

/-- A node with facets for the reserved events takes all clauses but, perhaps, that for the events
that are left. -/
theorem find?_eventClauses {relocate : Bool} {table : EventTable} {p : Fragment} :
    (eventClauses relocate table).find? (!accepts ν ·) = some p ↔
      .on ∉ Faceted.facets ν ∧ (leftEvents relocate table).entries ≠ [] ∧
        p = .on (leftEvents relocate table) := by
  have hrelocated (p : Fragment) (hp : p ∈ if relocate then
      ((table.get? doneEvent).map .onDone).toList ++ ((table.get? errorEvent).map .onError).toList
      else []) : accepts ν p = true := by
    cases relocate with
    | false => cases hp
    | true =>
        simp only [if_true, List.mem_append, Option.mem_toList, Option.map_eq_some_iff] at hp
        obtain ⟨_, _, rfl⟩ | ⟨_, _, rfl⟩ := hp
        · exact Bool.and_eq_true_iff.mpr ⟨decide_eq_true hends.1, rfl⟩
        · exact Bool.and_eq_true_iff.mpr ⟨decide_eq_true hends.2, rfl⟩
  rw [eventClauses_eq, List.find?_append, List.find?_eq_none.mpr fun p hp => by simp [hrelocated p hp],
    Option.none_or, onClause]
  by_cases hentries : (leftEvents relocate table).entries = []
  · simp [hentries]
  · by_cases hon : Facet.on ∈ Faceted.facets ν <;>
      simp [hentries, hon, accepts, Fragment.facet, Fragment.isNested, eq_comm]

theorem find?_written {relocate : Bool} {fs : List Fragment} (hnested : fs.countP (·.isNested) ≤ 1)
    {p : Placed} :
    (uniteEvents relocate (hoisted fs)).find? (!accepts ν ·.fragment) = some p ↔
      (hoisted fs).find? (isForeign ν ·.fragment) = some p ∨
      (∀ g ∈ unnested fs, isForeign ν g = false) ∧ .on ∉ Faceted.facets ν ∧
        (leftEvents relocate (mergedEvents (unnested fs))).entries ≠ [] ∧
        LastTableAt fs p.position ∧
        p.fragment = .on (leftEvents relocate (mergedEvents (unnested fs))) := by
  have hrest : ((hoisted fs).filter (·.fragment.facet ≠ .on)).find? (!accepts ν ·.fragment) =
      (hoisted fs).find? (isForeign ν ·.fragment) := by
    rw [List.find?_filter]
    congr 1
    funext g
    rw [isForeign, Bool.decide_and, Bool.decide_eq_true, Bool.decide_eq_true]
  have hnone : (hoisted fs).find? (isForeign ν ·.fragment) = none ↔
      ∀ g ∈ unnested fs, isForeign ν g = false := by
    rw [← fragments_hoisted]
    simp
  rw [uniteEvents_eq, fragments_hoisted, List.find?_append, Option.or_eq_some_iff, hrest, hnone,
    ← getLast?_tables_iff hnested]
  refine or_congr_right (and_congr_right fun _ => ?_)
  cases ((hoisted fs).filter (·.fragment.on?.isSome)).getLast? with
  | none => simp
  | some last =>
      rw [Option.elim_some, List.find?_map, Option.map_eq_some_iff]
      constructor
      · rintro ⟨g, hg, rfl⟩
        obtain ⟨hon, hentries, hfragment⟩ := (find?_eventClauses hends).mp hg
        exact ⟨hon, hentries, ⟨last, rfl, rfl⟩, hfragment⟩
      · rintro ⟨hon, hentries, ⟨_, ⟨⟩, hposition⟩, hfragment⟩
        exact ⟨p.fragment, (find?_eventClauses hends).mpr ⟨hon, hentries, hfragment⟩,
          by rw [hposition]⟩

end

variable {ν}

theorem written_eq_error_iff {node : ν} {ps : List Placed} {e : AssemblyError} :
    written node ps = .error e ↔
      ∃ p, ps.find? (!accepts ν ·.fragment) = some p ∧ p.unexpected (Assemblable.site ν) = e := by
  rw [written]
  cases ps.find? (!accepts ν ·.fragment) <;> simp

/-! ## The outcome -/

theorem written_eq_error_iff_fault
    (hends : .onDone ∈ Faceted.facets ν ∧ .onError ∈ Faceted.facets ν) {relocate : Bool}
    {fs : List Fragment} (hnested : fs.countP (·.isNested) ≤ 1) {e : AssemblyError} :
    written (Assemblable.blank : ν) (uniteEvents relocate (hoisted fs)) = .error e ↔
      Fault ν relocate fs e := by
  simp only [written_eq_error_iff, find?_written hends hnested, find?_hoisted hnested]
  constructor
  · rintro ⟨p, (hp | ⟨hflat, contents, k, hi, hk⟩) | ⟨hall, hon, hentries, hlast, hp⟩, rfl⟩
    · exact .foreign hnested hp
    · exact .nestedForeign hnested hflat hi hk
    · rw [Placed.unexpected, hp]
      exact .events hnested hall hon hentries hlast
  · intro h
    cases h with
    | nestedTwice h => exact absurd hnested (countP_nested_of_nestedTwice h)
    | @foreign i p _ hp => exact ⟨⟨i, p⟩, Or.inl (Or.inl hp), rfl⟩
    | @nestedForeign i contents k p _ hflat hi hk =>
        exact ⟨⟨i, p⟩, Or.inl (Or.inr ⟨hflat, contents, k, hi, hk⟩), rfl⟩
    | @events i _ hall hon hentries hlast =>
        exact ⟨⟨i, .on (leftEvents relocate (mergedEvents (unnested fs)))⟩,
          Or.inr ⟨hall, hon, hentries, hlast, rfl⟩, rfl⟩

section

variable (hends : .onDone ∈ Faceted.facets ν ∧ .onError ∈ Faceted.facets ν) {options : Options}
  (hpolicy : options.duplicates ≠ .reject) {fs : List Fragment}

include hends hpolicy

theorem outcome_eq_error_iff_fault {e : AssemblyError} :
    (assemble options fs : Report ν).outcome = .error e ↔
      Fault ν options.relocateReservedEvents fs e := by
  rw [outcome_assemble]
  cases h : hoist fs with
  | error e' =>
      obtain ⟨i, j, htwice, rfl⟩ := hoist_eq_error_iff.mp h
      have hnested := countP_nested_of_nestedTwice htwice
      constructor
      · rintro ⟨⟩
        exact .nestedTwice htwice
      · rintro (h' | ⟨hle, _⟩ | ⟨hle, _⟩ | ⟨hle, _⟩)
        · obtain ⟨⟩ := h.symm.trans (hoist_eq_error_iff.mpr ⟨_, _, h', rfl⟩)
          rfl
        all_goals exact absurd hle hnested
  | ok placed =>
      obtain ⟨hnested, rfl⟩ := hoist_eq_ok_iff.mp h
      change (writeAll _ _ _ _).outcome = _ ↔ _
      rw [outcome_writeAll hpolicy, written_eq_error_iff_fault hends hnested]

theorem multipleNestedStates_iff :
    (∃ i j, (assemble options fs : Report ν).outcome = .error (.multipleNestedStates i j)) ↔
      2 ≤ fs.countP (·.isNested) := by
  simp only [outcome_eq_error_iff_fault hends hpolicy]
  constructor
  · rintro ⟨i, j, ⟨h⟩⟩
    exact Nat.lt_of_not_le (countP_nested_of_nestedTwice h)
  · intro h
    cases hfs : hoist fs with
    | error e =>
        obtain ⟨i, j, htwice, _⟩ := hoist_eq_error_iff.mp hfs
        exact ⟨i, j, .nestedTwice htwice⟩
    | ok placed =>
        have hnested := (hoist_eq_ok_iff.mp hfs).1
        omega

theorem exists_error_iff (hnested : fs.countP (·.isNested) ≤ 1) :
    (∃ e, (assemble options fs : Report ν).outcome = .error e) ↔
      (∃ g ∈ unnested fs, isForeign ν g = true) ∨ .on ∉ Faceted.facets ν ∧
        (leftEvents options.relocateReservedEvents (mergedEvents (unnested fs))).entries ≠ [] := by
  simp only [outcome_eq_error_iff_fault hends hpolicy]
  constructor
  · rintro ⟨e, h⟩
    cases h with
    | nestedTwice h => exact absurd hnested (countP_nested_of_nestedTwice h)
    | foreign _ h =>
        obtain ⟨hflat, hforeign⟩ := Bool.and_eq_true_iff.mp h.holds
        exact Or.inl ⟨_, mem_unnested.mpr ⟨_, .direct h.stands (by simpa using hflat)⟩, hforeign⟩
    | nestedForeign _ _ hi h =>
        exact Or.inl ⟨_, mem_unnested.mpr ⟨_, .nested hi (List.mem_of_getElem? h.stands)⟩, h.holds⟩
    | events _ _ hon hentries _ => exact Or.inr ⟨hon, hentries⟩
  · intro h
    -- One of the effective fragments is not taken, and so there is a first one.
    have heffective : ∃ g ∈ effective options.relocateReservedEvents fs, accepts ν g = false := by
      rcases h with ⟨g, hg, hforeign⟩ | h
      · obtain ⟨hfacet, haccepts⟩ := Bool.and_eq_true_iff.mp hforeign
        exact ⟨g, List.mem_append_left _ (List.mem_filter.mpr ⟨hg, hfacet⟩), by simpa using haccepts⟩
      · have hclause := (find?_eventClauses hends).mpr ⟨h.1, h.2, rfl⟩
        exact ⟨_, List.mem_append_right _ (List.mem_of_find?_eq_some hclause),
          by simpa using List.find?_some hclause⟩
    obtain ⟨g, hg, haccepts⟩ := heffective
    rw [← fragments_written] at hg
    obtain ⟨p, hp, rfl⟩ := List.mem_map.mp hg
    have hsome : ((uniteEvents options.relocateReservedEvents (hoisted fs)).find?
        (!accepts ν ·.fragment)).isSome := List.find?_isSome.mpr ⟨p, hp, by simp [haccepts]⟩
    obtain ⟨p, hp⟩ := Option.isSome_iff_exists.mp hsome
    exact ⟨_, (written_eq_error_iff_fault hends hnested).mp (written_eq_error_iff.mpr ⟨p, hp, rfl⟩)⟩

end

/-- A list is not assembled iff it is about nested states twice, or the node does not take some
fragment, or has no table for the events that are left. The error says which of these it is, and
where. -/
theorem assemble_fault (hends : .onDone ∈ Faceted.facets ν ∧ .onError ∈ Faceted.facets ν)
    (options : Options) (hpolicy : options.duplicates ≠ .reject) (fs : List Fragment) :
    (∀ e, (assemble options fs : Report ν).outcome = .error e ↔
      Fault ν options.relocateReservedEvents fs e) ∧
    ((∃ i j, (assemble options fs : Report ν).outcome = .error (.multipleNestedStates i j)) ↔
      2 ≤ fs.countP (·.isNested)) ∧
    (fs.countP (·.isNested) ≤ 1 →
      ((∃ e, (assemble options fs : Report ν).outcome = .error e) ↔
        (∃ g ∈ unnested fs, isForeign ν g = true) ∨ .on ∉ Faceted.facets ν ∧
          (leftEvents options.relocateReservedEvents (mergedEvents (unnested fs))).entries ≠ [])) :=
  ⟨fun _ => outcome_eq_error_iff_fault hends hpolicy, multipleNestedStates_iff hends hpolicy,
    exists_error_iff hends hpolicy⟩

/-- The event `GO` is in the table at position 1, and is reported at that of the nested table, which
counts as the last one; in nested contents, nested contents are foreign. -/
theorem assemble_fault_nested :
    let tables : List Fragment := [.nested [.on ⟨[("done", [])]⟩], .on ⟨[("GO", [.ofTarget "a"])]⟩]
    let contents : List Fragment := [.on ⟨[("GO", [])]⟩, .nested [.initial "a", .nested []]]
    (Facet.onDone ∈ Faceted.facets Invocation ∧ Facet.onError ∈ Faceted.facets Invocation) ∧
    (Facet.onDone ∈ Faceted.facets StateNode ∧ Facet.onError ∈ Faceted.facets StateNode) ∧
    ({} : Options).duplicates ≠ .reject ∧
    Fault Invocation true tables (.unexpectedFragment .on 0 .invocation) ∧
    Fault StateNode true contents (.unexpectedFragment .states 1 .state) := by
  intro tables contents
  have hinvocation : Facet.onDone ∈ Faceted.facets Invocation ∧
      Facet.onError ∈ Faceted.facets Invocation := by decide
  have hstate : Facet.onDone ∈ Faceted.facets StateNode ∧
      Facet.onError ∈ Faceted.facets StateNode := by decide
  have hpolicy : ({} : Options).duplicates ≠ .reject := by decide
  exact ⟨hinvocation, hstate, hpolicy, ((assemble_fault hinvocation {} hpolicy tables).1 _).mp rfl,
    ((assemble_fault hstate {} hpolicy contents).1 _).mp rfl⟩

end Statechart
