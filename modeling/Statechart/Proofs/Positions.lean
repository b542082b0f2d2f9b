import Mathlib.Data.List.Pairwise
import Statechart.Proofs.NormalForm

/-!
# Positions of fragments

What counts for a node keeps a position in the list of fragments: its own, or that of the nested
contents it is part of (`mem_hoisted`). The clauses of the event tables have only the position of
the last of these tables (`getLast?_tables_iff`).
-/

namespace Statechart

/-! ## Fragments of a list by position -/

/-- In a list that is strictly ordered by `r`, the first element with a property is the one that has
no other before it. -/
theorem find?_eq_some_iff_of_pairwise {α : Type} {r : α → α → Prop} {xs : List α}
    (h : xs.Pairwise r) (hr : ∀ a b, r a b → ¬r b a) {q : α → Bool} {a : α} :
    xs.find? q = some a ↔ a ∈ xs ∧ q a = true ∧ ∀ b ∈ xs, r b a → q b = false := by
  have hfirst {a : α} (ha : xs.find? q = some a) : ∀ b ∈ xs, r b a → q b = false := by
    obtain ⟨_, front, back, rfl, hfront⟩ := List.find?_eq_some_iff_append.mp ha
    obtain ⟨_, hback, _⟩ := List.pairwise_append.mp h
    intro b hb hba
    rcases List.mem_append.mp hb with hb | hb
    · simpa using hfront b hb
    · rcases List.mem_cons.mp hb with rfl | hb
      · exact absurd hba (hr _ _ hba)
      · exact absurd hba (hr _ _ (List.rel_of_pairwise_cons hback hb))
  constructor
  · intro ha
    exact ⟨List.mem_of_find?_eq_some ha, List.find?_some ha, hfirst ha⟩
  · rintro ⟨ha, hqa, hbefore⟩
    obtain ⟨b, hb⟩ := Option.isSome_iff_exists.mp (List.find?_isSome.mpr ⟨a, ha, hqa⟩)
    have hqb := List.find?_some hb
    have hmem := List.mem_of_find?_eq_some hb
    by_cases heq : a = b
    · rw [hb, heq]
    · have hsymm : Std.Symm fun a b => r a b ∨ r b a := ⟨fun _ _ => Or.symm⟩
      have hcompare : xs.Pairwise fun a b => r a b ∨ r b a := h.imp Or.inl
      rcases hcompare.forall ha hmem heq with hab | hba
      · rw [hfirst hb a ha hab] at hqa
        cases hqa
      · rw [hbefore b hmem hba] at hqb
        cases hqb

theorem mem_ofList {fs : List Fragment} {p : Placed} :
    p ∈ Placed.ofList fs ↔ fs[p.position]? = some p.fragment := by
  rw [Placed.ofList, List.mem_map]
  constructor
  · rintro ⟨_, hmem, rfl⟩
    exact List.mem_zipIdx_iff_getElem?.mp hmem
  · intro h
    exact ⟨(p.fragment, p.position), List.mem_zipIdx_iff_getElem?.mpr h, rfl⟩

theorem pairwise_ofList (fs : List Fragment) :
    (Placed.ofList fs).Pairwise fun p q => p.position < q.position := by
  rw [Placed.ofList, List.pairwise_map]
  have h : (fs.zipIdx.map Prod.snd).Pairwise (· < ·) := by
    rw [List.zipIdx_map_snd]
    exact List.pairwise_lt_range'
  exact List.pairwise_map.mp h

/-- The fragment `p` stands at the position `i`, and is the first one with a property. -/
structure FirstAt (q : Fragment → Bool) (fs : List Fragment) (i : Nat) (p : Fragment) : Prop where
  stands : fs[i]? = some p
  holds : q p = true
  before : ∀ k < i, ∀ r, fs[k]? = some r → q r = false

theorem find?_ofList {q : Fragment → Bool} {fs : List Fragment} {p : Placed} :
    (Placed.ofList fs).find? (q ·.fragment) = some p ↔ FirstAt q fs p.position p.fragment := by
  rw [find?_eq_some_iff_of_pairwise (pairwise_ofList fs) fun _ _ => Nat.lt_asymm, mem_ofList]
  constructor
  · rintro ⟨hstands, hholds, hbefore⟩
    exact ⟨hstands, hholds, fun k hk r hr => hbefore ⟨k, r⟩ (mem_ofList.mpr hr) hk⟩
  · rintro ⟨hstands, hholds, hbefore⟩
    exact ⟨hstands, hholds, fun r hr hlt => hbefore _ hlt _ (mem_ofList.mp hr)⟩

/-! ## Nested contents -/

/-- The fragment `g` counts at the position `i`: it stands there, or in nested contents that do. -/
inductive CountsAt (fs : List Fragment) (i : Nat) (g : Fragment) : Prop
  | direct : fs[i]? = some g → g.isNested = false → CountsAt fs i g
  | nested {contents} : fs[i]? = some (.nested contents) → g ∈ contents → CountsAt fs i g

theorem mem_contents {p q : Placed} :
    p ∈ q.contents ↔
      ∃ contents, q.fragment = .nested contents ∧ q.position = p.position ∧ p.fragment ∈ contents := by
  obtain ⟨i, f⟩ := q
  obtain ⟨k, g⟩ := p
  cases f <;> simp [Placed.contents, and_comm]

theorem mem_hoisted {fs : List Fragment} {p : Placed} :
    p ∈ hoisted fs ↔ CountsAt fs p.position p.fragment := by
  rw [hoisted, List.mem_append, List.mem_filter, List.mem_flatMap, mem_ofList]
  constructor
  · rintro (⟨hp, hflat⟩ | ⟨q, hq, hp⟩)
    · exact .direct hp (by simpa using hflat)
    · obtain ⟨contents, hfragment, hposition, hmem⟩ := mem_contents.mp hp
      rw [mem_ofList, hfragment, hposition] at hq
      exact .nested hq hmem
  · rintro (⟨hp, hflat⟩ | ⟨hq, hmem⟩)
    · exact Or.inl ⟨hp, by simpa using hflat⟩
    · exact Or.inr ⟨⟨_, _⟩, mem_ofList.mpr hq, mem_contents.mpr ⟨_, rfl, rfl, hmem⟩⟩

theorem mem_unnested {fs : List Fragment} {g : Fragment} :
    g ∈ unnested fs ↔ ∃ i, CountsAt fs i g := by
  rw [← fragments_hoisted, List.mem_map]
  constructor
  · rintro ⟨p, hp, rfl⟩
    exact ⟨_, mem_hoisted.mp hp⟩
  · rintro ⟨i, h⟩
    exact ⟨⟨i, g⟩, mem_hoisted.mpr h, rfl⟩

/-- If only one fragment is about nested states, its contents are all that are moved to the end. -/
theorem flatMap_contents_ofList {fs : List Fragment} (hnested : fs.countP (·.isNested) ≤ 1) {i : Nat}
    {contents : List Fragment} (hi : fs[i]? = some (.nested contents)) :
    (Placed.ofList fs).flatMap Placed.contents = contents.map (⟨i, ·⟩) := by
  have hflat : (Placed.ofList fs).flatMap Placed.contents =
      ((Placed.ofList fs).filter (·.fragment.isNested)).flatMap Placed.contents := by
    induction Placed.ofList fs with
    | nil => rfl
    | cons p ps ih =>
        obtain ⟨k, f⟩ := p
        rw [List.flatMap_cons, ih]
        cases f <;> rfl
  have hmem : (⟨i, .nested contents⟩ : Placed) ∈ Placed.ofList fs := mem_ofList.mpr hi
  rw [← fragments_ofList fs, List.countP_map] at hnested
  have hone : (Placed.ofList fs).filter (·.fragment.isNested) = [⟨i, .nested contents⟩] :=
    filter_eq_singleton hnested hmem rfl
  rw [hflat, hone, List.flatMap_singleton]
  rfl

/-! ## The last event table -/

/-- The last event table that counts for a node counts at the position `i`. Tables in nested contents
count after all others. -/
inductive LastTableAt (fs : List Fragment) (i : Nat) : Prop
  | nested {contents table} : fs[i]? = some (.nested contents) → .on table ∈ contents →
      LastTableAt fs i
  | direct {table} : (∀ contents, .nested contents ∈ fs → ∀ table, .on table ∉ contents) →
      fs[i]? = some (.on table) → (∀ k, i < k → ∀ table, fs[k]? ≠ some (.on table)) →
      LastTableAt fs i

theorem isSome_on?_iff {p : Fragment} : p.on?.isSome = true ↔ ∃ table, p = .on table := by
  cases p <;> simp [Fragment.on?]

theorem getLast?_tables_ofList {fs : List Fragment} {p : Placed} :
    ((Placed.ofList fs).filter (·.fragment.on?.isSome)).getLast? = some p ↔
      fs[p.position]? = some p.fragment ∧ p.fragment.on?.isSome = true ∧
        ∀ k, p.position < k → ∀ table, fs[k]? ≠ some (.on table) := by
  rw [List.getLast?_filter, find?_eq_some_iff_of_pairwise
    (List.pairwise_reverse.mpr (pairwise_ofList fs)) fun _ _ => Nat.lt_asymm, List.mem_reverse,
    mem_ofList]
  refine and_congr_right fun _ => and_congr_right fun _ => ?_
  constructor
  · intro hafter k hk table htable
    cases hafter ⟨k, .on table⟩ (List.mem_reverse.mpr (mem_ofList.mpr htable)) hk
  · intro hafter r hr hlt
    rw [List.mem_reverse, mem_ofList] at hr
    rw [Bool.eq_false_iff, ne_eq, isSome_on?_iff]
    rintro ⟨table, htable⟩
    rw [htable] at hr
    exact hafter _ hlt table hr

theorem mem_tables_contents {fs : List Fragment} {p : Placed} :
    p ∈ ((Placed.ofList fs).flatMap Placed.contents).filter (·.fragment.on?.isSome) ↔
      ∃ contents table, fs[p.position]? = some (.nested contents) ∧ .on table ∈ contents ∧
        p.fragment = .on table := by
  rw [List.mem_filter, List.mem_flatMap, isSome_on?_iff]
  constructor
  · rintro ⟨⟨q, hq, hp⟩, table, htable⟩
    obtain ⟨contents, hfragment, hposition, hmem⟩ := mem_contents.mp hp
    rw [mem_ofList, hfragment, hposition] at hq
    exact ⟨contents, table, hq, htable ▸ hmem, htable⟩
  · rintro ⟨contents, table, hstands, hmem, htable⟩
    exact ⟨⟨⟨_, _⟩, mem_ofList.mpr hstands, mem_contents.mpr ⟨_, rfl, rfl, htable ▸ hmem⟩⟩, table, htable⟩

/-- The position that the clauses of the event tables are given. -/
theorem getLast?_tables_iff {fs : List Fragment} (hnested : fs.countP (·.isNested) ≤ 1) {i : Nat} :
    (∃ p, ((hoisted fs).filter (·.fragment.on?.isSome)).getLast? = some p ∧ p.position = i) ↔
      LastTableAt fs i := by
  have hdirect : ((Placed.ofList fs).filter (!·.fragment.isNested)).filter (·.fragment.on?.isSome) =
      (Placed.ofList fs).filter (·.fragment.on?.isSome) := by
    rw [List.filter_filter]
    apply List.filter_congr
    rintro ⟨k, f⟩ _
    cases f <;> rfl
  rw [hoisted, List.filter_append, List.getLast?_append, hdirect]
  constructor
  · rintro ⟨p, hp, rfl⟩
    rcases Option.or_eq_some_iff.mp hp with hp | ⟨hnone, hp⟩
    · obtain ⟨contents, table, hstands, htable, _⟩ :=
        mem_tables_contents.mp (List.mem_of_getLast? hp)
      exact .nested hstands htable
    · obtain ⟨hstands, hon, hafter⟩ := getLast?_tables_ofList.mp hp
      obtain ⟨table, htable⟩ := isSome_on?_iff.mp hon
      refine .direct (fun contents hc t ht => ?_) (htable ▸ hstands) hafter
      obtain ⟨k, hk⟩ := List.mem_iff_getElem?.mp hc
      have hmem := (mem_tables_contents (p := ⟨k, .on t⟩)).mpr ⟨contents, t, hk, ht, rfl⟩
      rw [List.getLast?_eq_none_iff.mp hnone] at hmem
      cases hmem
  · rintro (⟨hi, htable⟩ | ⟨hnone, hi, hafter⟩)
    · rename_i contents table
      rw [flatMap_contents_ofList hnested hi, List.filter_map, List.getLast?_map]
      have hne : contents.filter (·.on?.isSome) ≠ [] :=
        List.ne_nil_of_mem (List.mem_filter.mpr ⟨htable, rfl⟩)
      refine ⟨⟨i, (contents.filter (·.on?.isSome)).getLast hne⟩, ?_, rfl⟩
      rw [Option.or_eq_some_iff]
      left
      exact congrArg (Option.map _) (List.getLast?_eq_some_getLast hne)
    · rename_i table
      refine ⟨⟨i, .on table⟩, Option.or_eq_some_iff.mpr (Or.inr ⟨?_, ?_⟩), rfl⟩
      · rw [List.getLast?_eq_none_iff, List.eq_nil_iff_forall_not_mem]
        intro p hp
        obtain ⟨contents, table, hstands, htable, _⟩ := mem_tables_contents.mp hp
        exact hnone contents (List.mem_of_getElem? hstands) table htable
      · exact getLast?_tables_ofList.mpr ⟨hi, rfl, hafter⟩

/-! ## What is left of a table -/

/-- The events that stay in a table: with relocation, those that are not reserved. -/
def leftEvents (relocate : Bool) (table : EventTable) : EventTable :=
  if relocate then otherEvents table else table

theorem eventClauses_eq (relocate : Bool) (table : EventTable) :
    eventClauses relocate table =
      (if relocate then ((table.get? doneEvent).map .onDone).toList ++
        ((table.get? errorEvent).map .onError).toList else []) ++
      onClause (leftEvents relocate table) := by
  cases relocate <;> rfl

/-- The fragments that are written, with their positions: those that are no event tables, and the
clauses of all event tables at the position of the last one. -/
theorem mem_uniteEvents {relocate : Bool} {fs : List Fragment}
    (hnested : fs.countP (·.isNested) ≤ 1) {p : Placed} :
    p ∈ uniteEvents relocate (hoisted fs) ↔
      (CountsAt fs p.position p.fragment ∧ p.fragment.facet ≠ .on) ∨
      (LastTableAt fs p.position ∧
        p.fragment ∈ eventClauses relocate (mergedEvents (unnested fs))) := by
  rw [uniteEvents_eq, fragments_hoisted, List.mem_append, List.mem_filter, decide_eq_true_eq,
    mem_hoisted]
  refine or_congr_right ?_
  rw [← getLast?_tables_iff hnested]
  cases h : ((hoisted fs).filter (·.fragment.on?.isSome)).getLast? with
  | none => simp
  | some last =>
      rw [Option.elim_some, List.mem_map]
      constructor
      · rintro ⟨g, hg, rfl⟩
        exact ⟨⟨last, rfl, rfl⟩, hg⟩
      · rintro ⟨⟨_, ⟨⟩, hposition⟩, hg⟩
        exact ⟨p.fragment, hg, by rw [hposition]⟩

end Statechart
