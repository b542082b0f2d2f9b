import Mathlib.Data.List.Basic
import Statechart.Table

/-!
# Unions of tables

What a sequence of insertions leaves in a table: the keys in order of first occurrence
(`keys_ofList`), each with its last value (`get?_ofList`). The union of tables is the table of all
their entries (`unions_eq_gathered`), and some of the tables can be united before the others
(`unions_append_unions`).
-/

namespace Statechart.Table

variable {α : Type}

/-- The last entry under each key, in the order in which the keys first occur. -/
def gathered (entries : List (String × α)) : Table α :=
  ⟨(entries.map (·.1)).eraseDups.filterMap fun k => entries.findRev? (·.1 = k)⟩

/-! ## A table from its keys and values -/

/-- The entries are the keys, each with the value that is found under it. -/
theorem entries_eq {t : Table α} (h : t.Distinct) :
    t.entries = t.keys.filterMap fun k => (t.get? k).map (k, ·) := by
  obtain ⟨es⟩ := t
  induction es with
  | nil => rfl
  | cons e es ih =>
      obtain ⟨k, v⟩ := e
      obtain ⟨hk, hes⟩ := List.nodup_cons.mp h
      -- The first entry hides none of the others, since no other has its key.
      have hget : ∀ k' ∈ es.map (·.1), (⟨(k, v) :: es⟩ : Table α).get? k' = (⟨es⟩ : Table α).get? k' := by
        intro k' hk'
        rw [get?_cons, if_neg]
        rintro rfl
        exact hk hk'
      have hrest := List.filterMap_congr fun k' hk' => congrArg (Option.map (k', ·)) (hget k' hk')
      calc (k, v) :: es
          = (k, v) :: (es.map (·.1)).filterMap fun k' => ((⟨es⟩ : Table α).get? k').map (k', ·) :=
            congrArg _ (ih hes)
        _ = (k, v) :: (es.map (·.1)).filterMap fun k' =>
              ((⟨(k, v) :: es⟩ : Table α).get? k').map (k', ·) := congrArg _ hrest.symm
        _ = _ := by simp [keys, get?_cons]

theorem mem_keys_iff {t : Table α} {k : String} : k ∈ t.keys ↔ (t.get? k).isSome := by
  obtain ⟨es⟩ := t
  induction es with
  | nil => simp [keys]
  | cons e es ih =>
      rw [get?_cons]
      simp only [keys, List.map_cons, List.mem_cons] at ih ⊢
      by_cases h : k = e.1 <;> simp [h, ih]

theorem mem_keys_insert {t : Table α} {k k' : String} {v : α} :
    k' ∈ (t.insert k v).keys ↔ k' ∈ t.keys ∨ k' = k := by
  rw [mem_keys_iff, get?_insert, mem_keys_iff]
  by_cases h : k' = k <;> simp [h]

/-! ## Sequences of insertions -/

theorem keys_insertAll (t : Table α) (es : List (String × α)) :
    (t.insertAll es).keys = t.keys ++ ((es.map (·.1)).filter (· ∉ t.keys)).eraseDups := by
  induction es generalizing t with
  | nil => simp [insertAll]
  | cons e es ih =>
      have hstep : t.insertAll (e :: es) = (t.insert e.1 e.2).insertAll es := rfl
      rw [hstep, ih, keys_insert]
      by_cases hk : e.1 ∈ t.keys
      · simp [hk]
      · simp only [hk, if_false, List.map_cons, List.filter_cons, not_false_eq_true, decide_true,
          if_true, List.eraseDups_cons, List.filter_filter, List.append_assoc, List.singleton_append]
        congr 3
        apply List.filter_congr
        intro k _
        rw [Bool.eq_iff_iff]
        simp [and_comm]

theorem get?_insertAll (t : Table α) (es : List (String × α)) (k : String) :
    (t.insertAll es).get? k = ((es.findRev? (·.1 = k)).map (·.2)).or (t.get? k) := by
  induction es generalizing t with
  | nil => simp [insertAll]
  | cons e es ih =>
      have hstep : t.insertAll (e :: es) = (t.insert e.1 e.2).insertAll es := rfl
      rw [hstep, ih, get?_insert]
      by_cases hk : e.1 = k
      · cases es.reverse.find? (·.1 = k) <;> simp [hk]
      · have hk' : ¬k = e.1 := fun h => hk h.symm
        simp [hk, hk']

theorem keys_ofList (es : List (String × α)) : (ofList es).keys = (es.map (·.1)).eraseDups := by
  rw [ofList, keys_insertAll]
  simp [keys]

theorem get?_ofList (es : List (String × α)) (k : String) :
    (ofList es).get? k = (es.findRev? (·.1 = k)).map (·.2) := by
  simp [ofList, get?_insertAll]

theorem keys_ofList_map {β : Type} (entry : β → String × α) (bs : List β) :
    (ofList (bs.map entry)).keys = (bs.map fun b => (entry b).1).eraseDups := by
  rw [keys_ofList, List.map_map]
  rfl

theorem get?_ofList_map {β : Type} (entry : β → String × α) (bs : List β) (k : String) :
    (ofList (bs.map entry)).get? k =
      (bs.findRev? fun b => (entry b).1 = k).map fun b => (entry b).2 := by
  rw [get?_ofList, List.findRev?_eq_find?_reverse, List.findRev?_eq_find?_reverse,
    ← List.map_reverse, List.find?_map, Option.map_map]
  rfl

theorem ofList_eq_gathered (es : List (String × α)) : ofList es = gathered es := by
  have hentries : (ofList es).entries = (gathered es).entries := by
    rw [entries_eq (distinct_ofList es), keys_ofList]
    apply List.filterMap_congr
    intro k _
    rw [get?_ofList]
    cases h : es.findRev? (·.1 = k) with
    | none => rfl
    | some e =>
        rw [List.findRev?_eq_find?_reverse] at h
        have hk := List.find?_some h
        simp only [decide_eq_true_eq] at hk
        simp [← hk]
  exact congrArg Table.mk hentries

theorem insert_of_notMem {t : Table α} {k : String} (h : k ∉ t.keys) (v : α) :
    t.insert k v = ⟨t.entries ++ [(k, v)]⟩ := by
  obtain ⟨es⟩ := t
  induction es with
  | nil => rfl
  | cons e es ih =>
      obtain ⟨hk, hes⟩ := List.ne_and_not_mem_of_not_mem_cons h
      rw [insert, insertEntry, if_neg (Ne.symm hk)]
      exact congrArg (fun t : Table α => Table.mk (e :: t.entries)) (ih hes)

theorem insertAll_of_distinct {t : Table α} {es : List (String × α)}
    (h : Distinct ⟨t.entries ++ es⟩) : t.insertAll es = ⟨t.entries ++ es⟩ := by
  induction es generalizing t with
  | nil => rw [List.append_nil]; rfl
  | cons e es ih =>
      rw [List.append_cons] at h
      have hkeys : (t.keys ++ [e.1]).Nodup := by
        have hprefix := (List.sublist_append_left (t.entries ++ [e]) es).map Prod.fst
        simpa [keys] using h.sublist hprefix
      have he : e.1 ∉ t.keys := fun hm => (List.nodup_append.mp hkeys).2.2 _ hm _ (by simp) rfl
      have hstep : t.insertAll (e :: es) = (t.insert e.1 e.2).insertAll es := rfl
      rw [List.append_cons, hstep, insert_of_notMem he]
      exact ih h

theorem mem_of_mem_ofList {es : List (String × α)} {e : String × α}
    (h : e ∈ (ofList es).entries) : e ∈ es := by
  rw [ofList_eq_gathered] at h
  obtain ⟨k, _, hk⟩ := List.mem_filterMap.mp h
  rw [List.findRev?_eq_find?_reverse] at hk
  exact List.mem_reverse.mp (List.mem_of_find?_eq_some hk)

theorem mem_keys_ofList {es : List (String × α)} {k : String} :
    k ∈ (ofList es).keys ↔ k ∈ es.map (·.1) := by
  rw [keys_ofList, List.mem_eraseDups]

/-- A table with distinct keys is the table of its entries. -/
theorem gathered_entries {t : Table α} (h : t.Distinct) : gathered t.entries = t := by
  rw [← ofList_eq_gathered, ofList, insertAll_of_distinct h]
  rfl

/-! ## Tables with distinct keys -/

theorem eraseDups_of_nodup {ks : List String} (h : ks.Nodup) : ks.eraseDups = ks := by
  induction ks with
  | nil => rfl
  | cons k ks ih =>
      obtain ⟨hk, hks⟩ := List.nodup_cons.mp h
      have hrest : (ks.filter fun b => !b == k) = ks :=
        List.filter_eq_self.mpr fun b hb => by simp [ne_of_mem_of_not_mem hb hk]
      rw [List.eraseDups_cons, hrest, ih hks]

theorem eraseDups_filter (p : String → Bool) (ks : List String) :
    (ks.filter p).eraseDups = ks.eraseDups.filter p := by
  match ks with
  | [] => rfl
  | k :: ks =>
      have hlt : (ks.filter fun b => !b == k).length < (k :: ks).length :=
        Nat.lt_succ_of_le (List.length_filter_le _ _)
      rw [List.eraseDups_cons]
      by_cases hk : p k = true
      · rw [List.filter_cons_of_pos hk, List.filter_cons_of_pos hk, List.eraseDups_cons,
          List.filter_comm, eraseDups_filter p (ks.filter fun b => !b == k)]
      · -- No key that is kept is `k`.
        have hkeep : (ks.filter fun b => !b == k).filter p = ks.filter p := by
          rw [List.filter_filter]
          refine List.filter_congr fun b _ => ?_
          by_cases hb : b = k <;> simp [hb, hk]
        rw [List.filter_cons_of_neg hk, List.filter_cons_of_neg hk,
          ← eraseDups_filter p (ks.filter fun b => !b == k), hkeep]
termination_by ks.length
decreasing_by all_goals exact hlt

theorem ext_of_distinct {t u : Table α} (ht : t.Distinct) (hu : u.Distinct) (hkeys : t.keys = u.keys)
    (hget : ∀ k, t.get? k = u.get? k) : t = u := by
  have hentries : t.entries = u.entries := by
    rw [entries_eq ht, entries_eq hu, hkeys]
    simp only [hget]
  exact congrArg Table.mk hentries

theorem ofList_entries {t : Table α} (h : t.Distinct) : ofList t.entries = t := by
  rw [ofList_eq_gathered, gathered_entries h]

theorem get?_union (t : Table α) {u : Table α} (hu : u.Distinct) (k : String) :
    (t.union u).get? k = (u.get? k).or (t.get? k) := by
  rw [union, get?_insertAll, ← get?_ofList, ofList_entries hu]

/-- Insertions can be collected in a table of their own first. -/
theorem insertAll_ofList {t : Table α} (ht : t.Distinct) (es : List (String × α)) :
    t.insertAll (ofList es).entries = t.insertAll es := by
  apply ext_of_distinct (ht.insertAll _) (ht.insertAll _)
  · have hkeys : (ofList es).entries.map (·.1) = (es.map (·.1)).eraseDups := keys_ofList es
    have hnodup : ((es.map (·.1)).eraseDups.filter (· ∉ t.keys)).Nodup := by
      rw [← hkeys]
      exact (distinct_ofList es).filter _
    rw [keys_insertAll, keys_insertAll, hkeys, eraseDups_of_nodup hnodup, eraseDups_filter]
  · intro k
    have hdistinct := distinct_ofList es
    rw [get?_insertAll, get?_insertAll, ← get?_ofList, ofList_entries hdistinct, get?_ofList]

/-! ## Unions -/

theorem unions_eq_ofList (ts : List (Table α)) : unions ts = ofList (ts.flatMap (·.entries)) := by
  rw [ofList, insertAll, List.foldl_flatMap]
  rfl

theorem unions_eq_gathered (ts : List (Table α)) :
    unions ts = gathered (ts.flatMap (·.entries)) := by
  rw [unions_eq_ofList, ofList_eq_gathered]

theorem distinct_unions (ts : List (Table α)) : (unions ts).Distinct := by
  rw [unions_eq_ofList]
  exact distinct_ofList _

/-- Some of the tables can be united first. -/
theorem unions_append_unions (ts us vs : List (Table α)) :
    unions (ts ++ unions us :: vs) = unions (ts ++ us ++ vs) := by
  have happend (es es' : List (String × α)) : ofList (es ++ es') = (ofList es).insertAll es' :=
    List.foldl_append
  simp only [unions_eq_ofList, List.flatMap_append, List.flatMap_cons]
  rw [happend, happend (_ ++ _), happend, insertAll, List.foldl_append]
  exact congrArg (fun t => insertAll t _) (insertAll_ofList (distinct_ofList _) _)

/-! ## The last of several tables -/

/-- The keys of all tables in the order in which they first occur, each with its value in the last
table that has it. -/
def latest (ts : List (Table α)) : Table α :=
  ⟨(ts.flatMap keys).eraseDups.filterMap fun k => (ts.findSomeRev? (·.get? k)).map (k, ·)⟩

theorem get?_unions {ts : List (Table α)} (h : ∀ t ∈ ts, t.Distinct) (k : String) :
    (unions ts).get? k = ts.findSomeRev? (·.get? k) := by
  have hfold (t : Table α) : (ts.foldl union t).get? k = (ts.findSomeRev? (·.get? k)).or (t.get? k) := by
    induction ts generalizing t with
    | nil => rfl
    | cons u ts ih =>
        obtain ⟨hu, hts⟩ := List.forall_mem_cons.mp h
        rw [List.foldl_cons, ih hts, get?_union t hu, List.findSomeRev?]
        cases ts.findSomeRev? (·.get? k) <;> rfl
  rw [unions, hfold, get?_nil, Option.or_none]

theorem keys_unions (ts : List (Table α)) : (unions ts).keys = (ts.flatMap keys).eraseDups := by
  rw [unions_eq_ofList, keys_ofList, List.map_flatMap]
  rfl

theorem unions_eq_latest {ts : List (Table α)} (h : ∀ t ∈ ts, t.Distinct) : unions ts = latest ts := by
  have hentries : (unions ts).entries = (latest ts).entries := by
    rw [entries_eq (distinct_unions ts), keys_unions]
    simp only [get?_unions h]
    rfl
  exact congrArg Table.mk hentries

end Statechart.Table
