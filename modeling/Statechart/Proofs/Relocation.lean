import Statechart.Proofs.Meaning

/-!
# Relocating reserved events

The reserved events can as well be moved out of the event table of a finished node: assembling a
state with relocation is assembling it without, and relocating afterwards (`assemble_relocating`).
-/

namespace Statechart

/-! ## Relocation on a node -/

/-- The table, if it has entries. -/
def Table.nonempty? {α : Type} (t : Table α) : Option (Table α) :=
  if t.entries = [] then none else some t

/-- The events that are not reserved, in their order. -/
def otherEvents (table : EventTable) : EventTable :=
  ⟨table.entries.filter fun e => e.1 ≠ doneEvent ∧ e.1 ≠ errorEvent⟩

/-- The node with the transitions for reserved events moved from its event table to their own
facets, where they replace what was there. A table that is left empty is unset. -/
def StateNode.relocated (n : StateNode) : StateNode :=
  { n with
    onDone := (n.transitions? doneEvent).or n.onDone
    onError := (n.transitions? errorEvent).or n.onError
    on := n.on.bind fun table => (otherEvents table).nonempty? }

theorem StateNode.facet?_relocated (n : StateNode) (f : Facet) :
    n.relocated.facet? f =
      if f = .on then (n.on.bind fun table => (otherEvents table).nonempty?).map .on
      else if f = .onError then ((n.transitions? errorEvent).map .onError).or (n.facet? .onError)
      else if f = .onDone then ((n.transitions? doneEvent).map .onDone).or (n.facet? .onDone)
      else n.facet? f := by
  cases f with
  | onDone =>
      change ((n.transitions? doneEvent).or n.onDone).map Fragment.onDone = _
      rw [Option.map_or]
      rfl
  | onError =>
      change ((n.transitions? errorEvent).or n.onError).map Fragment.onError = _
      rw [Option.map_or]
      rfl
  | _ => rfl

/-! ## Clauses of an event table -/

theorem onClause_eq (table : EventTable) :
    onClause table = (table.nonempty?.map Fragment.on).toList := by
  unfold onClause Table.nonempty?
  split <;> rfl

theorem facet_of_mem_eventClauses {relocate : Bool} {table : EventTable} {p : Fragment}
    (h : p ∈ eventClauses relocate table) : p.facet = .on ∨ p.facet = .onDone ∨ p.facet = .onError := by
  have hon {t : EventTable} (h : p ∈ onClause t) : p.facet = .on := by
    rw [onClause_eq, Option.mem_toList, Option.map_eq_some_iff] at h
    obtain ⟨_, _, rfl⟩ := h
    rfl
  cases relocate with
  | false => exact Or.inl (hon h)
  | true =>
      simp only [eventClauses, if_true, List.mem_append, Option.mem_toList, Option.map_eq_some_iff] at h
      obtain (⟨_, _, rfl⟩ | ⟨_, _, rfl⟩) | h := h
      · exact Or.inr (Or.inl rfl)
      · exact Or.inr (Or.inr rfl)
      · exact Or.inl (hon h)

theorem accepts_of_mem_eventClauses {relocate : Bool} {table : EventTable} {p : Fragment}
    (h : p ∈ eventClauses relocate table) : accepts StateNode p = true := by
  have hfacet := facet_of_mem_eventClauses h
  have hnested : p.isNested = false := by
    cases p with
    | nested contents => rcases hfacet with h | h | h <;> cases h
    | _ => rfl
  rw [accepts, hnested]
  rcases hfacet with h | h | h <;> rw [h] <;> rfl

/-! ## The last clause for a facet -/

theorem findRev?_append (ps qs : List Fragment) (q : Fragment → Bool) :
    (ps ++ qs).findRev? q = (qs.findRev? q).or (ps.findRev? q) := by
  simp only [List.findRev?_eq_find?_reverse, List.reverse_append, List.find?_append]

theorem findRev?_effective (relocate : Bool) (fs : List Fragment) {f : Facet}
    (hf : f ≠ .on ∧ f ≠ .onDone ∧ f ≠ .onError) :
    (effective relocate fs).findRev? (·.facet = f) =
      ((fs.flatMap Fragment.contents).findRev? (·.facet = f)).or
        ((fs.filter (!·.isNested)).findRev? (·.facet = f)) := by
  have hclauses (table : EventTable) :
      (eventClauses relocate table).findRev? (·.facet = f) = none := by
    rw [List.findRev?_eq_find?_reverse, List.find?_eq_none]
    intro p hp he
    rw [← of_decide_eq_true he] at hf
    rcases facet_of_mem_eventClauses (List.mem_reverse.mp hp) with h | h | h
    · exact hf.1 h
    · exact hf.2.1 h
    · exact hf.2.2 h
  have hon : ((unnested fs).filter (·.facet ≠ .on)).findRev? (·.facet = f) =
      (unnested fs).findRev? (·.facet = f) := by
    rw [List.findRev?_eq_find?_reverse, List.findRev?_eq_find?_reverse, ← List.filter_reverse,
      List.find?_filter]
    congr 1
    funext p
    by_cases he : p.facet = f <;> simp [he, hf.1]
  rw [effective, findRev?_append, hclauses, Option.none_or, hon, unnested, findRev?_append]

theorem findRev?_clause {α : Type} (clause : α → Fragment) {facet : Facet}
    (h : ∀ a, (clause a).facet = facet) (value? : Option α) (f : Facet) :
    (value?.map clause).toList.findRev? (·.facet = f) =
      if f = facet then value?.map clause else none := by
  cases value? with
  | none => simp
  | some a => by_cases hf : f = facet <;> simp [h, hf, eq_comm (a := facet)]

/-- Relocation changes what the clauses of a table say about three facets. -/
theorem findRev?_eventClauses (table : EventTable) (f : Facet) :
    (eventClauses true table).findRev? (·.facet = f) =
      (if f = .on then (otherEvents table).nonempty?.map .on else none).or
        ((if f = .onError then (table.get? errorEvent).map .onError else none).or
          (if f = .onDone then (table.get? doneEvent).map .onDone else none)) := by
  simp only [eventClauses, if_true, findRev?_append]
  rw [← otherEvents, onClause_eq, findRev?_clause .on fun _ => rfl,
    findRev?_clause .onError fun _ => rfl, findRev?_clause .onDone fun _ => rfl]

/-! ## Two runs -/

section

variable {n : StateNode} {table : EventTable} (h : n.on = table.nonempty?)

include h

theorem transitions?_of_on (event : String) : n.transitions? event = table.get? event := by
  obtain ⟨entries⟩ := table
  rw [StateNode.transitions?, h]
  cases entries <;> rfl

theorem otherEvents_of_on :
    (n.on.bind fun t => (otherEvents t).nonempty?) = (otherEvents table).nonempty? := by
  obtain ⟨entries⟩ := table
  rw [h]
  cases entries <;> rfl

end

/-- Clauses with relocation describe the relocated node, if those without it describe the node. -/
theorem Describes.relocated {rest : List Fragment} (hrest : ∀ p ∈ rest, p.facet ≠ .on)
    {table : EventTable} {n : StateNode}
    (h : Describes (rest ++ eventClauses false table) n) :
    Describes (rest ++ eventClauses true table) n.relocated where
  facet f := by
    have hon : rest.findRev? (·.facet = .on) = none := by
      simpa [List.findRev?_eq_find?_reverse] using hrest
    have hfacet (f : Facet) : n.facet? f =
        (if f = .on then table.nonempty?.map .on else none).or (rest.findRev? (·.facet = f)) := by
      have hf := h.facet f
      rwa [findRev?_append, eventClauses, if_neg Bool.false_ne_true, onClause_eq,
        findRev?_clause .on fun _ => rfl] at hf
    have htable : n.on = table.nonempty? := by
      have hf := hfacet .on
      rw [hon, if_pos rfl, Option.or_none] at hf
      exact Option.map_injective (fun _ _ => Fragment.on.inj) hf
    refine (n.facet?_relocated f).trans ?_
    rw [findRev?_append, findRev?_eventClauses, otherEvents_of_on htable,
      transitions?_of_on htable, transitions?_of_on htable, hfacet .onError, hfacet .onDone,
      hfacet f]
    by_cases h₁ : f = .on
    · subst h₁
      rw [hon]
      simp
    by_cases h₂ : f = .onError
    · subst h₂
      simp
    by_cases h₃ : f = .onDone
    · subst h₃
      simp
    simp [h₁, h₂, h₃]
  bare := rfl

theorem Describes.on_eq {fs : List Fragment} {n : StateNode} (h : Describes (effective true fs) n) :
    n.on = (otherEvents (mergedEvents (unnested fs))).nonempty? := by
  have hrest : ((unnested fs).filter (·.facet ≠ .on)).findRev? (·.facet = .on) = none := by
    simp [List.findRev?_eq_find?_reverse]
  have hfacet := h.facet .on
  rw [effective, findRev?_append, findRev?_eventClauses, hrest, if_pos rfl, if_neg (by decide),
    if_neg (by decide), Option.or_none, Option.or_none, Option.or_none] at hfacet
  exact Option.map_injective (fun _ _ => Fragment.on.inj) hfacet

/-- A state takes all clauses of an event table, with relocation and without. -/
theorem find?_uniteEvents (relocate : Bool) (placed : List Placed) :
    (uniteEvents relocate placed).find? (!accepts StateNode ·.fragment) =
      (placed.filter (·.fragment.on?.isNone)).find? (!accepts StateNode ·.fragment) := by
  unfold uniteEvents
  split
  · rfl
  · rename_i last _
    have htail (table : EventTable) :
        ((eventFragments relocate table).map (Placed.mk last.position)).find?
          (!accepts StateNode ·.fragment) = none := by
      rw [eventFragments_eq, List.find?_map, Option.map_eq_none_iff, List.find?_eq_none]
      intro p hp
      simp [accepts_of_mem_eventClauses hp]
    rw [List.find?_append, htail, Option.or_none]

theorem written_relocating (placed : List Placed) :
    written (Assemblable.blank : StateNode) (uniteEvents true placed) =
      (written Assemblable.blank (uniteEvents false placed)).map StateNode.relocated := by
  have haccepts {relocate : Bool} (h : (uniteEvents relocate placed).find?
      (!accepts StateNode ·.fragment) = none) :
      ∀ p ∈ (uniteEvents relocate placed).map (·.fragment), accepts StateNode p = true := by
    simpa using h
  simp only [written, find?_uniteEvents]
  cases h : (placed.filter (·.fragment.on?.isNone)).find? (!accepts StateNode ·.fragment) with
  | some p => rfl
  | none =>
      have hon := describes_fill (haccepts ((find?_uniteEvents true placed).trans h))
      have hoff := describes_fill (haccepts ((find?_uniteEvents false placed).trans h))
      rw [fragments_uniteEvents] at hon hoff ⊢
      rw [fragments_uniteEvents]
      exact congrArg Except.ok (hon.unique (hoff.relocated fun p hp =>
        of_decide_eq_true (List.mem_filter.mp hp).2))

/-- Assembling a state with relocation is assembling it without and then relocating, and it fails in
the same way. -/
theorem assemble_relocating (policy : DuplicatePolicy) (h : policy ≠ .reject) (fs : List Fragment) :
    (assemble ⟨policy, true⟩ fs : Report StateNode).outcome =
      (assemble ⟨policy, false⟩ fs : Report StateNode).outcome.map StateNode.relocated := by
  rw [outcome_assemble, outcome_assemble]
  cases hoist fs with
  | error e => rfl
  | ok placed =>
      change (writeAll policy [] Assemblable.blank (uniteEvents true placed)).outcome =
        (writeAll policy [] Assemblable.blank (uniteEvents false placed)).outcome.map _
      rw [outcome_writeAll h, outcome_writeAll h, written_relocating]

/-- A reserved event replaces an explicit clause that stands after it, and nothing else remains of
its table; a clause without such an event stays. -/
theorem assemble_relocating_done :
    DuplicatePolicy.warn ≠ .reject ∧ ∃ n : StateNode,
      (assemble ⟨.warn, false⟩ [.on ⟨[("done", [.ofTarget "a"])]⟩, .onDone [], .onError []]).outcome =
        .ok n ∧
      n.on = some ⟨[("done", [.ofTarget "a"])]⟩ ∧ n.onDone = some [] ∧
      (assemble ⟨.warn, true⟩ [.on ⟨[("done", [.ofTarget "a"])]⟩, .onDone [], .onError []]).outcome =
        .ok n.relocated ∧
      n.relocated =
        ({ onDone := some [.ofTarget "a"], onError := some [] } : StateNode) := by
  have h : DuplicatePolicy.warn ≠ .reject := by decide
  exact ⟨h, _, rfl, rfl, rfl, assemble_relocating .warn h _, rfl⟩

end Statechart
