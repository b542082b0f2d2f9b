import Statechart.Machine
import Statechart.Proofs.Comparison
import Statechart.Proofs.Equality

/-!
# Equality is an equivalence

Equality is reflexive, symmetric and transitive between values whose tables hold each key once, at
every depth (`equivalence_beq`). Tables are compared one way only: each entry of the first is looked
up in the second. It is the number of entries and the distinct keys that make this symmetric.
-/

namespace Statechart

/-! ## JSON -/

theorem Decimal.beq_iff {a b : Decimal} : a == b ↔ a = b ∨ a.isZero ∧ b.isZero := by
  have hbeq : (a == b) = (decide (a = b) || a.isZero && b.isZero) := rfl
  rw [hbeq, Bool.or_eq_true, decide_eq_true_iff, Bool.and_eq_true]

theorem Decimal.equivAt (a : Decimal) : EquivAt (· == ·) a where
  refl := beq_iff.mpr (.inl rfl)
  symm hab := by
    rcases beq_iff.mp hab with rfl | ⟨ha, hb⟩
    · exact hab
    · exact beq_iff.mpr (.inr ⟨hb, ha⟩)
  trans hab hbc := by
    rcases beq_iff.mp hab with rfl | ⟨ha, hb⟩
    · exact hbc
    · rcases beq_iff.mp hbc with rfl | ⟨-, hc⟩
      · exact hab
      · exact beq_iff.mpr (.inr ⟨ha, hc⟩)

theorem Number.equivAt (x : Number) : EquivAt (· == ·) x := by
  cases x with
  | int value => exact .make Number.int (.of_lawful value)
  | decimal value => exact .make Number.decimal value.equivAt

namespace Json

/-- Every object in the value holds each key once. -/
inductive WellKeyed : Json → Prop
  | null : WellKeyed .null
  | bool (value : Bool) : WellKeyed (.bool value)
  | num (value : Number) : WellKeyed (.num value)
  | str (value : String) : WellKeyed (.str value)
  | arr {items} : (∀ j ∈ items, WellKeyed j) → WellKeyed (.arr items)
  | obj {members} : members.Distinct → (∀ e ∈ members.entries, WellKeyed e.2) →
      WellKeyed (.obj members)

theorem WellKeyed.equivAt {j : Json} (h : j.WellKeyed) : EquivAt (· == ·) j := by
  induction h with
  | null =>
      refine .const rfl fun j hj => ?_
      cases j with
      | null => rfl
      | _ => cases hj
  | bool value => exact .make Json.bool (.of_lawful value)
  | num value => exact .make Json.num value.equivAt
  | str value => exact .make Json.str (.of_lawful value)
  | arr _ ih => exact .make Json.arr (.list ih) beq_arr
  | obj hdistinct _ ih => exact .make Json.obj (.table hdistinct ih) beq_obj

end Json

/-! ## Functions and mappings -/

theorem Effect.beq_iff {e e' : Effect} : e == e' ↔ e.label = e'.label := by
  rw [beq_iff_eq]
  exact ⟨congrArg label, fun h => congrArg Effect.mk h⟩

theorem Expr.equivAt (e : Expr) : EquivAt (· == ·) e := (EquivAt.of_lawful e.label).on label

theorem Predicate.equivAt (p : Predicate) : EquivAt (· == ·) p :=
  (EquivAt.of_lawful p.label).on label

theorem Resolver.equivAt {α : Type} (r : Resolver α) : EquivAt (· == ·) r :=
  (EquivAt.of_lawful r.label).on label

/-- The literal of a property is well-keyed. -/
def Property.WellKeyed : Property → Prop
  | value json => json.WellKeyed
  | expr _ => True

theorem Property.WellKeyed.equivAt {p : Property} (h : p.WellKeyed) : EquivAt (· == ·) p := by
  cases p with
  | value json => exact .make Property.value (Json.WellKeyed.equivAt h)
  | expr e => exact .make Property.expr e.equivAt

/-- The properties have distinct keys, and all JSON in the mapping is well-keyed. -/
def Mapping.WellKeyed : Mapping → Prop
  | properties table => table.Keyed Property.WellKeyed
  | function _ => True
  | value json => json.WellKeyed

theorem Mapping.WellKeyed.equivAt {m : Mapping} (h : m.WellKeyed) : EquivAt (· == ·) m := by
  cases m with
  | properties table => exact .make Mapping.properties (Table.Keyed.equivAt h fun _ hp => hp.equivAt)
  | function e => exact .make Mapping.function e.equivAt
  | value json => exact .make Mapping.value (Json.WellKeyed.equivAt h)

/-! ## Actions -/

theorem Guard.equivAt (g : Guard) : EquivAt (· == ·) g := by
  cases g with
  | named name => exact .make Guard.named (.of_lawful name)
  | predicate p => exact .make Guard.predicate p.equivAt

theorem Send.equivAt {s : Send} (h : s.event.WellKeyed) : EquivAt (· == ·) s := by
  have hparts := (h.equivAt.on event).and (((EquivAt.of_lawful s.recipient).on recipient).and
    (((EquivAt.of_lawful s.delay).on delay).and ((EquivAt.of_lawful s.id).on id)))
  exact hparts.of_eq fun _ _ => rfl

theorem Branch.equivAt {b : Branch Action} (h : ∀ a ∈ b.actions, EquivAt (· == ·) a) :
    EquivAt (· == ·) b := by
  have hcond : EquivAt (· == ·) b.cond := .option fun g _ => g.equivAt
  exact ((hcond.on cond).and ((EquivAt.list h).on actions)).of_eq fun _ _ => rfl

namespace Action

/-- All JSON in an action is well-keyed, in its branches and parts as well. -/
inductive WellKeyed : Action → Prop
  | named (name : String) : WellKeyed (.named name)
  | effect (e : Effect) : WellKeyed (.effect e)
  | assign {assignment} : assignment.WellKeyed → WellKeyed (.assign assignment)
  | send {message} : message.event.WellKeyed → WellKeyed (.send message)
  | choose {branches} : (∀ b ∈ branches, ∀ a ∈ b.actions, WellKeyed a) →
      WellKeyed (.choose branches)
  | pure (source : Resolver Action) : WellKeyed (.pure source)
  | composed {parts} : (∀ a ∈ parts, WellKeyed a) → WellKeyed (.composed parts)

theorem WellKeyed.equivAt {a : Action} (h : a.WellKeyed) : EquivAt (· == ·) a := by
  induction h with
  | named name => exact .make Action.named (.of_lawful name)
  | effect e => exact .make Action.effect (.of_lawful e)
  | assign h => exact .make Action.assign h.equivAt
  | send h => exact .make Action.send (Send.equivAt h)
  | choose _ ih => exact .make Action.choose (.list fun b hb => Branch.equivAt (ih b hb)) beq_choose
  | pure source => exact .make Action.pure source.equivAt
  | composed _ ih => exact .make Action.composed (.list ih) beq_composed

end Action

theorem equivAt_actions {x : Option (List Action)} (h : ∀ as ∈ x, ∀ a ∈ as, a.WellKeyed) :
    EquivAt (· == ·) x :=
  .option fun as has => .list fun a ha => (h as has a ha).equivAt

/-! ## Transitions -/

/-- The actions of a transition are well-keyed. -/
def Transition.WellKeyed (t : Transition) : Prop := ∀ as ∈ t.actions, ∀ a ∈ as, a.WellKeyed

theorem Transition.WellKeyed.equivAt {t : Transition} (h : t.WellKeyed) : EquivAt (· == ·) t := by
  have hactions : EquivAt (· == ·) t.actions := equivAt_actions h
  have hcond : EquivAt (· == ·) t.cond := .option fun g _ => g.equivAt
  have hparts := ((EquivAt.of_lawful t.target).on target).and ((hactions.on actions).and (hcond.on cond))
  exact hparts.of_eq fun _ _ => rfl

theorem equivAt_transitions {x : Option (List Transition)} (h : ∀ ts ∈ x, ∀ t ∈ ts, t.WellKeyed) :
    EquivAt (· == ·) x :=
  .option fun ts hts => .list fun t ht => (h ts hts t ht).equivAt

/-- The events are distinct, and their transitions are well-keyed. -/
def EventTable.WellKeyed (table : EventTable) : Prop :=
  table.Keyed fun ts => ∀ t ∈ ts, t.WellKeyed

theorem EventTable.WellKeyed.equivAt {table : EventTable} (h : table.WellKeyed) :
    EquivAt (· == ·) table :=
  Table.Keyed.equivAt h fun _ hts => .list fun t ht => (hts t ht).equivAt

/-! ## Nodes -/

namespace Invocation

/-- The data and the transitions of a service are well-keyed. -/
structure WellKeyed (i : Invocation) : Prop where
  data : ∀ m ∈ i.data, m.WellKeyed
  onDone : ∀ ts ∈ i.onDone, ∀ t ∈ ts, t.WellKeyed
  onError : ∀ ts ∈ i.onError, ∀ t ∈ ts, t.WellKeyed

theorem WellKeyed.equivAt {i : Invocation} (h : i.WellKeyed) : EquivAt (· == ·) i := by
  have hdata : EquivAt (· == ·) i.data := .option fun m hm => (h.data m hm).equivAt
  have honDone := equivAt_transitions h.onDone
  have honError := equivAt_transitions h.onError
  have hparts := ((EquivAt.of_lawful i.src).on Invocation.src).and
    (((EquivAt.of_lawful i.id).on Invocation.id).and ((hdata.on Invocation.data).and
    ((honDone.on Invocation.onDone).and ((honError.on Invocation.onError).and
    ((EquivAt.of_lawful i.autoForward).on Invocation.autoForward)))))
  exact hparts.of_eq fun _ _ => rfl

end Invocation

namespace StateNode

/-- The tables in the node's own facets hold each key once; nested states are not looked at. -/
structure FacetsKeyed (n : StateNode) : Prop where
  context : ∀ j ∈ n.context, j.WellKeyed
  states : ∀ children ∈ n.states, children.Distinct
  on : ∀ table ∈ n.on, table.WellKeyed
  entry : ∀ as ∈ n.entry, ∀ a ∈ as, a.WellKeyed
  exit : ∀ as ∈ n.exit, ∀ a ∈ as, a.WellKeyed
  invoke : ∀ i ∈ n.invoke, i.WellKeyed
  onDone : ∀ ts ∈ n.onDone, ∀ t ∈ ts, t.WellKeyed
  onError : ∀ ts ∈ n.onError, ∀ t ∈ ts, t.WellKeyed
  after : ∀ table ∈ n.after, table.WellKeyed
  always : ∀ ts ∈ n.always, ∀ t ∈ ts, t.WellKeyed
  metadata : ∀ j ∈ n.metadata, j.WellKeyed
  data : ∀ m ∈ n.data, m.WellKeyed

/-- Every table in the node and in the states below it holds each key once. -/
inductive WellKeyed : StateNode → Prop
  | intro {n} : n.FacetsKeyed → (∀ c, n.HasChild c → WellKeyed c) → WellKeyed n

theorem FacetsKeyed.equivAt {n : StateNode} (h : n.FacetsKeyed) : EquivAt beqFacets n := by
  have hcontext : EquivAt (· == ·) n.context := .option fun j hj => (h.context j hj).equivAt
  have hon : EquivAt (· == ·) n.on := .option fun table ht => (h.on table ht).equivAt
  have hinvoke : EquivAt (· == ·) n.invoke := .option fun i hi => (h.invoke i hi).equivAt
  have hafter : EquivAt (· == ·) n.after := .option fun table ht => (h.after table ht).equivAt
  have hmetadata : EquivAt (· == ·) n.metadata := .option fun j hj => (h.metadata j hj).equivAt
  have hdata : EquivAt (· == ·) n.data := .option fun m hm => (h.data m hm).equivAt
  have hparts := ((EquivAt.of_lawful n.id).on StateNode.id)
    |>.and ((EquivAt.of_lawful n.initial).on StateNode.initial)
    |>.and ((EquivAt.of_lawful n.kind).on StateNode.kind)
    |>.and (hcontext.on StateNode.context)
    |>.and ((EquivAt.of_lawful n.history).on StateNode.history)
    |>.and ((EquivAt.of_lawful n.target).on StateNode.target)
    |>.and (hon.on StateNode.on)
    |>.and ((equivAt_actions h.entry).on StateNode.entry)
    |>.and ((equivAt_actions h.exit).on StateNode.exit)
    |>.and (hinvoke.on StateNode.invoke)
    |>.and ((equivAt_transitions h.onDone).on StateNode.onDone)
    |>.and ((equivAt_transitions h.onError).on StateNode.onError)
    |>.and (hafter.on StateNode.after)
    |>.and ((equivAt_transitions h.always).on StateNode.always)
    |>.and ((EquivAt.of_lawful n.activities).on StateNode.activities)
    |>.and (hmetadata.on StateNode.metadata)
    |>.and (hdata.on StateNode.data)
    |>.and ((EquivAt.of_lawful n.delimiter).on StateNode.delimiter)
  exact hparts.of_eq fun _ _ => rfl

theorem WellKeyed.equivAt {n : StateNode} (h : n.WellKeyed) : EquivAt (· == ·) n := by
  induction h with
  | @intro n hfacets _ ih =>
      -- Nested states are a facet of their own, and the induction is along them.
      have hstates : EquivAt (· == ·) n.states := .option fun children hchildren =>
        .table (hfacets.states children hchildren) fun e he => ih e.2 ⟨children, hchildren, e.1, he⟩
      exact (hfacets.equivAt.and (hstates.on StateNode.states)).of_eq beq_eq

end StateNode

/-- Every table in the machine holds each key once. -/
def Machine.WellKeyed (m : Machine) : Prop := m.root.WellKeyed

theorem Machine.WellKeyed.equivAt {m : Machine} (h : m.WellKeyed) : EquivAt (· == ·) m :=
  ((StateNode.WellKeyed.equivAt h).on Machine.root).of_eq fun _ _ => rfl

/-! ## Fragments -/

namespace Fragment

/-- The tables in the fragment hold each key once; nested contents are not looked at. -/
def PayloadKeyed : Fragment → Prop
  | context json | metadata json => json.WellKeyed
  | states children => children.Keyed StateNode.WellKeyed
  | on table | after table => table.WellKeyed
  | onDone ts | onError ts | always ts => ∀ t ∈ ts, t.WellKeyed
  | entry as | exit as => ∀ a ∈ as, a.WellKeyed
  | invoke i => i.WellKeyed
  | data m => m.WellKeyed
  | action a => a.WellKeyed
  | transition t => t.WellKeyed
  | _ => True

/-- Every table in the fragment and in its nested contents holds each key once. -/
inductive WellKeyed : Fragment → Prop
  | intro {f} : f.PayloadKeyed → (∀ g ∈ f.contents, WellKeyed g) → WellKeyed f

theorem WellKeyed.equivAt {f : Fragment} (h : f.WellKeyed) : EquivAt (· == ·) f := by
  induction h with
  | @intro f h _ ih =>
      -- Only nested contents are fragments again; all other kinds are as what they hold.
      cases f with
      | id name => exact .make Fragment.id (.of_lawful name)
      | initial name => exact .make Fragment.initial (.of_lawful name)
      | kind kind => exact .make Fragment.kind (.of_lawful kind)
      | context json => exact .make Fragment.context (Json.WellKeyed.equivAt h)
      | history mode => exact .make Fragment.history (.of_lawful mode)
      | target name => exact .make Fragment.target (.of_lawful name)
      | states children => exact .make Fragment.states (Table.Keyed.equivAt h fun _ hn => hn.equivAt)
      | nested contents => exact .make Fragment.nested (.list ih) beq_nested
      | on table => exact .make Fragment.on (EventTable.WellKeyed.equivAt h)
      | onDone ts => exact .make Fragment.onDone (.list fun t ht => (h t ht).equivAt)
      | onError ts => exact .make Fragment.onError (.list fun t ht => (h t ht).equivAt)
      | entry as => exact .make Fragment.entry (.list fun a ha => (h a ha).equivAt)
      | exit as => exact .make Fragment.exit (.list fun a ha => (h a ha).equivAt)
      | invoke i => exact .make Fragment.invoke (Invocation.WellKeyed.equivAt h)
      | always ts => exact .make Fragment.always (.list fun t ht => (h t ht).equivAt)
      | after table => exact .make Fragment.after (EventTable.WellKeyed.equivAt h)
      | activities items => exact .make Fragment.activities (.of_lawful items)
      | metadata json => exact .make Fragment.metadata (Json.WellKeyed.equivAt h)
      | data m => exact .make Fragment.data (Mapping.WellKeyed.equivAt h)
      | delimiter text => exact .make Fragment.delimiter (.of_lawful text)
      | autoForward enabled => exact .make Fragment.autoForward (.of_lawful enabled)
      | action a => exact .make Fragment.action (Action.WellKeyed.equivAt h)
      | cond guard => exact .make Fragment.cond guard.equivAt
      | transition t => exact .make Fragment.transition (Transition.WellKeyed.equivAt h)

end Fragment

/-! ## All values -/

/-- Equality is an equivalence relation between the values with `P`. -/
def EqualityIsEquivalence {α : Type} [BEq α] (P : α → Prop) : Prop :=
  Equivalence fun a b : {a // P a} => (a.val == b.val) = true

theorem isEquivalence_of_equivAt {α : Type} [BEq α] {P : α → Prop}
    (h : ∀ a, P a → EquivAt (· == ·) a) : EqualityIsEquivalence P where
  refl a := (h a.val a.property).refl
  symm {a _} hab := (h a.val a.property).symm hab
  trans {a _ _} hab hbc := (h a.val a.property).trans hab hbc

/-- How equality compares what values are made of: tables by their sizes and by what is found under
each key, lists in their order, and inline functions by name and identity. -/
structure PartsCompared : Prop where
  table {α : Type} [BEq α] {t u : Table α} : t.Distinct → u.Distinct →
    (t == u ↔ t.size = u.size ∧ ∀ key, Option.Rel (· == ·) (t.get? key) (u.get? key))
  object (t u : Table Json) : (Json.obj t == .obj u) = (t == u)
  states (n m : StateNode) : (n == m) = (n.beqFacets m && n.states == m.states)
  list {α : Type} [BEq α] {as bs : List α} : as == bs ↔ List.Forall₂ (· == ·) as bs
  array (js js' : List Json) : (Json.arr js == .arr js') = (js == js')
  branches (bs bs' : List (Branch Action)) : (Action.choose bs == .choose bs') = (bs == bs')
  parts (as as' : List Action) : (Action.composed as == .composed as') = (as == as')
  contents (fs gs : List Fragment) : (Fragment.nested fs == .nested gs) = (fs == gs)
  effect (e e' : Effect) : e == e' ↔ e.label = e'.label
  expr (e e' : Expr) : e == e' ↔ e.label = e'.label
  resolver (r r' : Resolver Action) : r == r' ↔ r.label = r'.label
  predicate (p p' : Predicate) : p == p' ↔ p.label = p'.label

/-- Equality is an equivalence relation between the values whose tables hold each key once, and
compares them part by part. -/
theorem equivalence_beq :
    EqualityIsEquivalence Fragment.WellKeyed ∧ EqualityIsEquivalence Action.WellKeyed ∧
    EqualityIsEquivalence Mapping.WellKeyed ∧ EqualityIsEquivalence Transition.WellKeyed ∧
    EqualityIsEquivalence Invocation.WellKeyed ∧ EqualityIsEquivalence StateNode.WellKeyed ∧
    EqualityIsEquivalence Machine.WellKeyed ∧ PartsCompared := by
  refine ⟨isEquivalence_of_equivAt fun f hf => hf.equivAt,
    isEquivalence_of_equivAt fun a ha => ha.equivAt, isEquivalence_of_equivAt fun m hm => hm.equivAt,
    isEquivalence_of_equivAt fun t ht => ht.equivAt, isEquivalence_of_equivAt fun i hi => hi.equivAt,
    isEquivalence_of_equivAt fun n hn => hn.equivAt, isEquivalence_of_equivAt fun m hm => hm.equivAt, ?_⟩
  exact {
    table := Table.beq_iff_rel_get?
    object := Json.beq_obj
    states := StateNode.beq_eq
    list := beq_iff_forall₂
    array := Json.beq_arr
    branches := Action.beq_choose
    parts := Action.beq_composed
    contents := Fragment.beq_nested
    effect := fun _ _ => Effect.beq_iff
    expr := fun e e' => beq_iff_eq (a := e.label) (b := e'.label)
    resolver := fun r r' => beq_iff_eq (a := r.label) (b := r'.label)
    predicate := fun p p' => beq_iff_eq (a := p.label) (b := p'.label) }

/-- The names of nested states, and the keys of an object in one of them, in another order. -/
theorem equivalence_beq_reordered :
    let node (name name' key key' : String) : StateNode :=
      { states := some ⟨[(name, { context := some (.object [(key, .null), (key', .null)]) }),
          (name', { context := some (.object [(key', .null), (key, .null)]) })]⟩ }
    let a := node "idle" "busy" "x" "y"
    let b := node "busy" "idle" "x" "y"
    let c := node "busy" "idle" "y" "x"
    a.WellKeyed ∧ b.WellKeyed ∧ c.WellKeyed ∧ (a == b) = true ∧ (b == c) = true ∧
      (b == a) = true ∧ (a == c) = true := by
  intro node a b c
  have hobject {key key' : String} (h : key ≠ key') :
      (Json.object [(key, .null), (key', .null)]).WellKeyed := by
    refine .obj (by simpa [Table.Distinct, Table.keys] using h) fun e he => ?_
    rcases List.mem_cons.mp he with rfl | he
    · exact .null
    · rw [List.mem_singleton.mp he]
      exact .null
  have hleaf {j : Json} (h : j.WellKeyed) : StateNode.WellKeyed { context := some j } := by
    refine .intro ?_ ?_
    · constructor <;> simp [h]
    · rintro n ⟨_, ⟨⟩, -⟩
  have hnode {name name' key key' : String} (hname : name ≠ name') (hkey : key ≠ key') :
      (node name name' key key').WellKeyed := by
    refine .intro ?_ ?_
    · constructor <;> simp [node, Table.Distinct, Table.keys, hname]
    · rintro n ⟨_, ⟨⟩, l, hn⟩
      rcases List.mem_cons.mp hn with hn | hn
      · cases hn
        exact hleaf (hobject hkey)
      · cases List.mem_singleton.mp hn
        exact hleaf (hobject hkey.symm)
  have ha : a.WellKeyed := hnode (by decide) (by decide)
  have hb : b.WellKeyed := hnode (by decide) (by decide)
  have hc : c.WellKeyed := hnode (by decide) (by decide)
  have hab : (a == b) = true := rfl
  have hbc : (b == c) = true := rfl
  obtain ⟨-, -, -, -, -, hequivalence, -⟩ := equivalence_beq
  exact ⟨ha, hb, hc, hab, hbc, hequivalence.symm (x := ⟨a, ha⟩) (y := ⟨b, hb⟩) hab,
    hequivalence.trans (x := ⟨a, ha⟩) (y := ⟨b, hb⟩) (z := ⟨c, hc⟩) hab hbc⟩

end Statechart
