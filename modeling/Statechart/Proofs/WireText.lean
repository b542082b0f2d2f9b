import Mathlib.Logic.Relation
import Statechart.Proofs.ByName
import Statechart.Proofs.JsonText

/-!
# The text of nodes

Where all data are literal, the text of a node determines the node at every depth, its inline
functions by name (`render_toJson_eq_iff`).
-/

namespace Statechart

/-! ## Literal data -/

/-- The property is a literal. -/
def Property.IsLiteral : Property → Prop
  | value _ => True
  | expr _ => False

/-- The mapping is as JSON gives it: literal properties, or a value that is no object. -/
def Mapping.IsLiteral : Mapping → Prop
  | properties table => ∀ e ∈ table.entries, e.2.IsLiteral
  | function _ => False
  | value json => ∀ members, json ≠ .obj members

theorem Mapping.isLiteral_ofJson (json : Json) : (ofJson json).IsLiteral := by
  cases json with
  | obj members =>
      intro e he
      obtain ⟨m, -, rfl⟩ := List.mem_map.mp he
      trivial
  | _ => exact fun _ h => nomatch h

/-- The assignments in an action are literal, in its branches and parts as well. -/
inductive Action.IsLiteral : Action → Prop
  | named (name : String) : IsLiteral (.named name)
  | effect (e : Effect) : IsLiteral (.effect e)
  | assign {assignment} : assignment.IsLiteral → IsLiteral (.assign assignment)
  | send (message : Send) : IsLiteral (.send message)
  | choose {branches} : (∀ b ∈ branches, ∀ a ∈ b.actions, IsLiteral a) → IsLiteral (.choose branches)
  | pure (source : Resolver Action) : IsLiteral (.pure source)
  | composed {parts} : (∀ a ∈ parts, IsLiteral a) → IsLiteral (.composed parts)

/-- The actions of a transition are literal. -/
def Transition.IsLiteral (t : Transition) : Prop := ∀ as ∈ t.actions, ∀ a ∈ as, a.IsLiteral

/-- The data and the transitions of a service are literal. -/
structure Invocation.IsLiteral (i : Invocation) : Prop where
  data : ∀ m ∈ i.data, m.IsLiteral
  onDone : ∀ ts ∈ i.onDone, ∀ t ∈ ts, t.IsLiteral
  onError : ∀ ts ∈ i.onError, ∀ t ∈ ts, t.IsLiteral

/-- The node's own data are literal; nested states are not looked at. -/
structure StateNode.IsLiteral (n : StateNode) : Prop where
  on : ∀ table ∈ n.on, ∀ e ∈ table.entries, ∀ t ∈ e.2, t.IsLiteral
  entry : ∀ as ∈ n.entry, ∀ a ∈ as, a.IsLiteral
  exit : ∀ as ∈ n.exit, ∀ a ∈ as, a.IsLiteral
  invoke : ∀ i ∈ n.invoke, i.IsLiteral
  onDone : ∀ ts ∈ n.onDone, ∀ t ∈ ts, t.IsLiteral
  onError : ∀ ts ∈ n.onError, ∀ t ∈ ts, t.IsLiteral
  after : ∀ table ∈ n.after, ∀ e ∈ table.entries, ∀ t ∈ e.2, t.IsLiteral
  always : ∀ ts ∈ n.always, ∀ t ∈ ts, t.IsLiteral
  data : ∀ m ∈ n.data, m.IsLiteral

/-! ## Optional members -/

namespace Json

/-- The members of an object, given every key that it can have. -/
def setMembers (fields : List (String × Option Json)) : List (String × Json) :=
  fields.flatMap fun f => optional f.1 f.2

theorem mem_keys_of_mem_setMembers {fields : List (String × Option Json)} {key : String}
    (h : key ∈ (setMembers fields).map (·.1)) : key ∈ fields.map (·.1) := by
  obtain ⟨m, hm, rfl⟩ := List.mem_map.mp h
  obtain ⟨f, hf, hm⟩ := List.mem_flatMap.mp hm
  obtain ⟨v, -, rfl⟩ := Option.map_eq_some_iff.mp (Option.mem_toList.mp hm)
  exact List.mem_map_of_mem hf

theorem optional_append_inj {key : String} {v v' : Option Json} {ms ms' : List (String × Json)}
    (hms : key ∉ ms.map (·.1)) (hms' : key ∉ ms'.map (·.1))
    (h : optional key v ++ ms = optional key v' ++ ms') : v = v' ∧ ms = ms' := by
  match v, v' with
  | none, none => exact ⟨rfl, h⟩
  | none, some _ =>
      rw [show ms = _ from h] at hms
      exact absurd List.mem_cons_self hms
  | some _, none =>
      rw [show ms' = _ from h.symm] at hms'
      exact absurd List.mem_cons_self hms'
  | some j, some j' =>
      obtain ⟨hj, hrest⟩ := List.cons.inj h
      exact ⟨congrArg some (Prod.mk.inj hj).2, hrest⟩

/-- An object shows which of its keys are set, and to what. -/
theorem setMembers_inj {fields fields' : List (String × Option Json)}
    (h : object (setMembers fields) = object (setMembers fields'))
    (hkeys : fields.map (·.1) = fields'.map (·.1)) (hnodup : (fields.map (·.1)).Nodup) :
    fields = fields' := by
  replace h : setMembers fields = setMembers fields' := Table.mk.inj (obj.inj h)
  induction fields generalizing fields' with
  | nil => exact (List.map_eq_nil_iff.mp hkeys.symm).symm
  | cons f fields ih =>
      cases fields' with
      | nil => cases hkeys
      | cons f' fields' =>
          obtain ⟨key, v⟩ := f
          obtain ⟨key', v'⟩ := f'
          simp only [List.map_cons, List.cons.injEq, List.nodup_cons] at hkeys hnodup
          obtain ⟨rfl, hkeys⟩ := hkeys
          obtain ⟨rfl, hrest⟩ := optional_append_inj (mt mem_keys_of_mem_setMembers hnodup.1)
            (mt mem_keys_of_mem_setMembers (hkeys ▸ hnodup.1)) h
          rw [ih hkeys hnodup.2 hrest]

end Json

/-! ## What the wire form determines -/

section

variable {α β γ δ : Type} {P : α → Prop} {f : α → β} {g : α → γ}

/-- Of values with `P`, what `f` gives determines what `g` gives. -/
def Determines (P : α → Prop) (f : α → β) (g : α → γ) : Prop :=
  ∀ ⦃x y⦄, P x → P y → f x = f y → g x = g y

theorem Determines.comp {k : β → δ} (h : Determines P f g) (hk : Function.Injective k) :
    Determines P (fun x => k (f x)) g :=
  fun _ _ hx hy he => h hx hy (hk he)

theorem Determines.option (h : Determines P f g) :
    Determines (fun o => ∀ x ∈ o, P x) (Option.map f) (Option.map g) := by
  intro x y hx hy he
  match x, y with
  | none, none => rfl
  | none, some _ | some _, none => cases he
  | some x, some y => exact congrArg some (h (hx x rfl) (hy y rfl) (Option.some.inj he))

theorem Determines.option_id (h : Determines P f id) :
    Determines (fun o => ∀ x ∈ o, P x) (Option.map f) id := by
  intro x y hx hy he
  simpa using h.option hx hy he

theorem Determines.list (h : Determines P f g) :
    Determines (fun xs => ∀ x ∈ xs, P x) (List.map f) (List.map g) := by
  intro xs ys hxs hys he
  induction xs generalizing ys with
  | nil => rw [List.map_eq_nil_iff.mp he.symm]
  | cons x xs ih =>
      obtain ⟨y, ys, rfl⟩ := List.exists_cons_of_ne_nil (l := ys) (by rintro rfl; cases he)
      obtain ⟨hhead, htail⟩ := List.cons.inj he
      obtain ⟨hx, hxs⟩ := List.forall_mem_cons.mp hxs
      obtain ⟨hy, hys⟩ := List.forall_mem_cons.mp hys
      rw [List.map_cons, List.map_cons, h hx hy hhead, ih hxs hys htail]

theorem Determines.table (h : Determines P f g) :
    Determines (fun t : Table α => ∀ e ∈ t.entries, P e.2) (Table.map f) (Table.map g) := by
  have hentry : Determines (fun e : String × α => P e.2) (fun e => (e.1, f e.2)) fun e => (e.1, g e.2) := by
    intro e e' he he' heq
    obtain ⟨hkey, hvalue⟩ := Prod.mk.inj heq
    exact Prod.ext hkey (h he he' hvalue)
  intro t u ht hu he
  exact congrArg Table.mk (hentry.list ht hu (congrArg Table.entries he))

end

theorem Json.str_injective : Function.Injective Json.str := fun _ _ => Json.str.inj

theorem Json.arr_injective : Function.Injective Json.arr := fun _ _ => Json.arr.inj

theorem Json.obj_injective : Function.Injective Json.obj := fun _ _ => Json.obj.inj

theorem Effect.determines : Determines (fun _ => True) (fun e : Effect => e.label.toJson) byName := by
  rintro ⟨⟨_, _⟩⟩ ⟨⟨_, _⟩⟩ - - h
  cases h
  rfl

theorem Resolver.byName_eq {α : Type} {r s : Resolver α} (h : r.name = s.name) :
    r.byName = s.byName := by
  obtain ⟨⟨_, _⟩, _⟩ := r
  obtain ⟨⟨_, _⟩, _⟩ := s
  cases h
  rfl

theorem Guard.determines : Determines (fun _ => True) Guard.toJson Guard.byName := by
  rintro (_ | ⟨⟨_, _⟩, _⟩) (_ | ⟨⟨_, _⟩, _⟩) - - h <;> cases h <;> rfl

theorem Delay.toJson_injective : Function.Injective Delay.toJson := by
  rintro (_ | _) (_ | _) h <;> cases h <;> rfl

theorem Property.determines : Determines Property.IsLiteral Property.toJson id := by
  rintro (_ | _) (_ | _) hp hq h
  · exact congrArg Property.value h
  · cases hq
  · cases hp
  · cases hp

theorem Mapping.determines : Determines Mapping.IsLiteral Mapping.toJson id := by
  intro m m' hm hm' h
  match m, m' with
  | properties table, properties table' =>
      have htable := Property.determines.table hm hm' (Json.obj.inj h)
      rw [Table.map_id, Table.map_id] at htable
      exact congrArg properties htable
  | value j, value j' => exact congrArg value h
  | properties _, value _ => exact absurd h.symm (hm' _)
  | value _, properties _ => exact absurd h (hm _)
  | function _, _ => cases hm
  | _, function _ => cases hm'

namespace Send

/-- The keys that a message can have on the wire. -/
def fields (s : Send) : List (String × Option Json) :=
  [("type", some (.str "xstate.send")), ("event", some s.event), ("to", s.recipient.map .str),
    ("delay", s.delay.map Delay.toJson), ("id", s.id.map .str)]

theorem toJson_eq (s : Send) : s.toJson = .object (Json.setMembers s.fields) := by
  simp [toJson, fields, Json.setMembers, Json.optional]

theorem nodup_fields (s : Send) : (s.fields.map (·.1)).Nodup := by
  simp [fields]

theorem toJson_injective : Function.Injective toJson := by
  intro s s' h
  rw [toJson_eq, toJson_eq] at h
  have hfields := Json.setMembers_inj h rfl s.nodup_fields
  simp only [fields, List.cons.injEq, Prod.mk.injEq, Option.some.injEq, true_and, and_true] at hfields
  obtain ⟨hevent, hto, hdelay, hid⟩ := hfields
  rw [Send.mk.injEq]
  exact ⟨hevent, Option.map_injective Json.str_injective hto,
    Option.map_injective Delay.toJson_injective hdelay, Option.map_injective Json.str_injective hid⟩

end Send

/-! ## Actions -/

namespace Action

/-- What the wire form of an action shows first. -/
inductive Shape where
  | named
  | effect
  | assign
  | send
  | choose
  | pure
  | composed

/-- The shape of an action. -/
def shape : Action → Shape
  | named _ => .named
  | effect _ => .effect
  | assign _ => .assign
  | send _ => .send
  | choose _ => .choose
  | pure _ => .pure
  | composed _ => .composed

/-- The shape by the kind of value and, of an object, the second key. -/
def shapeOf? : Json → Option Shape
  | .str _ => some .named
  | .arr _ => some .composed
  | .obj ⟨[_]⟩ => some .effect
  | .obj ⟨_ :: (key, _) :: _⟩ =>
    [("assignment", Shape.assign), ("event", .send), ("conds", .choose), ("get", .pure)].lookup key
  | _ => none

theorem shapeOf?_toJson (a : Action) : shapeOf? a.toJson = some a.shape := by
  cases a <;> rfl

theorem shape_eq_of_toJson_eq {a b : Action} (h : a.toJson = b.toJson) : a.shape = b.shape := by
  rw [← Option.some_inj, ← shapeOf?_toJson, h, shapeOf?_toJson]

theorem ofBranch_eq (c : Option Guard) (js : List Json) : Json.ofBranch c js =
    .object (Json.setMembers [("cond", c.map Guard.toJson), ("actions", some (.arr js))]) := by
  simp [Json.ofBranch, Json.setMembers, Json.optional]

theorem ofBranch_inj {c d : Option Guard} {js js' : List Json}
    (h : Json.ofBranch c js = Json.ofBranch d js') :
    c.map Guard.byName = d.map Guard.byName ∧ js = js' := by
  rw [ofBranch_eq, ofBranch_eq] at h
  have hvalues := Json.setMembers_inj h rfl (by simp)
  simp only [List.cons.injEq, Prod.mk.injEq, Option.some.injEq, Json.arr.injEq, true_and,
    and_true] at hvalues
  exact ⟨Guard.determines.option (fun _ _ => trivial) (fun _ _ => trivial) hvalues.1, hvalues.2⟩

mutual
theorem determines (a b : Action) (ha : a.IsLiteral) (hb : b.IsLiteral) (h : a.toJson = b.toJson) :
    a.byName = b.byName := by
  -- Two actions of different shapes are excluded in each case.
  have hshape := shape_eq_of_toJson_eq h
  cases a with
  | named name =>
      cases b <;> cases hshape
      exact congrArg named (Json.str.inj h)
  | effect e =>
      cases b <;> cases hshape
      exact congrArg effect (Effect.determines trivial trivial h)
  | assign m =>
      cases b <;> cases hshape
      simp only [toJson, Json.object, Json.obj.injEq, Table.mk.injEq, List.cons.injEq,
        Prod.mk.injEq, true_and, and_true] at h
      match ha, hb with
      | .assign hm, .assign hm' => exact congrArg assign (Mapping.determines hm hm' h)
  | send s =>
      cases b <;> cases hshape
      exact congrArg send (Send.toJson_injective h)
  | choose branches =>
      cases b <;> cases hshape
      simp only [toJson, Json.object, Json.obj.injEq, Table.mk.injEq, List.cons.injEq,
        Prod.mk.injEq, Json.arr.injEq, true_and, and_true] at h
      match ha, hb with
      | .choose hbs, .choose hbs' =>
          exact congrArg choose (determines_branches branches _ hbs hbs' h)
  | pure r =>
      cases b <;> cases hshape
      simp only [toJson, Json.object, Json.obj.injEq, Table.mk.injEq, List.cons.injEq,
        Prod.mk.injEq, Json.str.injEq, true_and, and_true] at h
      exact congrArg pure (Resolver.byName_eq h)
  | composed parts =>
      cases b <;> cases hshape
      match ha, hb with
      | .composed hparts, .composed hparts' =>
          exact congrArg composed (determines_list parts _ hparts hparts' (Json.arr.inj h))

theorem determines_list (as bs : List Action) (has : ∀ a ∈ as, a.IsLiteral)
    (hbs : ∀ b ∈ bs, b.IsLiteral) (h : toJsonList as = toJsonList bs) :
    byNameList as = byNameList bs := by
  match as, bs with
  | [], [] => rfl
  | [], _ :: _ | _ :: _, [] => cases h
  | a :: as, b :: bs =>
      obtain ⟨ha, has⟩ := List.forall_mem_cons.mp has
      obtain ⟨hb, hbs⟩ := List.forall_mem_cons.mp hbs
      obtain ⟨hhead, htail⟩ := List.cons.inj h
      rw [byNameList, byNameList, determines a b ha hb hhead, determines_list as bs has hbs htail]

theorem determines_branches (as bs : List (Branch Action))
    (has : ∀ b ∈ as, ∀ a ∈ b.actions, a.IsLiteral) (hbs : ∀ b ∈ bs, ∀ a ∈ b.actions, a.IsLiteral)
    (h : toJsonBranches as = toJsonBranches bs) : byNameBranches as = byNameBranches bs := by
  match as, bs with
  | [], [] => rfl
  | [], _ :: _ | _ :: _, [] => cases h
  | ⟨c, as⟩ :: rest, ⟨d, bs⟩ :: rest' =>
      obtain ⟨ha, has⟩ := List.forall_mem_cons.mp has
      obtain ⟨hb, hbs⟩ := List.forall_mem_cons.mp hbs
      obtain ⟨hhead, htail⟩ := List.cons.inj h
      obtain ⟨hcond, hactions⟩ := ofBranch_inj hhead
      rw [byNameBranches, byNameBranches, hcond, determines_list as bs ha hb hactions,
        determines_branches rest rest' has hbs htail]
end

end Action

/-! ## Transitions -/

theorem Json.ofActions_determines :
    Determines (fun as : List Action => ∀ a ∈ as, a.IsLiteral) Json.ofActions (List.map Action.byName) :=
  (Determines.list fun a b ha hb h => Action.determines a b ha hb h).comp Json.arr_injective

namespace Transition

/-- The keys that a transition can have on the wire. -/
def fields (t : Transition) : List (String × Option Json) :=
  [("target", t.target.map .str), ("actions", t.actions.map Json.ofActions),
    ("cond", t.cond.map Guard.toJson)]

theorem toJson_eq (t : Transition) : t.toJson = .object (Json.setMembers t.fields) := by
  simp [toJson, fields, Json.setMembers]

theorem nodup_fields (t : Transition) : (t.fields.map (·.1)).Nodup := by
  simp [fields]

theorem determines : Determines IsLiteral toJson byName := by
  intro t u ht hu h
  rw [toJson_eq, toJson_eq] at h
  have hfields := Json.setMembers_inj h rfl t.nodup_fields
  simp only [fields, List.cons.injEq, Prod.mk.injEq, true_and, and_true] at hfields
  obtain ⟨htarget, hactions, hcond⟩ := hfields
  simp only [byName, Transition.mk.injEq]
  exact ⟨Option.map_injective Json.str_injective htarget,
    Json.ofActions_determines.option ht hu hactions,
    Guard.determines.option (fun _ _ => trivial) (fun _ _ => trivial) hcond⟩

end Transition

theorem Json.ofTransitions_determines :
    Determines (fun ts : List Transition => ∀ t ∈ ts, t.IsLiteral) Json.ofTransitions
      (List.map Transition.byName) :=
  Transition.determines.list.comp Json.arr_injective

theorem Json.ofEventTable_determines :
    Determines (fun table : EventTable => ∀ e ∈ table.entries, ∀ t ∈ e.2, t.IsLiteral)
      Json.ofEventTable EventTable.byName :=
  Json.ofTransitions_determines.table.comp Json.obj_injective

/-! ## Nodes -/

theorem Activity.determines : Determines (fun _ => True) Activity.toJson Activity.byName := by
  rintro (_ | ⟨⟨_, _⟩⟩) (_ | ⟨⟨_, _⟩⟩) - - h <;> cases h <;> rfl

theorem Json.ofActivities_determines :
    Determines (fun items : List Activity => ∀ a ∈ items, True) Json.ofActivities
      (List.map Activity.byName) :=
  Activity.determines.list.comp Json.arr_injective

theorem HistoryMode.toJson_injective : Function.Injective HistoryMode.toJson := by
  rintro (_ | _ | _) (_ | _ | _) h <;> first | rfl | simp [toJson] at h

theorem StateKind.name_injective : Function.Injective StateKind.name := by
  rintro (_ | _ | _ | _ | _) (_ | _ | _ | _ | _) h <;> first | rfl | simp [name] at h

namespace Invocation

/-- The keys that a service can have on the wire. -/
def fields (i : Invocation) : List (String × Option Json) :=
  [("src", some (.str i.src)), ("id", i.id.map .str),
    ("data", i.data.map Mapping.toJson), ("onDone", i.onDone.map Json.ofTransitions),
    ("onError", i.onError.map Json.ofTransitions),
    ("autoForward", i.autoForward.map .bool)]

theorem toJson_eq (i : Invocation) : i.toJson = .object (Json.setMembers i.fields) := by
  simp [toJson, fields, Json.setMembers, Json.optional]

theorem nodup_fields (i : Invocation) : (i.fields.map (·.1)).Nodup := by
  simp [fields]

theorem determines : Determines IsLiteral toJson byName := by
  intro i j hi hj h
  rw [toJson_eq, toJson_eq] at h
  have hfields := Json.setMembers_inj h rfl i.nodup_fields
  simp only [fields, List.cons.injEq, Prod.mk.injEq, Option.some.injEq, Json.str.injEq, true_and,
    and_true] at hfields
  obtain ⟨hsrc, hid, hdata, hdone, herror, hforward⟩ := hfields
  simp only [byName, Invocation.mk.injEq]
  exact ⟨hsrc, Option.map_injective Json.str_injective hid,
    Mapping.determines.option_id hi.data hj.data hdata,
    Json.ofTransitions_determines.option hi.onDone hj.onDone hdone,
    Json.ofTransitions_determines.option hi.onError hj.onError herror,
    Option.map_injective (fun _ _ => Json.bool.inj) hforward⟩

end Invocation

namespace StateNode

/-- The keys that a node can have on the wire. -/
def fields (n : StateNode) (states : Option Json) : List (String × Option Json) :=
  [("id", n.id.map .str), ("initial", n.initial.map .str),
    ("type", n.kind.map fun k => .str k.name), ("context", n.context),
    ("history", n.history.map HistoryMode.toJson), ("target", n.target.map .str),
    ("states", states), ("on", n.on.map Json.ofEventTable),
    ("entry", n.entry.map Json.ofActions), ("exit", n.exit.map Json.ofActions),
    ("invoke", n.invoke.map Invocation.toJson),
    ("onDone", n.onDone.map Json.ofTransitions),
    ("onError", n.onError.map Json.ofTransitions),
    ("after", n.after.map Json.ofEventTable),
    ("always", n.always.map Json.ofTransitions),
    ("activities", n.activities.map Json.ofActivities), ("meta", n.metadata),
    ("data", n.data.map Mapping.toJson), ("delimiter", n.delimiter.map .str)]

theorem members_eq (n : StateNode) (states : Option Json) :
    n.members states = Json.setMembers (n.fields states) := by
  unfold members
  simp [fields, Json.setMembers]

theorem nodup_fields (n : StateNode) (states : Option Json) :
    ((n.fields states).map (·.1)).Nodup := by
  simp [fields]

/-- Save for the nested states, the facets by name can be told from the members. -/
theorem facetsByName_eq {a b : StateNode} {x y : Option Json} (ha : a.IsLiteral) (hb : b.IsLiteral)
    (h : Json.object (a.members x) = Json.object (b.members y)) :
    x = y ∧ ∀ states, a.facetsByName states = b.facetsByName states := by
  rw [members_eq, members_eq] at h
  have hfields := Json.setMembers_inj h rfl (nodup_fields a x)
  simp only [fields, List.cons.injEq, Prod.mk.injEq, true_and, and_true] at hfields
  obtain ⟨hid, hinitial, hkind, hcontext, hhistory, htarget, hstates, hon, hentry, hexit, hinvoke,
    hdone, herror, hafter, halways, hactivities, hmeta, hdata, hdelimiter⟩ := hfields
  refine ⟨hstates, fun states => ?_⟩
  simp only [facetsByName, StateNode.mk.injEq]
  exact ⟨Option.map_injective Json.str_injective hid, Option.map_injective Json.str_injective hinitial,
    Option.map_injective (Json.str_injective.comp StateKind.name_injective) hkind, hcontext,
    Option.map_injective HistoryMode.toJson_injective hhistory,
    Option.map_injective Json.str_injective htarget, trivial,
    Json.ofEventTable_determines.option ha.on hb.on hon,
    Json.ofActions_determines.option ha.entry hb.entry hentry,
    Json.ofActions_determines.option ha.exit hb.exit hexit,
    Invocation.determines.option ha.invoke hb.invoke hinvoke,
    Json.ofTransitions_determines.option ha.onDone hb.onDone hdone,
    Json.ofTransitions_determines.option ha.onError hb.onError herror,
    Json.ofEventTable_determines.option ha.after hb.after hafter,
    Json.ofTransitions_determines.option ha.always hb.always halways,
    Json.ofActivities_determines.option (fun _ _ _ _ => trivial) (fun _ _ _ _ => trivial) hactivities,
    hmeta, Mapping.determines.option_id ha.data hb.data hdata,
    Option.map_injective Json.str_injective hdelimiter⟩

/-- The data of the node and of all states below it are literal. -/
def AllLiteral (n : StateNode) : Prop := ∀ m, Relation.ReflTransGen HasChild n m → m.IsLiteral

theorem AllLiteral.intro {n : StateNode} (h : n.IsLiteral)
    (hchildren : ∀ c, n.HasChild c → c.AllLiteral) : n.AllLiteral := by
  intro m hm
  rcases hm.cases_head with rfl | ⟨c, hc, hm⟩
  · exact h
  · exact hchildren c hc m hm

theorem AllLiteral.child {n c : StateNode} (h : n.AllLiteral) (hc : n.HasChild c) : c.AllLiteral :=
  fun m hm => h m (.head hc hm)

/-- The induction is on a bound of the sizes of both nodes, as their states are compared in
pairs. -/
theorem determines_of_sizeOf_lt (k : Nat) :
    Determines (fun n : StateNode => n.AllLiteral ∧ sizeOf n < k) toJson byName := by
  induction k with
  | zero => exact fun _ _ h => absurd h.2 (Nat.not_lt_zero _)
  | succ k ih =>
      intro a b ha hb h
      have hchildren {n : StateNode} (hn : n.AllLiteral ∧ sizeOf n < k + 1) :
          ∀ t ∈ n.states, ∀ e ∈ t.entries, e.2.AllLiteral ∧ sizeOf e.2 < k := by
        intro t ht e he
        have hchild : n.HasChild e.2 := ⟨t, ht, e.1, he⟩
        exact ⟨hn.1.child hchild, by have := hchild.sizeOf_lt; omega⟩
      rw [toJson_eq, toJson_eq] at h
      obtain ⟨hstates, hfacets⟩ := facetsByName_eq (ha.1 a .refl) (hb.1 b .refl) h
      rw [byName_eq, byName_eq, hfacets,
        (ih.table.comp Json.obj_injective).option (hchildren ha) (hchildren hb) hstates]

theorem determines : Determines AllLiteral toJson byName := by
  intro a b ha hb
  exact determines_of_sizeOf_lt (max (sizeOf a) (sizeOf b) + 1) ⟨ha, by omega⟩ ⟨hb, by omega⟩

end StateNode

/-- The text of a node tells the node, its inline functions by name. -/
theorem render_toJson_eq_iff {a b : StateNode} (ha : a.AllLiteral) (hb : b.AllLiteral) :
    a.toJson.render = b.toJson.render ↔ a.byName = b.byName := by
  constructor
  · intro h
    exact StateNode.determines ha hb (Json.render_injective h)
  · intro h
    rw [← a.toJson_byName, h, b.toJson_byName]

/-- Two nodes that differ in how often their functions were made. -/
theorem render_toJson_eq_iff_remade :
    let node (identity : Nat) : StateNode :=
      { initial := some "busy"
        states := some ⟨[("busy", {
          entry := some [.effect ⟨⟨"log", identity⟩⟩]
          always := some [{ cond := some (.predicate ⟨⟨"ready", identity⟩, fun _ _ => true⟩) }]
          data := some (.ofJson (.obj ⟨[("tries", .null)]⟩)) })]⟩ }
    (node 1).AllLiteral ∧ (node 2).AllLiteral ∧
      (node 1).toJson.render = (node 2).toJson.render ∧ (node 1).byName = (node 2).byName := by
  intro node
  have hliteral (identity : Nat) : (node identity).AllLiteral := by
    apply StateNode.AllLiteral.intro
    · constructor <;> simp [node]
    · rintro c ⟨children, ⟨⟩, name, hc⟩
      obtain ⟨⟨⟩⟩ := List.mem_singleton.mp hc
      apply StateNode.AllLiteral.intro
      · constructor <;>
          simp [Mapping.isLiteral_ofJson, Transition.IsLiteral, Action.IsLiteral.effect]
      · rintro c ⟨children, ⟨⟩, -⟩
  have htext : (node 1).toJson.render = (node 2).toJson.render := rfl
  exact ⟨hliteral 1, hliteral 2, htext, (render_toJson_eq_iff (hliteral 1) (hliteral 2)).mp htext⟩

end Statechart
