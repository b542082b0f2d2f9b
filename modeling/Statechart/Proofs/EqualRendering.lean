import Statechart.Proofs.Equality
import Statechart.Proofs.Rendering

/-!
# Rendering equal values

Equal nodes are rendered as equal JSON values (`StateNode.beq_toJson`, `Invocation.beq_toJson`): the
order of keys shows in the order of members, and nowhere else.
-/

namespace Statechart

/-! ## Lists and objects -/

namespace Json

theorem beq_arr_map {α : Type} [BEq α] {f : α → Json} (hf : ∀ a b, a == b → f a == f b)
    {as bs : List α} (h : as == bs) : arr (as.map f) == arr (bs.map f) := by
  rw [beq_arr, beq_iff_forall₂]
  exact List.rel_map (fun a b hab => hf a b hab) (beq_iff_forall₂.mp h)

theorem beq_object {es es' : List (String × Json)}
    (h : List.Forall₂ (fun e e' => e.1 = e'.1 ∧ e.2 == e'.2) es es') (hkeys : (es'.map (·.1)).Nodup) :
    object es == object es' := by
  rw [object, object, beq_obj, Table.beq_iff_matches]
  exact Table.matches_of_forall₂ h hkeys

/-- The same keys in the same order, with equal values or without any. -/
def FieldsMatch (fields fields' : List (String × Option Json)) : Prop :=
  List.Forall₂ (fun f f' => f.1 = f'.1 ∧ Option.Rel (· == ·) f.2 f'.2) fields fields'

theorem FieldsMatch.setMembers {fields fields' : List (String × Option Json)}
    (h : FieldsMatch fields fields') :
    List.Forall₂ (fun e e' => e.1 = e'.1 ∧ e.2 == e'.2) (setMembers fields) (setMembers fields') :=
  List.rel_flatMap h fun _ _ hf => forall₂_toList (rel_map hf.2 fun _ _ hv => ⟨hf.1, hv⟩)

theorem beq_object_setMembers {fields fields' : List (String × Option Json)}
    (h : FieldsMatch fields fields') (hkeys : (fields'.map (·.1)).Nodup) :
    object (Json.setMembers fields) == object (Json.setMembers fields') :=
  beq_object h.setMembers (nodup_setMembers hkeys)

theorem beq_str {a b : String} (h : a = b) : str a == str b :=
  show (a == b) = true from beq_iff_eq.mpr h

/-- Objects that say what they are, and have one more member. -/
theorem beq_tagged (tag : String) {key : String} (hkey : "type" ≠ key) {j j' : Json} (h : j == j') :
    object [("type", .str tag), (key, j)] == object [("type", .str tag), (key, j')] :=
  beq_object (.cons ⟨rfl, beq_str rfl⟩ (.cons ⟨rfl, h⟩ .nil)) (by simpa using hkey)

end Json

/-! ## Functions and mappings -/

theorem Label.beq_toJson {l l' : Label} (h : l = l') : l.toJson == l'.toJson :=
  Json.beq_object (.cons ⟨rfl, Json.beq_str (congrArg Label.name h)⟩ .nil) (List.nodup_singleton _)

theorem Property.beq_toJson (p q : Property) (h : p == q) : p.toJson == q.toJson := by
  match p, q, h with
  | value _, value _, h => exact h
  | expr _, expr _, h => exact Label.beq_toJson (beq_iff_eq.mp h)
  | value _, expr _, h | expr _, value _, h => cases h

theorem Json.beq_obj_map {α : Type} [BEq α] {f : α → Json} (hf : ∀ a b, a == b → f a == f b)
    {t u : Table α} (h : t == u) : obj (t.map f) == obj (u.map f) := by
  rw [beq_obj, Table.beq_iff_matches]
  exact (Table.beq_iff_matches.mp h).map fun e _ v hev => hf e.2 v hev

theorem Mapping.beq_toJson (m n : Mapping) (h : m == n) : m.toJson == n.toJson := by
  match m, n, h with
  | properties _, properties _, h => exact Json.beq_obj_map Property.beq_toJson h
  | function _, function _, h => exact Label.beq_toJson (beq_iff_eq.mp h)
  | value _, value _, h => exact h
  | properties _, function _, h | properties _, value _, h => cases h
  | function _, properties _, h | function _, value _, h => cases h
  | value _, properties _, h | value _, function _, h => cases h

theorem Guard.beq_toJson (g g' : Guard) (h : g == g') : g.toJson == g'.toJson := by
  match g, g', h with
  | named _, named _, h => exact h
  | predicate p, predicate p', h =>
      have hlabel : p.label = p'.label := beq_iff_eq.mp h
      exact Json.beq_tagged _ (by decide) (Json.beq_str (congrArg Label.name hlabel))
  | named _, predicate _, h | predicate _, named _, h => cases h

theorem Delay.beq_toJson (d : Delay) : d.toJson == d.toJson := by
  cases d with
  | millis n => exact beq_self_eq_true (n : Int)
  | named name => exact Json.beq_str rfl

/-! ## Actions -/

theorem rel_str {x y : Option String} (h : x == y) :
    Option.Rel (· == ·) (x.map Json.str) (y.map Json.str) :=
  rel_map_of_beq (f := Json.str) (fun _ _ h => h) h

theorem Send.beq_toJson (s s' : Send) (h : s == s') : s.toJson == s'.toJson := by
  obtain ⟨hevent, hrecipient, hdelay, hid⟩ := beq_iff.mp h
  have hdelay' : Option.Rel (· == ·) (s.delay.map Delay.toJson) (s'.delay.map Delay.toJson) :=
    rel_map_of_beq (fun d _ h => beq_iff_eq.mp h ▸ d.beq_toJson) hdelay
  rw [toJson_eq, toJson_eq]
  refine Json.beq_object_setMembers ?_ s'.nodup_fields
  exact .cons ⟨rfl, .some rfl⟩ (.cons ⟨rfl, .some hevent⟩ (.cons ⟨rfl, rel_str hrecipient⟩
    (.cons ⟨rfl, hdelay'⟩ (.cons ⟨rfl, rel_str hid⟩ .nil))))

namespace Action

mutual
theorem beq_toJson (a b : Action) (h : a == b) : a.toJson == b.toJson := by
  cases a with
  | named name =>
      cases b with
      | named name' => exact h
      | _ => cases h
  | effect e =>
      cases b with
      | effect e' =>
          have heffect : e = e' := beq_iff_eq.mp h
          exact Label.beq_toJson (congrArg Effect.label heffect)
      | _ => cases h
  | assign m =>
      cases b with
      | assign m' => exact Json.beq_tagged _ (by decide) (m.beq_toJson m' h)
      | _ => cases h
  | send s =>
      cases b with
      | send s' => exact s.beq_toJson s' h
      | _ => cases h
  | choose branches =>
      cases b with
      | choose branches' =>
          rw [beq_choose] at h
          have hconds := (Json.beq_arr _ _).trans (beq_toJsonBranches branches branches' h)
          exact Json.beq_tagged _ (by decide) hconds
      | _ => cases h
  | pure r =>
      cases b with
      | pure r' =>
          have hlabel : r.label = r'.label := beq_iff_eq.mp h
          exact Json.beq_tagged _ (by decide) (Json.beq_str (congrArg Label.name hlabel))
      | _ => cases h
  | composed as =>
      cases b with
      | composed bs =>
          rw [beq_composed] at h
          exact (Json.beq_arr _ _).trans (beq_toJsonList as bs h)
      | _ => cases h

theorem beq_toJsonList (as bs : List Action) (h : as == bs) : toJsonList as == toJsonList bs := by
  match as, bs, h with
  | [], [], _ => rfl
  | a :: as, b :: bs, h =>
      rw [List.cons_beq_cons, Bool.and_eq_true] at h
      rw [toJsonList, toJsonList, List.cons_beq_cons, beq_toJson a b h.1, beq_toJsonList as bs h.2]
      rfl

theorem beq_toJsonBranches (bs bs' : List (Branch Action)) (h : bs == bs') :
    toJsonBranches bs == toJsonBranches bs' := by
  match bs, bs', h with
  | [], [], _ => rfl
  | ⟨c, as⟩ :: rest, ⟨c', as'⟩ :: rest', h =>
      rw [List.cons_beq_cons, Bool.and_eq_true] at h
      obtain ⟨hbranch, hrest⟩ := h
      obtain ⟨hc, has⟩ : c == c' ∧ as == as' := Bool.and_eq_true_iff.mp hbranch
      have hcond := rel_map_of_beq Guard.beq_toJson hc
      have hactions := (Json.beq_arr _ _).trans (beq_toJsonList as as' has)
      have hfirst : Json.ofBranch c (toJsonList as) == Json.ofBranch c' (toJsonList as') := by
        rw [ofBranch_eq, ofBranch_eq]
        exact Json.beq_object_setMembers (.cons ⟨rfl, hcond⟩ (.cons ⟨rfl, .some hactions⟩ .nil))
          (by simp)
      rw [toJsonBranches, toJsonBranches, List.cons_beq_cons, hfirst,
        beq_toJsonBranches rest rest' hrest]
      rfl
end

end Action

theorem Json.beq_ofActions (as bs : List Action) (h : as == bs) : ofActions as == ofActions bs :=
  beq_arr_map Action.beq_toJson h

/-! ## Transitions -/

theorem Transition.beq_toJson (t u : Transition) (h : t == u) : t.toJson == u.toJson := by
  obtain ⟨htarget, hactions, hcond⟩ := beq_iff.mp h
  rw [toJson_eq, toJson_eq]
  refine Json.beq_object_setMembers ?_ u.nodup_fields
  exact .cons ⟨rfl, rel_str htarget⟩ (.cons ⟨rfl, rel_map_of_beq Json.beq_ofActions hactions⟩
    (.cons ⟨rfl, rel_map_of_beq Guard.beq_toJson hcond⟩ .nil))

theorem Json.beq_ofTransitions (ts us : List Transition) (h : ts == us) :
    ofTransitions ts == ofTransitions us :=
  beq_arr_map Transition.beq_toJson h

theorem Json.beq_ofEventTable (t u : EventTable) (h : t == u) : ofEventTable t == ofEventTable u :=
  beq_obj_map beq_ofTransitions h

/-! ## Nodes -/

theorem Activity.beq_toJson (a : Activity) : a.toJson == a.toJson := by
  cases a with
  | named name => exact Json.beq_str rfl
  | effect e =>
      exact Json.beq_object
        (.cons ⟨rfl, Json.beq_str rfl⟩ (.cons ⟨rfl, Json.beq_str rfl⟩ .nil)) (by simp)

theorem Json.beq_ofActivities (as bs : List Activity) (h : as == bs) :
    ofActivities as == ofActivities bs :=
  beq_arr_map (fun a _ h => beq_iff_eq.mp h ▸ a.beq_toJson) h

theorem HistoryMode.beq_toJson (m : HistoryMode) : m.toJson == m.toJson := by
  cases m with
  | disabled => rfl
  | shallow | deep => exact Json.beq_str rfl

theorem Invocation.beq_toJson (i j : Invocation) (h : i == j) : i.toJson == j.toJson := by
  obtain ⟨hsrc, hid, hdata, honDone, honError, hautoForward⟩ := beq_iff.mp h
  rw [toJson_eq, toJson_eq]
  refine Json.beq_object_setMembers ?_ j.nodup_fields
  exact .cons ⟨rfl, .some hsrc⟩ (.cons ⟨rfl, rel_str hid⟩
    (.cons ⟨rfl, rel_map_of_beq Mapping.beq_toJson hdata⟩
    (.cons ⟨rfl, rel_map_of_beq Json.beq_ofTransitions honDone⟩
    (.cons ⟨rfl, rel_map_of_beq Json.beq_ofTransitions honError⟩
    (.cons ⟨rfl, rel_map_of_beq (f := Json.bool) (fun _ _ h => h) hautoForward⟩ .nil)))))

/-- Equal fragments give equal values, provided that the nodes nested in them do. -/
theorem Fragment.rel_payload? {f g : Fragment} (h : f == g)
    (hstates : ∀ children, f = .states children → ∀ e ∈ children.entries, ∀ m, e.2 == m →
      e.2.toJson == m.toJson) : Option.Rel (· == ·) f.payload? g.payload? := by
  change beq f g = true at h
  -- The cases are the kinds of fragments in their order, and at last two of different kinds.
  fun_cases beq f g with
  | case1 | case2 | case4 | case6 | case18 | case20 | case21 => exact .some h
  | case3 k k' => exact .some (Json.beq_str (congrArg StateKind.name (beq_iff_eq.mp h)))
  | case5 m m' => exact beq_iff_eq.mp h ▸ .some m.beq_toJson
  | case7 t u =>
      refine .some ?_
      rw [Json.beq_obj, Table.beq_iff_matches]
      exact (Table.beq_iff_matches.mp h).map (hstates t rfl)
  | case8 => exact .none
  | case9 t u | case16 t u => exact .some (Json.beq_ofEventTable t u h)
  | case10 ts us | case11 ts us | case15 ts us => exact .some (Json.beq_ofTransitions ts us h)
  | case12 as bs | case13 as bs => exact .some (Json.beq_ofActions as bs h)
  | case14 i j => exact .some (i.beq_toJson j h)
  | case17 as bs => exact .some (Json.beq_ofActivities as bs h)
  | case19 m n => exact .some (m.beq_toJson n h)
  | case22 a b => exact .some (a.beq_toJson b h)
  | case23 c c' => exact .some (c.beq_toJson c' h)
  | case24 t u => exact .some (t.beq_toJson u h)
  | case25 => simp [beq] at h

theorem StateNode.states_of_facet? {n : StateNode} {f : Facet} {children : Table StateNode}
    (h : Faceted.facet? n f = some (.states children)) : n.states = some children := by
  obtain rfl : Facet.states = f := Faceted.facet_of_facet? h
  obtain ⟨_, hstates, heq⟩ := Option.map_eq_some_iff.mp h
  exact Fragment.states.inj heq ▸ hstates

/-- Equal nodes are rendered as equal objects. -/
theorem StateNode.beq_toJson (n m : StateNode) (h : n == m) : n.toJson == m.toJson := by
  have hfields : Json.FieldsMatch (facetFields n) (facetFields m) := by
    rw [Json.FieldsMatch, facetFields, facetFields, List.forall₂_map_left_iff,
      List.forall₂_map_right_iff, List.forall₂_same]
    refine fun f _ => ⟨rfl, rel_bind ((beq_iff_alike.mp h).facet f) fun p hp q hpq => ?_⟩
    refine Fragment.rel_payload? hpq fun children hp' e he m' hm' => ?_
    have hchild : n.HasChild e.2 := ⟨children, states_of_facet? (hp' ▸ hp), e.1, he⟩
    exact beq_toJson e.2 m' hm'
  rw [toJson_eq_facetFields, toJson_eq_facetFields]
  exact Json.beq_object_setMembers hfields m.nodup_facetFields
termination_by sizeOf n
decreasing_by exact hchild.sizeOf_lt

end Statechart
