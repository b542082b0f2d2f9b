import Statechart.Proofs.Effective
import Statechart.Proofs.Facets
import Statechart.Proofs.Matching

/-!
# Equality

What the equality of two values says of their parts. Tables are compared without the order of their
keys, lists with the order of their elements, and inline functions by their labels. Nodes are equal
if they have equal facets (`StateNode.beq_iff_alike`, `Invocation.beq_iff_alike`).
-/

namespace Statechart

/-! ## Options and lists -/

section

variable {α : Type} [BEq α]

theorem beq_iff_rel {x y : Option α} : x == y ↔ Option.Rel (· == ·) x y := by
  cases x <;> cases y <;> simp

theorem beq_iff_forall₂ {as bs : List α} : as == bs ↔ List.Forall₂ (· == ·) as bs := by
  induction as generalizing bs with
  | nil => cases bs <;> simp
  | cons a as ih => cases bs <;> simp [ih]

theorem rel_map_of_beq {β : Type} [BEq β] {f : α → β} (hf : ∀ a b, a == b → f a == f b)
    {x y : Option α} (h : x == y) : Option.Rel (· == ·) (x.map f) (y.map f) :=
  rel_map (beq_iff_rel.mp h) hf

/-- A comparison of lists, element by element. -/
theorem eq_beq_of_cons {f : List α → List α → Bool} (hnil : f [] [] = true)
    (hleft : ∀ b bs, f [] (b :: bs) = false) (hright : ∀ a as, f (a :: as) [] = false)
    (hcons : ∀ a as b bs, f (a :: as) (b :: bs) = (a == b && f as bs)) (as bs : List α) :
    f as bs = (as == bs) := by
  induction as generalizing bs with
  | nil =>
      cases bs with
      | nil => exact hnil
      | cons b bs => exact hleft b bs
  | cons a as ih =>
      cases bs with
      | nil => exact hright a as
      | cons b bs => rw [hcons, ih, List.cons_beq_cons]

/-- A comparison of entries with those that a table has under their keys. -/
theorem eq_all_of_cons {f : List (String × α) → Table α → Bool} (hnil : ∀ t, f [] t = true)
    (hcons : ∀ e es t, f (e :: es) t = ((t.get? e.1).any (e.2 == ·) && f es t))
    (es : List (String × α)) (t : Table α) :
    f es t = es.all fun e => (t.get? e.1).any (e.2 == ·) := by
  induction es with
  | nil => exact hnil t
  | cons e es ih => rw [hcons, ih, List.all_cons]

end

/-! ## JSON -/

namespace Json

theorem beq_arr (as bs : List Json) : (arr as == arr bs) = (as == bs) :=
  eq_beq_of_cons (f := beqList) rfl (fun _ _ => rfl) (fun _ _ => rfl) (fun _ _ _ _ => rfl) as bs

theorem beq_obj (t u : Table Json) : (obj t == obj u) = (t == u) := by
  obtain ⟨es⟩ := t
  have hmembers := eq_all_of_cons (f := beqMembers) (fun _ => rfl) (fun _ _ _ => rfl) es u
  exact congrArg (es.length == u.size && ·) hmembers

end Json

/-! ## Actions -/

theorem Send.beq_iff {s s' : Send} :
    s == s' ↔ s.event == s'.event ∧ s.recipient == s'.recipient ∧ s.delay == s'.delay ∧
      s.id == s'.id := by
  have hbeq : (s == s') = (s.event == s'.event && (s.recipient == s'.recipient &&
      (s.delay == s'.delay && s.id == s'.id))) := rfl
  simp only [hbeq, Bool.and_eq_true]

namespace Action

theorem beqList_eq (as bs : List Action) : beqList as bs = (as == bs) :=
  eq_beq_of_cons rfl (fun _ _ => rfl) (fun _ _ => rfl) (fun _ _ _ _ => rfl) as bs

theorem beq_composed (as bs : List Action) : (composed as == composed bs) = (as == bs) :=
  beqList_eq as bs

theorem beq_choose (bs bs' : List (Branch Action)) : (choose bs == choose bs') = (bs == bs') := by
  refine eq_beq_of_cons (f := beqBranches) rfl (fun _ _ => rfl) (fun _ _ => rfl) ?_ bs bs'
  intro b bs b' bs'
  rw [beqBranches, beqList_eq]
  rfl

variable {a b : Action} (h : a == b)

include h

theorem forall₂_parts : List.Forall₂ (· == ·) a.parts b.parts := by
  change beq a b = true at h
  -- Of all kinds of actions, only the last is flattened; then come two of different kinds.
  fun_cases beq a b with
  | case7 as bs => exact beq_iff_forall₂.mp ((beq_composed as bs).symm.trans h)
  | case8 => simp [beq] at h
  | _ => exact .cons h .nil

theorem rel_properties? :
    Option.Rel (Table.Matches (· == ·)) a.properties? b.properties? := by
  change beq a b = true at h
  -- Only assignments have properties, and of these only those that give them one by one.
  fun_cases beq a b with
  | case3 x y =>
      cases x with
      | properties t =>
          cases y with
          | properties u => exact .some (Table.beq_iff_matches.mp h)
          | _ => cases h
      | _ => cases y <;> first | exact .none | cases h
  | case8 => simp [beq] at h
  | _ => exact .none

end Action

/-! ## Transitions -/

theorem Transition.beq_iff {t u : Transition} :
    t == u ↔ t.target == u.target ∧ t.actions == u.actions ∧ t.cond == u.cond := by
  have hbeq : (t == u) = (t.target == u.target && (t.actions == u.actions && t.cond == u.cond)) := rfl
  simp only [hbeq, Bool.and_eq_true]

/-! ## Fragments -/

namespace Fragment

theorem beq_nested (fs gs : List Fragment) : (nested fs == nested gs) = (fs == gs) :=
  eq_beq_of_cons (f := beqList) rfl (fun _ _ => rfl) (fun _ _ => rfl) (fun _ _ _ _ => rfl) fs gs

/-- What a fragment has in common with one that is equal to it. -/
structure Matches (f g : Fragment) : Prop where
  facet : f.facet = g.facet
  isNested : f.isNested = g.isNested
  contents : List.Forall₂ (· == ·) f.contents g.contents
  on? : Option.Rel (Table.Matches (· == ·)) f.on? g.on?
  target? : Option.Rel (· == ·) f.target? g.target?
  action? : Option.Rel (· == ·) f.action? g.action?
  cond? : Option.Rel (· == ·) f.cond? g.cond?
  token? : Option.Rel (· == ·) f.token? g.token?

theorem matches_of_beq {f g : Fragment} (h : f == g) : f.Matches g := by
  change beq f g = true at h
  -- The cases are the kinds of fragments in their order, and at last two of different kinds. Targets,
  -- nested contents, event tables, actions, guards and transitions have parts that others lack.
  fun_cases beq f g with
  | case6 => exact ⟨rfl, rfl, .nil, .none, .some h, .none, .none, .some h⟩
  | case8 fs gs =>
      exact ⟨rfl, rfl, beq_iff_forall₂.mp ((beq_nested fs gs).symm.trans h), .none, .none, .none,
        .none, .none⟩
  | case9 => exact ⟨rfl, rfl, .nil, .some (Table.beq_iff_matches.mp h), .none, .none, .none, .none⟩
  | case22 => exact ⟨rfl, rfl, .nil, .none, .none, .some h, .none, .some h⟩
  | case23 => exact ⟨rfl, rfl, .nil, .none, .none, .none, .some h, .some h⟩
  | case24 => exact ⟨rfl, rfl, .nil, .none, .none, .none, .none, .some h⟩
  | case25 => simp [beq] at h
  | _ => exact ⟨rfl, rfl, .nil, .none, .none, .none, .none, .none⟩

end Fragment

/-! ## Nodes -/

/-- Nodes with equal facets that are the same but for their facets. -/
structure Alike {ν : Type} [Assemblable ν] [Faceted ν] (n m : ν) : Prop where
  bare : Faceted.bare n = Faceted.bare m
  facet (f : Facet) : Option.Rel (· == ·) (Faceted.facet? n f) (Faceted.facet? m f)

section

variable {ν : Type} [Assemblable ν] [Faceted ν]

theorem alike_blank : Alike (Assemblable.blank : ν) Assemblable.blank where
  bare := rfl
  facet f := by
    rw [Faceted.facet?_blank]
    exact .none

/-- Equal fragments are written alike, or none of them has a place. -/
theorem rel_set? {n m : ν} (h : Alike n m) {p q : Fragment} (hpq : p == q) :
    Option.Rel Alike (Assemblable.set? n p) (Assemblable.set? m q) := by
  have hparts := Fragment.matches_of_beq hpq
  have hsome : (Assemblable.set? n p).isSome = (Assemblable.set? m q).isSome := by
    rw [Faceted.isSome_set?, Faceted.isSome_set?, hparts.facet, hparts.isNested]
  cases hn : Assemblable.set? n p with
  | none =>
      cases hm : Assemblable.set? m q with
      | none => exact .none
      | some m' => simp [hn, hm] at hsome
  | some n' =>
      cases hm : Assemblable.set? m q with
      | none => simp [hn, hm] at hsome
      | some m' =>
          refine .some ⟨?_, fun f => ?_⟩
          · rw [Faceted.bare_set? hn, Faceted.bare_set? hm, h.bare]
          · rw [Faceted.facet?_set? hn, Faceted.facet?_set? hm, hparts.facet]
            by_cases hf : f = q.facet
            · rw [if_pos hf, if_pos hf]
              exact .some hpq
            · rw [if_neg hf, if_neg hf]
              exact h.facet f

end

/-- A facet given by a value is equal to another if the values are. -/
theorem rel_facet {α : Type} [BEq α] (make : α → Fragment)
    (h : ∀ a b, (make a == make b) = (a == b)) {x y : Option α} :
    Option.Rel (· == ·) (x.map make) (y.map make) ↔ x == y := by
  cases x <;> cases y <;> simp [h]

theorem StateNode.beq_eq (n m : StateNode) :
    (n == m) = (n.beqFacets m && n.states == m.states) := by
  have hstates := eq_all_of_cons (f := beqStates) (fun _ => rfl) fun _ _ _ => rfl
  obtain ⟨_, _, _, _, _, _, _ | ⟨⟨es⟩⟩⟩ := n
  · refine congrArg (beqFacets _ m && ·) (?_ : m.states.isNone = (none == m.states))
    cases m.states <;> rfl
  · refine congrArg (beqFacets _ m && ·) (?_ : m.states.any _ = (some ⟨es⟩ == m.states))
    cases m.states with
    | none => rfl
    | some t => exact congrArg (es.length == t.size && ·) (hstates es t)

theorem StateNode.beq_iff_alike {n m : StateNode} : n == m ↔ Alike n m := by
  rw [beq_eq, beqFacets]
  simp only [Bool.and_eq_true, and_assoc]
  constructor
  · rintro ⟨hid, hinitial, hkind, hcontext, hhistory, htarget, hon, hentry, hexit, hinvoke, honDone,
      honError, hafter, halways, hactivities, hmetadata, hdata, hdelimiter, hstates⟩
    refine ⟨rfl, fun f => ?_⟩
    cases f with
    | id => exact (rel_facet .id fun _ _ => rfl).mpr hid
    | initial => exact (rel_facet .initial fun _ _ => rfl).mpr hinitial
    | kind => exact (rel_facet .kind fun _ _ => rfl).mpr hkind
    | context => exact (rel_facet .context fun _ _ => rfl).mpr hcontext
    | history => exact (rel_facet .history fun _ _ => rfl).mpr hhistory
    | target => exact (rel_facet .target fun _ _ => rfl).mpr htarget
    | on => exact (rel_facet .on fun _ _ => rfl).mpr hon
    | entry => exact (rel_facet .entry fun _ _ => rfl).mpr hentry
    | exit => exact (rel_facet .exit fun _ _ => rfl).mpr hexit
    | invoke => exact (rel_facet .invoke fun _ _ => rfl).mpr hinvoke
    | onDone => exact (rel_facet .onDone fun _ _ => rfl).mpr honDone
    | onError => exact (rel_facet .onError fun _ _ => rfl).mpr honError
    | after => exact (rel_facet .after fun _ _ => rfl).mpr hafter
    | always => exact (rel_facet .always fun _ _ => rfl).mpr halways
    | activities => exact (rel_facet .activities fun _ _ => rfl).mpr hactivities
    | metadata => exact (rel_facet .metadata fun _ _ => rfl).mpr hmetadata
    | data => exact (rel_facet .data fun _ _ => rfl).mpr hdata
    | delimiter => exact (rel_facet .delimiter fun _ _ => rfl).mpr hdelimiter
    | states => exact (rel_facet .states fun _ _ => rfl).mpr hstates
    | _ => exact .none
  · rintro ⟨-, h⟩
    exact ⟨(rel_facet .id fun _ _ => rfl).mp (h .id),
      (rel_facet .initial fun _ _ => rfl).mp (h .initial),
      (rel_facet .kind fun _ _ => rfl).mp (h .kind),
      (rel_facet .context fun _ _ => rfl).mp (h .context),
      (rel_facet .history fun _ _ => rfl).mp (h .history),
      (rel_facet .target fun _ _ => rfl).mp (h .target),
      (rel_facet .on fun _ _ => rfl).mp (h .on),
      (rel_facet .entry fun _ _ => rfl).mp (h .entry),
      (rel_facet .exit fun _ _ => rfl).mp (h .exit),
      (rel_facet .invoke fun _ _ => rfl).mp (h .invoke),
      (rel_facet .onDone fun _ _ => rfl).mp (h .onDone),
      (rel_facet .onError fun _ _ => rfl).mp (h .onError),
      (rel_facet .after fun _ _ => rfl).mp (h .after),
      (rel_facet .always fun _ _ => rfl).mp (h .always),
      (rel_facet .activities fun _ _ => rfl).mp (h .activities),
      (rel_facet .metadata fun _ _ => rfl).mp (h .metadata),
      (rel_facet .data fun _ _ => rfl).mp (h .data),
      (rel_facet .delimiter fun _ _ => rfl).mp (h .delimiter),
      (rel_facet .states fun _ _ => rfl).mp (h .states)⟩

theorem Invocation.beq_iff {i j : Invocation} :
    i == j ↔ i.src == j.src ∧ i.id == j.id ∧ i.data == j.data ∧ i.onDone == j.onDone ∧
      i.onError == j.onError ∧ i.autoForward == j.autoForward := by
  have hbeq : (i == j) = (i.src == j.src && (i.id == j.id && (i.data == j.data &&
      (i.onDone == j.onDone && (i.onError == j.onError && i.autoForward == j.autoForward))))) := rfl
  simp only [hbeq, Bool.and_eq_true]

theorem Invocation.beq_iff_alike {i j : Invocation} : i == j ↔ Alike i j := by
  rw [beq_iff]
  constructor
  · rintro ⟨hsrc, hid, hdata, honDone, honError, hautoForward⟩
    refine ⟨congrArg (fun src => ({ src } : Invocation)) (beq_iff_eq.mp hsrc), fun f => ?_⟩
    cases f with
    | id => exact (rel_facet .id fun _ _ => rfl).mpr hid
    | data => exact (rel_facet .data fun _ _ => rfl).mpr hdata
    | onDone => exact (rel_facet .onDone fun _ _ => rfl).mpr honDone
    | onError => exact (rel_facet .onError fun _ _ => rfl).mpr honError
    | autoForward => exact (rel_facet .autoForward fun _ _ => rfl).mpr hautoForward
    | _ => exact .none
  · rintro ⟨hbare, h⟩
    exact ⟨beq_iff_eq.mpr (Invocation.mk.inj hbare).1,
      (rel_facet .id fun _ _ => rfl).mp (h .id),
      (rel_facet .data fun _ _ => rfl).mp (h .data),
      (rel_facet .onDone fun _ _ => rfl).mp (h .onDone),
      (rel_facet .onError fun _ _ => rfl).mp (h .onError),
      (rel_facet .autoForward fun _ _ => rfl).mp (h .autoForward)⟩

end Statechart
