import Statechart.Builder.Clause
import Statechart.Proofs.Equality
import Statechart.Proofs.Merging
import Statechart.Proofs.Pieces

/-!
# Single transitions

A run of targets, actions and guards can be read as one transition, or grouped into transitions. The
two readings are the same if a guard can only stand last, the first target is the last one, and no
action is composed (`groupRun_eq_transition_iff`).
-/

namespace Statechart

/-! ## Composed actions -/

namespace Action

/-- Whether an action is composed of others. -/
def isComposed : Action → Bool
  | composed _ => true
  | _ => false

mutual
/-- The number of composed actions that flattening can reach, one level after the other. -/
def compositions : Action → Nat
  | composed parts => compositionsList parts + 1
  | _ => 0

/-- The number of composed actions in a list, as `compositions` counts them. -/
def compositionsList : List Action → Nat
  | [] => 0
  | a :: as => compositions a + compositionsList as
end

theorem compositionsList_append (as bs : List Action) :
    compositionsList (as ++ bs) = compositionsList as + compositionsList bs := by
  induction as with
  | nil => simp [compositionsList]
  | cons a as ih => simp [compositionsList, ih, Nat.add_assoc]

theorem compositionsList_parts (a : Action) :
    compositionsList a.parts + (if a.isComposed then 1 else 0) = a.compositions := by
  cases a <;> simp [parts, isComposed, compositions, compositionsList]

theorem compositionsList_flattenActions (as : List Action) :
    compositionsList (flattenActions as) + as.countP isComposed = compositionsList as := by
  rw [flattenActions]
  induction as with
  | nil => rfl
  | cons a as ih =>
      have hparts := a.compositionsList_parts
      rw [List.flatMap_cons, compositionsList_append, List.countP_cons, compositionsList]
      omega

mutual
theorem compositions_eq_of_beq (a b : Action) (h : a == b) : a.compositions = b.compositions := by
  cases a with
  | composed as =>
      cases b with
      | composed bs =>
          rw [beq_composed] at h
          rw [compositions, compositions, compositionsList_eq_of_beq as bs h]
      | _ => cases h
  | _ =>
      cases b with
      | composed bs => cases h
      | _ => rfl

theorem compositionsList_eq_of_beq (as bs : List Action) (h : as == bs) :
    compositionsList as = compositionsList bs := by
  match as, bs, h with
  | [], [], _ => rfl
  | a :: as, b :: bs, h =>
      rw [List.cons_beq_cons, Bool.and_eq_true] at h
      rw [compositionsList, compositionsList, compositions_eq_of_beq a b h.1,
        compositionsList_eq_of_beq as bs h.2]
end

end Action

/-- Flattening takes away composed actions from every list that has one. -/
theorem not_isComposed_of_flattenActions {as : List Action}
    (h : Action.compositionsList as = Action.compositionsList (flattenActions as)) :
    ∀ a ∈ as, a.isComposed = false := by
  have hcount := Action.compositionsList_flattenActions as
  rw [← h, Nat.add_eq_left, List.countP_eq_zero] at hcount
  simpa using hcount

theorem flattenActions_of_not_isComposed {as : List Action} (h : ∀ a ∈ as, a.isComposed = false) :
    flattenActions as = as := by
  have hparts : ∀ a ∈ as, a.parts = [a] := by
    intro a ha
    cases a with
    | composed parts => cases h _ ha
    | _ => rfl
  rw [flattenActions, List.flatMap_congr hparts, List.flatMap_singleton']

/-! ## One piece -/

theorem pieces_eq_singleton {tokens : List Token} (hne : tokens ≠ [])
    (hprim : ∀ k ∈ tokens, k.isPrimitive = true) (hguard : ∀ k ∈ tokens.dropLast, k.isGuard = false) :
    pieces tokens = [tokens] := by
  have hopen : ∀ k ∈ tokens.dropLast, k.isOpen = true := by
    intro k hk
    simp [Token.isOpen, hprim k ((List.dropLast_sublist tokens).mem hk), hguard k hk]
  have hchain := isChain_concat hopen (hprim _ (List.getLast_mem hne))
  rw [List.dropLast_append_getLast] at hchain
  exact List.splitBy_of_isChain hne hchain

theorem pieces_of_length {tokens : List Token} (h : (pieces tokens).length = 1) :
    pieces tokens = [tokens] := by
  obtain ⟨piece, hpiece⟩ := List.length_eq_one_iff.mp h
  have hflatten : (pieces tokens).flatten = tokens := List.flatten_splitBy _ _
  rw [hpiece, List.flatten_singleton] at hflatten
  rw [hpiece, hflatten]

theorem isGuard_of_pieces {tokens : List Token} (hprim : ∀ k ∈ tokens, k.isPrimitive = true)
    (h : pieces tokens = [tokens]) : ∀ k ∈ tokens.dropLast, k.isGuard = false := by
  rcases isPiece_of_mem_pieces (h ▸ List.mem_singleton_self tokens) with ⟨t, rfl⟩ | ⟨_, _, hguard⟩
  · exact nofun
  · exact hguard

/-! ## Tokens as fragments -/

namespace Token

/-- The fragment that stands for the token. -/
def fragment : Token → Fragment
  | transition t => .transition t
  | target name => .target name
  | action a => .action a
  | cond guard => .cond guard

theorem token?_fragment (k : Token) : k.fragment.token? = some k := by cases k <;> rfl

theorem target?_fragment (k : Token) : k.fragment.target? = k.target? := by cases k <;> rfl

theorem action?_fragment (k : Token) : k.fragment.action? = k.action? := by cases k <;> rfl

theorem cond?_fragment (k : Token) : k.fragment.cond? = k.cond? := by cases k <;> rfl

end Token

theorem filterMap_fragment {α : Type} {part? : Fragment → Option α} {partOf? : Token → Option α}
    (h : ∀ k : Token, part? k.fragment = partOf? k) (tokens : List Token) :
    (tokens.map Token.fragment).filterMap part? = tokens.filterMap partOf? := by
  rw [List.filterMap_map]
  exact List.filterMap_congr fun k _ => h k

theorem exists_tokens {run : List Fragment} (h : ∀ f ∈ run, Builder.isTransitionPart f = true) :
    ∃ tokens : List Token, tokens.map Token.fragment = run ∧ ∀ k ∈ tokens, k.isPrimitive = true := by
  induction run with
  | nil => exact ⟨[], rfl, nofun⟩
  | cons f run ih =>
      obtain ⟨hf, hrun⟩ := List.forall_mem_cons.mp h
      obtain ⟨tokens, rfl, hprim⟩ := ih hrun
      have htoken : ∃ k : Token, k.fragment = f ∧ k.isPrimitive = true := by
        cases f with
        | target name => exact ⟨.target name, rfl, rfl⟩
        | action a => exact ⟨.action a, rfl, rfl⟩
        | cond guard => exact ⟨.cond guard, rfl, rfl⟩
        | _ => cases hf
      obtain ⟨k, rfl, hk⟩ := htoken
      exact ⟨k :: tokens, rfl, List.forall_mem_cons.mpr ⟨hk, hprim⟩⟩

/-! ## Two readings of a run -/

/-- One transition and a group of transitions are the same reading of the run: a guard can only stand
last, the first target is the last one, and no action is composed. -/
structure IsSingle (run : List Fragment) : Prop where
  guardLast : ∀ f ∈ run.dropLast, f.cond? = none
  sameTarget : (run.filterMap Fragment.target?).head? = (run.filterMap Fragment.target?).getLast?
  uncomposed : ∀ a ∈ run.filterMap Fragment.action?, a.isComposed = false

namespace Transition

/-- The transition with the first target, all actions and the last guard of a run. -/
def ofFirst (run : List Token) : Transition where
  target := (run.filterMap Token.target?).head?
  actions := if (flattenActions (run.filterMap Token.action?)).isEmpty then none
    else some (flattenActions (run.filterMap Token.action?))
  cond := (run.filterMap Token.cond?).getLast?

/-- The number of composed actions in a transition. -/
def compositions (t : Transition) : Nat := Action.compositionsList (t.actions.getD [])

theorem compositions_eq_of_beq {t u : Transition} (h : t == u) : t.compositions = u.compositions := by
  obtain ⟨_, hactions, _⟩ := beq_iff.mp h
  rw [compositions, compositions]
  generalize t.actions = as, u.actions = bs at hactions
  cases beq_iff_rel.mp hactions with
  | none => rfl
  | some hactions => exact Action.compositionsList_eq_of_beq _ _ hactions

end Transition

section

variable {tokens : List Token}

theorem outcome_groupRun_map (tokens : List Token) :
    (groupRun (tokens.map Token.fragment)).outcome =
      .ok ((pieces tokens).map Transition.ofPiece) := by
  rw [groupRun, collect_map Fragment.token? Token.fragment Token.token?_fragment, ← group_eq_pieces]
  rfl

variable (hprim : ∀ k ∈ tokens, k.isPrimitive = true)

include hprim

theorem transition_map :
    Builder.transition (tokens.map Token.fragment) = .ok (Transition.ofFirst tokens) := by
  have hall : ∀ f ∈ tokens.map Token.fragment, Builder.isTransitionPart f = true := by
    rw [List.forall_mem_map]
    intro k hk
    cases k with
    | transition t => cases hprim _ hk
    | _ => rfl
  rw [Builder.transition, requireAll_eq_ok hall, ← List.head?_filterMap, extractActions,
    extractGuards, filterMap_fragment Token.target?_fragment,
    filterMap_fragment Token.action?_fragment, filterMap_fragment Token.cond?_fragment]
  rfl

/-- A group of one transition is read from the whole run. -/
theorem map_pieces_eq (h : pieces tokens = [tokens]) :
    (pieces tokens).map Transition.ofPiece = [Transition.ofRun tokens] := by
  rw [h, List.map_singleton, Transition.ofPiece_of_isPrimitive hprim]

theorem map_pieces_of_isSingle (hne : tokens ≠ []) (h : IsSingle (tokens.map Token.fragment)) :
    (pieces tokens).map Transition.ofPiece = [Transition.ofFirst tokens] := by
  obtain ⟨hguard, htarget, hactions⟩ := h
  rw [filterMap_fragment Token.target?_fragment] at htarget
  rw [filterMap_fragment Token.action?_fragment] at hactions
  have hpieces : pieces tokens = [tokens] := by
    refine pieces_eq_singleton hne hprim fun k hk => ?_
    rw [← List.map_dropLast, List.forall_mem_map] at hguard
    rw [Token.isGuard, ← Token.cond?_fragment, hguard k hk, Option.isSome_none]
  rw [map_pieces_eq hprim hpieces, Transition.ofRun, Transition.ofFirst, htarget,
    flattenActions_of_not_isComposed hactions]

theorem isSingle_of_pieces (hpieces : pieces tokens = [tokens])
    (htarget : (Transition.ofRun tokens).target = (Transition.ofFirst tokens).target)
    (hactions : (Transition.ofRun tokens).compositions = (Transition.ofFirst tokens).compositions) :
    IsSingle (tokens.map Token.fragment) where
  guardLast := by
    rw [← List.map_dropLast, List.forall_mem_map]
    intro k hk
    rw [Token.cond?_fragment, ← Option.not_isSome_iff_eq_none]
    exact Bool.eq_false_iff.mp (isGuard_of_pieces hprim hpieces k hk)
  sameTarget := by
    rw [filterMap_fragment Token.target?_fragment]
    exact htarget.symm
  uncomposed := by
    rw [filterMap_fragment Token.action?_fragment]
    simp only [Transition.compositions, Transition.ofRun, Transition.ofFirst,
      Transition.getD_of_isEmpty] at hactions
    exact not_isComposed_of_flattenActions hactions

end

/-- A run of targets, actions and guards is always read as one transition and as a group of
transitions. The group consists of that transition in the one case that nothing is read in another
way, and otherwise it is not even equal to it. -/
theorem groupRun_eq_transition_iff {run : List Fragment} (hne : run ≠ [])
    (hparts : ∀ f ∈ run, Builder.isTransitionPart f = true) :
    ∃ ts t, (groupRun run).outcome = .ok ts ∧ Builder.transition run = .ok t ∧
      (ts = [t] ↔ IsSingle run) ∧ (ts == [t] → ts = [t]) := by
  obtain ⟨tokens, rfl, hprim⟩ := exists_tokens hparts
  have hsingle := map_pieces_of_isSingle hprim (by simpa using hne)
  refine ⟨_, _, outcome_groupRun_map tokens, transition_map hprim, ⟨fun h => ?_, hsingle⟩,
    fun h => hsingle ?_⟩
  · have hpieces := pieces_of_length (by simpa using congrArg List.length h)
    rw [map_pieces_eq hprim hpieces, List.singleton_inj] at h
    exact isSingle_of_pieces hprim hpieces (congrArg Transition.target h)
      (congrArg Transition.compositions h)
  · have hall := beq_iff_forall₂.mp h
    have hpieces := pieces_of_length (by simpa using hall.length_eq)
    rw [map_pieces_eq hprim hpieces, List.cons_beq_cons, Bool.and_eq_true] at h
    exact isSingle_of_pieces hprim hpieces (beq_iff_eq.mp (Transition.beq_iff.mp h.1).1)
      (Transition.compositions_eq_of_beq h.1)

/-- A target can be repeated. A composed action of one part is still another action than its part. -/
theorem groupRun_eq_transition_iff_repeated :
    let repeated : List Fragment := [.target "a", .run "x", .target "a", .guard "p"]
    let composed : List Fragment := [.action (.composed [.named "x"])]
    repeated ≠ [] ∧ (∀ f ∈ repeated, Builder.isTransitionPart f = true) ∧ IsSingle repeated ∧
    (∃ t, (groupRun repeated).outcome = .ok [t] ∧ Builder.transition repeated = .ok t) ∧
    composed ≠ [] ∧ (∀ f ∈ composed, Builder.isTransitionPart f = true) ∧ ¬IsSingle composed ∧
    ∃ ts t, (groupRun composed).outcome = .ok ts ∧ Builder.transition composed = .ok t ∧ ts ≠ [t] := by
  intro repeated composed
  have hrepeated : ∀ f ∈ repeated, Builder.isTransitionPart f = true := by decide
  have hcomposed : ∀ f ∈ composed, Builder.isTransitionPart f = true := by decide
  obtain ⟨ts, t, hts, ht, hiff, _⟩ := groupRun_eq_transition_iff (List.cons_ne_nil _ _) hrepeated
  obtain ⟨us, u, hus, hu, hiff', _⟩ := groupRun_eq_transition_iff (List.cons_ne_nil _ _) hcomposed
  have hsingle : ts = [t] := by
    cases hts
    cases ht
    rfl
  have hother : us ≠ [u] := by
    cases hus
    cases hu
    intro h
    have hactions : [({ actions := some [.composed [.named "x"]] } : Transition)] =
        [{ actions := some [.named "x"] }] := h
    simp at hactions
  exact ⟨List.cons_ne_nil _ _, hrepeated, hiff.mp hsingle, ⟨t, hsingle ▸ hts, ht⟩,
    List.cons_ne_nil _ _, hcomposed, fun h => hother (hiff'.mpr h), us, u, hus, hu, hother⟩

end Statechart
