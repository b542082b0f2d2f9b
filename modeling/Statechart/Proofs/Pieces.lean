import Mathlib.Data.List.SplitBy
import Statechart.Assembly.Run

/-!
# Pieces of a run

A run of tokens is cut after each guard, and before and after each finished transition. Grouping
reads each piece as one transition (`groupTokens_eq_pieces`).
-/

namespace Statechart

/-! ## Parts of tokens -/

namespace Token

/-- The name of the target, if the token is one. -/
def target? : Token → Option String
  | target name => some name
  | _ => none

/-- The action, if the token is one. -/
def action? : Token → Option Action
  | action a => some a
  | _ => none

/-- The guard, if the token is one. -/
def cond? : Token → Option Guard
  | cond guard => some guard
  | _ => none

/-- Whether a token is a guard. -/
def isGuard (k : Token) : Bool := k.cond?.isSome

/-- Whether a transition with this token still takes others: targets and actions do not end it. -/
def isOpen (k : Token) : Bool := k.isPrimitive && !k.isGuard

/-- Whether no cut falls between two tokens that stand side by side. -/
def joins (a b : Token) : Bool := a.isOpen && b.isPrimitive

theorem isPrimitive_of_isOpen {k : Token} (h : k.isOpen = true) : k.isPrimitive = true :=
  (Bool.and_eq_true_iff.mp h).1

theorem joins_of_isOpen {a b : Token} (ha : a.isOpen = true) (hb : b.isPrimitive = true) :
    a.joins b = true :=
  Bool.and_eq_true_iff.mpr ⟨ha, hb⟩

end Token

/-! ## Pieces -/

/-- The run cut after each guard, and before and after each finished transition. -/
def pieces (tokens : List Token) : List (List Token) := tokens.splitBy Token.joins

/-- A finished transition by itself, or targets and actions with at most one guard, at the end. -/
def IsPiece (piece : List Token) : Prop :=
  (∃ t, piece = [.transition t]) ∨
    piece ≠ [] ∧ (∀ k ∈ piece, k.isPrimitive = true) ∧ ∀ k ∈ piece.dropLast, k.isGuard = false

theorem isPiece_of_isChain {piece : List Token} (hne : piece ≠ [])
    (h : piece.IsChain fun a b => a.joins b = true) : IsPiece piece := by
  induction piece with
  | nil => exact absurd rfl hne
  | cons a rest ih =>
      cases rest with
      | nil => cases a <;> simp [IsPiece, Token.isPrimitive]
      | cons b rest =>
          obtain ⟨hab, hrest⟩ := List.isChain_cons_cons.mp h
          obtain ⟨ha, hb⟩ := Bool.and_eq_true_iff.mp hab
          obtain ⟨hprim, hguard⟩ := Bool.and_eq_true_iff.mp ha
          rcases ih (List.cons_ne_nil _ _) hrest with ⟨t, ht⟩ | ⟨_, hprims, hguards⟩
          · cases ht
            cases hb
          · refine Or.inr ⟨List.cons_ne_nil _ _, List.forall_mem_cons.mpr ⟨hprim, hprims⟩, ?_⟩
            exact List.forall_mem_cons.mpr ⟨by simpa using hguard, hguards⟩

theorem isPiece_of_mem_pieces {tokens piece : List Token} (h : piece ∈ pieces tokens) :
    IsPiece piece :=
  isPiece_of_isChain (List.ne_nil_of_mem_splitBy h) (List.isChain_of_mem_splitBy h)

/-! ## Reading a piece -/

namespace Transition

/-- The transition with the last target, all actions and the guard of a run. -/
def ofRun (run : List Token) : Transition where
  target := (run.filterMap Token.target?).getLast?
  actions := if (run.filterMap Token.action?).isEmpty then none
    else some (run.filterMap Token.action?)
  cond := (run.filterMap Token.cond?).getLast?

/-- The transition that a piece stands for. -/
def ofPiece : List Token → Transition
  | [.transition t] => t
  | run => ofRun run

theorem getD_of_isEmpty (as : List Action) :
    (if as.isEmpty then none else some as).getD [] = as := by
  cases as <;> rfl

theorem filterMap_concat {α : Type} (part? : Token → Option α) (run : List Token) (k : Token) :
    (run ++ [k]).filterMap part? = run.filterMap part? ++ (part? k).toList := by
  rw [List.filterMap_append, List.filterMap_cons, List.filterMap_nil]
  cases part? k <;> rfl

theorem ofRun_append_target (run : List Token) (name : String) :
    ofRun (run ++ [.target name]) = (ofRun run).withTarget name := by
  simp only [ofRun, withTarget, filterMap_concat, Token.target?, Token.action?, Token.cond?,
    Option.toList_none, Option.toList_some, List.append_nil, List.getLast?_concat]

theorem ofRun_append_action (run : List Token) (a : Action) :
    ofRun (run ++ [.action a]) = (ofRun run).withAction a := by
  simp only [ofRun, withAction, filterMap_concat, getD_of_isEmpty, Token.target?, Token.action?,
    Token.cond?, Option.toList_none, Option.toList_some, List.append_nil]
  simp

theorem ofRun_append_cond (run : List Token) (guard : Guard) :
    ofRun (run ++ [.cond guard]) = (ofRun run).withCond guard := by
  simp only [ofRun, withCond, filterMap_concat, Token.target?, Token.action?, Token.cond?,
    Option.toList_none, Option.toList_some, List.append_nil, List.getLast?_concat]

theorem ofPiece_of_isPrimitive {run : List Token} (h : ∀ k ∈ run, k.isPrimitive = true) :
    ofPiece run = ofRun run := by
  unfold ofPiece
  split
  · cases h _ List.mem_cons_self
  · rfl

end Transition

/-! ## Where a run is cut -/

theorem pieces_append_of_isChain {piece : List Token} (hne : piece ≠ [])
    (hchain : piece.IsChain fun a b => a.joins b = true)
    (hclosed : ∀ k ∈ piece.getLast?, k.isOpen = false) (rest : List Token) :
    pieces (piece ++ rest) = piece :: pieces rest := by
  rw [pieces, List.splitBy_append, List.splitBy_of_isChain hne hchain]
  · rfl
  · intro a ha b _
    rw [Token.joins, hclosed a ha]
    rfl

theorem isChain_pieces (tokens : List Token) :
    (pieces tokens).IsChain fun a b =>
      (∃ guard, a.getLast? = some (.cond guard)) ∨ (∃ t, a.getLast? = some (.transition t)) ∨
        ∃ t, b.head? = some (.transition t) := by
  refine (List.isChain_getLast_head_splitBy Token.joins tokens).imp ?_
  rintro a b ⟨ha, hb, hcut⟩
  rw [List.getLast?_eq_some_getLast ha, List.head?_eq_some_head hb]
  rcases Bool.and_eq_false_iff.mp hcut with hlast | hfirst
  · cases hk : a.getLast ha with
    | cond guard => exact Or.inl ⟨guard, rfl⟩
    | transition t => exact Or.inr (Or.inl ⟨t, rfl⟩)
    | target name => rw [hk] at hlast; cases hlast
    | action a => rw [hk] at hlast; cases hlast
  · cases hk : b.head hb with
    | transition t => exact Or.inr (Or.inr ⟨t, rfl⟩)
    | target name => rw [hk] at hfirst; cases hfirst
    | action a => rw [hk] at hfirst; cases hfirst
    | cond guard => rw [hk] at hfirst; cases hfirst

theorem pieces_transition_cons (t : Transition) (rest : List Token) :
    pieces (.transition t :: rest) = [.transition t] :: pieces rest :=
  pieces_append_of_isChain (List.cons_ne_nil _ _) (List.isChain_singleton _) (by simp; rfl) rest

theorem pieces_append_transition (run : List Token) (t : Transition) (rest : List Token) :
    pieces (run ++ .transition t :: rest) = pieces run ++ [.transition t] :: pieces rest := by
  rw [← pieces_transition_cons]
  apply List.splitBy_append_cons
  intro a _
  exact Bool.and_false _

theorem pairwise_joins {run : List Token} (h : ∀ k ∈ run, k.isOpen = true) :
    run.Pairwise fun a b => a.joins b = true :=
  List.pairwise_of_forall_mem_list fun a ha b hb =>
    Token.joins_of_isOpen (h a ha) (Token.isPrimitive_of_isOpen (h b hb))

theorem isChain_concat {run : List Token} (h : ∀ k ∈ run, k.isOpen = true) {last : Token}
    (hlast : last.isPrimitive = true) :
    (run ++ [last]).IsChain fun a b => a.joins b = true := by
  apply List.Pairwise.isChain
  rw [List.pairwise_append]
  refine ⟨pairwise_joins h, List.pairwise_singleton _ _, fun a ha b hb => ?_⟩
  rw [List.mem_singleton.mp hb]
  exact Token.joins_of_isOpen (h a ha) hlast

theorem pieces_append_cond {run : List Token} (h : ∀ k ∈ run, k.isOpen = true) (guard : Guard)
    (rest : List Token) :
    pieces (run ++ .cond guard :: rest) = (run ++ [.cond guard]) :: pieces rest := by
  have hclosed : ∀ k ∈ (run ++ [Token.cond guard]).getLast?, k.isOpen = false := by
    rw [List.getLast?_concat]
    rintro _ ⟨⟩
    rfl
  have hsplit := pieces_append_of_isChain (by simp) (isChain_concat h rfl) hclosed rest
  rwa [List.append_assoc, List.singleton_append] at hsplit

theorem pieces_of_isOpen {run : List Token} (hne : run ≠ []) (h : ∀ k ∈ run, k.isOpen = true) :
    pieces run = [run] :=
  List.splitBy_of_isChain hne (pairwise_joins h).isChain

/-! ## Grouping -/

/-- The transition that the tokens of an open run have made so far, if there are any. -/
def openRun (run : List Token) : Option Transition :=
  if run.isEmpty then none else some (Transition.ofRun run)

theorem openRun_getD (run : List Token) : (openRun run).getD {} = Transition.ofRun run := by
  cases run <;> rfl

theorem openRun_concat (run : List Token) (k : Token) :
    openRun (run ++ [k]) = some (Transition.ofRun (run ++ [k])) := by
  simp [openRun]

theorem map_pieces_of_isOpen {run : List Token} (h : ∀ k ∈ run, k.isOpen = true) :
    (pieces run).map Transition.ofPiece = (openRun run).toList := by
  cases run with
  | nil => rfl
  | cons k run =>
      rw [pieces_of_isOpen (List.cons_ne_nil _ _) h, List.map_singleton,
        Transition.ofPiece_of_isPrimitive fun k hk => Token.isPrimitive_of_isOpen (h k hk)]
      rfl

/-- The transitions of a run that goes on from an open one. -/
theorem groupFrom_openRun {run : List Token} (h : ∀ k ∈ run, k.isOpen = true)
    (tokens : List Token) :
    groupFrom (openRun run) tokens = (pieces (run ++ tokens)).map Transition.ofPiece := by
  have hopen {run : List Token} (h : ∀ k ∈ run, k.isOpen = true) {k : Token} (hk : k.isOpen = true) :
      ∀ k' ∈ run ++ [k], k'.isOpen = true :=
    List.forall_mem_append.mpr ⟨h, List.forall_mem_singleton.mpr hk⟩
  -- `run` is what has been read of a piece that no token has closed yet.
  induction tokens generalizing run with
  | nil =>
      rw [List.append_nil, map_pieces_of_isOpen h]
      rfl
  | cons k tokens ih =>
      have hnil : groupFrom none tokens = (pieces tokens).map Transition.ofPiece :=
        ih (List.forall_mem_nil _)
      cases k with
      | transition t =>
          rw [pieces_append_transition, List.map_append, map_pieces_of_isOpen h, List.map_cons,
            ← hnil]
          rfl
      | target name =>
          rw [List.append_cons, ← ih (hopen h rfl), openRun_concat, Transition.ofRun_append_target,
            ← openRun_getD]
          rfl
      | action a =>
          rw [List.append_cons, ← ih (hopen h rfl), openRun_concat, Transition.ofRun_append_action,
            ← openRun_getD]
          rfl
      | cond guard =>
          have hprim : ∀ k ∈ run ++ [.cond guard], k.isPrimitive = true :=
            List.forall_mem_append.mpr ⟨fun k hk => Token.isPrimitive_of_isOpen (h k hk),
              List.forall_mem_singleton.mpr rfl⟩
          rw [pieces_append_cond h, List.map_cons, Transition.ofPiece_of_isPrimitive hprim,
            Transition.ofRun_append_cond, ← openRun_getD, ← hnil]
          rfl

theorem group_eq_pieces (tokens : List Token) :
    group tokens = (pieces tokens).map Transition.ofPiece :=
  groupFrom_openRun (List.forall_mem_nil _) tokens

/-- Grouping reads the pieces of a run one by one. The pieces are all that the run is made of, in
order, and two of them are only parted by a guard or a finished transition. -/
theorem groupTokens_eq_pieces (tokens : List Token) :
    groupTokens tokens =
      ⟨[.grouped (pieces tokens).length], .ok ((pieces tokens).map Transition.ofPiece)⟩ ∧
    (pieces tokens).flatten = tokens ∧ (∀ piece ∈ pieces tokens, IsPiece piece) ∧
    (pieces tokens).IsChain fun a b =>
      (∃ guard, a.getLast? = some (.cond guard)) ∨ (∃ t, a.getLast? = some (.transition t)) ∨
        ∃ t, b.head? = some (.transition t) := by
  have hgroup : group tokens = (pieces tokens).map Transition.ofPiece :=
    groupFrom_openRun (List.forall_mem_nil _) tokens
  refine ⟨?_, List.flatten_splitBy _ _, fun _ => isPiece_of_mem_pieces, isChain_pieces tokens⟩
  rw [groupTokens, hgroup, List.length_map]
  rfl

end Statechart
