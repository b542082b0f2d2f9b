import Mathlib.Data.List.Induction
import Statechart.Proofs.Pieces

/-!
# Runs put together

Grouping two runs as one keeps all transitions but those on the two sides of the seam, and these
become one transition only if neither a guard nor a finished transition parts them
(`groupTokens_append`).
-/

namespace Statechart

/-! ## The seam -/

/-- A guard or a finished transition parts two runs, or one of them is empty. -/
def Parted (xs ys : List Token) : Prop :=
  xs = [] ∨ ys = [] ∨ (∃ guard, xs.getLast? = some (.cond guard)) ∨
    (∃ t, xs.getLast? = some (.transition t)) ∨ ∃ t, ys.head? = some (.transition t)

theorem parted_iff {xs ys : List Token} :
    Parted xs ys ↔ ∀ a ∈ xs.getLast?, ∀ b ∈ ys.head?, a.joins b = false := by
  rw [Parted, ← @List.getLast?_eq_none_iff _ xs, ← @List.head?_eq_none_iff _ ys]
  cases xs.getLast? with
  | none => simp
  | some a =>
      cases ys.head? with
      | none => simp
      | some b =>
          cases a <;> cases b <;> simp [Token.joins, Token.isOpen, Token.isPrimitive, Token.isGuard,
            Token.cond?]

theorem group_append {xs ys : List Token} (h : Parted xs ys) :
    group (xs ++ ys) = group xs ++ group ys := by
  have hpieces : pieces (xs ++ ys) = pieces xs ++ pieces ys := List.splitBy_append (parted_iff.mp h)
  rw [group_eq_pieces, hpieces, List.map_append, ← group_eq_pieces, ← group_eq_pieces]

/-! ## Joined transitions -/

namespace Transition

/-- The transition made by going on from `t` as `u` was made from nothing: with the later target,
the actions of both and the guard of `u`. -/
def join (t u : Transition) : Transition where
  target := u.target.or t.target
  actions := Option.merge (· ++ ·) t.actions u.actions
  cond := u.cond

theorem join_withAction (t u : Transition) (a : Action) :
    t.join (u.withAction a) = (t.join u).withAction a := by
  obtain ⟨_, as, _⟩ := t
  obtain ⟨_, bs, _⟩ := u
  cases as <;> cases bs <;> simp [join, withAction]

theorem join_blank {t : Transition} (h : t.cond = none) : t.join {} = t := by
  obtain ⟨target, as, cond⟩ := t
  cases h
  cases as <;> rfl

end Transition

/-- What an open transition was before comes into its own transition and into no other. -/
theorem groupFrom_join (t u : Transition) (ys : List Token) :
    ∃ v vs, groupFrom (some u) ys = v :: vs ∧ groupFrom (some (t.join u)) ys = t.join v :: vs := by
  induction ys generalizing u with
  | nil => exact ⟨u, [], rfl, rfl⟩
  | cons k ys ih =>
      cases k with
      | transition v => exact ⟨u, v :: group ys, rfl, rfl⟩
      | target name => exact ih (u.withTarget name)
      | action a =>
          have hrest := ih (u.withAction a)
          rw [t.join_withAction] at hrest
          exact hrest
      | cond guard => exact ⟨u.withCond guard, group ys, rfl, rfl⟩

/-! ## Open transitions -/

theorem groupFrom_of_isOpen {current : Option Transition} (h : ∀ t ∈ current, t.cond = none)
    {k : Token} (hk : k.isOpen = true) :
    ∃ t : Transition, t.cond = none ∧ ∀ ys, groupFrom current (k :: ys) = groupFrom (some t) ys := by
  have hcond : (current.getD {}).cond = none := by
    cases current with
    | none => rfl
    | some t => exact h t rfl
  cases k with
  | target name => exact ⟨(current.getD {}).withTarget name, hcond, fun _ => rfl⟩
  | action a => exact ⟨(current.getD {}).withAction a, hcond, fun _ => rfl⟩
  | _ => cases hk

/-- Of a run that others follow, only the transition that is still open can change. -/
theorem exists_current (xs : List Token) :
    ∃ (ts : List Transition) (current : Option Transition), (∀ t ∈ current, t.cond = none) ∧
      ∀ ys, group (xs ++ ys) = ts ++ groupFrom current ys := by
  induction xs using List.reverseRecOn with
  | nil => exact ⟨[], none, nofun, fun _ => rfl⟩
  | append_singleton xs k ih =>
      obtain ⟨ts, current, hcond, hgroup⟩ := ih
      simp only [List.append_assoc, List.singleton_append, hgroup]
      by_cases hk : k.isOpen = true
      · obtain ⟨t, ht, hopen⟩ := groupFrom_of_isOpen hcond hk
        refine ⟨ts, some t, ?_, fun ys => congrArg (ts ++ ·) (hopen ys)⟩
        rintro _ ⟨⟩
        exact ht
      · cases k with
        | transition t =>
            exact ⟨ts ++ (current.toList ++ [t]), none, nofun, fun ys => by simp [groupFrom]⟩
        | cond guard =>
            exact ⟨ts ++ [(current.getD {}).withCond guard], none, nofun,
              fun ys => by simp [groupFrom]⟩
        | _ => exact absurd rfl hk

/-- The two transitions at a seam that nothing parts become one. -/
theorem group_append_of_not_parted {xs ys : List Token} (h : ¬Parted xs ys) :
    ∃ ts t u us, group xs = ts ++ [t] ∧ group ys = u :: us ∧
      group (xs ++ ys) = ts ++ t.join u :: us := by
  rw [parted_iff] at h
  push Not at h
  obtain ⟨a, ha, b, hb, hjoins⟩ := h
  rw [Bool.ne_false_iff] at hjoins
  obtain ⟨hopen, hprim⟩ := Bool.and_eq_true_iff.mp hjoins
  obtain ⟨front, rfl⟩ := List.getLast?_eq_some_iff.mp ha
  obtain ⟨back, rfl⟩ := List.head?_eq_some_iff.mp hb
  obtain ⟨ts, current, hcond, hfront⟩ := exists_current front
  obtain ⟨t, ht, hcurrent⟩ := groupFrom_of_isOpen hcond hopen
  have hgroup (zs : List Token) : group (front ++ [a] ++ zs) = ts ++ groupFrom (some t) zs := by
    rw [List.append_assoc, hfront, List.singleton_append, hcurrent]
  -- A transition without any part is open before the first token of `ys` as none is.
  have hblank : groupFrom (some {}) (b :: back) = group (b :: back) := by
    cases b with
    | transition u => cases hprim
    | _ => rfl
  obtain ⟨u, us, hu, hjoin⟩ := groupFrom_join t {} (b :: back)
  rw [Transition.join_blank ht] at hjoin
  refine ⟨ts, t, u, us, ?_, hblank ▸ hu, by rw [hgroup, hjoin]⟩
  simpa [groupFrom] using hgroup []

/-! ## Both sides of a seam -/

theorem group_map_transition (ts : List Transition) : group (ts.map .transition) = ts := by
  induction ts with
  | nil => rfl
  | cons t ts ih => exact congrArg (t :: ·) ih

theorem parted_map_transition (ts : List Transition) (ys : List Token) :
    Parted (ts.map .transition) ys := by
  rw [Parted, List.getLast?_map]
  cases h : ts.getLast? with
  | none => exact Or.inl (by rw [List.getLast?_eq_none_iff.mp h, List.map_nil])
  | some t => exact Or.inr (Or.inr (Or.inr (Or.inl ⟨t, rfl⟩)))

/-- Two runs are grouped one by one where they are parted. Elsewhere the last transition of the first
and the first of the second are one, and the others stay as they are. Transitions that are put back
as finished ones are parted from what follows. -/
theorem groupTokens_append (xs ys : List Token) :
    (Parted xs ys → (groupTokens (xs ++ ys)).outcome = .ok (group xs ++ group ys)) ∧
    (¬Parted xs ys → ∃ ts t u us, group xs = ts ++ [t] ∧ group ys = u :: us ∧
      (groupTokens (xs ++ ys)).outcome = .ok (ts ++ t.join u :: us)) ∧
    (groupTokens ((group xs).map .transition ++ ys)).outcome = .ok (group xs ++ group ys) := by
  have houtcome (tokens : List Token) : (groupTokens tokens).outcome = .ok (group tokens) := rfl
  simp only [houtcome, Except.ok.injEq]
  refine ⟨group_append, group_append_of_not_parted, ?_⟩
  rw [group_append (parted_map_transition _ ys), group_map_transition]

/-- A guard parts two runs. Without it, a transition keeps its actions and gets a later target. -/
theorem groupTokens_append_seams :
    let guarded : List Token := [.target "a", .cond (.named "p")]
    let unguarded : List Token := [.cond (.named "p"), .target "a", .action (.named "x")]
    let ys : List Token := [.action (.named "y"), .target "b", .cond (.named "q"), .target "c"]
    Parted guarded ys ∧
    (groupTokens (guarded ++ ys)).outcome = .ok [
      { target := some "a", cond := some (.named "p") },
      { target := some "b", actions := some [.named "y"], cond := some (.named "q") },
      { target := some "c" }] ∧
    ¬Parted unguarded ys ∧ ∃ ts t u us, group unguarded = ts ++ [t] ∧ group ys = u :: us ∧
      ts ++ t.join u :: us = [{ cond := some (.named "p") },
        { target := some "b", actions := some [.named "x", .named "y"], cond := some (.named "q") },
        { target := some "c" }] := by
  intro guarded unguarded ys
  have hparted : Parted guarded ys := Or.inr (Or.inr (Or.inl ⟨.named "p", rfl⟩))
  have hnot : ¬Parted unguarded ys := by
    simp [Parted, unguarded, ys]
  obtain ⟨ts, t, u, us, hxs, hys, hgroup⟩ := (groupTokens_append unguarded ys).2.1 hnot
  exact ⟨hparted, (groupTokens_append guarded ys).1 hparted, hnot, ts, t, u, us, hxs, hys,
    (Except.ok.inj hgroup).symm⟩

end Statechart
