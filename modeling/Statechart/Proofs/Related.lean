import Mathlib.Data.List.Forall2
import Statechart.Report

/-!
# Related results

A relation between elements is carried over to options and lists of them, and to what is looked up
in such lists. Outcomes agree if they are the same error or related results, and reports if their
events are the same and their outcomes agree (`Report.Agree.bind`).
-/

namespace Statechart

variable {α β γ δ : Type} {R : α → β → Prop} {S : γ → δ → Prop}

/-! ## Options -/

theorem rel_map {f : α → γ} {g : β → δ} {x : Option α} {y : Option β} (hxy : Option.Rel R x y)
    (h : ∀ a b, R a b → S (f a) (g b)) : Option.Rel S (x.map f) (y.map g) := by
  cases hxy with
  | none => exact .none
  | some hab => exact .some (h _ _ hab)

theorem rel_bind {f : α → Option γ} {g : β → Option δ} {x : Option α} {y : Option β}
    (hxy : Option.Rel R x y) (h : ∀ a, x = some a → ∀ b, R a b → Option.Rel S (f a) (g b)) :
    Option.Rel S (x.bind f) (y.bind g) := by
  cases hxy with
  | none => exact .none
  | some hab => exact h _ rfl _ hab

theorem rel_or {x x' : Option α} {y y' : Option β} (h : Option.Rel R x y)
    (h' : Option.Rel R x' y') : Option.Rel R (x.or x') (y.or y') := by
  cases h with
  | none => exact h'
  | some hab => exact .some hab

theorem rel_getD {x : Option α} {y : Option β} {a : α} {b : β} (h : Option.Rel R x y)
    (hab : R a b) : R (x.getD a) (y.getD b) := by
  cases h with
  | none => exact hab
  | some h => exact h

theorem forall₂_toList {x : Option α} {y : Option β} (h : Option.Rel R x y) :
    List.Forall₂ R x.toList y.toList := by
  cases h with
  | none => exact .nil
  | some hab => exact .cons hab .nil

theorem isSome_eq_of_rel {x : Option α} {y : Option β} (h : Option.Rel R x y) :
    x.isSome = y.isSome := by
  cases h <;> rfl

/-! ## Lists -/

theorem rel_head? {as : List α} {bs : List β} (h : List.Forall₂ R as bs) :
    Option.Rel R as.head? bs.head? := by
  cases h with
  | nil => exact .none
  | cons hab _ => exact .some hab

theorem rel_getLast? {as : List α} {bs : List β} (h : List.Forall₂ R as bs) :
    Option.Rel R as.getLast? bs.getLast? := by
  rw [← List.head?_reverse, ← List.head?_reverse]
  exact rel_head? (List.rel_reverse h)

section

variable {as : List α} {bs : List β} (h : List.Forall₂ R as bs)

include h

theorem rel_filter {p : α → Bool} {q : β → Bool} (hpq : ∀ a b, R a b → p a = q b) :
    List.Forall₂ R (as.filter p) (bs.filter q) :=
  List.rel_filter (fun a b hab => Bool.eq_iff_iff.mp (hpq a b hab)) h

theorem rel_find? {p : α → Bool} {q : β → Bool} (hpq : ∀ a b, R a b → p a = q b) :
    Option.Rel R (as.find? p) (bs.find? q) := by
  rw [← List.head?_filter, ← List.head?_filter]
  exact rel_head? (rel_filter h hpq)

theorem rel_findRev? {p : α → Bool} {q : β → Bool} (hpq : ∀ a b, R a b → p a = q b) :
    Option.Rel R (as.findRev? p) (bs.findRev? q) := by
  rw [List.findRev?_eq_find?_reverse, List.findRev?_eq_find?_reverse]
  exact rel_find? (List.rel_reverse h) hpq

theorem rel_findSome? {f : α → Option γ} {g : β → Option δ}
    (hfg : ∀ a b, R a b → Option.Rel S (f a) (g b)) :
    Option.Rel S (as.findSome? f) (bs.findSome? g) := by
  rw [← List.head?_filterMap, ← List.head?_filterMap]
  exact rel_head? (List.rel_filterMap (fun a b hab => hfg a b hab) h)

theorem rel_findSomeRev? {f : α → Option γ} {g : β → Option δ}
    (hfg : ∀ a b, R a b → Option.Rel S (f a) (g b)) :
    Option.Rel S (as.findSomeRev? f) (bs.findSomeRev? g) := by
  rw [List.findSomeRev?_eq_findSome?_reverse, List.findSomeRev?_eq_findSome?_reverse]
  exact rel_findSome? (List.rel_reverse h) hfg

end

/-! ## Outcomes -/

/-- The same error, or results that are related. -/
inductive Agree {ε : Type} (R : α → β → Prop) : Except ε α → Except ε β → Prop where
  | error (e : ε) : Agree R (.error e) (.error e)
  | ok {a : α} {b : β} (h : R a b) : Agree R (.ok a) (.ok b)

theorem Agree.imp {ε : Type} {R' : α → β → Prop} {x : Except ε α} {y : Except ε β}
    (h : Agree R x y) (hR : ∀ a b, R a b → R' a b) : Agree R' x y := by
  cases h with
  | error e => exact .error e
  | ok hab => exact .ok (hR _ _ hab)

theorem Agree.bind {ε : Type} {x : Except ε α} {y : Except ε β} (h : Agree R x y)
    {f : α → Except ε γ} {g : β → Except ε δ} (hfg : ∀ a b, R a b → Agree S (f a) (g b)) :
    Agree S (x >>= f) (y >>= g) := by
  cases h with
  | error e => exact .error e
  | ok hab => exact hfg _ _ hab

namespace Report

/-- The same events, and outcomes that agree. -/
structure Agree (R : α → β → Prop) (r : Report α) (s : Report β) : Prop where
  events : r.events = s.events
  outcome : Statechart.Agree R r.outcome s.outcome

theorem agree_pure {a : α} {b : β} (h : R a b) : Agree R (pure a) (pure b) := ⟨rfl, .ok h⟩

theorem agree_fail (e : AssemblyError) : Agree R (fail e) (fail e) := ⟨rfl, .error e⟩

theorem agree_refl (r : Report α) : r.Agree Eq r := by
  obtain ⟨es, o⟩ := r
  cases o with
  | error e => exact ⟨rfl, .error e⟩
  | ok a => exact ⟨rfl, .ok rfl⟩

theorem agree_ofExcept {x : Except AssemblyError α} {y : Except AssemblyError β}
    (h : Statechart.Agree R x y) : Agree R (ofExcept x) (ofExcept y) := ⟨rfl, h⟩

theorem Agree.imp {R' : α → β → Prop} {r : Report α} {s : Report β} (h : r.Agree R s)
    (hR : ∀ a b, R a b → R' a b) : r.Agree R' s := ⟨h.events, h.outcome.imp hR⟩

theorem Agree.bind {r : Report α} {s : Report β} (h : r.Agree R s) {f : α → Report γ}
    {g : β → Report δ} (hfg : ∀ a b, R a b → (f a).Agree S (g b)) :
    (r >>= f).Agree S (s >>= g) := by
  obtain ⟨es, o⟩ := r
  obtain ⟨es', o'⟩ := s
  obtain ⟨rfl, ho⟩ := h
  cases ho with
  | error e => exact ⟨rfl, .error e⟩
  | ok hab => exact ⟨congrArg (es ++ ·) (hfg _ _ hab).events, (hfg _ _ hab).outcome⟩

end Report

end Statechart
