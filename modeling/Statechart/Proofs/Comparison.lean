import Statechart.Proofs.Matching

/-!
# Comparisons

A comparison may behave like an equivalence at one value whatever the value is compared with. This
passes from the parts of a value to the value: to records (`EquivAt.on`, `EquivAt.and`), to the kinds
of an inductive type (`EquivAt.make`), to options, lists and tables with distinct keys
(`EquivAt.table`).
-/

namespace Statechart

variable {α β : Type}

/-- A comparison behaves like an equivalence at the value `a`, whatever `a` is compared with. -/
structure EquivAt (r : α → α → Bool) (a : α) : Prop where
  refl : r a a
  symm {b : α} : r a b → r b a
  trans {b c : α} : r a b → r b c → r a c

namespace EquivAt

theorem of_lawful [BEq α] [LawfulBEq α] (a : α) : EquivAt (· == ·) a where
  refl := beq_self_eq_true a
  symm h := beq_iff_eq.mpr (beq_iff_eq.mp h).symm
  trans h h' := beq_iff_eq.mp h ▸ h'

theorem of_eq {r s : α → α → Bool} {a : α} (h : EquivAt r a) (hrs : ∀ b c, s b c = r b c) :
    EquivAt s a := by
  obtain rfl : s = r := funext fun b => funext (hrs b)
  exact h

/-! ## Records -/

/-- A comparison of parts. -/
theorem on {r : β → β → Bool} (f : α → β) {a : α} (h : EquivAt r (f a)) :
    EquivAt (fun b c => r (f b) (f c)) a where
  refl := h.refl
  symm := h.symm
  trans := h.trans

theorem and {r s : α → α → Bool} {a : α} (h : EquivAt r a) (h' : EquivAt s a) :
    EquivAt (fun b c => r b c && s b c) a where
  refl := Bool.and_eq_true_iff.mpr ⟨h.refl, h'.refl⟩
  symm hab := by
    obtain ⟨hr, hs⟩ := Bool.and_eq_true_iff.mp hab
    exact Bool.and_eq_true_iff.mpr ⟨h.symm hr, h'.symm hs⟩
  trans hab hbc := by
    obtain ⟨hr, hs⟩ := Bool.and_eq_true_iff.mp hab
    obtain ⟨hr', hs'⟩ := Bool.and_eq_true_iff.mp hbc
    exact Bool.and_eq_true_iff.mpr ⟨h.trans hr hr', h'.trans hs hs'⟩

/-! ## Kinds of values -/

variable [BEq α] [BEq β]

/-- A value that is equal to no other. -/
theorem const {a : α} (h : a == a) (hsole : ∀ b, a == b → b = a) : EquivAt (· == ·) a where
  refl := h
  symm {b} hab := by
    obtain rfl := hsole b hab
    exact h
  trans {b c} hab hbc := by
    obtain rfl := hsole b hab
    exact hbc

/-- Values of one kind are compared as what they are made of, and no value of another kind is equal
to them. Mostly both hold by computation; the lists in a recursive type have a comparison of their
own, which is to be shown equal to that of lists. -/
theorem make (make : α → β) {a : α} (h : EquivAt (· == ·) a)
    (hmake : ∀ b c, (make b == make c) = (b == c) := by
      intro b c
      rfl)
    (hkind : ∀ b y, make b == y → ∃ c, y = make c := by
      intro b y hy
      cases y <;> first | exact ⟨_, rfl⟩ | cases hy) :
    EquivAt (· == ·) (make a) where
  refl := (hmake a a).trans h.refl
  symm {y} hy := by
    obtain ⟨b, rfl⟩ := hkind a y hy
    rw [hmake] at hy ⊢
    exact h.symm hy
  trans {y z} hy hz := by
    obtain ⟨b, rfl⟩ := hkind a y hy
    obtain ⟨c, rfl⟩ := hkind b z hz
    rw [hmake] at hy hz ⊢
    exact h.trans hy hz

/-! ## Options, lists and tables -/

theorem option {x : Option α} (h : ∀ a ∈ x, EquivAt (· == ·) a) : EquivAt (· == ·) x := by
  cases x with
  | none =>
      refine .const rfl fun y hy => ?_
      cases y with
      | none => rfl
      | some b => cases hy
  | some a => exact .make some (h a rfl)

theorem cons {a : α} {as : List α} (h : EquivAt (· == ·) a) (h' : EquivAt (· == ·) as) :
    EquivAt (· == ·) (a :: as) := by
  have hpair : EquivAt (· == ·) (a, as) := (h.on Prod.fst).and (h'.on Prod.snd)
  refine .make (fun p : α × List α => p.1 :: p.2) hpair (fun _ _ => List.cons_beq_cons ..) ?_
  intro p bs hbs
  cases bs with
  | nil => cases hbs
  | cons b bs => exact ⟨(b, bs), rfl⟩

theorem list {as : List α} (h : ∀ a ∈ as, EquivAt (· == ·) a) : EquivAt (· == ·) as := by
  induction as with
  | nil =>
      refine .const rfl fun bs hbs => ?_
      cases bs with
      | nil => rfl
      | cons b bs => cases hbs
  | cons a as ih =>
      obtain ⟨ha, has⟩ := List.forall_mem_cons.mp h
      exact ha.cons (ih has)

theorem table {t : Table α} (ht : t.Distinct) (h : ∀ e ∈ t.entries, EquivAt (· == ·) e.2) :
    EquivAt (· == ·) t where
  refl := by
    rw [Table.beq_iff_matches]
    exact ⟨rfl, fun e he => ⟨e.2, Table.get?_of_mem ht he, (h e he).refl⟩⟩
  symm htu := by
    rw [Table.beq_iff_matches] at htu ⊢
    exact htu.symm ht fun e he _ hab => (h e he).symm hab
  trans htu huw := by
    rw [Table.beq_iff_matches] at htu huw ⊢
    exact htu.trans huw fun e he _ _ hab hbc => (h e he).trans hab hbc

end EquivAt

/-- The table holds each key once, and its values have `P`. -/
structure Table.Keyed (P : α → Prop) (t : Table α) : Prop where
  distinct : t.Distinct
  values : ∀ e ∈ t.entries, P e.2

theorem Table.Keyed.equivAt [BEq α] {P : α → Prop} {t : Table α} (h : t.Keyed P)
    (hP : ∀ a, P a → EquivAt (· == ·) a) : EquivAt (· == ·) t :=
  .table h.distinct fun e he => hP e.2 (h.values e he)

end Statechart
