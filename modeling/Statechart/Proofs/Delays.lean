import Statechart.Builder.Clause
import Statechart.Proofs.NumberText
import Statechart.Proofs.Union

/-!
# Delayed transitions

Delayed transitions are filed under the text of their delays, and of each text the last ones count
(`Builder.after_eq_latest`). A number of milliseconds has a text of its own among the numbers, since a
number is determined by its numeral (`Decimal.isNumeral_iff`); it can only be taken for a delay of
which this numeral is the name.
-/

namespace Statechart

/-! ## Numerals -/

namespace Decimal

/-- The text is the decimal numeral of the number: digits that have its value, with no zero in front
of other digits. -/
structure IsNumeral (text : String) (n : Nat) : Prop where
  nonempty : text.toList ≠ []
  digits : ∀ c ∈ text.toList, c.isDigit = true
  unpadded : text.toList.head? = some '0' → text = "0"
  value : Nat.ofDigitChars 10 text.toList 0 = n

theorem digitChar_of_isDigit {c : Char} (h : c.isDigit = true) :
    c.toNat - '0'.toNat < 10 ∧ Nat.digitChar (c.toNat - '0'.toNat) = c := by
  obtain ⟨hlow, hhigh⟩ := Char.isDigit_iff_toNat.mp h
  change 48 ≤ c.toNat at hlow
  change c.toNat ≤ 57 at hhigh
  change c.toNat - 48 < 10 ∧ Nat.digitChar (c.toNat - 48) = c
  have hlt : c.toNat - 48 < 10 := by omega
  refine ⟨hlt, Char.toNat_inj.mp ?_⟩
  rw [Nat.toNat_digitChar_of_lt_ten hlt]
  omega

/-- Digits that are read after a number that is not zero continue its numeral. -/
theorem toDigits_append {acc : Nat} (hacc : 0 < acc) {cs : List Char}
    (h : ∀ c ∈ cs, c.isDigit = true) :
    Nat.toDigits 10 acc ++ cs = Nat.toDigits 10 (Nat.ofDigitChars 10 cs acc) := by
  induction cs generalizing acc with
  | nil => rw [List.append_nil, Nat.ofDigitChars_nil]
  | cons c cs ih =>
      obtain ⟨hc, hcs⟩ := List.forall_mem_cons.mp h
      obtain ⟨hlt, hchar⟩ := digitChar_of_isDigit hc
      have hstep := Nat.toDigits_append_toDigits (by decide : 1 < 10) hacc hlt
      rw [Nat.toDigits_of_lt_base hlt, hchar] at hstep
      rw [Nat.ofDigitChars_cons, ← ih (by omega) hcs, ← hstep, List.append_assoc]
      rfl

theorem head?_toDigits {n : Nat} (h : (Nat.toDigits 10 n).head? = some '0') : n = 0 := by
  induction n using Nat.strong_induction_on with
  | _ n ih =>
      rw [Nat.toDigits_eq_if (by decide)] at h
      split at h
      · next hlt =>
          have hchar := congrArg Char.toNat (Option.some.inj h)
          rw [Nat.toNat_digitChar_of_lt_ten hlt] at hchar
          change 48 + n = 48 at hchar
          omega
      · next hge =>
          rw [List.head?_append_of_ne_nil _ Nat.toDigits_ne_nil] at h
          have hzero := ih (n / 10) (by omega) h
          omega

theorem isNumeral_repr (n : Nat) : IsNumeral n.repr n := by
  constructor
  · rw [Nat.toList_repr]
    exact Nat.toDigits_ne_nil
  · rw [Nat.toList_repr]
    exact isDigit_toDigits n
  · rw [Nat.toList_repr]
    intro h
    rw [head?_toDigits h]
    rfl
  · rw [Nat.toList_repr, Nat.ofDigitChars_ten_toDigits]

/-- A number has no other numeral than the one that is printed. -/
theorem isNumeral_iff {text : String} {n : Nat} : IsNumeral text n ↔ text = n.repr := by
  constructor
  · rintro ⟨hne, hdigits, hunpadded, hvalue⟩
    by_cases hzero : text.toList.head? = some '0'
    · rw [← hvalue, hunpadded hzero]
      rfl
    · obtain ⟨c, cs, htext⟩ := List.exists_cons_of_ne_nil hne
      rw [htext] at hdigits hvalue hzero
      obtain ⟨hc, hcs⟩ := List.forall_mem_cons.mp hdigits
      obtain ⟨hlt, hchar⟩ := digitChar_of_isDigit hc
      have hpos : 0 < c.toNat - '0'.toNat := by
        rw [Nat.pos_iff_ne_zero]
        intro h
        rw [h] at hchar
        exact hzero (congrArg some hchar.symm)
      have happend := toDigits_append hpos hcs
      rw [Nat.toDigits_of_lt_base hlt, hchar] at happend
      rw [Nat.ofDigitChars_cons, Nat.mul_zero, Nat.zero_add] at hvalue
      apply String.toList_injective
      rw [htext, Nat.toList_repr, ← hvalue, ← happend]
      rfl
  · rintro rfl
    exact isNumeral_repr n

end Decimal

/-! ## Delays under one text -/

namespace Delay

/-- The same delay, or a number of milliseconds and a delay whose name is the numeral of this
number. -/
inductive Coincide : Delay → Delay → Prop where
  | refl (d : Delay) : Coincide d d
  | millis_named {n : Nat} {name : String} (h : Decimal.IsNumeral name n) :
      Coincide (millis n) (named name)
  | named_millis {n : Nat} {name : String} (h : Decimal.IsNumeral name n) :
      Coincide (named name) (millis n)

/-- Whether a delay is a number of milliseconds. -/
def isMillis : Delay → Bool
  | millis _ => true
  | named _ => false

theorem key_eq_iff {d e : Delay} : d.key = e.key ↔ d.Coincide e := by
  constructor
  · intro h
    match d, e with
    | millis m, millis n =>
        have hm : Decimal.IsNumeral n.repr m := Decimal.isNumeral_iff.mpr h.symm
        rw [← hm.value, (Decimal.isNumeral_repr n).value]
        exact .refl _
    | millis n, named name => exact .millis_named (Decimal.isNumeral_iff.mpr h.symm)
    | named name, millis n => exact .named_millis (Decimal.isNumeral_iff.mpr h)
    | named name, named name' =>
        rw [show name = name' from h]
        exact .refl _
  · intro h
    cases h with
    | refl => rfl
    | millis_named h => exact (Decimal.isNumeral_iff.mp h).symm
    | named_millis h => exact Decimal.isNumeral_iff.mp h

instance (d e : Delay) : Decidable (d.Coincide e) := decidable_of_iff _ key_eq_iff

/-- Delays of the same sort coincide only with themselves. -/
theorem Coincide.eq {d e : Delay} (h : d.Coincide e) (hsort : d.isMillis = e.isMillis) : d = e := by
  cases h with
  | refl => rfl
  | millis_named h => cases hsort
  | named_millis h => cases hsort

end Delay

/-! ## The table -/

namespace Builder

theorem get?_delays (delays : List Delayed) (d : Delay) :
    (Table.ofList (delays.map fun d => (d.delay.key, d.transitions))).get? d.key =
      (delays.findRev? (d.Coincide ·.delay)).map (·.transitions) := by
  have hcoincide : (fun e : Delayed => decide (e.delay.key = d.key)) =
      fun e => decide (d.Coincide e.delay) :=
    funext fun _ => decide_eq_decide.mpr (eq_comm.trans Delay.key_eq_iff)
  rw [Table.get?_ofList_map, hcoincide]

theorem exists_findRev?_coincide {delays : List Delayed} {d : Delayed} (h : d ∈ delays) :
    ∃ e ∈ delays, delays.findRev? (d.delay.Coincide ·.delay) = some e ∧
      d.delay.Coincide e.delay := by
  obtain ⟨e, he⟩ : ∃ e, delays.reverse.find? (d.delay.Coincide ·.delay) = some e := by
    rw [← Option.isSome_iff_exists, List.find?_isSome]
    exact ⟨d, List.mem_reverse.mpr h, decide_eq_true (.refl _)⟩
  have hcoincide := List.find?_some he
  exact ⟨e, List.mem_reverse.mp (List.mem_of_find?_eq_some he),
    List.findRev?_eq_find?_reverse.trans he, by simpa using hcoincide⟩

/-- Two delays are filed under one key only if they are equal or one is a number of milliseconds and
the other has its numeral as name. The keys stand in the order in which they first occur, and each
has the transitions of the last delay with this key; so a delay never takes the place of another
one of the same sort. -/
theorem after_eq_latest (delays : List Delayed) :
    (∀ d e : Delay, d.key = e.key ↔ d.Coincide e) ∧
    ∃ table, after delays = .after table ∧ table.Distinct ∧
      table.keys = (delays.map (·.delay.key)).eraseDups ∧
      (∀ d : Delay, table.get? d.key =
        (delays.findRev? (d.Coincide ·.delay)).map (·.transitions)) ∧
      ∀ d ∈ delays, ∃ e ∈ delays, table.get? d.delay.key = some e.transitions ∧
        d.delay.Coincide e.delay ∧ (d.delay.isMillis = e.delay.isMillis → d.delay = e.delay) := by
  refine ⟨fun _ _ => Delay.key_eq_iff, _, rfl, Table.distinct_ofList _, Table.keys_ofList_map _ _,
    get?_delays delays, fun d hd => ?_⟩
  obtain ⟨e, he, hlast, hcoincide⟩ := exists_findRev?_coincide hd
  refine ⟨e, he, ?_, hcoincide, hcoincide.eq⟩
  rw [get?_delays, hlast, Option.map_some]

/-- A name that is a numeral with a zero in front coincides with no number. -/
example :
    after [⟨.millis 10, [.ofTarget "a"]⟩, ⟨.named "010", [.ofTarget "b"]⟩,
        ⟨.named "10", [.ofTarget "c"]⟩] =
      .after ⟨[("10", [.ofTarget "c"]), ("010", [.ofTarget "b"])]⟩ := rfl

end Builder

end Statechart
