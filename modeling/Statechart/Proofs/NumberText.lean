import Mathlib.Data.List.TakeWhile
import Mathlib.Tactic.Ring
import Statechart.Json.Printer

/-!
# The text of numbers

The text of a number determines the number (`numberChars_injective`). For a decimal fraction that is
seen by reading it: every layout of the digits shows the same number, up to zeros at the end, and a
decimal fraction has none.
-/

namespace Statechart

namespace Decimal

/-! ## Reading a magnitude -/

/-- The power of ten that an exponent part stands for; without one it is zero. -/
def exponentOf : List Char → Int
  | 'e' :: '-' :: ds => -(Nat.ofDigitChars 10 ds 0 : Int)
  | 'e' :: _ :: ds => Nat.ofDigitChars 10 ds 0
  | _ => 0

/-- The digits of a text as one number, and the power of ten that goes with it: the exponent less
the number of digits after the point. -/
def reading (text : List Char) : Nat × Int :=
  let mantissa := text.takeWhile (· != 'e')
  let fraction := (mantissa.dropWhile (· != '.')).drop 1
  (Nat.ofDigitChars 10 (mantissa.filter Char.isDigit) 0,
    exponentOf (text.dropWhile (· != 'e')) - fraction.length)

theorem exponentOf_exponentChars (e : Int) : exponentOf ('e' :: exponentChars e) = e := by
  unfold exponentChars
  by_cases h : e < 0
  · rw [if_pos h, exponentOf, Nat.ofDigitChars_ten_toDigits]
    omega
  · rw [if_neg h]
    change ((Nat.ofDigitChars 10 (Nat.toDigits 10 e.natAbs) 0 : Nat) : Int) = e
    rw [Nat.ofDigitChars_ten_toDigits]
    omega

section

variable {whole fraction tail : List Char} (hwhole : ∀ c ∈ whole, c.isDigit = true)
  (htail : tail = [] ∨ ∃ rest, tail = 'e' :: rest)

theorem ne_of_isDigit {c d : Char} (hc : c.isDigit = true) (hd : d.isDigit = false) :
    (c != d) = true := by
  rw [bne_iff_ne]
  rintro rfl
  rw [hc] at hd
  cases hd

include htail

theorem span_mantissa {mantissa : List Char} (h : ∀ c ∈ mantissa, (c != 'e') = true) :
    (mantissa ++ tail).takeWhile (· != 'e') = mantissa ∧
      (mantissa ++ tail).dropWhile (· != 'e') = tail := by
  rw [List.takeWhile_append_of_pos h, List.dropWhile_append_of_pos h]
  rcases htail with rfl | ⟨rest, rfl⟩ <;> simp

include hwhole

theorem reading_append :
    reading (whole ++ tail) = (Nat.ofDigitChars 10 whole 0, exponentOf tail) := by
  have hspan := span_mantissa htail fun c hc => ne_of_isDigit (hwhole c hc) rfl
  have hpoint : whole.dropWhile (· != '.') = [] :=
    List.dropWhile_eq_nil_iff.mpr fun c hc => ne_of_isDigit (hwhole c hc) rfl
  simp only [reading, hspan.1, hspan.2, hpoint, List.filter_eq_self.mpr hwhole]
  simp

theorem reading_point (hfraction : ∀ c ∈ fraction, c.isDigit = true) :
    reading (whole ++ '.' :: fraction ++ tail) =
      (Nat.ofDigitChars 10 (whole ++ fraction) 0, exponentOf tail - fraction.length) := by
  have hmantissa : ∀ c ∈ whole ++ '.' :: fraction, (c != 'e') = true := by
    intro c hc
    rcases List.mem_append.mp hc with hc | hc
    · exact ne_of_isDigit (hwhole c hc) rfl
    · rcases List.mem_cons.mp hc with rfl | hc
      · rfl
      · exact ne_of_isDigit (hfraction c hc) rfl
  have hspan := span_mantissa htail hmantissa
  have hpoint : (whole ++ '.' :: fraction).dropWhile (· != '.') = '.' :: fraction := by
    rw [List.dropWhile_append_of_pos fun c hc => ne_of_isDigit (hwhole c hc) rfl]
    rfl
  have hdigits : (whole ++ '.' :: fraction).filter Char.isDigit = whole ++ fraction := by
    rw [List.filter_append, List.filter_cons_of_neg (by decide), List.filter_eq_self.mpr hwhole,
      List.filter_eq_self.mpr hfraction]
  simp only [reading, hspan.1, hspan.2, hpoint, hdigits]
  rfl

/-- The point can stand anywhere among the digits. -/
theorem reading_split (k : Nat) :
    reading (whole.take k ++ '.' :: whole.drop k ++ tail) =
      (Nat.ofDigitChars 10 whole 0, exponentOf tail - (whole.length - k : Nat)) := by
  rw [reading_point (fun c hc => hwhole c (List.mem_of_mem_take hc)) htail
    (fun c hc => hwhole c (List.mem_of_mem_drop hc)), List.take_append_drop, List.length_drop]

end

/-! ## The layouts -/

theorem isDigit_toDigits (n : Nat) : ∀ c ∈ Nat.toDigits 10 n, c.isDigit = true :=
  fun _ => Nat.isDigit_of_mem_toDigits (by decide) (by decide)

theorem isDigit_replicate (k : Nat) : ∀ c ∈ List.replicate k '0', c.isDigit = true :=
  List.forall_mem_replicate.mpr (Or.inr rfl)

section

variable {ds : List Char} (hds : ∀ c ∈ ds, c.isDigit = true)

include hds

theorem reading_whole (k : Nat) :
    reading (ds ++ List.replicate k '0' ++ ['.', '0']) =
      (Nat.ofDigitChars 10 ds 0 * 10 ^ (k + 1), -1) := by
  have h := reading_point (List.forall_mem_append.mpr ⟨hds, isDigit_replicate k⟩) (Or.inl rfl)
    (isDigit_replicate 1)
  rw [List.append_nil, Nat.ofDigitChars_append, Nat.ofDigitChars_append,
    Nat.ofDigitChars_replicate_zero, Nat.ofDigitChars_replicate_zero] at h
  refine h.trans (Prod.ext ?_ rfl)
  ring

theorem reading_leading (k : Nat) :
    reading ('0' :: '.' :: List.replicate k '0' ++ ds) =
      (Nat.ofDigitChars 10 ds 0, -((k + ds.length : Nat) : Int)) := by
  have h := reading_point (isDigit_replicate 1) (Or.inl rfl)
    (List.forall_mem_append.mpr ⟨isDigit_replicate k, hds⟩)
  rw [List.append_nil, Nat.ofDigitChars_append, Nat.ofDigitChars_append,
    Nat.ofDigitChars_replicate_zero, Nat.ofDigitChars_replicate_zero, Nat.mul_zero,
    List.length_append, List.length_replicate] at h
  exact h.trans (Prod.ext rfl (Int.zero_sub _))

end

/-- Every layout shows the number, perhaps with more zeros at its end. -/
theorem reading_magnitudeChars (n : Nat) (exponent : Int) :
    ∃ zeros : Nat, reading (magnitudeChars (Nat.toDigits 10 n) exponent) =
      (n * 10 ^ zeros, exponent - zeros) := by
  have hds := isDigit_toDigits n
  have hvalue : Nat.ofDigitChars 10 (Nat.toDigits 10 n) 0 = n := Nat.ofDigitChars_ten_toDigits
  have hpos : 0 < (Nat.toDigits 10 n).length := Nat.length_toDigits_pos
  generalize Nat.toDigits 10 n = ds at hds hvalue hpos
  -- Only the layout as a whole number adds zeros.
  have hexact {text : List Char} {e : Int} (h : reading text = (Nat.ofDigitChars 10 ds 0, e))
      (he : e = exponent) : ∃ zeros : Nat, reading text = (n * 10 ^ zeros, exponent - zeros) :=
    ⟨0, by rw [h, hvalue, he, pow_zero, mul_one, Nat.cast_zero, sub_zero]⟩
  unfold magnitudeChars
  dsimp only
  split_ifs with h₁ h₂ h₃
  · refine ⟨exponent.toNat + 1, (reading_whole hds _).trans (Prod.ext (by rw [hvalue]) ?_)⟩
    dsimp only
    omega
  · have h := reading_split hds (Or.inl rfl) (ds.length + exponent).toNat
    rw [List.append_nil] at h
    exact hexact h (by simp only [exponentOf]; omega)
  · exact hexact (reading_leading hds _) (by omega)
  · have htail (e : Int) :
        'e' :: exponentChars e = [] ∨ ∃ rest, 'e' :: exponentChars e = 'e' :: rest :=
      Or.inr ⟨_, rfl⟩
    split
    · refine hexact (reading_append hds (htail _)) ?_
      rw [exponentOf_exponentChars]
      simp
    · refine hexact (reading_split hds (htail _) 1) ?_
      rw [exponentOf_exponentChars]
      omega

/-! ## Decimal fractions -/

/-- A magnitude has one form without zeros at the end. -/
theorem eq_of_scaled {d d' : Decimal} {a b : Nat} (hab : a ≤ b)
    (hdigits : d.digits * 10 ^ a = d'.digits * 10 ^ b) (hexponent : d.exponent - a = d'.exponent - b) :
    d.digits = d'.digits ∧ d.exponent = d'.exponent := by
  obtain ⟨k, rfl⟩ := Nat.exists_eq_add_of_le hab
  have hpow : 0 < 10 ^ a := Nat.pow_pos (by decide)
  have hscaled : d.digits = d'.digits * 10 ^ k := by
    apply Nat.eq_of_mul_eq_mul_right hpow
    rw [hdigits, pow_add]
    ring
  cases k with
  | zero => exact ⟨by simpa using hscaled, by simpa using hexponent⟩
  | succ k =>
      -- A number that ends in a zero is zero, and then both are.
      have hmod : d.digits % 10 = 0 := by
        rw [hscaled, pow_succ, ← mul_assoc]
        exact Nat.mul_mod_left _ _
      obtain ⟨hzero, hexp⟩ := d.canonical.resolve_left fun h => h hmod
      have hzero' : d'.digits = 0 := by
        rw [hzero] at hscaled
        exact (Nat.mul_eq_zero.mp hscaled.symm).resolve_right (Nat.pow_pos (by decide)).ne'
      have hexp' : d'.exponent = 0 := (d'.canonical.resolve_left fun h => h (by rw [hzero'])).2
      rw [hzero, hzero', hexp, hexp']
      exact ⟨rfl, rfl⟩

/-- Zero is laid out like any other number. -/
theorem toChars_eq (d : Decimal) :
    d.toChars = (if d.negative then ['-'] else []) ++
      magnitudeChars (Nat.toDigits 10 d.digits) d.exponent := by
  rw [toChars]
  split_ifs with hneg hzero hzero <;> try rfl
  all_goals
    have hdigits : d.digits = 0 := by simpa [isZero] using hzero
    have hexp : d.exponent = 0 := (d.canonical.resolve_left fun h => h (by rw [hdigits])).2
    rw [hdigits, hexp]
    rfl

theorem magnitudeChars_inj {d d' : Decimal}
    (h : magnitudeChars (Nat.toDigits 10 d.digits) d.exponent =
      magnitudeChars (Nat.toDigits 10 d'.digits) d'.exponent) :
    d.digits = d'.digits ∧ d.exponent = d'.exponent := by
  obtain ⟨a, ha⟩ := reading_magnitudeChars d.digits d.exponent
  obtain ⟨b, hb⟩ := reading_magnitudeChars d'.digits d'.exponent
  rw [h, hb] at ha
  obtain ⟨hdigits, hexponent⟩ := Prod.mk.inj ha
  rcases le_total a b with hab | hab
  · exact eq_of_scaled hab hdigits.symm hexponent.symm
  · obtain ⟨h₁, h₂⟩ := eq_of_scaled hab hdigits hexponent
    exact ⟨h₁.symm, h₂.symm⟩

theorem exists_digit_magnitudeChars {ds : List Char} (hne : ds ≠ []) (hds : ∀ c ∈ ds, c.isDigit = true)
    (exponent : Int) :
    ∃ c cs, magnitudeChars ds exponent = c :: cs ∧ c.isDigit = true := by
  obtain ⟨c, cs, rfl⟩ := List.exists_cons_of_ne_nil hne
  have hc : c.isDigit = true := hds c List.mem_cons_self
  unfold magnitudeChars
  dsimp only
  split_ifs with h₁ h₂ h₃
  · exact ⟨c, _, rfl, hc⟩
  · obtain ⟨k, hk⟩ : ∃ k, ((c :: cs).length + exponent).toNat = k + 1 :=
      Nat.exists_eq_add_one_of_ne_zero (by omega)
    rw [hk]
    exact ⟨c, _, rfl, hc⟩
  · exact ⟨'0', _, rfl, rfl⟩
  · cases cs <;> exact ⟨c, _, rfl, hc⟩

end Decimal

namespace Json

/-- Whether a character can occur in the text of a number. -/
def isNumeralChar (c : Char) : Bool :=
  c.isDigit || c == '-' || c == '+' || c == '.' || c == 'e'

end Json

namespace Decimal

theorem isNumeralChar_of_isDigit {c : Char} (h : c.isDigit = true) : Json.isNumeralChar c = true := by
  simp [Json.isNumeralChar, h]

theorem isNumeralChar_exponentChars (e : Int) :
    ∀ c ∈ exponentChars e, Json.isNumeralChar c = true := by
  unfold exponentChars
  refine List.forall_mem_cons.mpr ⟨?_, fun c hc => isNumeralChar_of_isDigit (isDigit_toDigits _ c hc)⟩
  split_ifs <;> rfl

theorem isNumeralChar_magnitudeChars {ds : List Char} (hds : ∀ c ∈ ds, c.isDigit = true)
    (exponent : Int) : ∀ c ∈ magnitudeChars ds exponent, Json.isNumeralChar c = true := by
  have hall : ∀ c ∈ ds, Json.isNumeralChar c = true :=
    fun c hc => isNumeralChar_of_isDigit (hds c hc)
  have hzeros (k : Nat) : ∀ c ∈ List.replicate k '0', Json.isNumeralChar c = true :=
    List.forall_mem_replicate.mpr (Or.inr rfl)
  have hpoint (k : Nat) : ∀ c ∈ ds.take k ++ '.' :: ds.drop k, Json.isNumeralChar c = true :=
    List.forall_mem_append.mpr ⟨fun c hc => hall c (List.mem_of_mem_take hc),
      List.forall_mem_cons.mpr ⟨rfl, fun c hc => hall c (List.mem_of_mem_drop hc)⟩⟩
  have hexponent (e : Int) : ∀ c ∈ 'e' :: exponentChars e, Json.isNumeralChar c = true :=
    List.forall_mem_cons.mpr ⟨rfl, isNumeralChar_exponentChars e⟩
  unfold magnitudeChars
  dsimp only
  split_ifs with h₁ h₂ h₃
  · exact List.forall_mem_append.mpr ⟨List.forall_mem_append.mpr ⟨hall, hzeros _⟩,
      List.forall_mem_cons.mpr ⟨rfl, List.forall_mem_singleton.mpr rfl⟩⟩
  · exact hpoint _
  · exact List.forall_mem_cons.mpr ⟨rfl, List.forall_mem_cons.mpr ⟨rfl,
      List.forall_mem_append.mpr ⟨hzeros _, hall⟩⟩⟩
  · split
    · exact List.forall_mem_append.mpr ⟨hall, hexponent _⟩
    · exact List.forall_mem_append.mpr ⟨hpoint 1, hexponent _⟩

theorem not_digits_magnitudeChars (ds : List Char) (exponent : Int) :
    '.' ∈ magnitudeChars ds exponent ∨ 'e' ∈ magnitudeChars ds exponent := by
  unfold magnitudeChars
  dsimp only
  split_ifs with h₁ h₂ h₃
  · simp
  · simp
  · simp
  · split <;> simp

end Decimal

/-! ## Numbers -/

/-- A sign is told from the digits that follow it. -/
theorem sign_append_inj {p q : Prop} [Decidable p] [Decidable q] {xs ys : List Char}
    (hxs : ∃ c cs, xs = c :: cs ∧ c.isDigit = true) (hys : ∃ c cs, ys = c :: cs ∧ c.isDigit = true)
    (h : (if p then ['-'] else []) ++ xs = (if q then ['-'] else []) ++ ys) : (p ↔ q) ∧ xs = ys := by
  obtain ⟨c, cs, rfl, hc⟩ := hxs
  obtain ⟨d, ds, rfl, hd⟩ := hys
  split_ifs at h with hp hq hq
  · exact ⟨iff_of_true hp hq, (List.cons.inj h).2⟩
  · rw [← (List.cons.inj h).1] at hd
    cases hd
  · rw [(List.cons.inj h).1] at hc
    cases hc
  · exact ⟨iff_of_false hp hq, h⟩

theorem exists_digit_toDigits (n : Nat) :
    ∃ c cs, Nat.toDigits 10 n = c :: cs ∧ c.isDigit = true := by
  obtain ⟨c, cs, hcs⟩ := List.exists_cons_of_ne_nil (Nat.toDigits_ne_nil : Nat.toDigits 10 n ≠ [])
  exact ⟨c, cs, hcs, Decimal.isDigit_toDigits n c (hcs ▸ List.mem_cons_self)⟩

namespace Decimal

theorem exists_digit (d : Decimal) :
    ∃ c cs, magnitudeChars (Nat.toDigits 10 d.digits) d.exponent = c :: cs ∧ c.isDigit = true :=
  exists_digit_magnitudeChars Nat.toDigits_ne_nil (isDigit_toDigits _) _

theorem toChars_injective : Function.Injective toChars := by
  intro d d' h
  rw [toChars_eq, toChars_eq] at h
  obtain ⟨hsign, hmagnitude⟩ := sign_append_inj d.exists_digit d'.exists_digit h
  obtain ⟨hdigits, hexponent⟩ := magnitudeChars_inj hmagnitude
  cases d
  cases d'
  simp only [Decimal.mk.injEq]
  exact ⟨Bool.eq_iff_iff.mpr hsign, hdigits, hexponent⟩

end Decimal

namespace Json

theorem intChars_injective : Function.Injective intChars := by
  intro m n h
  obtain ⟨hsign, hdigits⟩ := sign_append_inj (exists_digit_toDigits _) (exists_digit_toDigits _) h
  have habs : m.natAbs = n.natAbs := by
    rw [← @Nat.ofDigitChars_ten_toDigits m.natAbs, hdigits, Nat.ofDigitChars_ten_toDigits]
  omega

theorem intChars_ne_toChars (n : Int) (d : Decimal) : intChars n ≠ d.toChars := by
  intro h
  have hint : ∀ c ∈ intChars n, c = '-' ∨ c.isDigit = true := by
    intro c hc
    rcases List.mem_append.mp hc with hc | hc
    · split_ifs at hc
      · exact Or.inl (List.mem_singleton.mp hc)
      · cases hc
    · exact Or.inr (Decimal.isDigit_toDigits _ c hc)
  rw [h, Decimal.toChars_eq] at hint
  rcases Decimal.not_digits_magnitudeChars (Nat.toDigits 10 d.digits) d.exponent with hc | hc <;>
    rcases hint _ (List.mem_append_right _ hc) with he | he <;> cases he

theorem numberChars_injective : Function.Injective numberChars := by
  intro m n h
  cases m with
  | int m =>
      cases n with
      | int n => exact congrArg Number.int (intChars_injective h)
      | decimal d => exact absurd h (intChars_ne_toChars m d)
  | decimal d =>
      cases n with
      | int n => exact absurd h.symm (intChars_ne_toChars n d)
      | decimal d' => exact congrArg Number.decimal (Decimal.toChars_injective h)

theorem isNumeralChar_numberChars (n : Number) : ∀ c ∈ numberChars n, isNumeralChar c = true := by
  have hsign {p : Prop} [Decidable p] : ∀ c ∈ if p then ['-'] else [], isNumeralChar c = true := by
    split_ifs
    · exact List.forall_mem_singleton.mpr rfl
    · exact List.forall_mem_nil _
  cases n with
  | int n => exact List.forall_mem_append.mpr ⟨hsign, fun c hc =>
      Decimal.isNumeralChar_of_isDigit (Decimal.isDigit_toDigits _ c hc)⟩
  | decimal d =>
      rw [numberChars, Decimal.toChars_eq]
      exact List.forall_mem_append.mpr ⟨hsign,
        Decimal.isNumeralChar_magnitudeChars (Decimal.isDigit_toDigits _) _⟩

end Json

end Statechart
