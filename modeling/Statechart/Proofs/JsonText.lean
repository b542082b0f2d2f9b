import Statechart.Json.Reader
import Statechart.Proofs.NumberText

/-!
# The text of JSON values

The compact text of a value determines the value, with the order of its items and members
(`render_injective`). Strings are told apart by reading them, numbers by the text of numbers, and
everything else by the first character.
-/

namespace Statechart.Json

/-! ## Strings -/

/-- The piece that is read where a character is written. -/
def pieceOf (c : Char) : Piece :=
  if c.toNat < 0x20 ∧ c ∉ ['\x08', '\t', '\n', '\x0c', '\r'] then .unit c.toNat else .char c

theorem pieceOf_injective : Function.Injective pieceOf := by
  intro c d h
  unfold pieceOf at h
  split_ifs at h
  · exact Char.toNat_inj.mp (Piece.unit.inj h)
  · exact Piece.char.inj h

theorem hexUnit?_digitChar : ∀ n < 0x20,
    Lexeme.hexUnit? '0' '0' (Nat.digitChar (n / 16)) (Nat.digitChar (n % 16)) = some n := by
  decide

/-- What is written for a character is read as its piece. -/
theorem pieces?_charChars (c : Char) (rest : List Char) :
    Lexeme.pieces? (charChars c ++ rest) =
      (Lexeme.pieces? rest).map fun r => (pieceOf c :: r.1, r.2) := by
  unfold charChars
  split
  case h_8 _ hquote hslash h₁ h₂ h₃ h₄ h₅ =>
    split_ifs with hlow
    · have hpiece : pieceOf c = .unit c.toNat := if_pos ⟨hlow, by simpa using ⟨h₁, h₂, h₃, h₄, h₅⟩⟩
      rw [List.cons_append, List.cons_append, List.cons_append, List.cons_append, List.cons_append,
        List.cons_append, List.nil_append, Lexeme.pieces?, hexUnit?_digitChar _ hlow, hpiece]
      cases Lexeme.pieces? rest <;> rfl
    · have hpiece : pieceOf c = .char c := if_neg fun h => hlow h.1
      rw [List.singleton_append, Lexeme.pieces?, if_neg hlow, hpiece]
      · cases Lexeme.pieces? rest <;> rfl
      all_goals simp_all
  all_goals
    rw [List.cons_append, List.singleton_append, Lexeme.pieces?]
    · cases Lexeme.pieces? rest <;> rfl
    · simp

theorem pieces?_quoted (cs rest : List Char) :
    Lexeme.pieces? (cs.flatMap charChars ++ '"' :: rest) = some (cs.map pieceOf, rest) := by
  induction cs with
  | nil => rfl
  | cons c cs ih => rw [List.flatMap_cons, List.append_assoc, pieces?_charChars, ih]; rfl

theorem quotedChars_append_inj {cs ds s t : List Char}
    (h : quotedChars cs ++ s = quotedChars ds ++ t) : cs = ds ∧ s = t := by
  simp only [quotedChars, List.cons_append, List.append_assoc, List.nil_append] at h
  have hread := congrArg Lexeme.pieces? (List.cons.inj h).2
  rw [pieces?_quoted, pieces?_quoted] at hread
  obtain ⟨hpieces, hrest⟩ := Prod.mk.inj (Option.some.inj hread)
  exact ⟨(List.map_inj_right fun _ _ e => pieceOf_injective e).mp hpieces, hrest⟩

theorem string_append_inj {a b : String} {s t : List Char}
    (h : quotedChars a.toList ++ s = quotedChars b.toList ++ t) : a = b ∧ s = t := by
  obtain ⟨hchars, hrest⟩ := quotedChars_append_inj h
  exact ⟨String.toList_inj.mp hchars, hrest⟩

/-! ## Numbers -/

/-- Nothing in front of the text can run on into it. -/
def Stops (s : List Char) : Prop := ∀ c ∈ s.head?, isNumeralChar c = false

theorem takeWhile_numberChars (n : Number) {s : List Char} (hs : Stops s) :
    (numberChars n ++ s).takeWhile isNumeralChar = numberChars n := by
  rw [List.takeWhile_append_of_pos (isNumeralChar_numberChars n)]
  cases s with
  | nil => rw [List.takeWhile_nil, List.append_nil]
  | cons c s => rw [List.takeWhile_cons_of_neg (by simp [hs c rfl]), List.append_nil]

theorem numberChars_append_inj {m n : Number} {s t : List Char} (hs : Stops s) (ht : Stops t)
    (h : numberChars m ++ s = numberChars n ++ t) : m = n ∧ s = t := by
  have hchars : numberChars m = numberChars n := by
    rw [← takeWhile_numberChars m hs, h, takeWhile_numberChars n ht]
  rw [hchars] at h
  exact ⟨numberChars_injective hchars, List.append_cancel_left h⟩

theorem exists_numeralChar (n : Number) : ∃ c cs, numberChars n = c :: cs ∧ isNumeralChar c = true := by
  have hne : numberChars n ≠ [] := by
    cases n with
    | int n => exact List.append_ne_nil_of_right_ne_nil _ Nat.toDigits_ne_nil
    | decimal d =>
        obtain ⟨c, cs, hcs, -⟩ := d.exists_digit
        rw [numberChars, Decimal.toChars_eq, hcs]
        exact List.append_ne_nil_of_right_ne_nil _ (List.cons_ne_nil _ _)
  obtain ⟨c, cs, hcs⟩ := List.exists_cons_of_ne_nil hne
  exact ⟨c, cs, hcs, isNumeralChar_numberChars n c (hcs ▸ List.mem_cons_self)⟩

/-! ## Values -/

/-- What the first character of its text tells of a value. -/
inductive Form where
  | null
  | bool (value : Bool)
  | num
  | str
  | arr
  | obj

/-- The form of a value. -/
def form : Json → Form
  | null => .null
  | bool b => .bool b
  | num _ => .num
  | str _ => .str
  | arr _ => .arr
  | obj _ => .obj

/-- The form of the values whose text starts with the character. -/
def formOf? : Char → Option Form
  | 'n' => some .null
  | 't' => some (.bool true)
  | 'f' => some (.bool false)
  | '"' => some .str
  | '[' => some .arr
  | '\x7b' => some .obj
  | c => if isNumeralChar c then some .num else none

theorem formOf?_of_isNumeralChar {c : Char} (h : isNumeralChar c = true) : formOf? c = some .num := by
  unfold formOf?
  split
  case h_7 => exact if_pos h
  all_goals cases h

theorem exists_form (j : Json) : ∃ c cs, j.toChars = c :: cs ∧ formOf? c = some j.form := by
  match j with
  | null | bool true | bool false | str _ | arr [] | arr (_ :: _) | obj ⟨[]⟩ | obj ⟨_ :: _⟩ =>
      exact ⟨_, _, rfl, rfl⟩
  | num n =>
      obtain ⟨c, cs, hcs, hc⟩ := exists_numeralChar n
      exact ⟨c, cs, hcs, formOf?_of_isNumeralChar hc⟩

theorem form_eq_of_append {j j' : Json} {s t : List Char} (h : j.toChars ++ s = j'.toChars ++ t) :
    j.form = j'.form := by
  obtain ⟨c, cs, hcs, hc⟩ := exists_form j
  obtain ⟨d, ds, hds, hd⟩ := exists_form j'
  rw [hcs, hds] at h
  rw [(List.cons.inj h).1, hd] at hc
  exact (Option.some.inj hc).symm

theorem toChars_append_ne_cons {c : Char} (hc : formOf? c = none) (j : Json) (s t : List Char) :
    j.toChars ++ s ≠ c :: t := by
  intro h
  obtain ⟨d, ds, hds, hd⟩ := exists_form j
  rw [hds] at h
  rw [(List.cons.inj h).1, hc] at hd
  cases hd

/-- The items of an array are written like those of the rest of one, save for the first comma. -/
theorem itemsChars_eq_of_arr {js js' : List Json} {s t : List Char}
    (h : (arr js).toChars ++ s = (arr js').toChars ++ t) :
    itemsChars js ++ s = itemsChars js' ++ t := by
  cases js <;> cases js' <;>
    simp only [toChars, itemsChars, List.cons_append, List.append_assoc, List.nil_append,
      List.cons.injEq, true_and] at h ⊢
  · exact h
  · exact absurd h.symm (toChars_append_ne_cons rfl _ _ _)
  · exact absurd h (toChars_append_ne_cons rfl _ _ _)
  · exact h

theorem membersChars_eq_of_obj {ms ms' : Table Json} {s t : List Char}
    (h : (obj ms).toChars ++ s = (obj ms').toChars ++ t) :
    membersChars ms.entries ++ s = membersChars ms'.entries ++ t := by
  obtain ⟨_ | ⟨⟨k, j⟩, ms⟩⟩ := ms <;> obtain ⟨_ | ⟨⟨k', j'⟩, ms'⟩⟩ := ms' <;>
    simp only [toChars, membersChars, List.cons_append, List.append_assoc, List.nil_append,
      List.cons.injEq, true_and] at h ⊢
  · exact h
  · cases h
  · cases h
  · exact h

theorem stops_itemsChars (js : List Json) (s : List Char) : Stops (itemsChars js ++ s) := by
  cases js <;> (rintro c ⟨⟩; rfl)

theorem stops_membersChars (ms : List (String × Json)) (s : List Char) :
    Stops (membersChars ms ++ s) := by
  cases ms <;> (rintro c ⟨⟩; rfl)

mutual

/-- The value at the head of a text and the text after it can be told. -/
theorem toChars_append_inj (j j' : Json) (s t : List Char) (hs : Stops s) (ht : Stops t)
    (h : j.toChars ++ s = j'.toChars ++ t) : j = j' ∧ s = t := by
  have hform := form_eq_of_append h
  cases j with
  | null =>
      cases j' <;> cases hform
      exact ⟨rfl, List.append_cancel_left h⟩
  | bool b =>
      cases j' <;> cases hform
      exact ⟨rfl, List.append_cancel_left h⟩
  | num n =>
      cases j' <;> cases hform
      obtain ⟨rfl, hst⟩ := numberChars_append_inj hs ht h
      exact ⟨rfl, hst⟩
  | str a =>
      cases j' <;> cases hform
      obtain ⟨rfl, hst⟩ := string_append_inj h
      exact ⟨rfl, hst⟩
  | arr js =>
      cases j' <;> cases hform
      obtain ⟨rfl, hst⟩ := itemsChars_append_inj js _ s t (itemsChars_eq_of_arr h)
      exact ⟨rfl, hst⟩
  | obj ms =>
      cases j' <;> cases hform
      obtain ⟨ms⟩ := ms
      obtain ⟨rfl, hst⟩ := membersChars_append_inj ms _ s t (membersChars_eq_of_obj h)
      exact ⟨rfl, hst⟩

theorem itemsChars_append_inj (js js' : List Json) (s t : List Char)
    (h : itemsChars js ++ s = itemsChars js' ++ t) : js = js' ∧ s = t := by
  match js, js' with
  | [], [] => exact ⟨rfl, (List.cons.inj h).2⟩
  | [], _ :: _ => cases h
  | _ :: _, [] => cases h
  | j :: js, j' :: js' =>
      simp only [itemsChars, List.cons_append, List.append_assoc] at h
      obtain ⟨rfl, hrest⟩ := toChars_append_inj j j' _ _ (stops_itemsChars js s)
        (stops_itemsChars js' t) (List.cons.inj h).2
      obtain ⟨rfl, hst⟩ := itemsChars_append_inj js js' s t hrest
      exact ⟨rfl, hst⟩

theorem membersChars_append_inj (ms ms' : List (String × Json)) (s t : List Char)
    (h : membersChars ms ++ s = membersChars ms' ++ t) : ms = ms' ∧ s = t := by
  match ms, ms' with
  | [], [] => exact ⟨rfl, (List.cons.inj h).2⟩
  | [], _ :: _ => cases h
  | _ :: _, [] => cases h
  | (k, j) :: ms, (k', j') :: ms' =>
      simp only [membersChars, List.cons_append, List.append_assoc] at h
      obtain ⟨rfl, hvalue⟩ := string_append_inj (List.cons.inj h).2
      obtain ⟨rfl, hrest⟩ := toChars_append_inj j j' _ _ (stops_membersChars ms s)
        (stops_membersChars ms' t) (List.cons.inj hvalue).2
      obtain ⟨rfl, hst⟩ := membersChars_append_inj ms ms' s t hrest
      exact ⟨rfl, hst⟩

end

theorem render_injective : Function.Injective render := by
  intro j j' h
  have hchars : j.toChars = j'.toChars := by
    simpa [render] using congrArg String.toList h
  have hstops : Stops [] := fun c hc => by cases hc
  exact (toChars_append_inj j j' [] [] hstops hstops (by rw [hchars])).1

end Statechart.Json
