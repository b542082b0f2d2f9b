/-!
# Decimal fractions

A finite decimal with its sign, in the one form that has no superfluous zeros, and its text:
positional for moderate magnitudes and with an exponent for the others.
-/

namespace Statechart

/-- The value `± digits × 10 ^ exponent`. The last digit is not zero, except in zero itself, so that
equal fields and equal values of one sign are the same thing. -/
structure Decimal where
  negative : Bool
  digits : Nat
  exponent : Int
  canonical : digits % 10 ≠ 0 ∨ digits = 0 ∧ exponent = 0
deriving DecidableEq

namespace Decimal

/-- The canonical form of `± digits × 10 ^ exponent`. -/
def ofScaled (negative : Bool) (digits : Nat) (exponent : Int) : Decimal :=
  if h₀ : digits = 0 then
    ⟨negative, 0, 0, .inr ⟨rfl, rfl⟩⟩
  else if h : digits % 10 = 0 then
    ofScaled negative (digits / 10) (exponent + 1)
  else
    ⟨negative, digits, exponent, .inl h⟩
termination_by digits

/-- Whether the value is zero, of either sign. -/
def isZero (d : Decimal) : Bool := d.digits == 0

/-- Equality of values: the two zeros are equal although their signs differ. -/
instance : BEq Decimal where
  beq a b := decide (a = b) || a.isZero && b.isZero

/-! ## Text -/

/-- Magnitudes from `10 ^ (lowestPoint - 1)` up to but not including `10 ^ highestPoint` are written
positionally. -/
def highestPoint : Int := 16

def lowestPoint : Int := -4

/-- An exponent after its letter `e`: the sign, which is never left out, and the digits. -/
def exponentChars (e : Int) : List Char :=
  (if e < 0 then '-' else '+') :: Nat.toDigits 10 e.natAbs

/-- The magnitude `ds × 10 ^ exponent`, for the digits `ds` of a positive number. The decimal point
belongs after `point` digits; a fraction part is always written positionally, if need be `.0`. -/
def magnitudeChars (ds : List Char) (exponent : Int) : List Char :=
  let point := ds.length + exponent
  if 0 ≤ exponent ∧ point ≤ highestPoint then
    ds ++ List.replicate exponent.toNat '0' ++ ['.', '0']
  else if 0 < point ∧ point ≤ highestPoint then
    ds.take point.toNat ++ '.' :: ds.drop point.toNat
  else if lowestPoint ≤ point ∧ point ≤ 0 then
    '0' :: '.' :: List.replicate (-point).toNat '0' ++ ds
  else
    match ds with
    | [d] => d :: 'e' :: exponentChars (point - 1)
    | ds => ds.take 1 ++ '.' :: ds.drop 1 ++ 'e' :: exponentChars (point - 1)

/-- The text of a decimal, which always shows a fraction or an exponent. -/
def toChars (d : Decimal) : List Char :=
  (if d.negative then ['-'] else []) ++
    if d.isZero then ['0', '.', '0'] else magnitudeChars (Nat.toDigits 10 d.digits) d.exponent

end Decimal

end Statechart
