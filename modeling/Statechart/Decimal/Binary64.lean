import Statechart.Decimal.Basic

/-!
# Binary fractions of 53 bits

Magnitudes `significand × 2 ^ exponent` with a significand of at most 53 bits, the rounding of a
quotient to the nearest of them, and the decimal with the fewest digits that rounds to a given one.
All steps are exact integer arithmetic.
-/

namespace Statechart

/-- The magnitude `significand × 2 ^ exponent`. -/
structure Binary64 where
  significand : Nat
  exponent : Int
deriving DecidableEq

namespace Binary64

/-- An unreduced fraction. -/
structure Quotient where
  num : Nat
  den : Nat

/-- The fraction times a power of the base. -/
def Quotient.scale (q : Quotient) (base : Nat) (power : Int) : Quotient :=
  if 0 ≤ power then ⟨q.num * base.pow power.toNat, q.den⟩
  else ⟨q.num, q.den * base.pow power.natAbs⟩

/-- The nearest integer; of two equally near ones the even one. -/
def Quotient.round (q : Quotient) : Nat :=
  let below := q.num / q.den
  let rest := 2 * (q.num % q.den)
  if rest < q.den ∨ rest = q.den ∧ below % 2 = 0 then below else below + 1

def toQuotient (x : Binary64) : Quotient := Quotient.scale ⟨x.significand, 1⟩ 2 x.exponent

def lowestExponent : Int := -1074

def highestExponent : Int := 971

/-- The nearest magnitude of 53 bits, or `none` if that would exceed the range. -/
def ofQuotient? (q : Quotient) : Option Binary64 :=
  if q.num = 0 then
    some ⟨0, lowestExponent⟩
  else
    let rough : Int := (q.num.log2 : Int) - q.den.log2 - 53
    let tight := q.scale 2 (-rough)
    let exact := if tight.num / tight.den < Nat.pow 2 53 then rough else rough + 1
    let exponent := max exact lowestExponent
    let significand := (q.scale 2 (-exponent)).round
    let x : Binary64 :=
      if significand = Nat.pow 2 53 then ⟨Nat.pow 2 52, exponent + 1⟩ else ⟨significand, exponent⟩
    if x.exponent ≤ highestExponent then some x else none

def isZero (x : Binary64) : Bool := x.significand == 0

/-- The magnitude nearest to a natural number. -/
def ofNat? (n : Nat) : Option Binary64 := ofQuotient? ⟨n, 1⟩

/-- The rounded product, if it is in range. -/
def mul? (x y : Binary64) : Option Binary64 :=
  ofQuotient? (Quotient.scale ⟨x.significand * y.significand, 1⟩ 2 (x.exponent + y.exponent))

/-- The rounded quotient, if it is in range. -/
def div? (x y : Binary64) : Option Binary64 :=
  ofQuotient? (Quotient.scale ⟨x.significand, y.significand⟩ 2 (x.exponent - y.exponent))

/-! ## Powers of ten -/

/-- The highest power of ten that is in range. -/
def highestPower : Nat := 308

/-- The magnitude divided by `10 ^ power`, in steps of at most `10 ^ highestPower`, each of them
rounded. -/
def divPowerOfTen? (x : Binary64) (power : Nat) : Option Binary64 := do
  if x.isZero then
    return x
  else if power ≤ highestPower then
    x.div? (← ofNat? (Nat.pow 10 power))
  else
    divPowerOfTen? (← x.div? (← ofNat? (Nat.pow 10 highestPower))) (power - highestPower)
termination_by power
decreasing_by simp_all [highestPower]; omega

/-- The magnitude times `10 ^ power`; a product beyond the range is `none`. -/
def scaleTen? (x : Binary64) (power : Int) : Option Binary64 := do
  if power < 0 then
    x.divPowerOfTen? power.natAbs
  else if x.isZero then
    return x
  else if power.toNat ≤ highestPower then
    x.mul? (← ofNat? (Nat.pow 10 power.toNat))
  else
    none

/-! ## The shortest decimal -/

/-- Half the distance to the neighbours below and above, in units of `2 ^ (exponent - 2)`. -/
def halfGaps (x : Binary64) : Nat × Nat :=
  -- The lower neighbour of a power of two is half as far away as the upper one.
  if x.significand = Nat.pow 2 52 ∧ lowestExponent < x.exponent then (1, 2) else (2, 2)

/-- Whether `n × 10 ^ power` rounds to the magnitude. -/
def roundsFrom (x : Binary64) (n : Nat) (power : Int) : Bool :=
  let candidate := (Quotient.scale ⟨n, 1⟩ 10 power).scale 2 (2 - x.exponent)
  let centre := 4 * x.significand * candidate.den
  let (below, above) := x.halfGaps
  -- A tie goes to the even significand.
  if candidate.num ≤ centre then
    let distance := centre - candidate.num
    distance < below * candidate.den ||
      distance == below * candidate.den && x.significand % 2 == 0
  else
    let distance := candidate.num - centre
    distance < above * candidate.den ||
      distance == above * candidate.den && x.significand % 2 == 0

/-- The nearest multiple of `10 ^ power` among the two around the magnitude that round to it. -/
def onGrid? (x : Binary64) (power : Int) : Option Nat :=
  let scaled := x.toQuotient.scale 10 (-power)
  let low := scaled.num / scaled.den
  let nearest := scaled.round
  if x.roundsFrom nearest power then some nearest
  else if nearest ≠ low ∧ x.roundsFrom low power then some low
  else if nearest = low ∧ x.roundsFrom (low + 1) power then some (low + 1)
  else none

/-- The first grid on which something rounds to the magnitude, from the coarsest grid on. -/
def shortestFrom (x : Binary64) (negative : Bool) : Nat → Int → Decimal
  | 0, power => .ofScaled negative (x.toQuotient.scale 10 (-power)).round power
  | steps + 1, power =>
    match x.onGrid? power with
    | some n => .ofScaled negative n power
    | none => shortestFrom x negative steps (power - 1)

/-- The decimal with the fewest digits that rounds to the magnitude. -/
def toDecimal (x : Binary64) (negative : Bool) : Decimal :=
  if x.isZero then .ofScaled negative 0 0
  else
    let q := x.toQuotient
    let leading : Int := if q.den ≤ q.num then (Nat.toDigits 10 (q.num / q.den)).length - 1
      else -((Nat.toDigits 10 (q.den / q.num)).length : Int)
    -- Seventeen digits always suffice.
    x.shortestFrom negative 18 leading

end Binary64

end Statechart
