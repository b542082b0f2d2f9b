import Statechart.Decimal.Binary64
import Statechart.Json.Basic

/-!
# JSON documents

A JSON text as it is written: numerals by their digits, strings by their escapes, members with
repeated keys. `Document.toJson?` gives the value that it stands for, if it stands for one.
-/

namespace Statechart.Json

/-! ## Strings -/

/-- A part of a string: a character, or a 16-bit unit written as an escape. -/
inductive Piece where
  | char (c : Char)
  | unit (code : Nat)

namespace Piece

/-- Whether a unit is the first one of a pair. -/
def isHighSurrogate (code : Nat) : Bool := 0xD800 ≤ code && code < 0xDC00

/-- Whether a unit is the second one of a pair. -/
def isLowSurrogate (code : Nat) : Bool := 0xDC00 ≤ code && code < 0xE000

/-- The character beyond U+FFFF that a high and a low surrogate encode. -/
def ofSurrogates (high low : Nat) : Char :=
  .ofNat (0x10000 + (high - 0xD800) * 0x400 + (low - 0xDC00))

/-- The characters of a string in which every surrogate is one of a pair. -/
def decode : List Piece → Option (List Char)
  | [] => some []
  | char c :: rest => (decode rest).map (c :: ·)
  | [unit u] => if isHighSurrogate u || isLowSurrogate u then none else some [.ofNat u]
  | unit u :: char c :: rest =>
    if isHighSurrogate u || isLowSurrogate u then none
    else (decode rest).map fun cs => .ofNat u :: c :: cs
  | unit u :: unit v :: rest =>
    if isHighSurrogate u then
      if isLowSurrogate v then (decode rest).map (ofSurrogates u v :: ·) else none
    else if isLowSurrogate u then none
    else (decode (unit v :: rest)).map (.ofNat u :: ·)

end Piece

def decodeText (ps : List Piece) : Option String := (Piece.decode ps).map .ofList

/-! ## Numerals -/

/-- A numeral by its digits; `fraction` is empty exactly if no point is written. -/
structure Numeral where
  negative : Bool
  whole : List Nat
  fraction : List Nat
  exponent : Option Int

namespace Numeral

/-- The number with the decimal digits, the highest one first. -/
def valueOf (digits : List Nat) : Nat := digits.foldl (fun v d => v * 10 + d) 0

/-- Significands stay below this bound. -/
def significandBound : Nat := Nat.pow 2 64

/-- Appends digits to a significand as long as it stays below the bound; the digits left over are
the second part. -/
def extend (significand : Nat) : List Nat → Nat × List Nat
  | [] => (significand, [])
  | d :: ds =>
    if significand * 10 + d < significandBound then extend (significand * 10 + d) ds
    else (significand, d :: ds)

/-- The value of a numeral that is read as a fraction: the significand and the power of ten are
rounded, and then their product or quotient. -/
def decimal? (n : Numeral) : Option Decimal := do
  let (leading, droppedWhole) := extend 0 n.whole
  let (significand, droppedFraction) := extend leading n.fraction
  let places := n.fraction.length - droppedFraction.length
  let exponent : Int := droppedWhole.length - places + n.exponent.getD 0
  let magnitude ← (← Binary64.ofNat? significand).scaleTen? exponent
  return magnitude.toDecimal n.negative

/-- A numeral without point and exponent is an integer if it lies between `-2 ^ 63` and `2 ^ 64 - 1`.
All others are decimal fractions, or nothing if they exceed the range of those. -/
def number? (n : Numeral) : Option Number :=
  let value := valueOf n.whole
  -- A negative zero keeps its sign only as a fraction.
  let isInteger := n.fraction.isEmpty && n.exponent.isNone &&
    if n.negative then 0 < value && value ≤ Nat.pow 2 63 else value < Nat.pow 2 64
  if isInteger then
    some (.int (if n.negative then -(value : Int) else value))
  else
    n.decimal?.map .decimal

end Numeral

/-! ## Documents -/

/-- A JSON value as it is written. -/
inductive Document where
  | null
  | bool (value : Bool)
  | num (numeral : Numeral)
  | str (pieces : List Piece)
  | arr (items : List Document)
  | obj (members : List (List Piece × Document))

namespace Document

mutual
/-- The value of a document. A repeated key keeps its first place and takes its last value. A string
with a lone surrogate and a numeral out of range have no value. -/
def toJson? : Document → Option Json
  | null => some .null
  | bool b => some (.bool b)
  | num n => n.number?.map .num
  | str ps => (decodeText ps).map .str
  | arr items => (toJsonList? items).map .arr
  | obj members => (toJsonMembers? members).map fun ms => .obj (.ofList ms)

def toJsonList? : List Document → Option (List Json)
  | [] => some []
  | d :: rest => do return (← toJson? d) :: (← toJsonList? rest)

def toJsonMembers? : List (List Piece × Document) → Option (List (String × Json))
  | [] => some []
  | (k, d) :: rest => do return (← decodeText k, ← toJson? d) :: (← toJsonMembers? rest)
end

end Document

end Statechart.Json
