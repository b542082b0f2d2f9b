import Statechart.Json.Basic

/-!
# Compact JSON text

No blanks, members in their order. Inside a string only the quote, the backslash and the characters
below U+0020 are escaped; every other character stands for itself.
-/

namespace Statechart.Json

/-! ## Strings -/

/-- A character inside of a string, escaped if it must be. -/
def charChars (c : Char) : List Char :=
  match c with
  | '"' => ['\\', '"']
  | '\\' => ['\\', '\\']
  | '\x08' => ['\\', 'b']
  | '\t' => ['\\', 't']
  | '\n' => ['\\', 'n']
  | '\x0c' => ['\\', 'f']
  | '\r' => ['\\', 'r']
  | c =>
    if c.toNat < 0x20 then
      ['\\', 'u', '0', '0', Nat.digitChar (c.toNat / 16), Nat.digitChar (c.toNat % 16)]
    else [c]

def quotedChars (s : List Char) : List Char := '"' :: s.flatMap charChars ++ ['"']

/-! ## Numbers -/

def intChars (n : Int) : List Char :=
  (if n < 0 then ['-'] else []) ++ Nat.toDigits 10 n.natAbs

def numberChars : Number → List Char
  | .int n => intChars n
  | .decimal d => d.toChars

/-! ## Values -/

mutual
def toChars : Json → List Char
  | null => ['n', 'u', 'l', 'l']
  | bool true => ['t', 'r', 'u', 'e']
  | bool false => ['f', 'a', 'l', 's', 'e']
  | num n => numberChars n
  | str s => quotedChars s.toList
  | arr [] => ['[', ']']
  | arr (j :: rest) => '[' :: toChars j ++ itemsChars rest
  | obj ⟨[]⟩ => ['\x7b', '\x7d']
  | obj ⟨(k, j) :: rest⟩ =>
    '\x7b' :: quotedChars k.toList ++ ':' :: toChars j ++ membersChars rest

/-- The items after the first one, each after a comma, and the closing bracket. -/
def itemsChars : List Json → List Char
  | [] => [']']
  | j :: rest => ',' :: toChars j ++ itemsChars rest

/-- The members after the first one, each after a comma, and the closing brace. -/
def membersChars : List (String × Json) → List Char
  | [] => ['\x7d']
  | (k, j) :: rest => ',' :: quotedChars k.toList ++ ':' :: toChars j ++ membersChars rest
end

/-- The text of a value. -/
def render (j : Json) : String := .ofList j.toChars

end Statechart.Json
