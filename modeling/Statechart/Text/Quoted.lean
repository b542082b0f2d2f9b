import Statechart.Text.Visible

/-!
# Quoted text for diagnostics

A string between double quotes in which every character can be seen: what is not visible is written
by its code point.
-/

namespace Statechart.Text

/-- A code point in lower-case hexadecimal digits between braces. -/
def codePointChars (c : Char) : List Char :=
  '\\' :: 'u' :: '\x7b' :: Nat.toDigits 16 c.toNat ++ ['\x7d']

/-- One character between the quotes. -/
def quotedChar (c : Char) : List Char :=
  match c with
  | '\x00' => ['\\', '0']
  | '\t' => ['\\', 't']
  | '\n' => ['\\', 'n']
  | '\r' => ['\\', 'r']
  | '"' => ['\\', '"']
  | '\\' => ['\\', '\\']
  | c => if isVisible c then [c] else codePointChars c

def quoted (s : String) : String := .ofList ('"' :: s.toList.flatMap quotedChar ++ ['"'])

end Statechart.Text
