import Statechart.Json.Document

/-!
# Reading JSON text

The text is cut into tokens, and the tokens are read into a document. Blanks are the space, the tab,
the line feed and the carriage return. The bounds on the number of steps are computed from the
length of the text, and every step uses up a character or a token.
-/

namespace Statechart.Json

/-! ## Tokens -/

/-- A token of a JSON text. -/
inductive Lexeme where
  /-- One of the six structural characters. -/
  | mark (c : Char)
  | str (pieces : List Piece)
  /-- A literal name or a numeral. -/
  | leaf (document : Document)

namespace Lexeme

/-- Whether a character may stand between tokens. -/
def isBlank (c : Char) : Bool := c == ' ' || c == '\t' || c == '\n' || c == '\r'

def isMark (c : Char) : Bool :=
  c == '[' || c == ']' || c == '\x7b' || c == '\x7d' || c == ':' || c == ','

def hexDigit? (c : Char) : Option Nat :=
  if '0' ≤ c ∧ c ≤ '9' then some (c.toNat - '0'.toNat)
  else if 'a' ≤ c ∧ c ≤ 'f' then some (c.toNat - 'a'.toNat + 10)
  else if 'A' ≤ c ∧ c ≤ 'F' then some (c.toNat - 'A'.toNat + 10)
  else none

/-- The unit written with four hexadecimal digits. -/
def hexUnit? (a b c d : Char) : Option Nat := do
  return (← hexDigit? a) * 0x1000 + (← hexDigit? b) * 0x100 + (← hexDigit? c) * 0x10 +
    (← hexDigit? d)

/-- The character for which a letter after a backslash stands. -/
def unescape? : Char → Option Char
  | '"' => some '"'
  | '\\' => some '\\'
  | '/' => some '/'
  | 'b' => some '\x08'
  | 'f' => some '\x0c'
  | 'n' => some '\n'
  | 'r' => some '\r'
  | 't' => some '\t'
  | _ => none

/-- The pieces up to the closing quote, and what follows it. -/
def pieces? : List Char → Option (List Piece × List Char)
  | [] => none
  | '"' :: rest => some ([], rest)
  | '\\' :: 'u' :: a :: b :: c :: d :: rest => do
    let code ← hexUnit? a b c d
    let (ps, rest) ← pieces? rest
    return (.unit code :: ps, rest)
  | '\\' :: e :: rest => do
    let c ← unescape? e
    let (ps, rest) ← pieces? rest
    return (.char c :: ps, rest)
  | c :: rest => do
    if c.toNat < 0x20 then none
    let (ps, rest) ← pieces? rest
    return (.char c :: ps, rest)

def digitValues (cs : List Char) : List Nat := cs.map fun c => c.toNat - '0'.toNat

/-- The fraction of a numeral, after a point, and what follows it. -/
def fraction? : List Char → Option (List Nat × List Char)
  | '.' :: rest =>
    match rest.span Char.isDigit with
    | ([], _) => none
    | (ds, rest) => some (digitValues ds, rest)
  | rest => some ([], rest)

/-- The exponent of a numeral, after its letter, and what follows it. -/
def exponent? : List Char → Option (Option Int × List Char)
  | c :: rest =>
    if c = 'e' ∨ c = 'E' then
      let (negative, rest) := match rest with
        | '-' :: rest => (true, rest)
        | '+' :: rest => (false, rest)
        | rest => (false, rest)
      match rest.span Char.isDigit with
      | ([], _) => none
      | (ds, rest) =>
        let magnitude : Int := Numeral.valueOf (digitValues ds)
        some (some (if negative then -magnitude else magnitude), rest)
    else some (none, c :: rest)
  | [] => some (none, [])

/-- The numeral at the head of the text, and what follows it. A whole part has no leading zero. -/
def numeral? (cs : List Char) : Option (Numeral × List Char) := do
  let (negative, cs) := match cs with
    | '-' :: cs => (true, cs)
    | cs => (false, cs)
  let (whole, cs) := cs.span Char.isDigit
  if whole.isEmpty || whole.length ≠ 1 && whole.head? == some '0' then none
  let (fraction, cs) ← fraction? cs
  let (exponent, cs) ← exponent? cs
  return (⟨negative, digitValues whole, fraction, exponent⟩, cs)

/-- The tokens of a text, in at most `steps` steps. -/
def scan : Nat → List Char → Option (List Lexeme)
  | _, [] => some []
  | 0, _ :: _ => none
  | steps + 1, c :: rest =>
    if isBlank c then scan steps rest
    else if isMark c then (scan steps rest).map (mark c :: ·)
    else if c = '"' then do
      let (ps, rest) ← pieces? rest
      return str ps :: (← scan steps rest)
    else
      match c :: rest with
      | 'n' :: 'u' :: 'l' :: 'l' :: rest => (scan steps rest).map (leaf .null :: ·)
      | 't' :: 'r' :: 'u' :: 'e' :: rest => (scan steps rest).map (leaf (.bool true) :: ·)
      | 'f' :: 'a' :: 'l' :: 's' :: 'e' :: rest => (scan steps rest).map (leaf (.bool false) :: ·)
      | cs => do
        let (n, rest) ← numeral? cs
        return leaf (.num n) :: (← scan steps rest)

end Lexeme

/-! ## Documents -/

namespace Document

mutual
/-- The document at the head of the tokens, and what follows it. -/
def readValue : Nat → List Lexeme → Option (Document × List Lexeme)
  | 0, _ => none
  | _ + 1, .leaf d :: rest => some (d, rest)
  | _ + 1, .str ps :: rest => some (.str ps, rest)
  | _ + 1, .mark '[' :: .mark ']' :: rest => some (.arr [], rest)
  | steps + 1, .mark '[' :: rest => do
    let (items, rest) ← readItems steps rest
    return (.arr items, rest)
  | _ + 1, .mark '\x7b' :: .mark '\x7d' :: rest => some (.obj [], rest)
  | steps + 1, .mark '\x7b' :: rest => do
    let (members, rest) ← readMembers steps rest
    return (.obj members, rest)
  | _ + 1, _ => none

/-- The items up to the closing bracket, and what follows it; there is at least one. -/
def readItems : Nat → List Lexeme → Option (List Document × List Lexeme)
  | 0, _ => none
  | steps + 1, rest => do
    let (item, rest) ← readValue steps rest
    match rest with
    | .mark ',' :: rest =>
      let (items, rest) ← readItems steps rest
      return (item :: items, rest)
    | .mark ']' :: rest => return ([item], rest)
    | _ => none

/-- The members up to the closing brace, and what follows it; there is at least one. -/
def readMembers : Nat → List Lexeme → Option (List (List Piece × Document) × List Lexeme)
  | steps + 1, .str key :: .mark ':' :: rest => do
    let (value, rest) ← readValue steps rest
    match rest with
    | .mark ',' :: rest =>
      let (members, rest) ← readMembers steps rest
      return ((key, value) :: members, rest)
    | .mark '\x7d' :: rest => return ([(key, value)], rest)
    | _ => none
  | _, _ => none
end

/-- The document that makes up the whole text. -/
def ofText? (text : String) : Option Document := do
  let tokens ← Lexeme.scan text.length text.toList
  match ← readValue (2 * tokens.length + 1) tokens with
  | (document, []) => some document
  | _ => none

end Document

/-- The value that a text stands for. -/
def ofText? (text : String) : Option Json := (Document.ofText? text).bind Document.toJson?

end Statechart.Json
