import Statechart.Decimal.Basic
import Statechart.Table

/-!
# JSON values

Objects keep their members in order; equality ignores that order. An integer never equals a decimal
fraction, whatever their values.
-/

namespace Statechart

/-- A JSON number: an integer, or a decimal fraction. -/
inductive Number where
  | int (value : Int)
  | decimal (value : Decimal)

namespace Number

instance : BEq Number where
  beq
    | .int a, .int b => a == b
    | .decimal a, .decimal b => a == b
    | _, _ => false

end Number

/-- A JSON value; an object is a table of its members. -/
inductive Json where
  | null
  | bool (value : Bool)
  | num (value : Number)
  | str (value : String)
  | arr (items : List Json)
  | obj (members : Table Json)

namespace Json

instance : Inhabited Json := ⟨null⟩

def ofNat (n : Nat) : Json := num (.int n)

/-- The object with these members, in this order. -/
def object (members : List (String × Json)) : Json := obj ⟨members⟩

def member? (key : String) : Json → Option Json
  | obj members => members.get? key
  | _ => none

/-- A name by itself, or as the key of an object whose only member is `null`. -/
def unitName? : Json → Option String
  | str name => some name
  | obj ⟨[(name, null)]⟩ => some name
  | _ => none

/-! ## Equality -/

mutual
/-- Equality of values, up to the order of members. -/
def beq : Json → Json → Bool
  | null, null => true
  | bool a, bool b => a == b
  | num a, num b => a == b
  | str a, str b => a == b
  | arr as, arr bs => beqList as bs
  | obj ⟨as⟩, obj bs => as.length == bs.size && beqMembers as bs
  | _, _ => false

def beqList : List Json → List Json → Bool
  | [], [] => true
  | a :: as, b :: bs => beq a b && beqList as bs
  | _, _ => false

/-- Each of the members is found with an equal value in the table. -/
def beqMembers : List (String × Json) → Table Json → Bool
  | [], _ => true
  | (k, a) :: rest, bs => (bs.get? k).any (beq a ·) && beqMembers rest bs
end

instance : BEq Json := ⟨beq⟩

end Json

end Statechart
