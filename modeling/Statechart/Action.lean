import Statechart.Mapping

/-!
# Guards, delays and actions

What a transition tests and runs. An action may hold further actions: the branches of a choice, and
the parts of a composed action.
-/

namespace Statechart

/-! ## Guards -/

/-- A condition that the interpreter knows by name, or an inline predicate. -/
inductive Guard where
  | named (name : String)
  | predicate (p : Predicate)

namespace Guard

def name : Guard → String
  | named name => name
  | predicate p => p.name

instance : BEq Guard where
  beq
    | named a, named b => a == b
    | predicate a, predicate b => a == b
    | _, _ => false

end Guard

/-! ## Delays -/

/-- A number of milliseconds, or a delay that the interpreter knows by name. -/
inductive Delay where
  | millis (n : Nat)
  | named (name : String)
deriving DecidableEq

namespace Delay

/-- The text under which a delay is filed: its decimal numeral, or its name. -/
def key : Delay → String
  | millis n => n.repr
  | named name => name

end Delay

/-! ## Actions -/

/-- An event to send, by default to the machine itself and at once. -/
structure Send where
  event : Json
  recipient : Option String := none
  delay : Option Delay := none
  id : Option String := none
deriving BEq

/-- A branch of a choice: the actions to run when the guard passes. -/
structure Branch (α : Type) where
  cond : Option Guard := none
  actions : List α := []

/-- What is done when a state is entered or left, or when a transition is taken. -/
inductive Action where
  /-- Known to the interpreter by name. -/
  | named (name : String)
  | effect (e : Effect)
  | assign (assignment : Mapping)
  | send (message : Send)
  /-- The first branch whose guard passes runs. -/
  | choose (branches : List (Branch Action))
  /-- The actions are computed at run time. -/
  | pure (source : Resolver Action)
  | composed (parts : List Action)

namespace Action

instance : Inhabited Action := ⟨composed []⟩

/-- The properties of an assignment that gives them one by one. -/
def properties? : Action → Option (Table Property)
  | assign (.properties table) => some table
  | _ => none

/-- Assignments whose properties are given one by one can be merged. -/
def isMergeable (a : Action) : Bool := a.properties?.isSome

/-- The parts of a composed action; any other action by itself. -/
def parts : Action → List Action
  | composed parts => parts
  | a => [a]

mutual
/-- Equality of actions; inline functions count as equal if their labels are. -/
def beq : Action → Action → Bool
  | named a, named b => a == b
  | effect a, effect b => a == b
  | assign a, assign b => a == b
  | send a, send b => a == b
  | choose as, choose bs => beqBranches as bs
  | pure a, pure b => a == b
  | composed as, composed bs => beqList as bs
  | _, _ => false

def beqList : List Action → List Action → Bool
  | [], [] => true
  | a :: as, b :: bs => beq a b && beqList as bs
  | _, _ => false

def beqBranches : List (Branch Action) → List (Branch Action) → Bool
  | [], [] => true
  | ⟨c, as⟩ :: rest, ⟨d, bs⟩ :: rest' => c == d && beqList as bs && beqBranches rest rest'
  | _, _ => false
end

instance : BEq Action := ⟨beq⟩

end Action

deriving instance BEq for Branch

end Statechart
