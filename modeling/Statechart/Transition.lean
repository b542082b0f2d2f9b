import Statechart.Action

/-!
# Transitions

A candidate transition for an event, and tables of them. The candidates for one event are tried in
order, and the first whose guard passes is taken.
-/

namespace Statechart

/-- Where to go, what to do on the way, and the guard that must pass; each may be missing. -/
structure Transition where
  target : Option String := none
  actions : Option (List Action) := none
  cond : Option Guard := none
deriving BEq

namespace Transition

instance : Inhabited Transition := ⟨{}⟩

def ofTarget (target : String) : Transition := { target := some target }

def isGuarded (t : Transition) : Bool := t.cond.isSome

def withTarget (t : Transition) (target : String) : Transition := { t with target := some target }

/-- The transition with one more action, after those it has. -/
def withAction (t : Transition) (a : Action) : Transition :=
  { t with actions := some (t.actions.getD [] ++ [a]) }

def withCond (t : Transition) (cond : Guard) : Transition := { t with cond := some cond }

end Transition

/-- Transitions by the event, or the delay, that they wait for. -/
abbrev EventTable := Table (List Transition)

end Statechart
