import Statechart.Assembly.Node

/-!
# Children of a state

Named states, and the fragments that place them under a node: as alternatives of which one is the
initial state, or in parallel.
-/

namespace Statechart

/-- A named state. The mark makes it the initial state of its parent. -/
structure StateEntry where
  name : String
  node : StateNode
  isInitial : Bool := false
deriving BEq

namespace StateEntry

/-- A state without any facet. -/
def bare (name : String) : StateEntry := { name, node := {} }

def marked (e : StateEntry) : StateEntry := { e with isInitial := true }

end StateEntry

namespace Builder

/-! ## States -/

/-- A state that is assembled from fragments, with the default options. -/
def state (name : String) (fs : List Fragment) : Report StateEntry := do
  return { name, node := ← assemble {} fs }

def initialState (name : String) (fs : List Fragment) : Report StateEntry := do
  return (← state name fs).marked

def finalState (name : String) : StateEntry := { name, node := .ofKind .final }

/-- A history state, shallow unless a mode is given. -/
def historyState (name : String) (mode : Option HistoryMode) (target : Option String) :
    StateEntry :=
  { name, node := { kind := some .history, history := some (mode.getD .shallow), target } }

/-! ## Nested states -/

/-- Adds entries to a table of states, and logs each name that is already there. -/
def addStates (children : Table StateNode) : List StateEntry → Report (Table StateNode)
  | [] => return children
  | e :: rest => do
    Report.logIf (e.name ∈ children.keys) (.duplicateState e.name)
    addStates (children.insert e.name e.node) rest

/-- The entry of the initial state: the first marked one, or else the first one. -/
def initialOf? (entries : List StateEntry) : Option StateEntry :=
  (entries.find? (·.isInitial)).or entries.head?

/-- The states below a node of which one is active at a time. -/
def states (entries : List StateEntry) : Report Fragment := do
  let children ← addStates ⟨[]⟩ entries
  return .nested (.states children :: ((initialOf? entries).map (.initial ·.name)).toList)

/-- The states below a node that are all active together. -/
def parallelStates (entries : List StateEntry) : Report Fragment := do
  let children ← addStates ⟨[]⟩ entries
  return .nested [.states children, .kind .parallel]

end Builder

end Statechart
