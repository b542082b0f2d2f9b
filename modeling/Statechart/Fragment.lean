import Statechart.StateNode

/-!
# Fragments

The input vocabulary of assembly. A fragment describes one facet of a node, or is a part of a run of
transitions; `Fragment.facet` says which.
-/

namespace Statechart

/-! ## Facets -/

/-- The aspects that a fragment can describe. -/
inductive Facet where
  | id
  | initial
  | kind
  | context
  | history
  | target
  | states
  | on
  | onDone
  | onError
  | entry
  | exit
  | invoke
  | always
  | after
  | activities
  | metadata
  | data
  | delimiter
  | autoForward
  | actions
  | cond
  | transition
deriving DecidableEq

/-- The name of a facet, in rendered nodes and in messages. -/
def Facet.key : Facet → String
  | id => "id"
  | initial => "initial"
  | kind => "type"
  | context => "context"
  | history => "history"
  | target => "target"
  | states => "states"
  | on => "on"
  | onDone => "onDone"
  | onError => "onError"
  | entry => "entry"
  | exit => "exit"
  | invoke => "invoke"
  | always => "always"
  | after => "after"
  | activities => "activities"
  | metadata => "meta"
  | data => "data"
  | delimiter => "delimiter"
  | autoForward => "autoForward"
  | actions => "actions"
  | cond => "cond"
  | transition => "transition"

/-! ## Fragments -/

/-- One statement about a node, or one part of a run of transitions. -/
inductive Fragment where
  | id (name : String)
  | initial (name : String)
  | kind (kind : StateKind)
  | context (json : Json)
  | history (mode : HistoryMode)
  /-- The target of a transition, or the default target of a history state. -/
  | target (name : String)
  | states (children : Table StateNode)
  /-- Fragments about nested states, which count after all others of the list. -/
  | nested (contents : List Fragment)
  | on (table : EventTable)
  | onDone (transitions : List Transition)
  | onError (transitions : List Transition)
  | entry (actions : List Action)
  | exit (actions : List Action)
  | invoke (invocation : Invocation)
  | always (transitions : List Transition)
  | after (table : EventTable)
  | activities (activities : List Activity)
  | metadata (json : Json)
  | data (mapping : Mapping)
  | delimiter (text : String)
  | autoForward (enabled : Bool)
  | action (a : Action)
  | cond (guard : Guard)
  /-- A finished transition, which takes no part in the grouping of a run. -/
  | transition (t : Transition)

namespace Fragment

instance : Inhabited Fragment := ⟨nested []⟩

def facet : Fragment → Facet
  | id _ => .id
  | initial _ => .initial
  | kind _ => .kind
  | context _ => .context
  | history _ => .history
  | target _ => .target
  | states _ | nested _ => .states
  | on _ => .on
  | onDone _ => .onDone
  | onError _ => .onError
  | entry _ => .entry
  | exit _ => .exit
  | invoke _ => .invoke
  | always _ => .always
  | after _ => .after
  | activities _ => .activities
  | metadata _ => .metadata
  | data _ => .data
  | delimiter _ => .delimiter
  | autoForward _ => .autoForward
  | action _ => .actions
  | cond _ => .cond
  | transition _ => .transition

/-! ## Shorthands -/

/-- An action that the interpreter knows by name. -/
def run (name : String) : Fragment := action (.named name)

/-- Assigns the members of an object, or hands another value to the interpreter. -/
def assign (json : Json) : Fragment := action (.assign (.ofJson json))

/-- A guard that the interpreter knows by name. -/
def guard (name : String) : Fragment := cond (.named name)

/-- The result of a final state, or the input of an invocation, from JSON. -/
def dataOf (json : Json) : Fragment := data (.ofJson json)

def choose (branches : List (Branch Action)) : Fragment := action (.choose branches)

/-- What can stand for a fragment: a fragment, the name of a target, or a finished transition. -/
inductive Source where
  | fragment (f : Fragment)
  | name (name : String)
  | transition (t : Transition)

def ofSource : Source → Fragment
  | .fragment f => f
  | .name name => target name
  | .transition t => transition t

/-! ## Parts -/

def isNested : Fragment → Bool
  | nested _ => true
  | _ => false

def action? : Fragment → Option Action
  | action a => some a
  | _ => none

def cond? : Fragment → Option Guard
  | cond guard => some guard
  | _ => none

def target? : Fragment → Option String
  | target name => some name
  | _ => none

def on? : Fragment → Option EventTable
  | on table => some table
  | _ => none

/-! ## Equality -/

mutual
def beq : Fragment → Fragment → Bool
  | id a, id b => a == b
  | initial a, initial b => a == b
  | kind a, kind b => a == b
  | context a, context b => a == b
  | history a, history b => a == b
  | target a, target b => a == b
  | states a, states b => a == b
  | nested as, nested bs => beqList as bs
  | on a, on b => a == b
  | onDone a, onDone b => a == b
  | onError a, onError b => a == b
  | entry a, entry b => a == b
  | exit a, exit b => a == b
  | invoke a, invoke b => a == b
  | always a, always b => a == b
  | after a, after b => a == b
  | activities a, activities b => a == b
  | metadata a, metadata b => a == b
  | data a, data b => a == b
  | delimiter a, delimiter b => a == b
  | autoForward a, autoForward b => a == b
  | action a, action b => a == b
  | cond a, cond b => a == b
  | transition a, transition b => a == b
  | _, _ => false

def beqList : List Fragment → List Fragment → Bool
  | [], [] => true
  | a :: as, b :: bs => beq a b && beqList as bs
  | _, _ => false
end

instance : BEq Fragment := ⟨beq⟩

end Fragment

/-! ## Tokens -/

/-- A part of a run of transitions. -/
inductive Token where
  | transition (t : Transition)
  | target (name : String)
  | action (a : Action)
  | cond (guard : Guard)
deriving BEq

/-- The token that a fragment stands for, if it can stand in a run of transitions. -/
def Fragment.token? : Fragment → Option Token
  | transition t => some (.transition t)
  | target name => some (.target name)
  | action a => some (.action a)
  | cond guard => some (.cond guard)
  | _ => none

/-- Whether a token adds to an open transition, in contrast to a finished transition. -/
def Token.isPrimitive : Token → Bool
  | transition _ => false
  | _ => true

end Statechart
