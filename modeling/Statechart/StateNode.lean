import Statechart.Transition

/-!
# State nodes

The nodes of a configuration: a state with its facets and nested states, and the service that a
state invokes. A facet that is not set is absent, which is not the same as empty.
-/

namespace Statechart

/-! ## Facet values -/

/-- What sort of state a node is. -/
inductive StateKind where
  | atomic
  | compound
  | parallel
  | final
  | history
deriving DecidableEq

namespace StateKind

def all : List StateKind := [atomic, compound, parallel, final, history]

def name : StateKind → String
  | atomic => "atomic"
  | compound => "compound"
  | parallel => "parallel"
  | final => "final"
  | history => "history"

def ofName? (name : String) : Option StateKind := all.find? (·.name == name)

def ofJson? (j : Json) : Option StateKind := j.unitName?.bind ofName?

end StateKind

/-- Whether a history state restores only its own level or all levels below it. -/
inductive HistoryMode where
  | disabled
  | shallow
  | deep
deriving DecidableEq

/-- A long-running activity: known to the interpreter by name, or inline. -/
inductive Activity where
  | named (name : String)
  | effect (e : Effect)
deriving DecidableEq

/-! ## Nodes -/

/-- A service that runs while a state is active. -/
structure Invocation where
  src : String := ""
  id : Option String := none
  data : Option Mapping := none
  onDone : Option (List Transition) := none
  onError : Option (List Transition) := none
  autoForward : Option Bool := none
deriving BEq

/-- A state, or the root of a machine. -/
structure StateNode where
  id : Option String := none
  initial : Option String := none
  kind : Option StateKind := none
  context : Option Json := none
  history : Option HistoryMode := none
  target : Option String := none
  states : Option (Table StateNode) := none
  on : Option EventTable := none
  entry : Option (List Action) := none
  exit : Option (List Action) := none
  invoke : Option Invocation := none
  onDone : Option (List Transition) := none
  onError : Option (List Transition) := none
  after : Option EventTable := none
  always : Option (List Transition) := none
  activities : Option (List Activity) := none
  metadata : Option Json := none
  data : Option Mapping := none
  delimiter : Option String := none

namespace StateNode

instance : Inhabited StateNode := ⟨{}⟩

/-- A state of which only the kind is set. -/
def ofKind (kind : StateKind) : StateNode := { kind := some kind }

/-! ## Navigation -/

/-- The nested state of that name. -/
def state? (n : StateNode) (name : String) : Option StateNode := n.states.bind (·.get? name)

/-- The transitions for an event in the node's event table. -/
def transitions? (n : StateNode) (event : String) : Option (List Transition) :=
  n.on.bind (·.get? event)

/-- The node reached by going down along a path of names, or the place in the path of the first name
that no nested state has. -/
def descend (n : StateNode) : List String → Except Nat StateNode
  | [] => .ok n
  | name :: path =>
    match n.state? name with
    | some child => (child.descend path).mapError (· + 1)
    | none => .error 0

/-- The node `c` is nested directly in `n`. -/
def HasChild (n c : StateNode) : Prop :=
  ∃ children, n.states = some children ∧ ∃ name, (name, c) ∈ children.entries

theorem HasChild.sizeOf_lt {n c : StateNode} (h : n.HasChild c) : sizeOf c < sizeOf n := by
  obtain ⟨children, hstates, name, hmem⟩ := h
  have hlt := List.sizeOf_lt_of_mem hmem
  cases n
  cases hstates
  cases children
  simp only [StateNode.mk.sizeOf_spec, Option.some.sizeOf_spec, Table.mk.sizeOf_spec,
    Prod.mk.sizeOf_spec] at hlt ⊢
  omega

/-! ## Equality -/

/-- Equality of all facets but the nested states. -/
def beqFacets (a b : StateNode) : Bool :=
  a.id == b.id && a.initial == b.initial && a.kind == b.kind && a.context == b.context &&
  a.history == b.history && a.target == b.target && a.on == b.on && a.entry == b.entry &&
  a.exit == b.exit && a.invoke == b.invoke && a.onDone == b.onDone && a.onError == b.onError &&
  a.after == b.after && a.always == b.always && a.activities == b.activities &&
  a.metadata == b.metadata && a.data == b.data && a.delimiter == b.delimiter

mutual
/-- Equality of nodes, up to the order of their nested states. -/
def beq : StateNode → StateNode → Bool
  | a@{ states := none, .. }, b => beqFacets a b && b.states.isNone
  | a@{ states := some ⟨as⟩, .. }, b =>
    beqFacets a b && b.states.any fun bs => as.length == bs.size && beqStates as bs

/-- Each of the nested states is found with an equal node in the table. -/
def beqStates : List (String × StateNode) → Table StateNode → Bool
  | [], _ => true
  | (k, a) :: rest, bs => (bs.get? k).any (beq a ·) && beqStates rest bs
end

instance : BEq StateNode := ⟨beq⟩

end StateNode

end Statechart
