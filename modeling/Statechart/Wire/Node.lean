import Statechart.Wire.Action
import Statechart.Fragment

/-!
# Wire form of nodes

Nodes as JSON objects with their set facets in a fixed order, and fragments as the values that they
give to their facets.
-/

namespace Statechart

/-! ## Facet values -/

/-- The name of a mode, or `false`. -/
def HistoryMode.toJson : HistoryMode → Json
  | disabled => .bool false
  | shallow => .str "shallow"
  | deep => .str "deep"

/-- A name, or an object that has it twice. -/
def Activity.toJson : Activity → Json
  | named name => .str name
  | effect e => .object [("id", .str e.name), ("type", .str e.name)]

def Json.ofActivities (activities : List Activity) : Json := .arr (activities.map Activity.toJson)

/-! ## Nodes -/

/-- The service is always there, and empty if it is not set. -/
def Invocation.toJson (i : Invocation) : Json :=
  .object ([("src", .str i.src)] ++
    Json.optional "id" (i.id.map .str) ++
    Json.optional "data" (i.data.map Mapping.toJson) ++
    Json.optional "onDone" (i.onDone.map Json.ofTransitions) ++
    Json.optional "onError" (i.onError.map Json.ofTransitions) ++
    Json.optional "autoForward" (i.autoForward.map .bool))

namespace StateNode

/-- The members of a node, given the value of its nested states. -/
def members (n : StateNode) (states : Option Json) : List (String × Json) :=
  Json.optional "id" (n.id.map .str) ++
    Json.optional "initial" (n.initial.map .str) ++
    Json.optional "type" (n.kind.map fun k => .str k.name) ++
    Json.optional "context" n.context ++
    Json.optional "history" (n.history.map HistoryMode.toJson) ++
    Json.optional "target" (n.target.map .str) ++
    Json.optional "states" states ++
    Json.optional "on" (n.on.map Json.ofEventTable) ++
    Json.optional "entry" (n.entry.map Json.ofActions) ++
    Json.optional "exit" (n.exit.map Json.ofActions) ++
    Json.optional "invoke" (n.invoke.map Invocation.toJson) ++
    Json.optional "onDone" (n.onDone.map Json.ofTransitions) ++
    Json.optional "onError" (n.onError.map Json.ofTransitions) ++
    Json.optional "after" (n.after.map Json.ofEventTable) ++
    Json.optional "always" (n.always.map Json.ofTransitions) ++
    Json.optional "activities" (n.activities.map Json.ofActivities) ++
    Json.optional "meta" n.metadata ++
    Json.optional "data" (n.data.map Mapping.toJson) ++
    Json.optional "delimiter" (n.delimiter.map .str)

mutual
/-- A node as an object, with its nested states in it. -/
def toJson : StateNode → Json
  | n@{ states := none, .. } => .object (n.members none)
  | n@{ states := some ⟨children⟩, .. } =>
    .object (n.members (some (.object (toJsonStates children))))

def toJsonStates : List (String × StateNode) → List (String × Json)
  | [] => []
  | (name, n) :: rest => (name, toJson n) :: toJsonStates rest
end

end StateNode

/-! ## Fragments -/

/-- The value that a fragment gives to its facet. A fragment about nested states has none of its
own. -/
def Fragment.payload? : Fragment → Option Json
  | id name | initial name | target name | delimiter name => some (.str name)
  | kind k => some (.str k.name)
  | context json | metadata json => some json
  | history mode => some mode.toJson
  | states children => some (.obj (children.map StateNode.toJson))
  | nested _ => none
  | on table | after table => some (Json.ofEventTable table)
  | onDone ts | onError ts | always ts => some (Json.ofTransitions ts)
  | entry actions | exit actions => some (Json.ofActions actions)
  | invoke invocation => some invocation.toJson
  | activities items => some (Json.ofActivities items)
  | data mapping => some mapping.toJson
  | autoForward enabled => some (.bool enabled)
  | action a => some a.toJson
  | cond guard => some guard.toJson
  | transition t => some t.toJson

end Statechart
