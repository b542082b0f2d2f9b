import Statechart.Transition

/-!
# Wire form of actions and transitions

The JSON in which the interpreter reads them. Inline functions appear by name only; a field that is
not set is left out.
-/

namespace Statechart

/-- A member that is left out if it has no value. -/
def Json.optional (key : String) (value : Option Json) : List (String × Json) :=
  (value.map (key, ·)).toList

/-! ## Functions and mappings -/

/-- The reference to a function by its name. -/
def Label.toJson (l : Label) : Json := .object [("type", .str l.name)]

/-- A literal as it is, and a function by its name. -/
def Property.toJson : Property → Json
  | value json => json
  | expr e => e.label.toJson

/-- The properties as the members of an object, or what stands for all of them. -/
def Mapping.toJson : Mapping → Json
  | properties table => .obj (table.map Property.toJson)
  | function e => e.label.toJson
  | value json => json

/-! ## Guards and delays -/

/-- A name, or an object that marks an inline predicate. -/
def Guard.toJson : Guard → Json
  | named name => .str name
  | predicate p => .object [("type", .str "xstate.guard"), ("name", .str p.name)]

def Delay.toJson : Delay → Json
  | millis n => .ofNat n
  | named name => .str name

/-! ## Actions -/

def Send.toJson (s : Send) : Json :=
  .object ([("type", .str "xstate.send"), ("event", s.event)] ++
    Json.optional "to" (s.recipient.map .str) ++
    Json.optional "delay" (s.delay.map Delay.toJson) ++
    Json.optional "id" (s.id.map .str))

/-- A branch, given its actions as JSON. -/
def Json.ofBranch (cond : Option Guard) (actions : List Json) : Json :=
  .object (Json.optional "cond" (cond.map Guard.toJson) ++ [("actions", .arr actions)])

namespace Action

mutual
/-- A name, an object that says by its type what is done, or an array of parts. -/
def toJson : Action → Json
  | named name => .str name
  | effect e => e.label.toJson
  | assign assignment =>
    .object [("type", .str "xstate.assign"), ("assignment", assignment.toJson)]
  | send message => message.toJson
  | choose branches =>
    .object [("type", .str "xstate.choose"), ("conds", .arr (toJsonBranches branches))]
  | pure source => .object [("type", .str "xstate.pure"), ("get", .str source.name)]
  | composed parts => .arr (toJsonList parts)

def toJsonList : List Action → List Json
  | [] => []
  | a :: rest => toJson a :: toJsonList rest

def toJsonBranches : List (Branch Action) → List Json
  | [] => []
  | ⟨cond, actions⟩ :: rest => Json.ofBranch cond (toJsonList actions) :: toJsonBranches rest
end

end Action

def Branch.toJson (b : Branch Action) : Json := Json.ofBranch b.cond (b.actions.map Action.toJson)

def Json.ofActions (actions : List Action) : Json := .arr (actions.map Action.toJson)

/-! ## Transitions -/

def Transition.toJson (t : Transition) : Json :=
  .object (Json.optional "target" (t.target.map .str) ++
    Json.optional "actions" (t.actions.map Json.ofActions) ++
    Json.optional "cond" (t.cond.map Guard.toJson))

def Json.ofTransitions (transitions : List Transition) : Json :=
  .arr (transitions.map Transition.toJson)

/-- The transitions under their events, or delays. -/
def Json.ofEventTable (table : EventTable) : Json := .obj (table.map Json.ofTransitions)

end Statechart
