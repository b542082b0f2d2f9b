import Statechart.Wire.Node

/-!
# Nodes by name

A node with every inline function replaced by its name alone. On the wire nothing else is seen of
the functions (`StateNode.toJson_byName`).
-/

namespace Statechart

/-! ## Functions -/

/-- The label of any function of that name. -/
def Label.byName (l : Label) : Label := ⟨l.name, 0⟩

/-- The effect without its identity. -/
def Effect.byName (e : Effect) : Effect := ⟨e.label.byName⟩

/-- A predicate of that name that never holds. -/
def Predicate.byName (p : Predicate) : Predicate := ⟨p.label.byName, fun _ _ => false⟩

/-- A resolver of that name that gives nothing to do. -/
def Resolver.byName {α : Type} (r : Resolver α) : Resolver α := ⟨r.label.byName, fun _ _ => []⟩

/-! ## Actions -/

/-- The guard with its predicate by name. -/
def Guard.byName : Guard → Guard
  | named name => named name
  | predicate p => predicate p.byName

@[simp] theorem Guard.toJson_byName (g : Guard) : g.byName.toJson = g.toJson := by
  cases g <;> rfl

namespace Action

mutual
/-- The action with all functions in it by name, at every depth. -/
def byName : Action → Action
  | named name => named name
  | effect e => effect e.byName
  | assign assignment => assign assignment
  | send message => send message
  | choose branches => choose (byNameBranches branches)
  | pure source => pure source.byName
  | composed parts => composed (byNameList parts)

/-- The actions of a list by name. -/
def byNameList : List Action → List Action
  | [] => []
  | a :: rest => byName a :: byNameList rest

/-- The branches with their guards and actions by name. -/
def byNameBranches : List (Branch Action) → List (Branch Action)
  | [] => []
  | ⟨cond, actions⟩ :: rest => ⟨cond.map Guard.byName, byNameList actions⟩ :: byNameBranches rest
end

mutual
@[simp] theorem toJson_byName (a : Action) : a.byName.toJson = a.toJson := by
  match a with
  | named _ | effect _ | assign _ | send _ | pure _ => rfl
  | choose branches => simp only [byName, toJson, toJsonBranches_byNameBranches branches]
  | composed parts => simp only [byName, toJson, toJsonList_byNameList parts]

theorem toJsonList_byNameList (as : List Action) : toJsonList (byNameList as) = toJsonList as := by
  match as with
  | [] => rfl
  | a :: rest => simp only [byNameList, toJsonList, toJson_byName a, toJsonList_byNameList rest]

theorem toJsonBranches_byNameBranches (bs : List (Branch Action)) :
    toJsonBranches (byNameBranches bs) = toJsonBranches bs := by
  match bs with
  | [] => rfl
  | ⟨cond, actions⟩ :: rest =>
      simp only [byNameBranches, toJsonBranches, Json.ofBranch, Option.map_map,
        Function.comp_def, Guard.toJson_byName, toJsonList_byNameList actions,
        toJsonBranches_byNameBranches rest]
end

end Action

/-! ## Transitions -/

/-- The transition with its actions and its guard by name. -/
def Transition.byName (t : Transition) : Transition :=
  { t with actions := t.actions.map (·.map Action.byName), cond := t.cond.map Guard.byName }

@[simp] theorem Json.ofActions_byName (as : List Action) :
    Json.ofActions (as.map Action.byName) = Json.ofActions as := by
  simp [Json.ofActions]

@[simp] theorem Transition.toJson_byName (t : Transition) : t.byName.toJson = t.toJson := by
  simp [toJson, byName, Function.comp_def]

@[simp] theorem Json.ofTransitions_byName (ts : List Transition) :
    Json.ofTransitions (ts.map Transition.byName) = Json.ofTransitions ts := by
  simp [Json.ofTransitions]

/-- The table with all its transitions by name. -/
def EventTable.byName (table : EventTable) : EventTable := table.map (·.map Transition.byName)

@[simp] theorem Json.ofEventTable_byName (table : EventTable) :
    Json.ofEventTable table.byName = Json.ofEventTable table := by
  simp [Json.ofEventTable, EventTable.byName, Table.map]

/-! ## Nodes -/

/-- The activity with its effect by name. -/
def Activity.byName : Activity → Activity
  | named name => named name
  | effect e => effect e.byName

@[simp] theorem Activity.toJson_byName (a : Activity) : a.byName.toJson = a.toJson := by
  cases a <;> rfl

@[simp] theorem Json.ofActivities_byName (items : List Activity) :
    Json.ofActivities (items.map Activity.byName) = Json.ofActivities items := by
  simp [Json.ofActivities]

/-- The service with its transitions by name; its data are left as they are. -/
def Invocation.byName (i : Invocation) : Invocation :=
  { i with onDone := i.onDone.map (·.map Transition.byName)
           onError := i.onError.map (·.map Transition.byName) }

@[simp] theorem Invocation.toJson_byName (i : Invocation) : i.byName.toJson = i.toJson := by
  simp [toJson, byName, Function.comp_def]

namespace StateNode

/-- The facets by name, with other nested states. -/
def facetsByName (n : StateNode) (states : Option (Table StateNode)) : StateNode :=
  { n with
    states
    on := n.on.map EventTable.byName
    entry := n.entry.map (·.map Action.byName)
    exit := n.exit.map (·.map Action.byName)
    invoke := n.invoke.map Invocation.byName
    onDone := n.onDone.map (·.map Transition.byName)
    onError := n.onError.map (·.map Transition.byName)
    after := n.after.map EventTable.byName
    always := n.always.map (·.map Transition.byName)
    activities := n.activities.map (·.map Activity.byName) }

@[simp] theorem members_facetsByName (n : StateNode) (t : Option (Table StateNode)) (j : Option Json) :
    (n.facetsByName t).members j = n.members j := by
  unfold members facetsByName
  simp only [Option.map_map, Function.comp_def, Json.ofEventTable_byName,
    Json.ofActions_byName, Invocation.toJson_byName, Json.ofTransitions_byName,
    Json.ofActivities_byName]

mutual
/-- The node with all functions in it by name, in nested states as well. -/
def byName : StateNode → StateNode
  | n@{ states := none, .. } => n.facetsByName none
  | n@{ states := some ⟨children⟩, .. } => n.facetsByName (some ⟨byNameStates children⟩)

/-- The nodes of a table by name. -/
def byNameStates : List (String × StateNode) → List (String × StateNode)
  | [] => []
  | (name, n) :: rest => (name, byName n) :: byNameStates rest
end

theorem toJsonStates_eq_map (ns : List (String × StateNode)) :
    toJsonStates ns = ns.map fun e => (e.1, e.2.toJson) := by
  induction ns with
  | nil => rfl
  | cons e ns ih => rw [toJsonStates, ih, List.map_cons]

theorem byNameStates_eq_map (ns : List (String × StateNode)) :
    byNameStates ns = ns.map fun e => (e.1, e.2.byName) := by
  induction ns with
  | nil => rfl
  | cons e ns ih => rw [byNameStates, ih, List.map_cons]

theorem toJson_eq (n : StateNode) :
    n.toJson = .object (n.members (n.states.map fun t => .obj (t.map toJson))) := by
  obtain ⟨_, _, _, _, _, _, _ | ⟨_⟩⟩ := n
  · rfl
  · rw [toJson, toJsonStates_eq_map]
    rfl

theorem byName_eq (n : StateNode) : n.byName = n.facetsByName (n.states.map (·.map byName)) := by
  obtain ⟨_, _, _, _, _, _, _ | ⟨_⟩⟩ := n
  · rfl
  · rw [byName, byNameStates_eq_map]
    rfl

theorem toJson_byName (n : StateNode) : n.byName.toJson = n.toJson := by
  rw [byName_eq, toJson_eq, members_facetsByName, toJson_eq n]
  cases hstates : n.states with
  | none => simp only [facetsByName, Option.map_none]
  | some children =>
      have hchildren : (children.map byName).map toJson = children.map toJson := by
        simp only [Table.map, List.map_map, Table.mk.injEq]
        refine List.map_congr_left fun e he => Prod.ext rfl ?_
        have hchild : n.HasChild e.2 := ⟨children, hstates, e.1, he⟩
        exact toJson_byName e.2
      simp only [facetsByName, Option.map_some, hchildren]
termination_by sizeOf n
decreasing_by exact hchild.sizeOf_lt

end StateNode

end Statechart
