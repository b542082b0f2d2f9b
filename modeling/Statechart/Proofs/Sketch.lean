import Statechart.Proofs.Soundness

/-!
# Described states

States as trees of builder calls, and what the calls make of them: `Sketch.becomes_of_build` for a
state and `Part.becomes_of_buildAll` for its parts.
-/

namespace Statechart

/-! ## Descriptions -/

namespace Builder

mutual

/-- A state as it is described with builder calls. -/
inductive Sketch where
  | state (name : String) (parts : List Part)
  | initialState (name : String) (parts : List Part)
  | finalState (name : String)
  | historyState (name : String) (mode : Option HistoryMode) (target : Option String)
  | bare (name : String)
  | marked (s : Sketch)

/-- A part of a state. Events and nested states have parts of their own. -/
inductive Part where
  | on (event : String) (run : List Fragment)
  | states (children : List Sketch)
  | parallelStates (children : List Sketch)
  | other (f : Fragment) (hon : f.facet ≠ .on) (hstates : f.facet ≠ .states)

end

mutual

/-- The builder calls for a state. -/
def Sketch.build : Sketch → Report StateEntry
  | .state name parts => do state name (← Part.buildAll parts)
  | .initialState name parts => do initialState name (← Part.buildAll parts)
  | .finalState name => return finalState name
  | .historyState name mode target => return historyState name mode target
  | .bare name => return .bare name
  | .marked s => do return (← s.build).marked

/-- The builder calls for states, one after the other. -/
def Sketch.buildAll : List Sketch → Report (List StateEntry)
  | [] => return []
  | s :: rest => do return (← s.build) :: (← Sketch.buildAll rest)

/-- The builder call for a part of a state. -/
def Part.build : Part → Report Fragment
  | .on event run => on event run
  | .states children => do states (← Sketch.buildAll children)
  | .parallelStates children => do parallelStates (← Sketch.buildAll children)
  | .other f _ _ => return f

/-- The builder calls for the parts of a state, one after the other. -/
def Part.buildAll : List Part → Report (List Fragment)
  | [] => return []
  | p :: rest => do return (← p.build) :: (← Part.buildAll rest)

end

/-! ## What a description says -/

namespace Part

/-- The event and the run of a part that is about an event. -/
def clause? : Part → Option (String × List Fragment)
  | on event run => some (event, run)
  | _ => none

/-- The descriptions in a part that is about nested states. -/
def children? : Part → Option (List Sketch)
  | states children | parallelStates children => some children
  | _ => none

end Part

namespace Sketch

/-- The name of a described state, which a mark leaves as it is. -/
def name : Sketch → String
  | state name _ | initialState name _ | finalState name | historyState name _ _ | bare name => name
  | marked s => s.name

/-- The parts of a described state, of which some states have none. -/
def parts : Sketch → List Part
  | state _ parts | initialState _ parts => parts
  | marked s => s.parts
  | _ => []

/-- The last of the nested states that have the name. -/
def child? (s : Sketch) (name : String) : Option Sketch :=
  (s.parts.findSome? Part.children?).bind (·.findRev? (·.name = name))

/-- The run of the last clause for the event. -/
def run? (s : Sketch) (event : String) : Option (List Fragment) :=
  ((s.parts.filterMap Part.clause?).findRev? (·.1 = event)).map (·.2)

/-- The state reached along a path of names, or the place of the first name that leads nowhere. -/
def descend (s : Sketch) : List String → Except Nat Sketch
  | [] => .ok s
  | name :: path =>
    match s.child? name with
    | some child => (child.descend path).mapError (· + 1)
    | none => .error 0

/-- The description is built as a state with the node `n`. -/
def Makes (s : Sketch) (n : StateNode) : Prop := ∃ e, s.build.outcome = .ok e ∧ e.node = n

end Sketch

/-! ## Parts that are built -/

/-- What a part is built as. -/
inductive Part.Becomes : Part → Fragment → Prop
  | on {event run ts} : (groupRun run).outcome = .ok ts →
      Becomes (.on event run) (.on ⟨[(event, ts)]⟩)
  | states {children entries} : List.Forall₂ (·.build.outcome = .ok ·) children entries →
      Becomes (.states children) (.nested
        (.states (childTable entries) :: ((initialOf? entries).map (.initial ·.name)).toList))
  | parallelStates {children entries} : List.Forall₂ (·.build.outcome = .ok ·) children entries →
      Becomes (.parallelStates children) (.nested [.states (childTable entries), .kind .parallel])
  | other {f} (hon : f.facet ≠ .on) (hstates : f.facet ≠ .states) :
      Becomes (.other f hon hstates) f

theorem forall₂_of_outcome {α β : Type} (f : α → Report β) (all : List α → Report (List β))
    (hnil : all [] = pure []) (hcons : ∀ a as, all (a :: as) = do return (← f a) :: (← all as))
    {as : List α} {bs : List β} (h : (all as).outcome = .ok bs) :
    List.Forall₂ (fun a b => (f a).outcome = .ok b) as bs := by
  induction as generalizing bs with
  | nil =>
      rw [hnil] at h
      cases h
      exact .nil
  | cons a as ih =>
      rw [hcons] at h
      obtain ⟨b, hb, h⟩ := Report.outcome_bind_eq_ok_iff.mp h
      obtain ⟨_, hbs, ⟨⟩⟩ := Report.outcome_bind_eq_ok_iff.mp h
      exact .cons hb (ih hbs)

theorem Sketch.forall₂_of_buildAll {ss : List Sketch} {es : List StateEntry}
    (h : (buildAll ss).outcome = .ok es) : List.Forall₂ (·.build.outcome = .ok ·) ss es :=
  forall₂_of_outcome build buildAll rfl (fun _ _ => rfl) h

namespace Part

theorem becomes_of_build {p : Part} {f : Fragment} (h : p.build.outcome = .ok f) : Becomes p f := by
  cases p with
  | on event run =>
      obtain ⟨_, hrun, ⟨⟩⟩ := Report.outcome_bind_eq_ok_iff.mp h
      exact .on hrun
  | states children =>
      rw [build] at h
      obtain ⟨_, hchildren, h⟩ := Report.outcome_bind_eq_ok_iff.mp h
      rw [outcome_states] at h
      cases h
      exact .states (Sketch.forall₂_of_buildAll hchildren)
  | parallelStates children =>
      rw [build] at h
      obtain ⟨_, hchildren, h⟩ := Report.outcome_bind_eq_ok_iff.mp h
      rw [outcome_parallelStates] at h
      cases h
      exact .parallelStates (Sketch.forall₂_of_buildAll hchildren)
  | other g hon hstates =>
      cases h
      exact .other hon hstates

theorem becomes_of_buildAll {ps : List Part} {fs : List Fragment}
    (h : (buildAll ps).outcome = .ok fs) : List.Forall₂ Becomes ps fs :=
  (forall₂_of_outcome build buildAll rfl (fun _ _ => rfl) h).imp fun _ _ => becomes_of_build

end Part

/-- What a description is built as: a node assembled from what its parts become, or a node without
nested states and events. -/
inductive Sketch.Becomes (s : Sketch) (e : StateEntry) : Prop
  | assembled {fs} : e.name = s.name → List.Forall₂ Part.Becomes s.parts fs →
      (assemble {} fs).outcome = .ok e.node → Becomes s e
  | leaf : e.name = s.name → s.parts = [] → e.node.states = none → e.node.on = none → Becomes s e

theorem Sketch.Becomes.name {s : Sketch} {e : StateEntry} (h : s.Becomes e) : e.name = s.name := by
  cases h <;> assumption

theorem Sketch.becomes_of_build {s : Sketch} {e : StateEntry} (h : s.build.outcome = .ok e) :
    s.Becomes e := by
  match s with
  | .state _ _ =>
      rw [build] at h
      obtain ⟨_, hfs, h⟩ := Report.outcome_bind_eq_ok_iff.mp h
      obtain ⟨hname, hn⟩ := assembled_of_state h
      exact .assembled hname (Part.becomes_of_buildAll hfs) hn
  | .initialState _ _ =>
      rw [build] at h
      obtain ⟨_, hfs, h⟩ := Report.outcome_bind_eq_ok_iff.mp h
      obtain ⟨hname, hn⟩ := assembled_of_initialState h
      exact .assembled hname (Part.becomes_of_buildAll hfs) hn
  | .finalState _ | .historyState _ _ _ | .bare _ =>
      cases h
      exact .leaf rfl rfl rfl rfl
  | .marked s =>
      rw [build] at h
      obtain ⟨_, he, ⟨⟩⟩ := Report.outcome_bind_eq_ok_iff.mp h
      cases s.becomes_of_build he with
      | assembled hname hparts hn => exact .assembled hname hparts hn
      | leaf hname hparts hstates hon => exact .leaf hname hparts hstates hon

end Builder

end Statechart
