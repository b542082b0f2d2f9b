import Statechart.Fragment

/-!
# Errors, events and reports

Assembly answers with a report: the outcome, and the events logged on the way, which are kept when
the outcome is an error.
-/

namespace Statechart

/-! ## Sites -/

/-- Where a list of fragments was read. -/
inductive Site where
  | state
  | invocation
  | transitionRun
  | transition
  | branch
  | entry
  | exit
  | actionMerge
  | eventTableMerge
deriving DecidableEq

def Site.name : Site → String
  | state => "state"
  | invocation => "invocation"
  | transitionRun => "transition run"
  | transition => "transition"
  | branch => "choice"
  | entry => "entry"
  | exit => "exit"
  | actionMerge => "action merge"
  | eventTableMerge => "event table merge"

/-! ## Errors -/

/-- Why a list of fragments cannot be assembled. -/
inductive AssemblyError where
  /-- A fragment that has no place at the site. -/
  | unexpectedFragment (facet : Facet) (position : Nat) (site : Site)
  /-- Two fragments about nested states in one list. -/
  | multipleNestedStates (first second : Nat)
  /-- A facet for the second time, where that is forbidden. -/
  | duplicateFacet (facet : Facet) (position : Nat) (site : Site)
deriving DecidableEq

namespace AssemblyError

/-- The position that an error reports; of two the second. -/
def position : AssemblyError → Nat
  | unexpectedFragment _ position _ => position
  | multipleNestedStates _ second => second
  | duplicateFacet _ position _ => position

/-- What is the matter with a fragment, where it stands, and what was being read. -/
def complaint (adjective : String) (facet : Facet) (position : Nat) (site : Site) : String :=
  adjective ++ " \x60" ++ facet.key ++ "\x60 fragment at position " ++ position.repr ++ " in " ++
    site.name

def message : AssemblyError → String
  | unexpectedFragment facet position site => complaint "unexpected" facet position site
  | multipleNestedStates first second =>
    "more than one nested-states fragment: positions " ++ first.repr ++ " and " ++ second.repr
  | duplicateFacet facet position site => complaint "duplicate" facet position site

end AssemblyError

/-! ## Events -/

inductive Level where
  | trace
  | debug
  | warn
deriving DecidableEq

def Level.name : Level → String
  | trace => "TRACE"
  | debug => "DEBUG"
  | warn => "WARN"

/-- What is logged. -/
inductive Event where
  /-- A node was assembled from that many fragments. -/
  | assembled (site : Site) (fragments : Nat)
  /-- A run of tokens was grouped into that many transitions. -/
  | grouped (transitions : Nat)
  /-- Fragments were merged into that many actions. -/
  | merged (actions : Nat)
  /-- A facet was described again, and the later description counts. -/
  | duplicateFacet (facet : Facet) (position : Nat) (site : Site)
  /-- A state of that name was declared again, and the later one counts. -/
  | duplicateState (name : String)
deriving DecidableEq

namespace Event

def level : Event → Level
  | assembled .. => .debug
  | grouped _ | merged _ => .trace
  | duplicateFacet .. | duplicateState _ => .warn

def message : Event → String
  | assembled .. => "assembled configuration node"
  | grouped _ => "grouped transition tokens"
  | merged _ => "merged action fragments"
  | duplicateFacet .. => "duplicate fragment; later value wins"
  | duplicateState _ => "duplicate state name; later state wins"

def fields : Event → List (String × Json)
  | assembled site fragments => [("kind", .str site.name), ("fragments", .ofNat fragments)]
  | grouped transitions => [("records", .ofNat transitions)]
  | merged actions => [("actions", .ofNat actions)]
  | duplicateFacet facet position site =>
    [("facet", .str facet.key), ("position", .ofNat position), ("context", .str site.name)]
  | duplicateState name => [("state", .str name)]

def toJson (e : Event) : Json :=
  .object [("level", .str e.level.name), ("message", .str e.message), ("fields", .object e.fields)]

end Event

/-! ## Reports -/

/-- An outcome with the events logged on the way to it. -/
structure Report (α : Type) where
  events : List Event
  outcome : Except AssemblyError α

namespace Report

variable {α β : Type}

instance : Monad Report where
  pure a := ⟨[], .ok a⟩
  bind r f :=
    match r.outcome with
    | .ok a => ⟨r.events ++ (f a).events, (f a).outcome⟩
    | .error e => ⟨r.events, .error e⟩

def log (e : Event) : Report Unit := ⟨[e], .ok ()⟩

def logIf (c : Prop) [Decidable c] (e : Event) : Report Unit := if c then log e else pure ()

def fail (e : AssemblyError) : Report α := ⟨[], .error e⟩

/-- An outcome on the way to which nothing was logged. -/
def ofExcept (outcome : Except AssemblyError α) : Report α := ⟨[], outcome⟩

instance : MonadLift (Except AssemblyError) Report := ⟨ofExcept⟩

/-! ## Outcomes and events of a sequence -/

@[simp] theorem outcome_pure (a : α) : (pure a : Report α).outcome = .ok a := rfl

@[simp] theorem events_pure (a : α) : (pure a : Report α).events = [] := rfl

@[simp] theorem outcome_logIf (c : Prop) [Decidable c] (e : Event) :
    (logIf c e).outcome = .ok () := by
  unfold logIf
  split <;> rfl

@[simp] theorem events_logIf (c : Prop) [Decidable c] (e : Event) :
    (logIf c e).events = if c then [e] else [] := by
  unfold logIf
  split <;> rfl

theorem outcome_bind (r : Report α) (f : α → Report β) :
    (r >>= f).outcome = r.outcome.bind fun a => (f a).outcome := by
  obtain ⟨es, o⟩ := r
  cases o <;> rfl

theorem outcome_bind_eq_ok_iff {r : Report α} {f : α → Report β} {b : β} :
    (r >>= f).outcome = .ok b ↔ ∃ a, r.outcome = .ok a ∧ (f a).outcome = .ok b := by
  rw [outcome_bind]
  cases r.outcome <;> simp [Except.bind]

/-- An error cuts off the events of what would follow. -/
theorem events_bind (r : Report α) (f : α → Report β) :
    (r >>= f).events = r.events ++
      match r.outcome with
      | .ok a => (f a).events
      | .error _ => [] := by
  obtain ⟨es, o⟩ := r
  cases o with
  | ok a => rfl
  | error e => simp [bind]

end Report

end Statechart
