import Statechart.Json.Basic
import Statechart.Text.Quoted

/-!
# Inline functions

Functions that a configuration carries for the interpreter, each under a label. Two of them are
equal when their labels are, whatever the functions compute.
-/

namespace Statechart

/-- A name together with the identity of the function that was given it. Copies of a function share
the identity, and no two separately made functions do. -/
structure Label where
  name : String
  identity : Nat
deriving DecidableEq

/-- The description of a function in diagnostics: what sort of function it is, and its name. -/
def Label.describe (sort : String) (l : Label) : String :=
  sort ++ " \x7b name: " ++ Text.quoted l.name ++ " \x7d"

/-! ## Effects -/

/-- A side effect; what it does to the world is that it was called. -/
structure Effect where
  label : Label
deriving DecidableEq

/-- One execution of an effect. -/
structure EffectCall where
  name : String
  context : Json
  event : Json

namespace Effect

def name (e : Effect) : String := e.label.name

def describe (e : Effect) : String := e.label.describe "Effect"

def exec (e : Effect) (context event : Json) : EffectCall := ⟨e.name, context, event⟩

end Effect

/-! ## Expressions -/

/-- A value computed from the context and the event. -/
structure Expr where
  label : Label
  eval : Json → Json → Json

namespace Expr

def name (e : Expr) : String := e.label.name

def describe (e : Expr) : String := e.label.describe "Expr"

instance : BEq Expr := ⟨fun a b => a.label == b.label⟩

end Expr

/-! ## Predicates -/

/-- A condition on the context and the event. -/
structure Predicate where
  label : Label
  check : Json → Json → Bool

namespace Predicate

def name (p : Predicate) : String := p.label.name

def describe (p : Predicate) : String := p.label.describe "Predicate"

instance : BEq Predicate := ⟨fun a b => a.label == b.label⟩

end Predicate

/-! ## Resolvers -/

/-- A list of things to do, computed from the context and the event. -/
structure Resolver (α : Type) where
  label : Label
  resolve : Json → Json → List α

namespace Resolver

variable {α : Type}

def name (r : Resolver α) : String := r.label.name

def describe (r : Resolver α) : String := r.label.describe "PureAction"

instance : BEq (Resolver α) := ⟨fun a b => a.label == b.label⟩

end Resolver

end Statechart
