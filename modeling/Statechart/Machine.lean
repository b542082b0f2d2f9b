import Statechart.Assembly.Node

/-!
# Machines

A machine is its root node. A machine builder gathers options and fragments for it.
-/

namespace Statechart

/-- A machine, which has nothing besides its root. -/
structure Machine where
  root : StateNode
deriving BEq

/-- The machine that a list of fragments describes. The options govern the root alone. -/
def Machine.assemble (options : Options) (fs : List Fragment) : Report Machine := do
  return ⟨← Statechart.assemble options fs⟩

/-- The options and fragments gathered for a machine. -/
structure MachineBuilder where
  options : Options := {}
  fragments : List Fragment := []

namespace MachineBuilder

instance : Inhabited MachineBuilder := ⟨{}⟩

def withOptions (b : MachineBuilder) (options : Options) : MachineBuilder := { b with options }

def addAll (b : MachineBuilder) (fs : List Fragment) : MachineBuilder :=
  { b with fragments := b.fragments ++ fs }

def add (b : MachineBuilder) (f : Fragment) : MachineBuilder := b.addAll [f]

/-- Adds a fragment that may have failed to be built. -/
def tryAdd (b : MachineBuilder) (f : Except AssemblyError Fragment) :
    Except AssemblyError MachineBuilder :=
  f.map b.add

def build (b : MachineBuilder) : Report Machine := Machine.assemble b.options b.fragments

/-! ## Steps -/

/-- One call of a builder in use. -/
inductive Step where
  | withOptions (options : Options)
  | add (source : Fragment.Source)
  /-- A fragment that may have failed to be built. -/
  | tryAdd (f : Except AssemblyError Fragment)
  | addAll (fs : List Fragment)

/-- The builder after one step; only a fragment that failed to be built is an error. -/
def step (b : MachineBuilder) : Step → Except AssemblyError MachineBuilder
  | .withOptions options => .ok (b.withOptions options)
  | .add source => .ok (b.add (.ofSource source))
  | .tryAdd f => b.tryAdd f
  | .addAll fs => .ok (b.addAll fs)

/-- The builder after a sequence of steps, which ends at the first error. -/
def run (b : MachineBuilder) (steps : List Step) : Except AssemblyError MachineBuilder :=
  steps.foldlM step b

end MachineBuilder

end Statechart
