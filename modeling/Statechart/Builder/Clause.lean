import Statechart.Assembly.ActionList
import Statechart.Assembly.Node
import Statechart.Assembly.Run

/-!
# Clauses of a state

Fragments that are made from lists of fragments. Each of them accepts certain kinds of fragments and
reports the first one of another kind.
-/

namespace Statechart.Builder

/-! ## Transitions -/

/-- The transitions for one event. -/
def on (event : String) (run : List Fragment) : Report Fragment := do
  return .on ⟨[(event, ← groupRun run)]⟩

/-- The transitions for when the invocation or the final child of the state is done. -/
def onDone (run : List Fragment) : Report Fragment := do
  return .onDone (← groupRun run)

/-- The transitions for when the invocation of the state fails. -/
def onError (run : List Fragment) : Report Fragment := do
  return .onError (← groupRun run)

/-- The transitions that wait for no event. -/
def always (run : List Fragment) : Report Fragment := do
  return .always (← groupRun run)

/-- The transitions to take after a delay. -/
structure Delayed where
  delay : Delay
  transitions : List Transition
deriving BEq

def delayed (delay : Delay) (run : List Fragment) : Report Delayed := do
  return ⟨delay, ← groupRun run⟩

/-- Delayed transitions filed under the text of their delays. -/
def after (delays : List Delayed) : Fragment :=
  .after (.ofList (delays.map fun d => (d.delay.key, d.transitions)))

/-- Whether a fragment can be part of a single transition. -/
def isTransitionPart (f : Fragment) : Bool :=
  f.target?.isSome || f.action?.isSome || f.cond?.isSome

/-- One transition from a run: its first target, all its actions, and its last guard. -/
def transition (run : List Fragment) : Except AssemblyError Transition := do
  requireAll isTransitionPart .transition run
  let actions := extractActions run
  return {
    target := run.findSome? Fragment.target?
    actions := if actions.isEmpty then none else some actions
    cond := (extractGuards run).getLast? }

/-! ## Actions -/

/-- Whether a fragment can be part of a branch. -/
def isBranchPart (f : Fragment) : Bool := f.action?.isSome || f.cond?.isSome

/-- One branch of a choice from a run: all its actions and its last guard. -/
def branch (run : List Fragment) : Except AssemblyError (Branch Action) := do
  requireAll isBranchPart .branch run
  return { cond := (extractGuards run).getLast?, actions := extractActions run }

/-- The actions of fragments that are all actions, flattened by one level. -/
def collectActions (site : Site) (fs : List Fragment) : Except AssemblyError (List Action) := do
  return flattenActions (← collect Fragment.action? site fs)

/-- The actions to run when the state is entered. -/
def entry (fs : List Fragment) : Except AssemblyError Fragment := do
  return .entry (← collectActions .entry fs)

/-- The actions to run when the state is left. -/
def exit (fs : List Fragment) : Except AssemblyError Fragment := do
  return .exit (← collectActions .exit fs)

/-! ## Invocations -/

/-- The service to run while the state is active, assembled with the default options. -/
def invoke (src : String) (fs : List Fragment) : Report Fragment := do
  let invocation : Invocation ← assemble {} fs
  return .invoke { invocation with src }

end Statechart.Builder
