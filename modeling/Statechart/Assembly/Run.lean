import Statechart.Assembly.Placed

/-!
# Runs of tokens

A flat run of targets, actions and guards is cut into transitions: a guard ends its transition, and
a finished transition stands by itself. So one run can say "to A if p, else to B if q, else to C".
-/

namespace Statechart

/-- The transitions of a run, given the transition that is still open, if there is one. -/
def groupFrom (current : Option Transition) : List Token → List Transition
  | [] => current.toList
  | .transition t :: rest => current.toList ++ t :: groupFrom none rest
  | .target name :: rest => groupFrom (some ((current.getD {}).withTarget name)) rest
  | .action a :: rest => groupFrom (some ((current.getD {}).withAction a)) rest
  | .cond guard :: rest => (current.getD {}).withCond guard :: groupFrom none rest

def group (tokens : List Token) : List Transition := groupFrom none tokens

/-- Groups a run, and logs the number of transitions. -/
def groupTokens (tokens : List Token) : Report (List Transition) := do
  Report.log (.grouped (group tokens).length)
  return group tokens

/-- Groups a list of fragments, all of which must be tokens. -/
def groupRun (fs : List Fragment) : Report (List Transition) := do
  groupTokens (← collect Fragment.token? .transitionRun fs)

end Statechart
