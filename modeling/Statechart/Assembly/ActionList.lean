import Statechart.Assembly.Placed

/-!
# Action lists

Composed actions are flattened by one level, and the assignments of properties collapse into a
single one that comes first.
-/

namespace Statechart

/-- The actions with the composed ones replaced by their parts. -/
def flattenActions (as : List Action) : List Action := as.flatMap Action.parts

/-- The actions in a list of fragments, flattened by one level. -/
def extractActions (fs : List Fragment) : List Action :=
  flattenActions (fs.filterMap Fragment.action?)

/-- The guards in a list of fragments. -/
def extractGuards (fs : List Fragment) : List Guard := fs.filterMap Fragment.cond?

/-- The assignments of properties as one assignment, and after it the other actions in their order.
Nothing is put first if there is no such assignment. -/
def mergeAssigns (as : List Action) : List Action :=
  let others := as.filter (!·.isMergeable)
  match as.filterMap Action.properties? with
  | [] => others
  | tables => .assign (.properties (Table.unions tables)) :: others

/-- One composed action from fragments that are all actions. -/
def mergeActions (fs : List Fragment) : Report Fragment := do
  let merged := mergeAssigns (flattenActions (← collect Fragment.action? .actionMerge fs))
  Report.log (.merged merged.length)
  return .action (.composed merged)

end Statechart
