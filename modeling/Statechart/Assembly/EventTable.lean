import Statechart.Assembly.Placed

/-!
# Event tables

Tables of transitions by event are united, and for each event the last table that has it counts. The
events that tell how a state or an invocation ended are reserved: they have facets of their own.
-/

namespace Statechart

/-! ## Union -/

/-- One event table from fragments that are all event tables; for each event the last one counts. -/
def mergeEventTables (fs : List Fragment) : Except AssemblyError Fragment := do
  return .on (Table.unions (← collect Fragment.on? .eventTableMerge fs))

/-! ## Reserved events -/

/-- The event that says that a state or an invocation has finished. -/
def doneEvent : String := "done"

/-- The event that says that an invocation has failed. -/
def errorEvent : String := "error"

def unreserved (table : EventTable) : EventTable := (table.erase doneEvent).erase errorEvent

/-- The fragments that an event table amounts to: with relocation, one for each reserved event in
it, and one for the events that remain, if any do. -/
def eventFragments (relocate : Bool) (table : EventTable) : List Fragment :=
  let relocated := if relocate then
      ((table.get? doneEvent).map .onDone).toList ++ ((table.get? errorEvent).map .onError).toList
    else []
  let remaining := if relocate then unreserved table else table
  relocated ++ if remaining.isEmpty then [] else [.on remaining]

/-! ## Replacing the tables of a list -/

/-- The fragments with all event tables replaced by what their union amounts to, at the end and at
the position of the last one. -/
def uniteEvents (relocate : Bool) (ps : List Placed) : List Placed :=
  let rest := ps.filter (·.fragment.on?.isNone)
  match (ps.filter (·.fragment.on?.isSome)).getLast? with
  | none => rest
  | some last =>
    let table := Table.unions (ps.filterMap (·.fragment.on?))
    rest ++ (eventFragments relocate table).map (⟨last.position, ·⟩)

end Statechart
