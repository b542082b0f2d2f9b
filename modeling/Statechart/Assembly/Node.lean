import Statechart.Assembly.EventTable
import Statechart.Options

/-!
# Assembling nodes

A list of fragments becomes a node in three steps: fragments about nested states move to the end,
event tables are united and their reserved events relocated, and the fragments are written into the
node one after the other.
-/

namespace Statechart

/-! ## Nodes that take fragments -/

/-- A kind of node that is written fragment by fragment. -/
class Assemblable (ν : Type) where
  site : Site
  blank : ν
  /-- The node with one facet written anew, unless it has no such facet. -/
  set? : ν → Fragment → Option ν

namespace StateNode

def set? (n : StateNode) : Fragment → Option StateNode
  | .id name => some { n with id := some name }
  | .initial name => some { n with initial := some name }
  | .kind kind => some { n with kind := some kind }
  | .context json => some { n with context := some json }
  | .history mode => some { n with history := some mode }
  | .target name => some { n with target := some name }
  | .states children => some { n with states := some children }
  | .on table => some { n with on := some table }
  | .onDone transitions => some { n with onDone := some transitions }
  | .onError transitions => some { n with onError := some transitions }
  | .entry actions => some { n with entry := some actions }
  | .exit actions => some { n with exit := some actions }
  | .invoke invocation => some { n with invoke := some invocation }
  | .always transitions => some { n with always := some transitions }
  | .after table => some { n with after := some table }
  | .activities activities => some { n with activities := some activities }
  | .metadata json => some { n with metadata := some json }
  | .data mapping => some { n with data := some mapping }
  | .delimiter text => some { n with delimiter := some text }
  | .nested _ | .autoForward _ | .action _ | .cond _ | .transition _ => none

instance : Assemblable StateNode := ⟨.state, {}, set?⟩

end StateNode

namespace Invocation

def set? (i : Invocation) : Fragment → Option Invocation
  | .id name => some { i with id := some name }
  | .data mapping => some { i with data := some mapping }
  | .onDone transitions => some { i with onDone := some transitions }
  | .onError transitions => some { i with onError := some transitions }
  | .autoForward enabled => some { i with autoForward := some enabled }
  | _ => none

instance : Assemblable Invocation := ⟨.invocation, {}, set?⟩

end Invocation

/-! ## Nested states last -/

/-- The contents of a fragment about nested states, at its position. -/
def Placed.contents (p : Placed) : List Placed :=
  match p.fragment with
  | .nested contents => contents.map (⟨p.position, ·⟩)
  | _ => []

/-- The fragments in their order, but the contents of those about nested states after all others. -/
def hoisted (fs : List Fragment) : List Placed :=
  (Placed.ofList fs).filter (!·.fragment.isNested) ++ (Placed.ofList fs).flatMap Placed.contents

/-- As `hoisted`, for a list with at most one fragment about nested states. -/
def hoist (fs : List Fragment) : Except AssemblyError (List Placed) :=
  match (Placed.ofList fs).filter (·.fragment.isNested) with
  | first :: second :: _ => .error (.multipleNestedStates first.position second.position)
  | _ => .ok (hoisted fs)

/-! ## Writing -/

variable {ν : Type} [Assemblable ν]

/-- What the policy says to a fragment after fragments with the facets `seen`. -/
def DuplicatePolicy.admit (policy : DuplicatePolicy) (seen : List Facet) (p : Placed)
    (site : Site) : Report Unit :=
  if p.fragment.facet ∈ seen then
    match policy with
    | overwrite => pure ()
    | warn => Report.log (.duplicateFacet p.fragment.facet p.position site)
    | reject => Report.fail (.duplicateFacet p.fragment.facet p.position site)
  else pure ()

/-- Writes the fragments into a node in which the facets `seen` are already described. -/
def writeAll (policy : DuplicatePolicy) (seen : List Facet) (node : ν) : List Placed → Report ν
  | [] => return node
  | p :: rest =>
    match Assemblable.set? node p.fragment with
    | none => Report.fail (p.unexpected (Assemblable.site ν))
    | some node => do
      policy.admit seen p (Assemblable.site ν)
      writeAll policy (p.fragment.facet :: seen) node rest

/-- The node that a list of fragments describes. -/
def assemble (options : Options) (fs : List Fragment) : Report ν := do
  let placed ← hoist fs
  let node ← writeAll options.duplicates [] (Assemblable.blank : ν)
    (uniteEvents options.relocateReservedEvents placed)
  Report.log (.assembled (Assemblable.site ν) fs.length)
  return node

end Statechart
