import Statechart.Report

/-!
# Reading lists of fragments

A list in which every fragment must be of certain kinds. The first fragment of another kind is
reported with its facet and position.
-/

namespace Statechart

/-! ## Positions -/

/-- A fragment with its position in the list that it was given in. -/
structure Placed where
  position : Nat
  fragment : Fragment

namespace Placed

/-- The fragments of a list, each at its position. -/
def ofList (fs : List Fragment) : List Placed := fs.zipIdx.map fun (f, i) => ⟨i, f⟩

def unexpected (p : Placed) (site : Site) : AssemblyError :=
  .unexpectedFragment p.fragment.facet p.position site

end Placed

/-! ## Lists of one kind -/

/-- Accepts a list, or complains about the first fragment in it that is not accepted. -/
def requireAll (accepts : Fragment → Bool) (site : Site) (fs : List Fragment) :
    Except AssemblyError Unit :=
  match (Placed.ofList fs).find? (!accepts ·.fragment) with
  | some p => .error (p.unexpected site)
  | none => .ok ()

/-- The parts that all fragments of the list must have. -/
def collect {α : Type} (part? : Fragment → Option α) (site : Site) (fs : List Fragment) :
    Except AssemblyError (List α) := do
  requireAll (fun f => (part? f).isSome) site fs
  return fs.filterMap part?

end Statechart
