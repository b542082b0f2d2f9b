import Statechart.Json.Reader

/-!
# Assembly options

What to do with a facet that is described twice, and whether the reserved events are relocated.
Options are read from a JSON object, in which every member may be missing, or from an array of their
values in order, in which the last ones may be missing.
-/

namespace Statechart

/-! ## Policies -/

/-- What happens when a facet is described twice. -/
inductive DuplicatePolicy where
  /-- The later description counts. -/
  | overwrite
  /-- The later description counts, and the repetition is logged. -/
  | warn
  /-- The repetition is an error. -/
  | reject
deriving DecidableEq

namespace DuplicatePolicy

def name : DuplicatePolicy → String
  | overwrite => "overwrite"
  | warn => "warn"
  | reject => "reject"

def ofName? (name : String) : Option DuplicatePolicy :=
  [overwrite, warn, reject].find? (·.name == name)

def ofJson? (j : Json) : Option DuplicatePolicy := j.unitName?.bind ofName?

end DuplicatePolicy

/-! ## Options -/

/-- How a list of fragments is assembled. -/
structure Options where
  duplicates : DuplicatePolicy := .warn
  /-- Whether the events `done` and `error` move out of the event table. -/
  relocateReservedEvents : Bool := true
deriving DecidableEq

namespace Options

instance : Inhabited Options := ⟨{}⟩

def duplicatesKey : String := "duplicate_facets"

def relocateKey : String := "relocate_reserved_events"

def bool? : Json → Option Bool
  | .bool b => some b
  | _ => none

/-- Options from the values that are given; the others are the default. -/
def ofValues? (policy relocate : Option Json) : Option Options := do
  let duplicates ← match policy with
    | some j => DuplicatePolicy.ofJson? j
    | none => some (default : Options).duplicates
  let relocateReservedEvents ← match relocate with
    | some j => bool? j
    | none => some (default : Options).relocateReservedEvents
  return { duplicates, relocateReservedEvents }

/-- Options from JSON. Members with other keys are ignored. -/
def ofJson? : Json → Option Options
  | .obj members => ofValues? (members.get? duplicatesKey) (members.get? relocateKey)
  | .arr [] => ofValues? none none
  | .arr [policy] => ofValues? (some policy) none
  | .arr [policy, relocate] => ofValues? (some policy) (some relocate)
  | _ => none

def toJson (o : Options) : Json :=
  .object [(duplicatesKey, .str o.duplicates.name), (relocateKey, .bool o.relocateReservedEvents)]

/-! ## Options from text

A text may hold what no value can: a repeated key is an error, and a member that is ignored need not
even have a value. -/

open Json in
/-- The value of a document whose own members have distinct keys. -/
def unrepeated? : Document → Option Json
  | .obj members => do
    let keys ← members.mapM fun m => decodeText m.1
    if keys.Nodup then (Document.obj members).toJson? else none
  | d => d.toJson?

open Json in
/-- The value under a key, which stands at most once. -/
def single? (members : List (String × Document)) (key : String) : Option (Option Json) :=
  match members.filter (·.1 == key) with
  | [] => some none
  | [(_, d)] => (unrepeated? d).map some
  | _ => none

open Json in
/-- Options from a document; only the members with known keys must have a value. -/
def ofDocument? : Document → Option Options
  | .obj members => do
    let keyed ← members.mapM fun m => do return (← decodeText m.1, m.2)
    ofValues? (← single? keyed duplicatesKey) (← single? keyed relocateKey)
  | .arr items => do ofJson? (.arr (← items.mapM unrepeated?))
  | _ => none

def ofText? (text : String) : Option Options := (Json.Document.ofText? text).bind ofDocument?

end Options

end Statechart
