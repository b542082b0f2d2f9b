import Statechart.Inline

/-!
# Mappings

The payload of assignments and of `data`: properties one by one, one function for all of them, or a
JSON value that is no object and is carried as it is.
-/

namespace Statechart

/-- A property: a literal, or a value computed at run time. -/
inductive Property where
  | value (json : Json)
  | expr (e : Expr)

namespace Property

instance : BEq Property where
  beq
    | value a, value b => a == b
    | expr a, expr b => a == b
    | _, _ => false

end Property

/-- What an assignment assigns, or what is handed on as data. -/
inductive Mapping where
  | properties (table : Table Property)
  | function (e : Expr)
  | value (json : Json)

namespace Mapping

/-- An object gives its members as properties; any other value is kept. -/
def ofJson : Json → Mapping
  | .obj members => properties (members.map .value)
  | json => value json

instance : BEq Mapping where
  beq
    | properties a, properties b => a == b
    | function a, function b => a == b
    | value a, value b => a == b
    | _, _ => false

end Mapping

end Statechart
