import AvroGraph.Registry

/-!
# Logical types over schemas

Which schemas a logical type may annotate, how its parameters are read from a schema object,
and the overlay that results. A logical type that is not known leaves its schema alone.
-/

namespace AvroGraph

namespace LogicalType

/-- The type of a logical type in the generated code. -/
def target : LogicalType → String
  | .decimal _ _ => "decimal"
  | .uuid => "System.Guid"
  | .date => "System.DateOnly"
  | .timeMillis | .timeMicros => "System.TimeOnly"
  | .timestampMillis | .timestampMicros => "System.DateTimeOffset"
  | .duration => "System.TimeSpan"
  | .localTimestampMillis | .localTimestampMicros => "System.DateTime"

/-- The size of the fixed type that a schema refers to. -/
def fixedSize? (registry : Registry) : Schema → Option Nat
  | .named .fixed handle => (registry.fixed? handle).map FixedType.size
  | _ => none

/-- Whether a logical type may annotate a schema. -/
def accepts (registry : Registry) (underlying : Schema) : LogicalType → Bool
  | .date | .timeMillis => underlying = .primitive .int
  | .timeMicros | .timestampMillis | .timestampMicros | .localTimestampMillis
  | .localTimestampMicros => underlying = .primitive .long
  | .decimal _ _ => underlying = .primitive .bytes || (fixedSize? registry underlying).isSome
  | .duration => fixedSize? registry underlying = some 12
  | .uuid => underlying = .string || fixedSize? registry underlying = some 16

/-- The logical types without parameters. -/
def plain : List LogicalType :=
  [.uuid, .date, .timeMillis, .timeMicros, .timestampMillis, .timestampMicros, .duration,
   .localTimestampMillis, .localTimestampMicros]

/-- The greatest precision of a decimal: 32 bits, all set. -/
def precisionLimit : Nat := 0xFFFFFFFF

/-- A decimal as an object describes it: a positive precision of 32 bits, and a scale up to the
precision, which is zero if absent. -/
def readDecimal (members : Members) : Except Reason LogicalType :=
  match (members.get? "precision").bind Json.nat? with
  | none => .error .badPrecision
  | some precision =>
    if 0 < precision ∧ precision ≤ precisionLimit then
      match members.get? "scale" with
      | none => .ok (.decimal precision 0)
      | some value =>
        match value.nat? with
        | some scale =>
          if scale ≤ precision then .ok (.decimal precision scale) else .error .badScale
        | none => .error .badScale
    else .error .badPrecision

/-- The logical type of a name, with parameters from a schema object; a name that is not known
gives none. -/
def read (name : String) (members : Members) : Except Reason (Option LogicalType) :=
  if name = "decimal" then (readDecimal members).map some
  else .ok (plain.find? (·.name = name))

end LogicalType

/-- A schema with a logical type laid over it, if there is one and it fits. The name is the one
the document writes. -/
def Schema.annotate (registry : Registry) (underlying : Schema) (name : String) :
    Option LogicalType → Except Reason Schema
  | none => .ok underlying
  | some overlay =>
    if overlay.accepts registry underlying then .ok (.logical underlying overlay)
    else .error (.cannotAnnotate name (registry.nameOf underlying))

end AvroGraph
