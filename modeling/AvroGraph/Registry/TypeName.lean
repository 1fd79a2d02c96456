import AvroGraph.Registry.Logical

/-!
# Type names in the generated code

The type that generated code declares for a schema. Named schemas go by their escaped names.
-/

namespace AvroGraph

/-- A type name, marked if the type admits null. -/
def markNullable (name : String) (nullable : Bool) : String :=
  if nullable then name ++ "?" else name

/-- The type name of a type without parts. -/
def Primitive.typeName : Primitive → String
  | .null => "object"
  | .boolean => "bool"
  | .int => "int"
  | .long => "long"
  | .float => "float"
  | .double => "double"
  | .bytes => "byte[]"
  | .string => "string"

namespace Registry

/-- The type name of a schema; a union goes by the type that represents it. -/
def typeName (registry : Registry) : Schema → String
  | .primitive type => type.typeName
  | .named kind handle => (registry.nameOf (.named kind handle)).escapedFull
  | .array items => "System.Collections.Generic.IList<" ++ registry.typeName items ++ ">"
  | .map values =>
    "System.Collections.Generic.IDictionary<string, " ++ registry.typeName values ++ ">"
  | .union _ underlying nullable => markNullable (registry.typeName underlying) nullable
  | .logical _ overlay => overlay.target
  | .boxed => "object"

section

variable (registry : Registry)

/-- A named schema is called by the escaped name of its entry. -/
theorem typeName_named (kind : NamedKind) (handle : Handle) :
    registry.typeName (.named kind handle) =
      (registry.nameOf (.named kind handle)).escapedFull := rfl

/-- An array is a list of its items. -/
theorem typeName_array (items : Schema) :
    registry.typeName (.array items) =
      "System.Collections.Generic.IList<" ++ registry.typeName items ++ ">" := rfl

/-- A map is a dictionary from strings to its values. -/
theorem typeName_map (values : Schema) :
    registry.typeName (.map values) =
      "System.Collections.Generic.IDictionary<string, " ++ registry.typeName values ++ ">" := rfl

/-- A union is called like what represents it, marked if that has to be. -/
theorem typeName_union (branches : List Schema) (underlying : Schema) (nullable : Bool) :
    registry.typeName (.union branches underlying nullable) =
      markNullable (registry.typeName underlying) nullable := rfl

end

/-- The type name of a field. -/
def fieldTypeName (registry : Registry) (field : Field) : String :=
  markNullable (registry.typeName field.underlying) field.nullable

end Registry

end AvroGraph
