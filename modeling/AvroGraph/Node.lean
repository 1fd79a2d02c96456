import AvroGraph.Entry
import AvroGraph.Violation

/-!
# Classified documents

A schema document sorted by what its nodes are meant to be, before any name is resolved. What
a node gets wrong by itself is kept where resolution will come upon it, so that of two faults
the one met first is reported. Every node keeps its JSON for such reports.
-/

namespace AvroGraph

/-- What a declaration says besides its name. -/
structure Details where
  doc : Option String := none
  aliases : List String := []
  properties : Members := []

/-- The head of a declaration: its name and namespace as written, and its details or what is
wrong with them. -/
structure Heading where
  name : String
  space : Option String
  details : Except Reason Details

/-- What a field says besides its name, type and default. -/
structure FieldDetails where
  order : Option FieldOrder := none
  doc : Option String := none
  aliases : List String := []
  properties : Members := []

mutual

/-- A node in the place of a schema. -/
inductive Node where
  /-- No schema at all. -/
  | malformed (reason : Reason) (source : Json)
  /-- A primitive keyword or the name of a declared schema. -/
  | reference (text : String)
  /-- An object that says no more than its type. -/
  | nested (source : Json) (inner : Node)
  /-- A union of branches. -/
  | union (source : Json) (branches : List Node)
  /-- An array of items. -/
  | array (source : Json) (items : Node)
  /-- A map of values. -/
  | map (source : Json) (values : Node)
  /-- The declaration of a record or an error. -/
  | record (source : Json) (isError : Bool) (heading : Heading) (fields : List FieldNode)
  /-- The declaration of an enum; a symbol that is no string is missing. -/
  | enum (source : Json) (heading : Heading) (symbols : List (Option String))
      (default : Except Reason (Option String))
  /-- The declaration of a fixed type. -/
  | fixed (source : Json) (heading : Heading) (size : Option Nat)
  /-- A protocol. -/
  | protocol (source : Json) (heading : Heading) (types : List Node)
      (messages : List MessageNode)
  /-- A logical type over a schema, which may be a fixed type declared in the same object. -/
  | logical (source : Json) (name : String) (overlay : Except Reason (Option LogicalType))
      (declaresFixed : Bool) (inner : Node)

/-- A node in the place of a field or a parameter. -/
inductive FieldNode where
  /-- No field at all. -/
  | malformed (reason : Reason) (source : Json)
  /-- A field; `typeSource` is the JSON of its type. -/
  | field (source : Json) (name : String) (type : Node) (typeSource : Json)
      (default : Option Json) (details : Except Reason FieldDetails)

/-- A node in the place of a message. -/
inductive MessageNode where
  /-- No messages at all. -/
  | malformed (reason : Reason) (source : Json)
  /-- A message; `responseSource` is the JSON of its response. -/
  | message (source : Json) (name : String) (request : List FieldNode) (response : Node)
      (responseSource : Json) (errors : List Node) (oneWay : Except Reason Bool)
      (details : Except Reason Details)

end

/-- The JSON of a node. -/
def Node.source : Node → Json
  | .malformed _ source | .nested source _ | .union source _ | .array source _ | .map source _
  | .record source _ _ _ | .enum source _ _ _ | .fixed source _ _ | .protocol source _ _ _
  | .logical source _ _ _ _ => source
  | .reference text => .string text

/-- The JSON of a field. -/
def FieldNode.source : FieldNode → Json
  | .malformed _ source | .field source _ _ _ _ _ => source

end AvroGraph
