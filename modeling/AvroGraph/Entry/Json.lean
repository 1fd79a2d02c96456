import AvroGraph.Entry

/-!
# Named schemas as JSON

The objects that declarations are written as, given the JSON of their parts. The members with a
fixed meaning come first, and extension properties follow; one with the key of a member already
written takes its place.
-/

namespace AvroGraph

namespace Name

/-- A reference to a name within a namespace: the local name if it is the same namespace, else
the full name. -/
def reference (name : Name) (around : Option String) : String :=
  if name.space = around then name.localName else name.full

/-- The namespace of a declaration, unless it is the one around it. -/
def spaceMembers (name : Name) (around : Option String) : Members :=
  match name.space with
  | some space => if around = some space then [] else [("namespace", .string space)]
  | none => []

end Name

/-- The member for a documentation. -/
def docMembers : Option String → Members
  | some doc => [("doc", .string doc)]
  | none => []

/-- The member for aliases, if there are any. -/
def aliasMembers : List String → Members
  | [] => []
  | aliases => [("aliases", Json.ofStrings aliases)]

/-- The first members of a declaration. -/
def headMembers (kind : NamedKind) (name : Name) (around doc : Option String)
    (aliases : List String) : Members :=
  [("type", Json.string kind.keyword), ("name", Json.string name.localName)] ++
    name.spaceMembers around ++ docMembers doc ++ aliasMembers aliases

/-- The members for a logical type; a scale of zero goes without saying. -/
def LogicalType.members (overlay : LogicalType) : Members :=
  ("logicalType", .string overlay.name) ::
    match overlay with
    | .decimal precision scale =>
      ("precision", Json.ofNat precision) ::
        if scale = 0 then [] else [("scale", Json.ofNat scale)]
    | _ => []

/-- An enum in full. -/
def Enumeration.project (enumeration : Enumeration) (around : Option String) : Json :=
  let default : Members :=
    match enumeration.default with
    | some symbol => [("default", .string symbol)]
    | none => []
  let written : Members :=
    headMembers .enum enumeration.name around enumeration.doc enumeration.aliases ++
      [("symbols", Json.ofStrings enumeration.symbols)] ++ default
  .object (written.extend enumeration.properties)

/-- A fixed type in full. -/
def FixedType.project (fixedType : FixedType) (around : Option String) : Json :=
  let overlay : Members :=
    match fixedType.overlay with
    | some overlay => overlay.members
    | none => []
  let written : Members :=
    headMembers .fixed fixedType.name around fixedType.doc fixedType.aliases ++
      [("size", Json.ofNat fixedType.size)] ++ overlay
  .object (written.extend fixedType.properties)

/-- A field, given its type. -/
def Field.project (field : Field) (type : Json) : Json :=
  let default : Members :=
    match field.default with
    | some value => [("default", value)]
    | none => []
  let order : Members :=
    match field.order with
    | some order => [("order", .string order.keyword)]
    | none => []
  let written : Members :=
    [("name", Json.string field.name), ("type", type)] ++ default ++ docMembers field.doc ++
      order ++ aliasMembers field.aliases
  .object (written.extend field.properties)

/-- A record or an error in full, given its fields. -/
def Record.project (record : Record) (kind : NamedKind) (around : Option String)
    (fields : List Json) : Json :=
  let written : Members :=
    headMembers kind record.name around record.doc record.aliases ++
      [("fields", Json.array fields)]
  .object (written.extend record.properties)

/-- A message, given its parameters, its response and its errors without the implicit one. -/
def Message.project (message : Message) (request : List Json) (response : Json)
    (errors : List Json) : Json :=
  let written : Members :=
    docMembers message.doc ++ [("request", Json.array request), ("response", response)] ++
      (if errors.isEmpty then [] else [("errors", Json.array errors)]) ++
      (if message.oneWay then [("one-way", Json.bool true)] else [])
  .object (written.extend message.properties)

/-- A protocol in full, given its types and messages. -/
def Protocol.project (protocol : Protocol) (around : Option String) (types : List Json)
    (messages : Members) : Json :=
  let written : Members :=
    [("protocol", Json.string protocol.name.localName)] ++ protocol.name.spaceMembers around ++
      docMembers protocol.doc ++
      [("types", Json.array types), ("messages", Json.object (Members.extend [] messages))]
  .object (written.extend protocol.properties)

/-- A schema object with a logical type; a schema that is no object becomes the type of one. -/
def LogicalType.project (overlay : LogicalType) (underlying : Json) : Json :=
  match underlying with
  | .object members => .object (Members.extend members overlay.members)
  | other => .object (Members.extend [("type", other)] overlay.members)

end AvroGraph
