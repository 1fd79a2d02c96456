import AvroGraph.Node
import AvroGraph.Registry.Logical

/-!
# From JSON to classified documents

`Node.ofJson` sorts every value that stands in the place of a schema. An object is classified
from its own members and from its children, the values at certain keys, classified beforehand;
the position of a key in its object plays no part.
-/

namespace AvroGraph

/-! ## Properties of objects -/

namespace Members

/-- A string that may be absent; null counts as absent. -/
def optionalString (members : Members) (key : String) : Except Reason (Option String) :=
  match members.get? key with
  | none | some .null => .ok none
  | some (.string text) => .ok (some text)
  | some _ => .error (.notAString key)

/-- An array of strings that may be absent; null counts as absent. -/
def stringList (members : Members) (key : String) : Except Reason (List String) :=
  match members.get? key with
  | none | some .null => .ok []
  | some (.array items) =>
    match items.mapM Json.string? with
    | some texts => .ok texts
    | none => .error (.notOnlyStrings key)
  | some _ => .error (.notAnArrayOfStrings key)

/-- The keys of schema objects with a meaning of their own; all others are extension
properties. -/
def reserved : List String :=
  ["type", "name", "namespace", "fields", "items", "size", "symbols", "values", "aliases",
   "order", "doc", "default", "logicalType"]

/-- The keys of protocols with a meaning of their own. -/
def reservedOfProtocols : List String :=
  reserved ++ ["protocol", "types", "messages"]

/-- The keys of messages with a meaning of their own. -/
def reservedOfMessages : List String :=
  ["request", "response", "errors", "one-way", "oneWay", "doc"]

end Members

/-- The details of a declaration. -/
def Details.ofMembers (members : Members) : Except Reason Details := do
  let doc ← members.optionalString "doc"
  let aliases ← members.stringList "aliases"
  return { doc, aliases, properties := members.without Members.reserved }

/-- The details of a protocol or a message, which have no aliases. -/
def Details.withoutAliases (reserved : List String) (members : Members) :
    Except Reason Details := do
  let doc ← members.optionalString "doc"
  return { doc, properties := members.without reserved }

/-- The head of a declaration whose name is at a key. -/
def Heading.ofMembers (members : Members) (key : String) (missing : Reason)
    (details : Except Reason Details) : Except Reason Heading :=
  match (members.get? key).bind Json.string? with
  | some name => do
    let space ← members.optionalString "namespace"
    return { name, space, details }
  | none => .error missing

/-- The details of a field. -/
def FieldDetails.ofMembers (members : Members) : Except Reason FieldDetails := do
  let order ←
    match members.get? "order" with
    | none => .ok none
    | some value =>
      match value.string?.bind FieldOrder.ofKeyword? with
      | some order => .ok (some order)
      | none => .error .badOrder
  let doc ← members.optionalString "doc"
  let aliases ← members.stringList "aliases"
  return { order, doc, aliases, properties := members.without Members.reserved }

/-! ## Objects, given their children -/

/-- The children of a schema object: the values at the keys that hold schemas, classified.
Where a key does not hold what it should, its list is empty. -/
structure Node.Children where
  type : Option Node
  items : Option Node
  values : Option Node
  fields : List FieldNode
  types : List Node
  messages : List MessageNode

/-- The value at a key where an array should be. -/
def Members.array? (members : Members) (key : String) : Option (List Json) :=
  (members.get? key).bind Json.array?

namespace Node

/-- A declaration with a sound head, or what is wrong with the head. -/
def ofHeading (source : Json) (heading : Except Reason Heading) (make : Heading → Node) : Node :=
  match heading with
  | .ok heading => make heading
  | .error reason => .malformed reason source

/-- The declaration of a record or an error. -/
def ofRecord (members : Members) (children : Children) (isError : Bool) : Node :=
  let kind : NamedKind := if isError then .error else .record
  let details := do
    let details ← Details.ofMembers members
    match members.array? "fields" with
    | some _ => return details
    | none => .error (.missingFields kind)
  ofHeading (.object members) (Heading.ofMembers members "name" (.missingName kind) details)
    fun heading => .record (.object members) isError heading children.fields

/-- The declaration of an enum. -/
def ofEnum (members : Members) : Node :=
  let details := do
    let details ← Details.ofMembers members
    match members.array? "symbols" with
    | some _ => return details
    | none => .error .missingSymbols
  ofHeading (.object members) (Heading.ofMembers members "name" (.missingName .enum) details)
    fun heading => .enum (.object members) heading
      (((members.array? "symbols").getD []).map Json.string?) (members.optionalString "default")

/-- The declaration of a fixed type. -/
def ofFixed (members : Members) : Node :=
  ofHeading (.object members)
    (Heading.ofMembers members "name" (.missingName .fixed) (Details.ofMembers members))
    fun heading => .fixed (.object members) heading ((members.get? "size").bind Json.nat?)

/-- A protocol. Its types and messages may be absent. -/
def ofProtocol (members : Members) (children : Children) : Node :=
  let source := Json.object members
  let types :=
    match members.get? "types" with
    | none | some .null | some (.array _) => children.types
    | some _ => [.malformed .badTypes source]
  let messages :=
    match members.get? "messages" with
    | none | some .null | some (.object _) => children.messages
    | some _ => [.malformed .badMessages source]
  ofHeading source
    (Heading.ofMembers members "protocol" .badProtocol
      (Details.withoutAliases Members.reservedOfProtocols members))
    fun heading => .protocol source heading types messages

/-- An object by its type alone. -/
def ofTyped (members : Members) (children : Children) : Node :=
  let source := Json.object members
  match members.get? "type" with
  | none => .malformed .missingType source
  | some (.string "record") => ofRecord members children false
  | some (.string "error") => ofRecord members children true
  | some (.string "enum") => ofEnum members
  | some (.string "fixed") => ofFixed members
  | some (.string "array") => .array source (children.items.getD (.malformed .missingItems source))
  | some (.string "map") => .map source (children.values.getD (.malformed .missingValues source))
  | some (.string _) | some (.object _) | some (.array _) =>
    .nested source (children.type.getD (.malformed .missingType source))
  | some _ => .malformed .badType source

/-- An object in the place of a schema. Only an object without a type is a protocol. -/
def ofMembers (members : Members) (children : Children) : Node :=
  let source := Json.object members
  if members.has "protocol" && !members.has "type" then ofProtocol members children
  else
    match members.get? "logicalType" with
    | none => ofTyped members children
    | some (.string name) =>
      .logical source name (LogicalType.read name members)
        (decide (members.get? "type" = some (.string "fixed"))) (ofTyped members children)
    | some _ => .malformed (.notAString "logicalType") source

end Node

/-- An object in the place of a field. -/
def FieldNode.ofMembers (members : Members) (type : Option Node) : FieldNode :=
  let source := Json.object members
  match (members.get? "name").bind Json.string? with
  | none => .malformed .fieldWithoutName source
  | some name =>
    .field source name (type.getD (.malformed (.fieldWithoutType name) source))
      ((members.get? "type").getD .null) (members.get? "default")
      (FieldDetails.ofMembers members)

/-- An object in the place of a message. Without an array of parameters, a malformed one stands
for it. -/
def MessageNode.ofMembers (name : String) (members : Members) (request : List FieldNode)
    (response : Option Node) (errors : List Node) : MessageNode :=
  let source := Json.object members
  let request :=
    if (members.array? "request").isSome then request
    else [.malformed (.missingRequest name) source]
  let errors :=
    match members.get? "errors" with
    | none | some .null | some (.array _) => errors
    | some _ => [.malformed .badErrors source]
  let oneWay :=
    match (members.get? "one-way").or (members.get? "oneWay") with
    | none => .ok false
    | some (.bool value) => .ok value
    | some _ => .error .badOneWay
  .message source name request (response.getD (.malformed (.missingResponse name) source))
    ((members.get? "response").getD .null) errors oneWay
    (Details.withoutAliases Members.reservedOfMessages members)

/-- A message that is no object. -/
def MessageNode.ofOther (name : String) (source : Json) : MessageNode :=
  .message source name [.malformed .messageNotAnObject source]
    (.malformed .messageNotAnObject source) source [] (.ok false) (.ok {})

/-! ## Values -/

mutual

/-- A value in the place of a schema. -/
def Node.ofJson : Json → Node
  | .string text => .reference text
  | .array items => .union (.array items) (nodes items)
  | .object members =>
    .ofMembers members
      { type := nodeAt "type" members
        items := nodeAt "items" members
        values := nodeAt "values" members
        fields := fieldsAt "fields" members
        types := nodesAt "types" members
        messages := messagesAt "messages" members }
  | source => .malformed .notASchema source

/-- Values in the places of schemas. -/
def nodes : List Json → List Node
  | [] => []
  | item :: rest => Node.ofJson item :: nodes rest

/-- The schema at a key. -/
def nodeAt (key : String) : List (String × Json) → Option Node
  | [] => none
  | (name, value) :: rest => if name = key then some (Node.ofJson value) else nodeAt key rest

/-- The schemas in the array at a key. -/
def nodesAt (key : String) : List (String × Json) → List Node
  | [] => []
  | (name, value) :: rest =>
    if name = key then
      match value with
      | .array items => nodes items
      | _ => []
    else nodesAt key rest

/-- A value in the place of a field. -/
def FieldNode.ofJson : Json → FieldNode
  | .object members => .ofMembers members (nodeAt "type" members)
  | source => .malformed .fieldNotAnObject source

/-- Values in the places of fields. -/
def fieldNodes : List Json → List FieldNode
  | [] => []
  | item :: rest => FieldNode.ofJson item :: fieldNodes rest

/-- The fields in the array at a key. -/
def fieldsAt (key : String) : List (String × Json) → List FieldNode
  | [] => []
  | (name, value) :: rest =>
    if name = key then
      match value with
      | .array items => fieldNodes items
      | _ => []
    else fieldsAt key rest

/-- A value in the place of a message, and the message's name. -/
def MessageNode.ofJson (name : String) : Json → MessageNode
  | .object members =>
    .ofMembers name members (fieldsAt "request" members) (nodeAt "response" members)
      (nodesAt "errors" members)
  | source => .ofOther name source

/-- The messages of an object keyed by their names. -/
def messageNodes : List (String × Json) → List MessageNode
  | [] => []
  | (name, value) :: rest => MessageNode.ofJson name value :: messageNodes rest

/-- The messages in the object at a key. -/
def messagesAt (key : String) : List (String × Json) → List MessageNode
  | [] => []
  | (name, value) :: rest =>
    if name = key then
      match value with
      | .object entries => messageNodes entries
      | _ => []
    else messagesAt key rest

end

/-- The schema at a key is the value at that key, classified. -/
theorem nodeAt_eq (key : String) (members : Members) :
    nodeAt key members = (members.get? key).map Node.ofJson := by
  induction members with
  | nil => simp [nodeAt]
  | cons member rest inductionHypothesis =>
    obtain ⟨name, value⟩ := member
    rw [nodeAt, Members.get?_cons, inductionHypothesis]
    split <;> rfl

end AvroGraph
