import AvroGraph.Node.OfJson

/-!
# Laws of classified documents

A law says something about single nodes, fields and messages. `Node.Obeys` holds it against a
whole tree. For a document that is classified from JSON, `NodeLaw.Covers.obeys` reduces it to what
the values in that JSON satisfy, and `Node.obeys_ofJson` to what its objects look like.
-/

namespace AvroGraph

namespace Json

mutual

/-- Every object inside a value, the value included, satisfies a condition. -/
def EveryObject (condition : Members → Prop) : Json → Prop
  | .array items => EveryObjectOfItems condition items
  | .object members => condition members ∧ EveryObjectOfMembers condition members
  | _ => True

/-- Every object inside the values of a list satisfies a condition. -/
def EveryObjectOfItems (condition : Members → Prop) : List Json → Prop
  | [] => True
  | item :: rest => item.EveryObject condition ∧ EveryObjectOfItems condition rest

/-- Every object inside the values of members satisfies a condition. -/
def EveryObjectOfMembers (condition : Members → Prop) : List (String × Json) → Prop
  | [] => True
  | (_, value) :: rest => value.EveryObject condition ∧ EveryObjectOfMembers condition rest

end

section

variable {condition : Members → Prop} [DecidablePred condition]

mutual

/-- A condition that can be decided of single objects can be decided of all objects in a value. -/
def decideEveryObject : (json : Json) → Decidable (json.EveryObject condition)
  | .array items => decideEveryObjectOfItems items
  | .object members =>
    have := decideEveryObjectOfMembers members
    inferInstanceAs (Decidable (condition members ∧ EveryObjectOfMembers condition members))
  | .null | .bool _ | .number _ | .string _ => .isTrue trivial

/-- As `decideEveryObject`, for the values of a list. -/
def decideEveryObjectOfItems :
    (items : List Json) → Decidable (EveryObjectOfItems condition items)
  | [] => .isTrue trivial
  | item :: rest =>
    have := decideEveryObject item
    have := decideEveryObjectOfItems rest
    inferInstanceAs (Decidable (item.EveryObject condition ∧ EveryObjectOfItems condition rest))

/-- As `decideEveryObject`, for the values of members. -/
def decideEveryObjectOfMembers :
    (members : List (String × Json)) → Decidable (EveryObjectOfMembers condition members)
  | [] => .isTrue trivial
  | (_, value) :: rest =>
    have := decideEveryObject value
    have := decideEveryObjectOfMembers rest
    inferInstanceAs (Decidable (value.EveryObject condition ∧ EveryObjectOfMembers condition rest))

end

instance (json : Json) : Decidable (json.EveryObject condition) := json.decideEveryObject

end

end Json

/-- A law for single nodes, fields and messages. -/
structure NodeLaw where
  node : Node → Prop
  field : FieldNode → Prop
  message : MessageNode → Prop

mutual

/-- A law holds of a node and of everything inside it. -/
def Node.Obeys (law : NodeLaw) : Node → Prop
  | .malformed reason source => law.node (.malformed reason source)
  | .reference text => law.node (.reference text)
  | .nested source inner => law.node (.nested source inner) ∧ inner.Obeys law
  | .union source branches => law.node (.union source branches) ∧ NodesObey law branches
  | .array source items => law.node (.array source items) ∧ items.Obeys law
  | .map source values => law.node (.map source values) ∧ values.Obeys law
  | .record source isError heading fields =>
    law.node (.record source isError heading fields) ∧ FieldsObey law fields
  | .enum source heading symbols default => law.node (.enum source heading symbols default)
  | .fixed source heading size => law.node (.fixed source heading size)
  | .protocol source heading types messages =>
    law.node (.protocol source heading types messages) ∧ NodesObey law types ∧
      MessagesObey law messages
  | .logical source name overlay declaresFixed inner =>
    law.node (.logical source name overlay declaresFixed inner) ∧ inner.Obeys law

/-- A law holds of nodes and of everything inside them. -/
def NodesObey (law : NodeLaw) : List Node → Prop
  | [] => True
  | node :: rest => node.Obeys law ∧ NodesObey law rest

/-- A law holds of a field and of everything inside it. -/
def FieldNode.Obeys (law : NodeLaw) : FieldNode → Prop
  | .malformed reason source => law.field (.malformed reason source)
  | .field source name type typeSource default details =>
    law.field (.field source name type typeSource default details) ∧ type.Obeys law

/-- A law holds of fields and of everything inside them. -/
def FieldsObey (law : NodeLaw) : List FieldNode → Prop
  | [] => True
  | node :: rest => node.Obeys law ∧ FieldsObey law rest

/-- A law holds of a message and of everything inside it. -/
def MessageNode.Obeys (law : NodeLaw) : MessageNode → Prop
  | .malformed reason source => law.message (.malformed reason source)
  | .message source name request response responseSource errors oneWay details =>
    law.message (.message source name request response responseSource errors oneWay details) ∧
      FieldsObey law request ∧ response.Obeys law ∧ NodesObey law errors

/-- A law holds of messages and of everything inside them. -/
def MessagesObey (law : NodeLaw) : List MessageNode → Prop
  | [] => True
  | node :: rest => node.Obeys law ∧ MessagesObey law rest

end

/-- The children of an object, by which it is classified. -/
def Node.Children.ofMembers (members : Members) : Node.Children where
  type := nodeAt "type" members
  items := nodeAt "items" members
  values := nodeAt "values" members
  fields := fieldsAt "fields" members
  types := nodesAt "types" members
  messages := messagesAt "messages" members

section

variable (members : Members)

/-- A string is a reference. -/
theorem Node.ofJson_string (text : String) : ofJson (.string text) = .reference text := rfl

/-- An array is a union of its items. -/
theorem Node.ofJson_union (items : List Json) :
    ofJson (.array items) = .union (.array items) (nodes items) := rfl

/-- An object is classified by its members and its children. -/
theorem Node.ofJson_object :
    ofJson (.object members) = ofMembers members (.ofMembers members) := rfl

/-- An object is a field with the type in it. -/
theorem FieldNode.ofJson_object :
    ofJson (.object members) = ofMembers members (nodeAt "type" members) := rfl

/-- An object is a message with the parameters, the response and the errors in it. -/
theorem MessageNode.ofJson_object (name : String) :
    ofJson name (.object members) = ofMembers name members (fieldsAt "request" members)
      (nodeAt "response" members) (nodesAt "errors" members) := rfl

end

/-- A law holds of the children of an object. -/
structure Node.Children.Obey (law : NodeLaw) (children : Node.Children) : Prop where
  type : ∀ node ∈ children.type, node.Obeys law
  items : ∀ node ∈ children.items, node.Obeys law
  values : ∀ node ∈ children.values, node.Obeys law
  fields : FieldsObey law children.fields
  types : NodesObey law children.types
  messages : MessagesObey law children.messages

/-- A law holds of everything that a value is classified as, wherever objects satisfy a
condition. -/
structure NodeLaw.Governs (law : NodeLaw) (condition : Members → Prop) : Prop where
  malformed : ∀ reason source, law.node (.malformed reason source)
  reference : ∀ text, law.node (.reference text)
  union : ∀ source branches, law.node (.union source branches)
  object : ∀ members, condition members →
    law.node (.ofMembers members (.ofMembers members)) ∧
      law.node (.ofTyped members (.ofMembers members))
  malformedField : ∀ reason source, law.field (.malformed reason source)
  field : ∀ members, condition members → law.field (.ofMembers members (nodeAt "type" members))
  malformedMessage : ∀ reason source, law.message (.malformed reason source)
  messageOther : ∀ name source, law.message (.ofOther name source)
  message : ∀ name members, condition members →
    law.message (.ofMembers name members (fieldsAt "request" members)
      (nodeAt "response" members) (nodesAt "errors" members))

/-- A law holds of everything that a value is classified as, where the value satisfies a condition
that passes from values to what is inside them. -/
structure NodeLaw.Covers (law : NodeLaw) (fits : Json → Prop) : Prop where
  item : ∀ {items item}, fits (.array items) → item ∈ items → fits item
  member : ∀ {members key value}, fits (.object members) → (key, value) ∈ members → fits value
  malformed : ∀ reason {source}, fits source → law.node (.malformed reason source)
  reference : ∀ {text}, fits (.string text) → law.node (.reference text)
  union : ∀ {items}, fits (.array items) → law.node (.union (.array items) (nodes items))
  object : ∀ {members}, fits (.object members) →
    law.node (.ofMembers members (.ofMembers members)) ∧
      law.node (.ofTyped members (.ofMembers members))
  malformedField : ∀ reason {source}, fits source → law.field (.malformed reason source)
  field : ∀ {members}, fits (.object members) →
    law.field (.ofMembers members (nodeAt "type" members))
  malformedMessage : ∀ reason {source}, fits source → law.message (.malformed reason source)
  messageOther : ∀ name {source}, fits source → law.message (.ofOther name source)
  message : ∀ name {members}, fits (.object members) →
    law.message (.ofMembers name members (fieldsAt "request" members)
      (nodeAt "response" members) (nodesAt "errors" members))

section

variable (key name : String) (value : Json) (rest : List (String × Json))

/-- The first member at a key has the nodes there. -/
theorem nodesAt_cons : nodesAt key ((name, value) :: rest) =
    if name = key then value.array?.elim [] nodes else nodesAt key rest := by
  cases value <;> rfl

/-- The first member at a key has the fields there. -/
theorem fieldsAt_cons : fieldsAt key ((name, value) :: rest) =
    if name = key then value.array?.elim [] fieldNodes else fieldsAt key rest := by
  cases value <;> rfl

/-- The first member at a key has the messages there. -/
theorem messagesAt_cons : messagesAt key ((name, value) :: rest) =
    if name = key then value.object?.elim [] messageNodes else messagesAt key rest := by
  cases value <;> rfl

end

/-- The fields at a key are those of the array there. -/
theorem fieldsAt_eq (key : String) (members : Members) :
    fieldsAt key members = ((members.get? key).bind Json.array?).elim [] fieldNodes := by
  induction members with
  | nil => rfl
  | cons member rest ih =>
    obtain ⟨name, value⟩ := member
    rw [fieldsAt_cons, Members.get?_cons, ih]
    split <;> rfl

/-- The nodes at a key are those of the array there. -/
theorem nodesAt_eq (key : String) (members : Members) :
    nodesAt key members = ((members.get? key).bind Json.array?).elim [] nodes := by
  induction members with
  | nil => rfl
  | cons member rest ih =>
    obtain ⟨name, value⟩ := member
    rw [nodesAt_cons, Members.get?_cons, ih]
    split <;> rfl

/-- The messages at a key are those of the object there. -/
theorem messagesAt_eq (key : String) (members : Members) :
    messagesAt key members = ((members.get? key).bind Json.object?).elim [] messageNodes := by
  induction members with
  | nil => rfl
  | cons member rest ih =>
    obtain ⟨name, value⟩ := member
    rw [messagesAt_cons, Members.get?_cons, ih]
    split <;> rfl

variable {law : NodeLaw} {fits : Json → Prop}

namespace Node

/-- A child that may be missing obeys a law if the child does. -/
theorem Obeys.getD {child : Option Node} {reason : Reason} {source : Json}
    (covers : law.Covers fits) (here : fits source) (obey : ∀ node ∈ child, node.Obeys law) :
    (child.getD (.malformed reason source)).Obeys law := by
  cases child with
  | none => exact covers.malformed reason here
  | some node => exact obey node rfl

/-- A node with a heading obeys a law if it does once the heading is read. -/
theorem obeys_ofHeading {source : Json} {heading : Except Reason Heading} {make : Heading → Node}
    (obey : ∀ heading, law.node (make heading) → (make heading).Obeys law) :
    law.node (ofHeading source heading make) → (ofHeading source heading make).Obeys law := by
  cases heading with
  | ok heading => exact obey heading
  | error reason => exact id

/-- The node of an object by its type obeys a law that holds of it and that its children obey. -/
theorem obeys_ofTyped {members : Members} {children : Children} (covers : law.Covers fits)
    (here : fits (.object members)) (holds : law.node (ofTyped members children))
    (obey : children.Obey law) : (ofTyped members children).Obeys law := by
  revert holds
  rw [ofTyped]
  split
  · exact id
  · exact obeys_ofHeading fun _ holds => ⟨holds, obey.fields⟩
  · exact obeys_ofHeading fun _ holds => ⟨holds, obey.fields⟩
  · exact obeys_ofHeading fun _ => id
  · exact obeys_ofHeading fun _ => id
  · exact fun holds => ⟨holds, .getD covers here obey.items⟩
  · exact fun holds => ⟨holds, .getD covers here obey.values⟩
  · exact fun holds => ⟨holds, .getD covers here obey.type⟩
  · exact fun holds => ⟨holds, .getD covers here obey.type⟩
  · exact fun holds => ⟨holds, .getD covers here obey.type⟩
  · exact id

/-- The node of a protocol obeys a law that holds of it and that its children obey. -/
theorem obeys_ofProtocol {members : Members} {children : Children} (covers : law.Covers fits)
    (here : fits (.object members)) (holds : law.node (ofProtocol members children))
    (obey : children.Obey law) : (ofProtocol members children).Obeys law := by
  revert holds
  refine obeys_ofHeading fun heading holds => ⟨holds, ?_, ?_⟩
  · split
    · exact obey.types
    · exact obey.types
    · exact obey.types
    · exact ⟨covers.malformed _ here, trivial⟩
  · split
    · exact obey.messages
    · exact obey.messages
    · exact obey.messages
    · exact ⟨covers.malformedMessage _ here, trivial⟩

/-- The node of an object obeys a law that holds of it, with its logical type and without, and that
its children obey. -/
theorem obeys_ofMembers {members : Members} {children : Children} (covers : law.Covers fits)
    (here : fits (.object members)) (holds : law.node (ofMembers members children))
    (typed : law.node (ofTyped members children)) (obey : children.Obey law) :
    (ofMembers members children).Obeys law := by
  revert holds
  rw [ofMembers]
  split
  · exact fun holds => obeys_ofProtocol covers here holds obey
  · split
    · exact fun holds => obeys_ofTyped covers here holds obey
    · exact fun holds => ⟨holds, obeys_ofTyped covers here typed obey⟩
    · exact id

end Node

/-- The field of an object obeys a law that holds of it and that its type obeys. -/
theorem FieldNode.obeys_ofMembers {members : Members} {type : Option Node}
    (covers : law.Covers fits) (here : fits (.object members))
    (holds : law.field (ofMembers members type)) (obey : ∀ node ∈ type, node.Obeys law) :
    (ofMembers members type).Obeys law := by
  revert holds
  rw [ofMembers]
  split
  · exact id
  · exact fun holds => ⟨holds, .getD covers here obey⟩

/-- The message of an object obeys a law that holds of it and that its parts obey. -/
theorem MessageNode.obeys_ofMembers {name : String} {members : Members}
    {request : List FieldNode} {response : Option Node} {errors : List Node}
    (covers : law.Covers fits) (here : fits (.object members))
    (holds : law.message (ofMembers name members request response errors))
    (asks : FieldsObey law request) (answers : ∀ node ∈ response, node.Obeys law)
    (fails : NodesObey law errors) :
    (ofMembers name members request response errors).Obeys law := by
  refine ⟨holds, ?_, .getD covers here answers, ?_⟩
  · split
    · exact asks
    · exact ⟨covers.malformedField _ here, trivial⟩
  · split
    · exact fails
    · exact fails
    · exact fails
    · exact ⟨covers.malformed _ here, trivial⟩

/-- What is no object is malformed as a message and obeys any law there. -/
theorem MessageNode.obeys_ofOther {name : String} {source : Json} (covers : law.Covers fits)
    (here : fits source) : (ofOther name source).Obeys law :=
  ⟨covers.messageOther name here, ⟨covers.malformedField _ here, trivial⟩,
    covers.malformed _ here, trivial⟩

mutual

/-- A law that covers the values which satisfy a condition holds of every document that does. -/
theorem NodeLaw.Covers.obeys (covers : law.Covers fits) :
    (json : Json) → fits json → (Node.ofJson json).Obeys law
  | .string _, here => covers.reference here
  | .array items, here =>
    ⟨covers.union here, nodesObey_nodes covers items fun _ member => covers.item here member⟩
  | .object members, here =>
    have ⟨holds, typed⟩ := covers.object here
    have inside (key : String) (value : Json) (member : (key, value) ∈ members) : fits value :=
      covers.member here member
    Node.obeys_ofMembers covers here holds typed
      { type := obeys_nodeAt covers "type" members inside
        items := obeys_nodeAt covers "items" members inside
        values := obeys_nodeAt covers "values" members inside
        fields := fieldsObey_fieldsAt covers "fields" members inside
        types := nodesObey_nodesAt covers "types" members inside
        messages := messagesObey_messagesAt covers "messages" members inside }
  | .null, here | .bool _, here | .number _, here => covers.malformed _ here

/-- Items that fit make nodes that obey. -/
theorem nodesObey_nodes (covers : law.Covers fits) :
    (items : List Json) → (∀ item ∈ items, fits item) → NodesObey law (nodes items)
  | [], _ => trivial
  | item :: rest, inside =>
    have ⟨here, there⟩ := List.forall_mem_cons.1 inside
    ⟨covers.obeys item here, nodesObey_nodes covers rest there⟩

/-- A value at a key that fits makes a node that obeys. -/
theorem obeys_nodeAt (covers : law.Covers fits) (key : String) :
    (members : List (String × Json)) → (∀ key value, (key, value) ∈ members → fits value) →
      ∀ node ∈ nodeAt key members, node.Obeys law
  | [], _ => by simp [nodeAt]
  | (name, value) :: rest, inside => by
    have here := covers.obeys value (inside name value List.mem_cons_self)
    have there := obeys_nodeAt covers key rest
      fun key value member => inside key value (List.mem_cons_of_mem _ member)
    rw [nodeAt]
    split
    · rintro node ⟨⟩
      exact here
    · exact there

/-- Items at a key that fit make nodes that obey. -/
theorem nodesObey_nodesAt (covers : law.Covers fits) (key : String) :
    (members : List (String × Json)) → (∀ key value, (key, value) ∈ members → fits value) →
      NodesObey law (nodesAt key members)
  | [], _ => trivial
  | (name, value) :: rest, inside => by
    have here := inside name value List.mem_cons_self
    rw [nodesAt_cons]
    split
    · cases value with
      | array items =>
        exact nodesObey_nodes covers items fun _ member => covers.item here member
      | _ => exact trivial
    · exact nodesObey_nodesAt covers key rest
        fun key value member => inside key value (List.mem_cons_of_mem _ member)

/-- A document that fits makes a field that obeys. -/
theorem FieldNode.obeys_ofJson (covers : law.Covers fits) :
    (json : Json) → fits json → (FieldNode.ofJson json).Obeys law
  | .object members, here =>
    FieldNode.obeys_ofMembers covers here (covers.field here)
      (obeys_nodeAt covers "type" members fun _ _ member => covers.member here member)
  | .null, here | .bool _, here | .number _, here | .string _, here | .array _, here =>
    covers.malformedField _ here

/-- Items that fit make fields that obey. -/
theorem fieldsObey_fieldNodes (covers : law.Covers fits) :
    (items : List Json) → (∀ item ∈ items, fits item) → FieldsObey law (fieldNodes items)
  | [], _ => trivial
  | item :: rest, inside =>
    have ⟨here, there⟩ := List.forall_mem_cons.1 inside
    ⟨FieldNode.obeys_ofJson covers item here, fieldsObey_fieldNodes covers rest there⟩

/-- Items at a key that fit make fields that obey. -/
theorem fieldsObey_fieldsAt (covers : law.Covers fits) (key : String) :
    (members : List (String × Json)) → (∀ key value, (key, value) ∈ members → fits value) →
      FieldsObey law (fieldsAt key members)
  | [], _ => trivial
  | (name, value) :: rest, inside => by
    have here := inside name value List.mem_cons_self
    rw [fieldsAt_cons]
    split
    · cases value with
      | array items =>
        exact fieldsObey_fieldNodes covers items fun _ member => covers.item here member
      | _ => exact trivial
    · exact fieldsObey_fieldsAt covers key rest
        fun key value member => inside key value (List.mem_cons_of_mem _ member)

/-- A document that fits makes a message that obeys. -/
theorem MessageNode.obeys_ofJson (covers : law.Covers fits) (name : String) :
    (json : Json) → fits json → (MessageNode.ofJson name json).Obeys law
  | .object members, here =>
    have inside (key : String) (value : Json) (member : (key, value) ∈ members) : fits value :=
      covers.member here member
    MessageNode.obeys_ofMembers covers here (covers.message name here)
      (fieldsObey_fieldsAt covers "request" members inside)
      (obeys_nodeAt covers "response" members inside)
      (nodesObey_nodesAt covers "errors" members inside)
  | .null, here | .bool _, here | .number _, here | .string _, here | .array _, here =>
    MessageNode.obeys_ofOther covers here

/-- Members that fit make messages that obey. -/
theorem messagesObey_messageNodes (covers : law.Covers fits) :
    (members : List (String × Json)) → (∀ key value, (key, value) ∈ members → fits value) →
      MessagesObey law (messageNodes members)
  | [], _ => trivial
  | (name, value) :: rest, inside =>
    ⟨MessageNode.obeys_ofJson covers name value (inside name value List.mem_cons_self),
      messagesObey_messageNodes covers rest
        fun key value member => inside key value (List.mem_cons_of_mem _ member)⟩

/-- Members at a key that fit make messages that obey. -/
theorem messagesObey_messagesAt (covers : law.Covers fits) (key : String) :
    (members : List (String × Json)) → (∀ key value, (key, value) ∈ members → fits value) →
      MessagesObey law (messagesAt key members)
  | [], _ => trivial
  | (name, value) :: rest, inside => by
    have here := inside name value List.mem_cons_self
    rw [messagesAt_cons]
    split
    · cases value with
      | object entries =>
        exact messagesObey_messageNodes covers entries fun _ _ member => covers.member here member
      | _ => exact trivial
    · exact messagesObey_messagesAt covers key rest
        fun key value member => inside key value (List.mem_cons_of_mem _ member)

end

section

variable {condition : Members → Prop}

namespace Json

/-- A condition on every object inside an array is one on every object inside each item. -/
theorem EveryObjectOfItems.item {items : List Json} {item : Json}
    (every : EveryObjectOfItems condition items) (member : item ∈ items) :
    item.EveryObject condition := by
  induction items with
  | nil => cases member
  | cons first rest ih =>
    rcases List.mem_cons.1 member with rfl | later
    · exact every.1
    · exact ih every.2 later

/-- A condition on every object inside an object is one on every object inside each value. -/
theorem EveryObjectOfMembers.member {members : List (String × Json)} {key : String} {value : Json}
    (every : EveryObjectOfMembers condition members) (member : (key, value) ∈ members) :
    value.EveryObject condition := by
  induction members with
  | nil => cases member
  | cons first rest ih =>
    rcases List.mem_cons.1 member with rfl | later
    · exact every.1
    · exact ih every.2 later

end Json

/-- A law that a condition on objects governs covers the documents in which it holds of every
object. -/
theorem NodeLaw.Governs.covers (governs : law.Governs condition) :
    law.Covers (·.EveryObject condition) where
  item every member := Json.EveryObjectOfItems.item every member
  member every member := Json.EveryObjectOfMembers.member every.2 member
  malformed reason source _ := governs.malformed reason source
  reference {text} _ := governs.reference text
  union _ := governs.union _ _
  object every := governs.object _ every.1
  malformedField reason source _ := governs.malformedField reason source
  field every := governs.field _ every.1
  malformedMessage reason source _ := governs.malformedMessage reason source
  messageOther name source _ := governs.messageOther name source
  message name _ every := governs.message name _ every.1

/-- A law that follows from a condition on objects holds of every document whose objects satisfy
it. -/
theorem Node.obeys_ofJson (governs : law.Governs condition) (json : Json)
    (every : json.EveryObject condition) : (ofJson json).Obeys law :=
  governs.covers.obeys json every

end

/-! ## Laws of logical types -/

/-- Whether a node lays a logical type over another. -/
def Node.isLogical : Node → Bool
  | .logical _ _ _ _ _ => true
  | _ => false

/-- A node with a heading is no logical type if it is none once the heading is read. -/
theorem Node.isLogical_ofHeading {source : Json} {heading : Except Reason Heading}
    {make : Heading → Node} (made : ∀ read, (make read).isLogical = false) :
    (ofHeading source heading make).isLogical = false := by
  cases heading with
  | ok read => exact made read
  | error => rfl

/-- By its type alone, no object is a logical type. -/
theorem Node.isLogical_ofTyped (members : Members) (children : Children) :
    (ofTyped members children).isLogical = false := by
  rw [ofTyped]
  split
  case h_2 | h_3 | h_4 | h_5 => exact isLogical_ofHeading fun _ => rfl
  all_goals rfl

/-- A law that asks nothing of anything but the nodes of logical types. -/
structure NodeLaw.AsksLogical (law : NodeLaw) : Prop where
  node : ∀ node : Node, node.isLogical = false → law.node node
  field : ∀ node, law.field node
  message : ∀ node, law.message node

/-- Such a law is governed by what makes it hold of the logical types that objects write. -/
theorem NodeLaw.AsksLogical.governs {condition : Members → Prop} (asks : law.AsksLogical)
    (logical : ∀ members, condition members → ∀ name,
      members.get? "logicalType" = some (.string name) →
      law.node (.logical (.object members) name (LogicalType.read name members)
        (decide (members.get? "type" = some (.string "fixed")))
        (.ofTyped members (.ofMembers members)))) : law.Governs condition where
  malformed _ _ := asks.node _ rfl
  reference _ := asks.node _ rfl
  union _ _ := asks.node _ rfl
  object members fits := by
    have typed := asks.node _ (Node.isLogical_ofTyped members (.ofMembers members))
    refine ⟨?_, typed⟩
    rw [Node.ofMembers]
    split
    · exact asks.node _ (Node.isLogical_ofHeading fun _ => rfl)
    · split
      · exact typed
      · next name named => exact logical members fits name named
      · exact asks.node _ rfl
  malformedField _ _ := asks.field _
  field _ _ := asks.field _
  malformedMessage _ _ := asks.message _
  messageOther _ _ := asks.message _
  message _ _ _ := asks.message _

end AvroGraph
