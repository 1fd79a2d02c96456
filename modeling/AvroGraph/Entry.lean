import AvroGraph.Json.Members
import AvroGraph.Name
import AvroGraph.Schema

/-!
# Named schemas

What a registry holds under a name: records, errors, enums, fixed types, protocols and the
abstract bases of unions of records, each with its documentation and extension properties.
-/

namespace AvroGraph

/-- How a field takes part in the comparison of records. -/
inductive FieldOrder where
  | ascending
  | descending
  | ignore
  deriving DecidableEq

namespace FieldOrder

/-- The keyword of an order. -/
def keyword : FieldOrder → String
  | .ascending => "ascending"
  | .descending => "descending"
  | .ignore => "ignore"

/-- The order of a keyword. -/
def ofKeyword? (text : String) : Option FieldOrder :=
  [ascending, descending, ignore].find? (·.keyword = text)

/-- Reading a keyword inverts writing it. -/
theorem ofKeyword?_keyword (order : FieldOrder) : ofKeyword? order.keyword = some order := by
  cases order <;> decide

end FieldOrder

/-- A field of a record or a parameter of a message. -/
structure Field where
  name : String
  /-- The type as declared, where an abstract base stands for a union of records. -/
  declared : Schema
  /-- The declared type with a union reduced. -/
  underlying : Schema
  /-- Whether the field admits null. -/
  nullable : Bool
  doc : Option String := none
  aliases : List String := []
  /-- The default as the document writes it. -/
  default : Option Json := none
  /-- The default in the generated code. -/
  literal : Option String := none
  order : Option FieldOrder := none
  properties : Members := []
  /-- Why a default has no literal. -/
  remarks : Option String := none
  deriving DecidableEq

/-- A field of a type, with nothing else said about it. -/
def Field.ofSchema (name : String) (declared : Schema) : Field :=
  { name, declared, underlying := declared.underlying, nullable := declared.isNullable }

/-- The name of a field in the generated code. -/
def Field.member (field : Field) : String :=
  Identifier.escape field.name

/-- A record or an error. -/
structure Record where
  name : Name
  fields : List Field
  doc : Option String := none
  aliases : List String := []
  properties : Members := []
  /-- The abstract bases that the record derives from. -/
  bases : List Handle := []
  deriving DecidableEq

/-- The field of a name. -/
def Record.field? (record : Record) (name : String) : Option Field :=
  record.fields.find? (·.name = name)

/-- An enumeration of symbols. -/
structure Enumeration where
  name : Name
  symbols : List String
  doc : Option String := none
  aliases : List String := []
  /-- The symbol that stands for unknown ones. -/
  default : Option String := none
  properties : Members := []
  deriving DecidableEq

/-- The position of a symbol. -/
def Enumeration.indexOf? (enumeration : Enumeration) (symbol : String) : Option Nat :=
  enumeration.symbols.findIdx? (· = symbol)

/-- A type of so many bytes. -/
structure FixedType where
  name : Name
  size : Nat
  doc : Option String := none
  aliases : List String := []
  properties : Members := []
  /-- The logical type of the declaration, which every reference takes over. -/
  overlay : Option LogicalType := none
  deriving DecidableEq

/-- A message of a protocol. -/
structure Message where
  name : String
  doc : Option String := none
  request : List Field := []
  /-- The type of the response as declared. -/
  response : Schema
  responseUnderlying : Schema
  responseNullable : Bool
  /-- The types of errors; the first one is the implicit string. -/
  errors : List Schema
  oneWay : Bool := false
  properties : Members := []
  deriving DecidableEq

/-- A protocol of named types and messages. -/
structure Protocol where
  name : Name
  doc : Option String := none
  types : List Schema := []
  messages : List Message := []
  properties : Members := []
  deriving DecidableEq

/-- The message of a name. -/
def Protocol.message? (protocol : Protocol) (name : String) : Option Message :=
  protocol.messages.find? (·.name = name)

/-- The common base of the records in a union. -/
structure AbstractBase where
  name : Name
  /-- The record or message that owns the slot of the union. -/
  owner : Name
  /-- The name of the slot. -/
  slot : String
  /-- The branches of the union. -/
  derived : List Schema
  deriving DecidableEq

/-- A named schema of a registry. -/
inductive Entry where
  | record (record : Record)
  | error (record : Record)
  | enum (enumeration : Enumeration)
  | fixed (fixedType : FixedType)
  | protocol (protocol : Protocol)
  | abstractBase (base : AbstractBase)
  deriving DecidableEq

namespace Entry

/-- The qualified name of an entry. -/
def name : Entry → Name
  | .record body | .error body => body.name
  | .enum enumeration => enumeration.name
  | .fixed fixedType => fixedType.name
  | .protocol body => body.name
  | .abstractBase base => base.name

/-- The kind of an entry. -/
def kind : Entry → NamedKind
  | .record _ => .record
  | .error _ => .error
  | .enum _ => .enum
  | .fixed _ => .fixed
  | .protocol _ => .protocol
  | .abstractBase _ => .abstractBase

/-- The documentation of an entry. -/
def doc : Entry → Option String
  | .record body | .error body => body.doc
  | .enum enumeration => enumeration.doc
  | .fixed fixedType => fixedType.doc
  | .protocol body => body.doc
  | .abstractBase _ => none

/-- The aliases of an entry; protocols and abstract bases have none. -/
def aliases : Entry → List String
  | .record body | .error body => body.aliases
  | .enum enumeration => enumeration.aliases
  | .fixed fixedType => fixedType.aliases
  | .protocol _ | .abstractBase _ => []

/-- Whether an entry is the base of a union and not a declaration of the document. -/
def isAbstractBase : Entry → Bool
  | .abstractBase _ => true
  | _ => false

/-- The record in an entry of a record or an error. -/
def record? : Entry → Option Record
  | .record body | .error body => some body
  | _ => none

/-- The enumeration in an entry. -/
def enum? : Entry → Option Enumeration
  | .enum enumeration => some enumeration
  | _ => none

/-- The fixed type in an entry. -/
def fixed? : Entry → Option FixedType
  | .fixed fixedType => some fixedType
  | _ => none

/-- The protocol in an entry. -/
def protocol? : Entry → Option Protocol
  | .protocol body => some body
  | _ => none

/-- The abstract base in an entry. -/
def abstractBase? : Entry → Option AbstractBase
  | .abstractBase base => some base
  | _ => none

/-- The schema that refers to an entry at a handle: a fixed type declared with a logical type
brings that along. -/
def toSchema (entry : Entry) (handle : Handle) : Schema :=
  match entry with
  | .fixed fixedType =>
    match fixedType.overlay with
    | some overlay => .logical (.named .fixed handle) overlay
    | none => .named .fixed handle
  | entry => .named entry.kind handle

end Entry

end AvroGraph
