/-!
# Resolved schemas

A resolved schema is a small tree. Its leaves are primitive types and handles to the named
schemas of a registry, so recursion among named schemas needs no cycle in the tree. A union
carries the single type that represents it.
-/

namespace AvroGraph

/-- The position of a named schema in its registry. -/
abbrev Handle := Nat

/-- The types without parts. -/
inductive Primitive where
  | null
  | boolean
  | int
  | long
  | float
  | double
  | bytes
  | string
  deriving DecidableEq

namespace Primitive

/-- The keyword of a primitive type. -/
def keyword : Primitive → String
  | .null => "null"
  | .boolean => "boolean"
  | .int => "int"
  | .long => "long"
  | .float => "float"
  | .double => "double"
  | .bytes => "bytes"
  | .string => "string"

/-- Every primitive type. -/
def all : List Primitive :=
  [.null, .boolean, .int, .long, .float, .double, .bytes, .string]

/-- The primitive type of a keyword. -/
def ofKeyword? (text : String) : Option Primitive :=
  all.find? (·.keyword = text)

/-- Reading a keyword inverts writing it. -/
theorem ofKeyword?_keyword (primitive : Primitive) :
    ofKeyword? primitive.keyword = some primitive := by
  cases primitive <;> decide

/-- Only a keyword is read as its primitive type. -/
theorem ofKeyword?_eq_some {text : String} {primitive : Primitive} :
    ofKeyword? text = some primitive ↔ text = primitive.keyword := by
  constructor
  · intro found
    have matching := List.find?_some found
    exact (of_decide_eq_true matching).symm
  · rintro rfl
    exact ofKeyword?_keyword primitive

end Primitive

/-- The kinds of named schemas. -/
inductive NamedKind where
  | record
  | error
  | enum
  | fixed
  | protocol
  | abstractBase
  deriving DecidableEq

/-- The keyword of a kind of named schema. -/
def NamedKind.keyword : NamedKind → String
  | .record => "record"
  | .error => "error"
  | .enum => "enum"
  | .fixed => "fixed"
  | .protocol => "protocol"
  | .abstractBase => "abstract"

/-- A logical type with its parameters. -/
inductive LogicalType where
  | decimal (precision scale : Nat)
  | uuid
  | date
  | timeMillis
  | timeMicros
  | timestampMillis
  | timestampMicros
  | duration
  | localTimestampMillis
  | localTimestampMicros
  deriving DecidableEq

/-- The name of a logical type. -/
def LogicalType.name : LogicalType → String
  | .decimal _ _ => "decimal"
  | .uuid => "uuid"
  | .date => "date"
  | .timeMillis => "time-millis"
  | .timeMicros => "time-micros"
  | .timestampMillis => "timestamp-millis"
  | .timestampMicros => "timestamp-micros"
  | .duration => "duration"
  | .localTimestampMillis => "local-timestamp-millis"
  | .localTimestampMicros => "local-timestamp-micros"

/-- A resolved schema. -/
inductive Schema where
  /-- A type without parts. -/
  | primitive (type : Primitive)
  /-- A named schema, by its handle and the kind of its entry. -/
  | named (kind : NamedKind) (handle : Handle)
  /-- A sequence of items. -/
  | array (items : Schema)
  /-- A dictionary from strings to values. -/
  | map (values : Schema)
  /-- A union with the type that represents it and whether that type has to admit null. -/
  | union (branches : List Schema) (underlying : Schema) (nullable : Bool)
  /-- A logical type over the schema that is serialized. -/
  | logical (underlying : Schema) (overlay : LogicalType)
  /-- The box that represents a union of several types. -/
  | boxed

namespace Schema

/-- The primitive type null. -/
abbrev null : Schema := .primitive .null

/-- The primitive type of strings. -/
abbrev string : Schema := .primitive .string

/-- The keyword of a schema's kind. -/
def kind : Schema → String
  | .primitive type => type.keyword
  | .named kind _ => kind.keyword
  | .array _ => "array"
  | .map _ => "map"
  | .union _ _ _ => "union"
  | .logical _ _ => "logical"
  | .boxed => "object"

/-- Whether a schema is a type without parts. -/
def isPrimitive : Schema → Bool
  | .primitive _ => true
  | _ => false

/-- Whether a schema is the null type. -/
def isNull : Schema → Bool
  | .primitive .null => true
  | _ => false

/-- The handle of a named schema. -/
def handle? : Schema → Option Handle
  | .named _ handle => some handle
  | _ => none

/-- Whether a schema is a handle to an entry. -/
def isNamed (schema : Schema) : Bool :=
  schema.handle?.isSome

/-- The type that represents a schema: a union's reduction, any other schema itself. -/
def underlying : Schema → Schema
  | .union _ underlying _ => underlying
  | schema => schema

/-- Whether a schema is a union whose representation has to admit null. -/
def isNullable : Schema → Bool
  | .union _ _ nullable => nullable
  | _ => false

mutual

/-- Equality of schemas. -/
def equal : Schema → Schema → Bool
  | .primitive left, .primitive right => left = right
  | .named leftKind left, .named rightKind right => leftKind = rightKind && left = right
  | .array left, .array right => left.equal right
  | .map left, .map right => left.equal right
  | .union leftBranches left leftNullable, .union rightBranches right rightNullable =>
    equalBranches leftBranches rightBranches && left.equal right && leftNullable = rightNullable
  | .logical left leftOverlay, .logical right rightOverlay =>
    left.equal right && leftOverlay = rightOverlay
  | .boxed, .boxed => true
  | _, _ => false

/-- Equality of lists of schemas. -/
def equalBranches : List Schema → List Schema → Bool
  | [], [] => true
  | left :: lefts, right :: rights => left.equal right && equalBranches lefts rights
  | _, _ => false

end

mutual

/-- The comparison of schemas decides equality. -/
theorem equal_iff : (left right : Schema) → (left.equal right = true ↔ left = right)
  | .primitive _, right | .named _ _, right | .boxed, right => by
    cases right <;> simp [equal]
  | .array left, right | .map left, right | .logical left _, right => by
    cases right <;> simp [equal, equal_iff left]
  | .union branches left _, right => by
    cases right <;> simp [equal, equal_iff left, equalBranches_iff branches, and_assoc]

/-- The comparison of branches decides equality. -/
theorem equalBranches_iff :
    (left right : List Schema) → (equalBranches left right = true ↔ left = right)
  | [], right => by cases right <;> simp [equalBranches]
  | left :: lefts, right => by
    cases right <;> simp [equalBranches, equal_iff left, equalBranches_iff lefts]

end

instance : DecidableEq Schema := fun left right =>
  decidable_of_iff (left.equal right = true) (equal_iff left right)

end Schema

end AvroGraph
