import AvroGraph.Json.Printer
import AvroGraph.Name
import AvroGraph.Schema

/-!
# Violations

Why a document is refused. A violation names the rule that is broken and the JSON node that
breaks it; the wording follows from the rule alone.
-/

namespace AvroGraph

/-- A rule of the schema language that is broken. -/
inductive Reason where
  /-- A node is neither a type name, nor a schema object, nor a union. -/
  | notASchema
  /-- A name breaks the naming rules. -/
  | badName (error : NameError)
  /-- No schema of that name is declared. -/
  | unknownSchema (name : Name)
  /-- A property has to be a string. -/
  | notAString (key : String)
  /-- A property has to be an array of strings. -/
  | notAnArrayOfStrings (key : String)
  /-- An array holds something besides strings. -/
  | notOnlyStrings (key : String)
  /-- A schema object has no type. -/
  | missingType
  /-- The type of a schema object is neither a string, nor an object, nor an array. -/
  | badType
  /-- An array schema has no items. -/
  | missingItems
  /-- A map schema has no values. -/
  | missingValues
  /-- A declaration has no name. -/
  | missingName (kind : NamedKind)
  /-- A record or an error has no array of fields. -/
  | missingFields (kind : NamedKind)
  /-- An enum has no array of symbols. -/
  | missingSymbols
  /-- A symbol of an enum is no string. -/
  | symbolNotAString
  /-- A symbol occurs twice in an enum. -/
  | duplicateSymbol (symbol : String)
  /-- An enum has no symbol. -/
  | noSymbols
  /-- The default of an enum is none of its symbols. -/
  | foreignDefault (symbol : String)
  /-- A fixed type has no size. -/
  | badSize
  /-- A field is no object. -/
  | fieldNotAnObject
  /-- A field has no name. -/
  | fieldWithoutName
  /-- A field has no type. -/
  | fieldWithoutType (field : String)
  /-- A field occurs twice in its owner. -/
  | duplicateField (field : String) (owner : Name)
  /-- The order of a field is none of the known ones. -/
  | badOrder
  /-- A name is declared twice. -/
  | redeclaration (name : Name)
  /-- A decimal has no precision. -/
  | badPrecision
  /-- A decimal has a scale that is no number up to its precision. -/
  | badScale
  /-- A logical type does not fit the schema it is laid over. -/
  | cannotAnnotate (logicalType : String) (underlying : Name)
  /-- A default is not of the field's type. -/
  | mismatchedDefault (default : Json) (kind : String)
  /-- A default is not in the range of its integer type. -/
  | defaultOutOfRange (default : Json) (type : Primitive)
  /-- A default of bytes holds a character beyond one byte. -/
  | wideBytes
  /-- A default is no symbol of the field's enum. -/
  | notASymbol (default : Json) (enumeration : Name)
  /-- A protocol has a name that is no string. -/
  | badProtocol
  /-- The types of a protocol are no array. -/
  | badTypes
  /-- A type of a protocol is not a named schema. -/
  | unnamedType (kind : String)
  /-- The messages of a protocol are no object. -/
  | badMessages
  /-- A message is no object. -/
  | messageNotAnObject
  /-- A message has no array of request parameters. -/
  | missingRequest (message : String)
  /-- A message has no response. -/
  | missingResponse (message : String)
  /-- The errors of a message are no array. -/
  | badErrors
  /-- An error of a message is no error schema. -/
  | notAnError (message : String) (name : Name)
  /-- The one-way flag of a message is no boolean. -/
  | badOneWay
  /-- A one-way message has a response or errors. -/
  | answeredOneWay (message : String)
  /-- The box of a union has no spelling of its own. -/
  | unwritableBox
  /-- A handle has no entry. -/
  | foreignHandle (handle : Handle)
  /-- An abstract base is one of its own branches. -/
  | endlessBase (handle : Handle)
  deriving DecidableEq

/-- The wording of a reason. -/
def Reason.message : Reason → String
  | .notASchema => "expected a type name, a schema object, or a union array"
  | .badName error => error.message
  | .unknownSchema name => "unknown schema '" ++ name.full ++ "'"
  | .notAString key => s!"'{key}' must be a string"
  | .notAnArrayOfStrings key => s!"'{key}' must be an array of strings"
  | .notOnlyStrings key => s!"'{key}' must contain only strings"
  | .missingType => "missing required property 'type'"
  | .badType => "'type' must be a string, an object, or an array"
  | .missingItems => "array requires an 'items' schema"
  | .missingValues => "map requires a 'values' schema"
  | .missingName kind => kind.keyword ++ " requires a string 'name'"
  | .missingFields kind => kind.keyword ++ " requires a 'fields' array"
  | .missingSymbols => "enum requires a 'symbols' array"
  | .symbolNotAString => "enum symbols must be strings"
  | .duplicateSymbol symbol => s!"duplicate enum symbol '{symbol}'"
  | .noSymbols => "enum must have at least one symbol"
  | .foreignDefault symbol => s!"enum default '{symbol}' is not one of its symbols"
  | .badSize => "fixed requires a non-negative integer 'size'"
  | .fieldNotAnObject => "field must be an object"
  | .fieldWithoutName => "field requires a string 'name'"
  | .fieldWithoutType field => s!"field '{field}' requires a 'type'"
  | .duplicateField field owner => s!"duplicate field '{field}' in '" ++ owner.full ++ "'"
  | .badOrder => "'order' must be one of 'ascending', 'descending', 'ignore'"
  | .redeclaration name => "redeclaration of schema '" ++ name.full ++ "'"
  | .badPrecision => "decimal requires a positive integer 'precision'"
  | .badScale => "decimal 'scale' must be a non-negative integer not above 'precision'"
  | .cannotAnnotate logicalType underlying =>
    s!"logical type '{logicalType}' cannot annotate '" ++ underlying.full ++ "'"
  | .mismatchedDefault default kind =>
    "default value " ++ default.text ++ s!" does not match field type '{kind}'"
  | .defaultOutOfRange default type =>
    type.keyword ++ " default " ++ default.text ++ " is out of range"
  | .wideBytes => "bytes default may only contain code points up to \\u00FF"
  | .notASymbol default enumeration =>
    "default " ++ default.text ++ " is not a symbol of enum '" ++ enumeration.full ++ "'"
  | .badProtocol => "'protocol' must be a string"
  | .badTypes => "'types' must be an array of schemas"
  | .unnamedType kind => s!"protocol types must be named, found '{kind}'"
  | .badMessages => "'messages' must be an object keyed by message name"
  | .messageNotAnObject => "message must be an object"
  | .missingRequest message => s!"message '{message}' requires a 'request' array"
  | .missingResponse message => s!"message '{message}' requires a 'response'"
  | .badErrors => "'errors' must be an array of error schemas"
  | .notAnError message name =>
    s!"message '{message}' declares '" ++ name.full ++ "' as an error, which is not an error schema"
  | .badOneWay => "'one-way' must be a boolean"
  | .answeredOneWay message =>
    s!"one-way message '{message}' must have a null response and no errors"
  | .unwritableBox => "the boxed union representation cannot be written on its own"
  | .foreignHandle handle => s!"schema handle {handle} is not registered"
  | .endlessBase handle => s!"abstract base {handle} is one of its own branches"

/-- A broken rule and the node that breaks it. -/
structure Violation where
  reason : Reason
  node : Json
  deriving DecidableEq

/-- A violation in full: the reason and the text of the node. -/
def Violation.message (violation : Violation) : String :=
  "Invalid schema: " ++ violation.reason.message ++ " (at " ++ violation.node.text ++ ")"

end AvroGraph
