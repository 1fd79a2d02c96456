import AvroGraph.Registry

/-!
# Literals of defaults

A default is turned into a literal of the generated code as its field's type directs. Scalars
and symbols have literals; for types with parts there is only a remark.
-/

namespace AvroGraph

/-- What becomes of a default: a literal, or nothing for a kind of type that has none. -/
inductive DefaultLiteral where
  | literal (text : String)
  | unsupported (kind : String)
  deriving DecidableEq

namespace DefaultLiteral

/-- The literal, if there is one. -/
def literal? : DefaultLiteral → Option String
  | .literal text => some text
  | .unsupported _ => none

/-- Why there is no literal. -/
def remark? : DefaultLiteral → Option String
  | .literal _ => none
  | .unsupported kind =>
    some s!"default value for a field of type '{kind}' is not synthesized"

/-- A hexadecimal digit in upper case. -/
def hexDigit (value : Nat) : Char :=
  if value < 10 then Char.ofNat ('0'.toNat + value) else Char.ofNat ('A'.toNat + (value - 10))

/-- A byte in hexadecimal notation. -/
def byteText (byte : Nat) : String :=
  String.ofList ['0', 'x', hexDigit (byte / 16), hexDigit (byte % 16)]

/-- An array of bytes, one for each character; none if a character takes more than a byte. -/
def bytes? (text : String) : Option String :=
  if text.toList.all (·.toNat ≤ 0xFF) then
    if text.toList.isEmpty then some "new byte[0]"
    else some ("new byte[] \x7b " ++
      ", ".intercalate (text.toList.map fun character => byteText character.toNat) ++ " \x7d")
  else none

/-- The integers of an integer type. -/
def inRange (type : Primitive) (value : Int) : Bool :=
  match type with
  | .int => -0x80000000 ≤ value && value < 0x80000000
  | _ => Number.isSigned64 value

/-- The literal of a default of an integer type. -/
def ofInteger (type : Primitive) (default : Json) : Except Reason String :=
  match default.integer? with
  | some value =>
    if inRange type value then .ok (toString value) else .error (.defaultOutOfRange default type)
  | none => .error (.mismatchedDefault default type.keyword)

/-- The literal of a default of a primitive type. -/
def ofPrimitive (type : Primitive) (default : Json) : Except Reason String :=
  match type, default with
  | .null, .null => .ok "null"
  | .boolean, .bool value => .ok (if value then "true" else "false")
  | .int, value => ofInteger .int value
  | .long, value => ofInteger .long value
  | .float, .number value => .ok (value.text ++ "f")
  | .double, .number value => .ok value.text
  | .string, .string text => .ok (Json.quoted text)
  | .bytes, .string text =>
    match bytes? text with
    | some array => .ok array
    | none => .error .wideBytes
  | _, _ => .error (.mismatchedDefault default type.keyword)

/-- The literal of a default of an enum. -/
def ofEnumeration (enumeration : Enumeration) (default : Json) : Except Reason String :=
  match default with
  | .string symbol =>
    if symbol ∈ enumeration.symbols then
      .ok (enumeration.name.escapedFull ++ "." ++ Identifier.escape symbol)
    else .error (.notASymbol default enumeration.name)
  | _ => .error (.notASymbol default enumeration.name)

/-- The literal of a default for a declared type. -/
def synthesize (registry : Registry) (declared : Schema) (default : Json) :
    Except Reason DefaultLiteral :=
  match declared with
  | .primitive type => (ofPrimitive type default).map .literal
  | .named .enum handle =>
    match (registry.get? handle).bind Entry.enum? with
    | some enumeration => (ofEnumeration enumeration default).map .literal
    | none => .error (.mismatchedDefault default declared.kind)
  | declared => .ok (.unsupported declared.kind)

/-- What becomes of a default that may be absent. -/
def synthesizeOption (registry : Registry) (declared : Schema) :
    Option Json → Except Reason (Option DefaultLiteral)
  | none => .ok none
  | some default => (synthesize registry declared default).map some

end DefaultLiteral

end AvroGraph
