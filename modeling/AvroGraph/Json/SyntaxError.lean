/-!
# JSON syntax errors

What can be wrong with a text that should be JSON, and where: a line and a column, both found
from a number of bytes.
-/

namespace AvroGraph

/-- What is wrong with a text that should be JSON. -/
inductive SyntaxFault where
  | endInValue
  | endInString
  | endInList
  | endInObject
  | expectedIdentifier
  | expectedValue
  | expectedColon
  | expectedListEnd
  | expectedObjectEnd
  | keyNotString
  | trailingComma
  | trailingCharacters
  | invalidNumber
  | numberOutOfRange
  | controlCharacter
  | invalidEscape
  | loneSurrogate
  | endOfHexEscape
  | recursionLimit
  deriving DecidableEq

/-- The wording of a syntax fault. -/
def SyntaxFault.message : SyntaxFault → String
  | .endInValue => "EOF while parsing a value"
  | .endInString => "EOF while parsing a string"
  | .endInList => "EOF while parsing a list"
  | .endInObject => "EOF while parsing an object"
  | .expectedIdentifier => "expected ident"
  | .expectedValue => "expected value"
  | .expectedColon => "expected `:`"
  | .expectedListEnd => "expected `,` or `]`"
  | .expectedObjectEnd => "expected `,` or `\x7d`"
  | .keyNotString => "key must be a string"
  | .trailingComma => "trailing comma"
  | .trailingCharacters => "trailing characters"
  | .invalidNumber => "invalid number"
  | .numberOutOfRange => "number out of range"
  | .controlCharacter => "control character (\\u0000-\\u001F) found while parsing a string"
  | .invalidEscape => "invalid escape"
  | .loneSurrogate => "lone leading surrogate in hex escape"
  | .endOfHexEscape => "unexpected end of hex escape"
  | .recursionLimit => "recursion limit exceeded"

/-- A place in a text: lines are counted from one, columns are bytes since the line began. -/
structure Position where
  line : Nat
  column : Nat
  deriving DecidableEq

/-- The place so many bytes further on, within the given text or at its end. -/
def Position.advance (position : Position) (bytes : Nat) : List Char → Position
  | [] => position
  | character :: rest =>
    if bytes = 0 then position
    else if character = '\n' then advance ⟨position.line + 1, 0⟩ (bytes - 1) rest
    else if bytes < character.utf8Size then ⟨position.line, position.column + bytes⟩
    else advance ⟨position.line, position.column + character.utf8Size⟩
      (bytes - character.utf8Size) rest

/-- A syntax fault and its place. -/
structure SyntaxError where
  fault : SyntaxFault
  position : Position
  deriving DecidableEq

/-- The wording of a syntax error. -/
def SyntaxError.message (error : SyntaxError) : String :=
  let fault := error.fault.message
  let line := error.position.line
  let column := error.position.column
  s!"Invalid JSON: {fault} at line {line} column {column}"

end AvroGraph
