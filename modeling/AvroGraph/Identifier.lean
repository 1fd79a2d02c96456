import AvroGraph.Text.Segments
import AvroGraph.Text.UpperCase

/-!
# Identifiers

The grammar `[A-Za-z_][A-Za-z0-9_]*` of a name segment, and the spelling of a name in the
generated C# code, where a keyword is set apart by a leading `@`.
-/

namespace AvroGraph.Identifier

/-- The keywords of the generated code's language. -/
def reservedWords : List String :=
  ["abstract", "as", "base", "bool", "break", "byte", "case", "catch", "char", "checked",
   "class", "const", "continue", "decimal", "default", "delegate", "do", "double", "else",
   "enum", "event", "explicit", "extern", "false", "finally", "fixed", "float", "for",
   "foreach", "goto", "if", "implicit", "in", "int", "interface", "internal", "is", "lock",
   "long", "namespace", "new", "null", "object", "operator", "out", "override", "params",
   "private", "protected", "public", "readonly", "ref", "return", "sbyte", "sealed", "short",
   "sizeof", "stackalloc", "static", "string", "struct", "switch", "this", "throw", "true",
   "try", "typeof", "uint", "ulong", "unchecked", "unsafe", "ushort", "using", "virtual",
   "void", "volatile", "while"]

/-- Whether an identifier is a keyword of the generated code's language. -/
def isReserved (identifier : String) : Bool :=
  reservedWords.contains identifier

/-- A keyword is set apart by `@`; every other identifier stands as it is. -/
def escape (identifier : String) : String :=
  if isReserved identifier then "@" ++ identifier else identifier

/-- Every segment of a dotted name escaped on its own. -/
def escapeDotted (dotted : String) : String :=
  ".".intercalate ((Text.segments dotted).map escape)

/-- Letters and the underscore may start an identifier. -/
def startsIdentifier (character : Char) : Bool :=
  character.isAlpha || character == '_'

/-- Digits may follow in an identifier, besides all that may start one. -/
def continuesIdentifier (character : Char) : Bool :=
  character.isAlphanum || character == '_'

/-- Membership in `[A-Za-z_][A-Za-z0-9_]*`. -/
def isWellFormed (segment : String) : Bool :=
  match segment.toList with
  | [] => false
  | first :: rest => startsIdentifier first && rest.all continuesIdentifier

/-- Underscores, hyphens and spaces separate the words of an identifier. -/
def separatesWords (character : Char) : Bool :=
  character == '_' || character == '-' || character == ' '

/-- A word with its first character in upper case. -/
def capitalize : List Char → List Char
  | [] => []
  | first :: rest => Text.upperCase first ++ rest

/-- The words of an identifier, each capitalised, run together: `first_name` and `firstName`
both give `FirstName`. -/
def pascalCase (identifier : String) : String :=
  String.ofList ((Text.pieces separatesWords identifier.toList).flatMap capitalize)

/-- An escaped identifier is never a keyword. -/
theorem isReserved_escape (identifier : String) : isReserved (escape identifier) = false := by
  rw [escape]
  split
  · next reserved =>
    have at_mem (word : String) : word ∈ reservedWords → word.toList.head? ≠ some '@' := by
      revert word
      decide
    rw [isReserved, List.contains_eq_mem, decide_eq_false_iff_not]
    intro member
    exact at_mem _ member (by simp)
  · next free => simpa using free

/-- Escaping tells identifiers apart, as long as none of them brings in an `@` of its own. -/
theorem escape_inj {left right : String} (leftPlain : '@' ∉ left.toList)
    (rightPlain : '@' ∉ right.toList) (same : escape left = escape right) : left = right := by
  rw [escape, escape] at same
  split at same <;> split at same
  · simpa using same
  · exact absurd (by simp [← same]) rightPlain
  · exact absurd (by simp [same]) leftPlain
  · exact same

end AvroGraph.Identifier
