import AvroGraph.Binary64

/-!
# JSON values

Values as a document writes them: integers and doubles are told apart, and an object keeps its
members in order.
-/

namespace AvroGraph

/-- A number: an integer of at most 64 bits, signed or unsigned, or a double. -/
inductive Number where
  | integer (value : Int)
  | double (value : Binary64)
  deriving DecidableEq

namespace Number

/-- The integers of 64 bits, signed: `-2 ^ 63` up to below `2 ^ 63`. -/
def isSigned64 (value : Int) : Bool :=
  -0x8000000000000000 ≤ value && value < 0x8000000000000000

/-- A natural number, when that is what the number is. -/
def toNat? : Number → Option Nat
  | .integer (.ofNat value) => some value
  | _ => none

end Number

/-- A JSON value. The keys of an object are distinct in every value that is read from text. -/
inductive Json where
  | null
  | bool (value : Bool)
  | number (value : Number)
  | string (text : String)
  | array (items : List Json)
  | object (members : List (String × Json))

namespace Json

/-- The text of a string. -/
def string? : Json → Option String
  | .string text => some text
  | _ => none

/-- The items of an array. -/
def array? : Json → Option (List Json)
  | .array items => some items
  | _ => none

/-- The members of an object. -/
def object? : Json → Option (List (String × Json))
  | .object members => some members
  | _ => none

/-- The number, if it is a natural one. -/
def nat? : Json → Option Nat
  | .number value => value.toNat?
  | _ => none

/-- The number, if it is an integer. -/
def integer? : Json → Option Int
  | .number (.integer value) => some value
  | _ => none

/-- An array of strings. -/
def ofStrings (texts : List String) : Json :=
  .array (texts.map .string)

/-- A natural number as a value. -/
def ofNat (value : Nat) : Json :=
  .number (.integer value)

mutual

/-- Equality of values, the order of members included. -/
def equal : Json → Json → Bool
  | .null, .null => true
  | .bool left, .bool right => left = right
  | .number left, .number right => left = right
  | .string left, .string right => left = right
  | .array left, .array right => equalItems left right
  | .object left, .object right => equalMembers left right
  | _, _ => false

/-- Equality of lists of values. -/
def equalItems : List Json → List Json → Bool
  | [], [] => true
  | left :: lefts, right :: rights => left.equal right && equalItems lefts rights
  | _, _ => false

/-- Equality of members in order. -/
def equalMembers : List (String × Json) → List (String × Json) → Bool
  | [], [] => true
  | (leftKey, left) :: lefts, (rightKey, right) :: rights =>
    leftKey = rightKey && left.equal right && equalMembers lefts rights
  | _, _ => false

end

mutual

/-- The comparison of documents decides equality. -/
theorem equal_iff : (left right : Json) → (left.equal right = true ↔ left = right)
  | .array left, right => by
    cases right <;> simp [equal, equalItems_iff left]
  | .object left, right => by
    cases right <;> simp [equal, equalMembers_iff left]
  | .null, right | .bool _, right | .number _, right | .string _, right => by
    cases right <;> simp [equal]

/-- The comparison of the items of arrays decides equality. -/
theorem equalItems_iff : (left right : List Json) → (equalItems left right = true ↔ left = right)
  | [], right => by cases right <;> simp [equalItems]
  | left :: lefts, right => by
    cases right <;> simp [equalItems, equal_iff left, equalItems_iff lefts]

/-- The comparison of the members of objects decides equality. -/
theorem equalMembers_iff :
    (left right : List (String × Json)) → (equalMembers left right = true ↔ left = right)
  | [], right => by cases right <;> simp [equalMembers]
  | (key, left) :: lefts, right => by
    cases right <;> simp [equalMembers, equal_iff left, equalMembers_iff lefts, Prod.ext_iff]

end

instance : DecidableEq Json := fun left right =>
  decidable_of_iff (left.equal right = true) (equal_iff left right)

end Json

end AvroGraph
