import AvroGraph.Json.Members

/-!
# Sameness of JSON values

The equality of values that disregards the order of members. Numbers are the same when they are
of one kind and have one value, so the two zeros among the doubles are.
-/

namespace AvroGraph

/-- Numbers are the same when they are of one kind and have one value. -/
def Number.same : Number → Number → Bool
  | .integer left, .integer right => left = right
  | .double left, .double right => left.same right
  | _, _ => false

namespace Json

mutual

/-- Whether two values are the same up to the order of members, numbers by kind and value. -/
def same : Json → Json → Bool
  | .null, .null => true
  | .bool left, .bool right => left = right
  | .number left, .number right => left.same right
  | .string left, .string right => left = right
  | .array left, .array right => sameItems left right
  | .object left, .object right => left.length = right.length && sameMembers left right
  | _, _ => false

/-- Whether two lists hold the same values in the same order. -/
def sameItems : List Json → List Json → Bool
  | [], [] => true
  | left :: lefts, right :: rights => left.same right && sameItems lefts rights
  | _, _ => false

/-- Whether every member has a counterpart of the same key and the same value. -/
def sameMembers : List (String × Json) → Members → Bool
  | [], _ => true
  | (key, value) :: rest, others =>
    (match others.get? key with
     | some other => value.same other
     | none => false) && sameMembers rest others

end

/-- Objects are the same when they have the same keys with the same values. -/
def sameObject (left right : Members) : Bool :=
  left.length = right.length && sameMembers left right

end Json

end AvroGraph
