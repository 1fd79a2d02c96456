import AvroGraph.Entry
import AvroGraph.Json.Same

/-!
# Sameness of named schemas

Named schemas are the same when they agree in everything, defaults and properties up to the
order of members.
-/

namespace AvroGraph

/-- Whether optional values are the same. -/
def Json.sameOption : Option Json → Option Json → Bool
  | none, none => true
  | some left, some right => left.same right
  | _, _ => false

/-- Whether two lists agree item by item. -/
def sameList {α : Type} (same : α → α → Bool) (left right : List α) : Bool :=
  left.length = right.length && (left.zip right).all fun (left, right) => same left right

/-- Whether fields are the same up to the order of members in defaults and properties. -/
def Field.same (left right : Field) : Bool :=
  { left with default := none, properties := [] } =
      { right with default := none, properties := [] } &&
    Json.sameOption left.default right.default && Json.sameObject left.properties right.properties

/-- Whether records are the same up to the order of members. -/
def Record.same (left right : Record) : Bool :=
  { left with fields := [], properties := [] } = { right with fields := [], properties := [] } &&
    sameList Field.same left.fields right.fields &&
    Json.sameObject left.properties right.properties

/-- Whether messages are the same up to the order of members. -/
def Message.same (left right : Message) : Bool :=
  { left with request := [], properties := [] } =
      { right with request := [], properties := [] } &&
    sameList Field.same left.request right.request &&
    Json.sameObject left.properties right.properties

/-- Whether entries are the same up to the order of members. -/
def Entry.same : Entry → Entry → Bool
  | .record left, .record right | .error left, .error right => left.same right
  | .enum left, .enum right =>
    { left with properties := [] } = { right with properties := [] } &&
      Json.sameObject left.properties right.properties
  | .fixed left, .fixed right =>
    { left with properties := [] } = { right with properties := [] } &&
      Json.sameObject left.properties right.properties
  | .protocol left, .protocol right =>
    { left with messages := [], properties := [] } =
        { right with messages := [], properties := [] } &&
      sameList Message.same left.messages right.messages &&
      Json.sameObject left.properties right.properties
  | .abstractBase left, .abstractBase right => left = right
  | _, _ => false

/-- Whether lists of entries are the same, in the same order. -/
def Entry.sameAll (left right : List Entry) : Bool :=
  sameList Entry.same left right

end AvroGraph
