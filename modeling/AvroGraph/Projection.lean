import AvroGraph.Entry.Json
import AvroGraph.Registry

/-!
# Projection to JSON

A resolved schema is written as a schema document again. The first time a named schema is
reached it is written in full, and as a reference from then on. An abstract base has no
spelling of its own: it is written as the union it was made for.
-/

namespace AvroGraph

/-- A step of a projection, which remembers what has been written in full and may fail. -/
abbrev Projecting := ExceptT Violation (StateM (List Handle))

namespace Projecting

/-- The outcome of a projection: its result, and what has been written in full by then. -/
def outcome {α : Type} (projection : Projecting α) (written : List Handle) :
    Except Violation α × List Handle :=
  StateT.run (ExceptT.run projection) written

/-- A result by itself succeeds, and nothing is written. -/
@[simp]
theorem outcome_pure {α : Type} (value : α) (written : List Handle) :
    (pure value : Projecting α).outcome written = (.ok value, written) := rfl

/-- A violation fails, and nothing is written. -/
@[simp]
theorem outcome_throw {α : Type} (violation : Violation) (written : List Handle) :
    (throw violation : Projecting α).outcome written = (.error violation, written) := rfl

/-- A projection goes on from what its first part has written, if that succeeds. -/
theorem outcome_bind {α β : Type} (first : Projecting α) (next : α → Projecting β)
    (written : List Handle) :
    (first >>= next).outcome written =
      match first.outcome written with
      | (.ok value, after) => (next value).outcome after
      | (.error violation, after) => (.error violation, after) := by
  simp only [outcome, ExceptT.run_bind, StateT.run_bind]
  change (match StateT.run (ExceptT.run first) written with
    | (result, after) => _) = _
  rcases StateT.run (ExceptT.run first) written with ⟨_ | _, _⟩ <;> rfl

/-- What has been written can be asked for. -/
@[simp]
theorem outcome_get (written : List Handle) :
    (get : Projecting (List Handle)).outcome written = (.ok written, written) := rfl

/-- What has been written can be set. -/
@[simp]
theorem outcome_set (after written : List Handle) :
    (set after : Projecting PUnit).outcome written = (.ok ⟨⟩, after) := rfl

end Projecting

/-- How the entry at a handle is written within a namespace. -/
abbrev Define := Handle → Option String → Projecting Json

namespace Schema

/-- Whether a logical type is the one that a fixed type was declared with. -/
def isOwnOverlay (registry : Registry) (underlying : Schema) (overlay : LogicalType) : Bool :=
  match underlying with
  | .named .fixed handle => (registry.fixed? handle).bind FixedType.overlay = some overlay
  | _ => false

mutual

/-- A schema within a namespace, given how entries are written. -/
def project (registry : Registry) (define : Define) (around : Option String) :
    Schema → Projecting Json
  | .primitive type => return .string type.keyword
  | .named _ handle => define handle around
  | .array items => do
    let items ← items.project registry define around
    return .object [("type", .string "array"), ("items", items)]
  | .map values => do
    let values ← values.project registry define around
    return .object [("type", .string "map"), ("values", values)]
  | .union branches _ _ => .array <$> projectEach registry define around branches
  | .logical underlying overlay => do
    let written ← underlying.project registry define around
    return if isOwnOverlay registry underlying overlay then written else overlay.project written
  | .boxed => throw ⟨.unwritableBox, .string Schema.boxed.kind⟩

/-- Schemas in order. -/
def projectEach (registry : Registry) (define : Define) (around : Option String) :
    List Schema → Projecting (List Json)
  | [] => return []
  | schema :: rest => do
    let json ← schema.project registry define around
    let jsons ← projectEach registry define around rest
    return json :: jsons

end

end Schema

/-- Fields in order. -/
def projectFields (registry : Registry) (define : Define) (around : Option String)
    (fields : List Field) : Projecting (List Json) :=
  fields.mapM fun field => do
    let type ← field.declared.project registry define around
    return field.project type

/-- Messages in order, with their names. -/
def projectMessages (registry : Registry) (define : Define) (around : Option String)
    (messages : List Message) : Projecting Members :=
  messages.mapM fun message => do
    let request ← projectFields registry define around message.request
    let response ← message.response.project registry define around
    let errors ← Schema.projectEach registry define around (message.errors.drop 1)
    return (message.name, message.project request response errors)

/-- An entry in full, given how other entries are written. -/
def Entry.project (registry : Registry) (define : Define) (around : Option String) :
    Entry → Projecting Json
  | .record body => do
    let fields ← projectFields registry define body.name.space body.fields
    return body.project .record around fields
  | .error body => do
    let fields ← projectFields registry define body.name.space body.fields
    return body.project .error around fields
  | .enum enumeration => return enumeration.project around
  | .fixed fixedType => return fixedType.project around
  | .protocol body => do
    let types ← Schema.projectEach registry define body.name.space body.types
    let messages ← projectMessages registry define body.name.space body.messages
    return body.project around types messages
  | .abstractBase base => .array <$> Schema.projectEach registry define around base.derived

namespace Registry

/-- The entry at a handle, in full if it has not been written yet, with entries nested at most
so deep. -/
def define (registry : Registry) : Nat → Define
  | 0, handle, _ => throw ⟨.endlessBase handle, .null⟩
  | depth + 1, handle, around =>
    match registry.get? handle with
    | none => throw ⟨.foreignHandle handle, .null⟩
    | some entry =>
      if entry.isAbstractBase then entry.project registry (registry.define depth) around
      else do
        let written ← get
        if handle ∈ written then return .string (entry.name.reference around)
        else
          set (handle :: written)
          entry.project registry (registry.define depth) around

/-- How deep entries can nest: each of them is written in full once on the way down, and
between two of these every abstract base can be passed once. -/
def depthLimit (registry : Registry) : Nat :=
  (registry.size + 1) * (registry.size + 1)

/-- A schema within a namespace, as a schema document. -/
def write (registry : Registry) (schema : Schema) (around : Option String) : Projecting Json :=
  schema.project registry (registry.define registry.depthLimit) around

end Registry

end AvroGraph
