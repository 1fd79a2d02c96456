import AvroGraph.Registry.Base
import AvroGraph.Registry.Logical

/-!
# Slots and overlays

What becomes of a resolved schema where it is used: in the slot of a field, a parameter or a
response, and under a logical type. Both may leave a trace in the registry.
-/

namespace AvroGraph

/-- The type of a field, a parameter or a response, next to the type that represents it. -/
structure Slot where
  declared : Schema
  underlying : Schema
  nullable : Bool

/-- The slot of a declared type. An abstract base takes the place of a union of records. -/
def Registry.slot (registry : Registry) (options : Options) (owner : Name) (name : String)
    (declared : Schema) : Except Reason (Slot × Registry) :=
  match declared with
  | .union branches underlying nullable =>
    if options.synthesizeBases && callsForBase branches then do
      let (base, registry) ← registry.synthesizeBase owner name branches
      return (⟨.named .abstractBase base, .named .abstractBase base, nullable⟩, registry)
    else .ok (⟨declared, underlying, nullable⟩, registry)
  | declared => .ok (⟨declared, declared, false⟩, registry)

/-- What a schema is under a logical type: an annotated named schema loses its annotation. -/
def Schema.bare : Schema → Schema
  | .logical underlying overlay =>
    if underlying.isNamed then underlying else .logical underlying overlay
  | schema => schema

/-- Lay a logical type over a resolved schema. A fixed type declared in the same object keeps
it, so that later references bring it along. -/
def Registry.annotate (registry : Registry) (declaresFixed : Bool) (inner : Schema)
    (name : String) (overlay : Except Reason (Option LogicalType)) :
    Except Reason (Schema × Registry) := do
  let schema ← inner.bare.annotate registry name (← overlay)
  match schema with
  | .logical (.named .fixed handle) overlay =>
    return (schema, if declaresFixed then registry.setOverlay handle overlay else registry)
  | _ => return (schema, registry)

end AvroGraph
