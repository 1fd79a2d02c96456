/-!
# Options of a resolution

The policies a schema document does not state itself.
-/

namespace AvroGraph

/-- How nullability is encoded, how strictly names are checked, and whether unions of records
get a common base. -/
structure Options where
  /-- Whether the generated code marks references that may be null. -/
  nullableReferences : Bool := true
  /-- Whether a name outside the identifier grammar is refused. -/
  strictNames : Bool := false
  /-- Whether a slot whose type is a union of records gets an abstract base. -/
  synthesizeBases : Bool := true
  deriving DecidableEq

end AvroGraph
