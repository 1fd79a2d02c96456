import AvroGraph.Entry
import AvroGraph.Violation

/-!
# The registry of named schemas

Every named schema of a document lives in its registry exactly once, at the handle of its
registration. Names are looked up in an index of their own, which `Registry.register` extends
together with the entries; it refuses a name that is indexed already.
-/

namespace AvroGraph

/-- The named schemas of a document in registration order, where their names are found, and
which slot each abstract base was made for. -/
structure Registry where
  entries : List Entry := []
  /-- The handles of the names, the latest first. -/
  index : List (Name × Handle) := []
  /-- The bases made so far, by the owner and the name of their slot. -/
  bases : List ((Name × String) × Handle) := []
  deriving DecidableEq

namespace Registry

/-- The registry without entries. -/
def empty : Registry := {}

/-- The number of entries. -/
def size (registry : Registry) : Nat :=
  registry.entries.length

/-- The entry at a handle. -/
def get? (registry : Registry) (handle : Handle) : Option Entry :=
  registry.entries[handle]?

/-- The handle of a name, as the index has it. -/
def find? (registry : Registry) (name : Name) : Option Handle :=
  registry.index.lookup name

/-- The handle of a full name; malformed text has none. -/
def lookup (registry : Registry) (full : String) : Option Handle :=
  match Name.parse full with
  | .ok name => registry.find? name
  | .error _ => none

/-- The entry of a full name. -/
def entry? (registry : Registry) (full : String) : Option Entry :=
  (registry.lookup full).bind registry.get?

/-- The schema that refers to the entry at a handle. -/
def schemaOf? (registry : Registry) (handle : Handle) : Option Schema :=
  (registry.get? handle).map (·.toSchema handle)

/-- The record or error at a handle. -/
def record? (registry : Registry) (handle : Handle) : Option Record :=
  (registry.get? handle).bind Entry.record?

/-- The fixed type at a handle. -/
def fixed? (registry : Registry) (handle : Handle) : Option FixedType :=
  (registry.get? handle).bind Entry.fixed?

/-- What a schema without an entry is called: its logical type or its kind. -/
def kindName : Schema → Name
  | .logical _ overlay => .unqualified overlay.name
  | schema => .unqualified schema.kind

/-- What a schema is called: the name of its entry if it has one. -/
def nameOf (registry : Registry) (schema : Schema) : Name :=
  match schema.handle?.bind registry.get? with
  | some entry => entry.name
  | none => kindName schema

/-- The full names of the entries. -/
def names (registry : Registry) : List String :=
  registry.entries.map (·.name.full)

/-- Give a new entry the next handle and index its name, unless the name is taken. -/
def register (registry : Registry) (entry : Entry) : Except Reason (Handle × Registry) :=
  match registry.find? entry.name with
  | some _ => .error (.redeclaration entry.name)
  | none => .ok (registry.size, { registry with
      entries := registry.entries ++ [entry]
      index := (entry.name, registry.size) :: registry.index })

/-- Change the entry at a handle. -/
def update (registry : Registry) (handle : Handle) (change : Entry → Entry) : Registry :=
  { registry with entries := registry.entries.modify handle change }

/-- Give a record or an error its fields. -/
def setFields (registry : Registry) (handle : Handle) (fields : List Field) : Registry :=
  registry.update handle fun
    | .record record => .record { record with fields }
    | .error record => .error { record with fields }
    | entry => entry

/-- Give a protocol its types and messages. -/
def setProtocol (registry : Registry) (handle : Handle) (types : List Schema)
    (messages : List Message) : Registry :=
  registry.update handle fun
    | .protocol protocol => .protocol { protocol with types, messages }
    | entry => entry

/-- Give a fixed type the logical type of its declaration. -/
def setOverlay (registry : Registry) (handle : Handle) (overlay : LogicalType) : Registry :=
  registry.update handle fun
    | .fixed fixedType => .fixed { fixedType with overlay := some overlay }
    | entry => entry

/-- Let a record derive from a base, once. Errors derive from none. -/
def addBase (registry : Registry) (handle base : Handle) : Registry :=
  registry.update handle fun
    | .record record =>
      if base ∈ record.bases then .record record
      else .record { record with bases := record.bases ++ [base] }
    | entry => entry

/-- The base made for a slot. -/
def baseOf? (registry : Registry) (owner : Name) (slot : String) : Option Handle :=
  registry.bases.lookup (owner, slot)

/-- Remember the base made for a slot. -/
def rememberBase (registry : Registry) (owner : Name) (slot : String) (base : Handle) :
    Registry :=
  { registry with bases := ((owner, slot), base) :: registry.bases }

/-- To change one entry leaves the others as they are. -/
@[simp]
theorem get?_update (registry : Registry) (handle other : Handle) (change : Entry → Entry) :
    (registry.update handle change).get? other =
      if handle = other then (registry.get? other).map change else registry.get? other := by
  simp only [update, get?, List.getElem?_modify]
  split <;> simp

/-- To change an entry leaves as many entries as there were. -/
@[simp]
theorem size_update (registry : Registry) (handle : Handle) (change : Entry → Entry) :
    (registry.update handle change).size = registry.size := by
  simp [update, size]

/-- A registration succeeds exactly when the name is free, and then it adds the entry behind
all others and its name to the index. -/
theorem register_eq_ok {registry after : Registry} {entry : Entry} {handle : Handle} :
    registry.register entry = .ok (handle, after) ↔
      registry.find? entry.name = none ∧ handle = registry.size ∧
        after = { registry with
          entries := registry.entries ++ [entry]
          index := (entry.name, registry.size) :: registry.index } := by
  rw [register]
  split
  · next found => simp [found]
  · next free => simp [free, eq_comm]

end Registry

end AvroGraph
