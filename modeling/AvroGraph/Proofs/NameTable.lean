import AvroGraph.Proofs.BaseName
import AvroGraph.Proofs.Sound
import Mathlib.Data.List.Nodup

/-!
# The table of names

Every entry of a registry that a resolver reaches has a well-formed name, whether it was declared or
made for a slot (`Registry.Reached.wellNamed`). So its full name leads back to it through the index,
and the index and the entries are inverse to each other (`Registry.Reached.names_table`).
-/

namespace AvroGraph

namespace Name

variable {name other : Name}

/-- A well-formed name is what its full name stands for. -/
theorem WellFormed.parse_full (wellFormed : name.WellFormed) : parse name.full = .ok name := by
  cases inSpace : name.space with
  | some space => exact wellFormed.resolve_full inSpace
  | none =>
    rw [full, inSpace]
    exact wellFormed.resolve_localName (by simp [inSpace]) (by simp)

/-- Names that are well formed are told apart by their full texts. -/
theorem WellFormed.full_inj (wellFormed : name.WellFormed) (otherFormed : other.WellFormed)
    (same : name.full = other.full) : name = other := by
  have parsed := wellFormed.parse_full
  rw [same, otherFormed.parse_full] at parsed
  exact (Except.ok.inj parsed).symm

end Name

/-- What a node declares has a name that its heading admits. -/
theorem Node.Declares.admitted {options : Options} {node : Node} {entry : Entry}
    (declares : node.Declares options entry) : entry.name.Admitted options := by
  cases declares with
  | record _ isError _ resolved =>
    have admitted := Name.Admitted.of_heading resolved
    cases isError <;> exact admitted
  | enum _ resolved checked =>
    rw [Entry.name, (Declaration.enumeration_eq_ok checked).1]
    exact .of_heading resolved
  | fixed _ resolved sized =>
    rw [Entry.name, (Declaration.fixedType_eq_ok.1 sized).2.1]
    exact .of_heading resolved
  | protocol _ _ _ resolved => exact .of_heading resolved

namespace Registry

variable {options : Options} {registry after : Registry} {handle : Handle} {entry : Entry}

/-- Every entry has a well-formed name. -/
def WellNamed (registry : Registry) : Prop :=
  ∀ name ∈ registry.entries.map Entry.name, name.WellFormed

namespace WellNamed

/-- A registry stays well named when an entry with a well formed name is registered. -/
theorem register (wellNamed : registry.WellNamed) (wellFormed : entry.name.WellFormed)
    (registered : registry.register entry = .ok (handle, after)) : after.WellNamed := by
  obtain ⟨-, -, rfl⟩ := register_eq_ok.1 registered
  intro name member
  rw [List.map_append, List.mem_append] at member
  rcases member with early | last
  · exact wellNamed name early
  · rwa [List.mem_singleton.1 last]

/-- Amendments leave names as well formed as they were. -/
theorem amended (wellNamed : registry.WellNamed) (amended : registry.Amended after) :
    after.WellNamed := by
  rwa [WellNamed, amended.names_eq]

/-- Links to a base leave names as well formed as they were. -/
theorem addBases {handles : List Handle} {base : Handle} (wellNamed : registry.WellNamed) :
    (handles.foldl (fun result record => result.addBase record base) registry).WellNamed :=
  keep_addBases WellNamed amended handles base wellNamed

/-- The base that is made for a slot has a well-formed name. -/
theorem slot {owner : Name} {name : String} {declared : Schema} {slot : Slot}
    (wellNamed : registry.WellNamed) (wellFormed : owner.WellFormed) (undotted : '.' ∉ name.toList)
    (filled : registry.slot options owner name declared = .ok (slot, after)) : after.WellNamed := by
  obtain rfl | ⟨-, base, registered, register, rfl⟩ := slot_cases filled
  · exact wellNamed
  · have registering : registered.WellNamed := by
      refine wellNamed.register ?_ register
      exact registry.wellFormed_freeBaseName wellFormed undotted
    have remembering : (registered.rememberBase owner name base).WellNamed := registering
    exact remembering.addBases

/-- An owner is well named because its declaration was, and the slots of it because their names are
simple. -/
theorem invariant {law : NodeLaw} {meets : Registry → Schema → Prop} :
    Registry.Invariant options law WellNamed meets :=
  .of_amended amended (fun wellNamed _ declares => wellNamed.register declares.admitted.wellFormed)
    fun wellNamed owner simple =>
      wellNamed.slot owner.wellFormed (Options.checkSimpleName_eq_ok.1 simple).1.2

/-- Every entry has a well formed name. -/
theorem wellFormed (wellNamed : registry.WellNamed) (found : registry.get? handle = some entry) :
    entry.name.WellFormed :=
  wellNamed _ (List.mem_map_of_mem (List.mem_of_getElem? found))

/-- Full names are as distinct as names. -/
theorem nodup_names (wellNamed : registry.WellNamed) (sound : registry.Sound) :
    registry.names.Nodup := by
  have each : registry.names = (registry.entries.map Entry.name).map Name.full := by
    rw [names, List.map_map]
    rfl
  rw [each]
  refine List.Nodup.map_on (fun name member other otherMember => ?_) sound.indexed.distinct
  exact (wellNamed name member).full_inj (wellNamed other otherMember)

end WellNamed

/-- Every registry that a resolver reaches is well named. -/
theorem Reached.wellNamed (reached : registry.Reached options) : registry.WellNamed := by
  have empty : Registry.empty.WellNamed := fun _ member => by cases member
  exact (reached.holds (groundedCondition fun _ holds => holds.1.knowsBases)
    (Sound.invariant.and WellNamed.invariant) ⟨.empty, empty⟩).2

/-- In every registry that a resolver reaches, the index leads from a name exactly to the entry that
has it. Names are free of dots and not blank, nor are the segments of their namespaces, so that
every entry is found by its full name, and these are distinct. -/
theorem Reached.names_table (reached : registry.Reached options) :
    (∀ name handle, registry.find? name = some handle ↔
      ∃ entry, registry.get? handle = some entry ∧ entry.name = name) ∧
    (∀ handle entry, registry.get? handle = some entry →
      '.' ∉ entry.name.localName.toList ∧ Text.isBlank entry.name.localName = false ∧
      (∀ space, entry.name.space = some space →
        ∀ segment ∈ Text.segments space, Text.isBlank segment = false) ∧
      registry.lookup entry.name.full = some handle) ∧
    registry.names.Nodup := by
  have sound := reached.sound
  refine ⟨sound.indexed, fun handle entry found => ?_,
    reached.wellNamed.nodup_names sound⟩
  have wellFormed := reached.wellNamed.wellFormed found
  refine ⟨wellFormed.undotted, wellFormed.visible, fun space inSpace => ?_, ?_⟩
  · exact Name.checkSegments_eq_ok.1 (wellFormed.space space inSpace)
  · rw [lookup, wellFormed.parse_full]
    exact (sound.indexed _ _).2 ⟨entry, found, rfl⟩

/-- A record with two slots for which bases of one name are wanted, and a field that refers to
nothing. -/
def colliding : Json :=
  let record (name : String) (fields : List Json) : Json :=
    .object [("type", .string "record"), ("name", .string name), ("fields", .array fields)]
  let field (name : String) (type : Json) : Json :=
    .object [("name", .string name), ("type", type)]
  record "n.R"
    [field "a_b" (.array [record "A" [], record "B" []]),
      field "aB" (.array [.string "B", .string "A"]),
      field "c" (.string "Missing")]

/-- What is left registered of that record. -/
def collided : Registry :=
  ((Resolver.mk {} .empty).resolve colliding none).2.registry

/-- The names of the two bases differ by a counter, also after the walk has failed. -/
theorem names_table_collided :
    collided.Reached {} ∧
      collided.names = ["n.R", "n.A", "n.B", "n.RABBase", "n.RABBase2"] ∧
      (∀ name handle, collided.find? name = some handle ↔
        ∃ entry, collided.get? handle = some entry ∧ entry.name = name) ∧
      (∀ handle entry, collided.get? handle = some entry →
        '.' ∉ entry.name.localName.toList ∧ Text.isBlank entry.name.localName = false ∧
        (∀ space, entry.name.space = some space →
          ∀ segment ∈ Text.segments space, Text.isBlank segment = false) ∧
        collided.lookup entry.name.full = some handle) ∧
      collided.names.Nodup := by
  have reached : collided.Reached {} := by
    unfold collided
    exact .resolve colliding none .empty
  exact ⟨reached, by decide +kernel, Reached.names_table reached⟩

end Registry

end AvroGraph
