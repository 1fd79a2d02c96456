import AvroGraph.Proofs.ResolvedEntries
import AvroGraph.Proofs.SlotBases
import AvroGraph.Proofs.Tidy

/-!
# Documents without logical types

Where no object of a document has a logical type and no bases are wanted, its registry holds
declarations alone, no fixed type has a logical type, and none stands in the type of a field or of
a message (`Document.plain`).
-/

namespace AvroGraph

/-- Members of an object that has no logical type. -/
structure Members.Unannotated (members : Members) : Prop where
  /-- The keys are distinct, as they are in every value that is read from text. -/
  distinct : (members.map Prod.fst).Nodup
  plain : members.has "logicalType" = false

instance (members : Members) : Decidable members.Unannotated :=
  decidable_of_iff ((members.map Prod.fst).Nodup ∧ members.has "logicalType" = false)
    ⟨fun ⟨distinct, plain⟩ => ⟨distinct, plain⟩,
      fun unannotated => ⟨unannotated.distinct, unannotated.plain⟩⟩

/-- Members without logical types are flat. -/
theorem Members.Unannotated.flat {members : Members} (unannotated : members.Unannotated) :
    members.Flat where
  distinct := unannotated.distinct
  overlay logical := by simp [unannotated.plain] at logical

/-! ## Nodes -/

/-- The law of tidy nodes without logical types. -/
def NodeLaw.unannotated : NodeLaw where
  node node := tidy.node node ∧ node.isLogical = false
  field := tidy.field
  message := tidy.message

/-- The node of an object without a logical type is none. -/
theorem Node.isLogical_ofMembers {members : Members} (plain : members.has "logicalType" = false)
    (children : Children) : (ofMembers members children).isLogical = false := by
  have absent : members.get? "logicalType" = none := by simpa [Members.has] using plain
  rw [ofMembers, absent]
  split
  · exact isLogical_ofHeading fun _ => rfl
  · exact isLogical_ofTyped members children

/-- The nodes of documents without logical types have none. -/
theorem NodeLaw.governs_unannotated :
    unannotated.Governs fun members => members.Unannotated ∧
      ∀ entries, members.get? "messages" = some (.object entries) →
        (entries.map Prod.fst).Nodup where
  malformed reason source := ⟨governs_tidy.malformed reason source, rfl⟩
  reference text := ⟨governs_tidy.reference text, rfl⟩
  union source branches := ⟨governs_tidy.union source branches, rfl⟩
  object members condition := by
    obtain ⟨tidy, typed⟩ := governs_tidy.object members ⟨condition.1.flat.orderly, condition.2⟩
    exact ⟨⟨tidy, Node.isLogical_ofMembers condition.1.plain _⟩, typed, Node.isLogical_ofTyped _ _⟩
  malformedField := governs_tidy.malformedField
  field members condition := governs_tidy.field members ⟨condition.1.flat.orderly, condition.2⟩
  malformedMessage := governs_tidy.malformedMessage
  messageOther := governs_tidy.messageOther
  message name members condition :=
    governs_tidy.message name members ⟨condition.1.flat.orderly, condition.2⟩

/-- In a document without logical types, no node lays one over another. -/
theorem Node.obeys_unannotated (json : Json) (unannotated : json.EveryObject Members.Unannotated) :
    (ofJson json).Obeys .unannotated := by
  refine obeys_ofJson NodeLaw.governs_unannotated json
    (unannotated.mono (fun members here inside => ?_) json)
  exact ⟨here, fun entries found => (inside.get? found).1.distinct⟩

/-! ## Schemas and entries -/

namespace Schema

mutual

/-- No part of a schema has a logical type. -/
def Unannotated : Schema → Prop
  | .primitive _ | .named _ _ | .boxed => True
  | .array items => items.Unannotated
  | .map values => values.Unannotated
  | .union branches _ _ => AllUnannotated branches
  | .logical _ _ => False

/-- No part of any schema of a list has a logical type. -/
def AllUnannotated : List Schema → Prop
  | [] => True
  | schema :: rest => schema.Unannotated ∧ AllUnannotated rest

end

/-- Schemas in a row have no logical types if each of them has none. -/
theorem allUnannotated_iff {schemas : List Schema} :
    AllUnannotated schemas ↔ ∀ schema ∈ schemas, schema.Unannotated := by
  induction schemas with
  | nil => simp [AllUnannotated]
  | cons schema rest ih => simp [AllUnannotated, ih]

/-- A schema that is grounded in a registry and has no logical type. -/
def GroundedPlainly (registry : Registry) (schema : Schema) : Prop :=
  schema.Grounded registry ∧ schema.Unannotated

end Schema

/-- An entry that is a declaration, without a logical type. -/
def Entry.Unadorned (entry : Entry) : Prop :=
  entry.isAbstractBase = false ∧ ∀ handle, entry.toSchema handle = .named entry.kind handle

variable {options : Options}

/-- What is declared has no logical type at first. -/
theorem Node.Declares.unadorned {node : Node} {entry : Entry}
    (declares : node.Declares options entry) : entry.Unadorned := by
  refine ⟨declares.isAbstractBase, fun handle => ?_⟩
  cases declares with
  | record _ isError => cases isError <;> rfl
  | fixed _ _ sized =>
    obtain ⟨-, -, -, plain⟩ := Declaration.fixedType_eq_ok.1 sized
    simp only [Entry.toSchema, plain, Entry.kind]
  | enum | protocol => rfl

namespace Registry

variable {registry after : Registry}

/-- Every entry is a declaration without a logical type. -/
def Unadorned (registry : Registry) : Prop :=
  registry.Every Entry.Unadorned

/-- Where no bases are wanted, a slot keeps its type. -/
theorem slot_eq_ok_withoutBases {owner : Name} {name : String} {declared : Schema} {slot : Slot}
    (unwanted : options.synthesizeBases = false) :
    registry.slot options owner name declared = .ok (slot, after) ↔
      after = registry ∧ slot = ⟨declared, declared.underlying, declared.isNullable⟩ := by
  rw [slot_eq_ok, unwanted]
  simp

/-- Where no bases are wanted and no node is a logical type, entries stay unadorned. -/
theorem Unadorned.invariant {meets : Registry → Schema → Prop}
    (unwanted : options.synthesizeBases = false) :
    Registry.Invariant options .unannotated Unadorned meets where
  register unadorned _ declares registered :=
    Every.register unadorned declares.unadorned registered
  setFields unadorned _ _ := by
    refine Every.update unadorned fun entry plain => ?_
    cases entry with
    | record | error => exact ⟨rfl, fun _ => rfl⟩
    | _ => exact plain
  setProtocol unadorned _ _ _ _ := by
    refine Every.update unadorned fun entry plain => ?_
    cases entry with
    | protocol => exact ⟨rfl, fun _ => rfl⟩
    | _ => exact plain
  slot unadorned _ _ _ filled := by
    obtain ⟨rfl, -⟩ := (slot_eq_ok_withoutBases unwanted).1 filled
    exact unadorned
  annotate _ lawful _ _ := by cases lawful.2

/-- Then whatever is resolved is grounded and has no logical type. -/
theorem Unadorned.condition (unwanted : options.synthesizeBases = false) :
    Registry.Condition options .unannotated Unadorned Schema.GroundedPlainly where
  lasts retains _ met := ⟨met.1.mono retains.keepsKinds, met.2⟩
  reference unadorned resolved := by
    refine ⟨Schema.grounded_reference resolved, ?_⟩
    obtain ⟨_, -, rfl⟩ | ⟨-, _, handle, -, -, schemaOf⟩ := reference_eq_ok.1 resolved
    · trivial
    · obtain ⟨entry, found, rfl⟩ := Option.map_eq_some_iff.1 schemaOf
      rw [(unadorned handle entry found).2]
      trivial
  array := id
  map := id
  union met := ⟨Schema.allGrounded_iff.2 fun branch member => (met branch member).1,
    Schema.allUnannotated_iff.2 fun branch member => (met branch member).2⟩
  declared _ found _ := ⟨kindAt?_eq_some.2 ⟨_, found, rfl⟩, trivial⟩
  slot _ met filled := by
    obtain ⟨rfl, rfl⟩ := (slot_eq_ok_withoutBases unwanted).1 filled
    exact met
  annotate lawful _ _ := by cases lawful.2

/-- What is known of a registry that holds plain declarations alone. -/
structure Plain (options : Options) (registry : Registry) : Prop where
  unwanted : options.synthesizeBases = false
  sound : registry.Sound
  resolved : registry.AllResolved options .unannotated Schema.GroundedPlainly
  unadorned : registry.Unadorned

end Registry

/-- The registry of a document without logical types and without bases is plain. -/
theorem Document.plain {root : Json} {document : Document}
    (unannotated : root.EveryObject Members.Unannotated)
    (unwanted : options.synthesizeBases = false)
    (accepted : Document.resolve options root = .ok document) :
    document.registry.Plain options := by
  have reached := Document.reached accepted
  have condition := Registry.Unadorned.condition unwanted
  have own := Node.obeys_ownOverlays root
  have invariant := (Registry.AllResolved.invariant condition.lasts).and
    (Registry.Unadorned.invariant unwanted)
  have nothing (handle : Handle) : Registry.empty.get? handle = none := rfl
  have ensures : Resolving.Ensures ((Node.ofJson root).resolve options none) .empty _ _ :=
    (Node.ofJson root).ensures (condition.weaken fun _ holds => holds.2) invariant own
      (Node.obeys_unannotated root unannotated)
      ⟨fun handle _ found => by simp [nothing] at found,
        fun handle _ found => by simp [nothing] at found⟩
  have leaves := ensures.leaves
  rw [(Document.resolve_eq_ok.1 accepted).outcome] at leaves
  exact ⟨unwanted, reached.sound, leaves.1, leaves.2⟩

end AvroGraph
