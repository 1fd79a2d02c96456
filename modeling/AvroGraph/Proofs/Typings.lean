import AvroGraph.Proofs.Rewalk
import AvroGraph.Proofs.Unadorned
import AvroGraph.Registry.TypeName

/-!
# Types of fields that are projected and resolved again

Where no bases are wanted, what a document is projected to resolves to the same types again: each
fixed type has the logical type it had, each field and each parameter the type it had
(`Document.typings_of_toJson`). A logical type that is laid over the declaration of a fixed type is
written into this declaration and must therefore be the one that the fixed type has. Nor can it be
written that a logical type is taken away from a fixed type.
-/

namespace AvroGraph

open Projecting Resolving

/-! ## Registries without bases -/

namespace Registry

variable {options : Options} {registry after : Registry} {events : List Event}

/-- No entry is an abstract base. -/
def Baseless (registry : Registry) : Prop :=
  registry.Every (·.isAbstractBase = false)

/-- Where no bases are wanted, no step makes one, and so none links a reference to one. -/
theorem Step.baseless (unwanted : options.synthesizeBases = false)
    (step : Step options registry events after) (baseless : registry.Baseless) :
    after.Baseless ∧ ∀ event ∈ events, event.linksBase = false := by
  have nothing : ∀ event ∈ ([] : List Event), event.linksBase = false :=
    fun _ member => absurd member List.not_mem_nil
  cases step with
  | register declares registered =>
    exact ⟨Every.register baseless declares.isAbstractBase registered, nothing⟩
  | setFields handle fields =>
    exact ⟨Every.update baseless fun entry before => by cases entry <;> exact before, nothing⟩
  | setProtocol handle types messages =>
    exact ⟨Every.update baseless fun entry before => by cases entry <;> exact before, nothing⟩
  | reference linked =>
    refine ⟨baseless, List.forall_mem_singleton.2 ?_⟩
    obtain ⟨_, _, rfl⟩ | ⟨_, _, handle, _, _, schemaOf⟩ := reference_eq_ok.1 linked
    · rfl
    · obtain ⟨entry, found, rfl⟩ := Option.map_eq_some_iff.1 schemaOf
      have declared := baseless handle entry found
      cases entry with
      | abstractBase => cases declared
      | fixed fixedType =>
        simp only [Entry.toSchema]
        cases fixedType.overlay <;> rfl
      | _ => rfl
  | overlay annotated =>
    refine ⟨?_, List.forall_mem_singleton.2 rfl⟩
    obtain rfl | ⟨handle, overlay, rfl⟩ := eq_or_setOverlay_of_annotate annotated
    · exact baseless
    · exact Every.update baseless fun entry before => by cases entry <;> exact before
  | slot filled =>
    obtain ⟨rfl, -⟩ := (slot_eq_ok_withoutBases unwanted).1 filled
    exact ⟨baseless, List.forall_mem_singleton.2 rfl⟩

/-- Where no bases are wanted, none is made and no reference is linked to one. -/
theorem Steps.baseless (unwanted : options.synthesizeBases = false)
    (steps : Steps options registry events after) (baseless : registry.Baseless) :
    after.Baseless ∧ ∀ event ∈ events, event.linksBase = false := by
  induction steps with
  | refl => exact ⟨baseless, fun _ member => absurd member List.not_mem_nil⟩
  | step first _ ih =>
    obtain ⟨between, unlinked⟩ := first.baseless unwanted baseless
    obtain ⟨last, unlinkedRest⟩ := ih between
    exact ⟨last, List.forall_mem_append.2 ⟨unlinked, unlinkedRest⟩⟩

end Registry

/-! ## What entries say about types -/

/-- What an entry says about types: the logical type of a fixed type, and the types of fields. -/
structure Entry.Typing where
  name : Name
  /-- The logical type of a fixed type, if the entry is one. -/
  overlay : Option (Option LogicalType)
  /-- The name, the declared type and the type name of each field, or of each parameter of each
  message. -/
  fields : List (List (String × Schema × String))
  deriving DecidableEq

namespace Registry

/-- What the entries of a registry say about types, in the order of their registration. -/
def typings (registry : Registry) : List Entry.Typing :=
  registry.entries.map fun entry => {
    name := entry.name
    overlay := entry.fixed?.map FixedType.overlay
    fields := entry.fieldLists.map fun fields =>
      fields.map fun field => (field.name, field.declared, registry.fieldTypeName field) }

variable {registry : Registry}

/-- What is read back of a registry calls types the same. -/
theorem typeName_rewritten : (schema : Schema) →
    registry.rewritten.typeName schema = registry.typeName schema
  | .primitive _ | .logical _ _ | .boxed => rfl
  | .named _ _ => by simp only [typeName_named, nameOf_rewritten]
  | .array items => by simp only [typeName_array, typeName_rewritten items]
  | .map values => by simp only [typeName_map, typeName_rewritten values]
  | .union _ underlying _ => by simp only [typeName_union, typeName_rewritten underlying]

/-- Entries say the same about types when they have been read back. -/
theorem typings_rewritten (registry : Registry) :
    registry.rewritten.typings = registry.typings := by
  have typeNames : registry.rewritten.fieldTypeName = registry.fieldTypeName := by
    funext field
    rw [fieldTypeName, fieldTypeName, typeName_rewritten]
  rw [typings, typings, typeNames, rewritten, List.map_map]
  refine List.map_congr_left fun entry _ => ?_
  cases entry <;> rfl

end Registry

namespace Document

variable {options : Options} {root : Json} {document : Document}

/-- Without bases, a document is projected to JSON that resolves to the same types again. No
declaration may be named like a type of its own. A logical type that is known and laid over the
declaration of a fixed type has to be the one that the fixed type is declared with, and one that is
not known must not take that away. -/
theorem typings_of_toJson (orderly : root.EveryObject Members.Orderly)
    (unwanted : options.synthesizeBases = false)
    (accepted : Document.resolve options root = .ok document)
    (avoids : document.registry.AvoidsKeywords) (whole : document.Whole) :
    ∃ json again, document.toJson = .ok json ∧ Document.resolve options json = .ok again ∧
      again.registry.typings = document.registry.typings := by
  obtain ⟨-, unlinked⟩ :=
    ((Node.ofJson root).steps (resolve_eq_ok.1 accepted)).baseless unwanted Registry.every_empty
  obtain ⟨json, projected, resolved, -⟩ := rereads (Node.obeys_tidy_of_orderly root orderly)
    accepted avoids whole fun event member =>
      ⟨unlinked event member, fun wanted => by simp [unwanted] at wanted⟩
  exact ⟨json, _, projected, resolved, Registry.typings_rewritten _⟩

/-- A protocol whose fields have a fixed type with its own logical type, with another one and with
its own one laid over it again, and a fixed type that is declared beneath its logical type. -/
def clock : Json :=
  let fixed (name : String) (size : Nat) (logicalType : String) : Json :=
    .object [("type", .string "fixed"), ("name", .string name), ("size", .ofNat size),
      ("logicalType", .string logicalType)]
  let field (name : String) (type : Json) : Json :=
    .object [("name", .string name), ("type", type)]
  let annotated (type : Json) (logicalType : String) (parameters : Members) : Json :=
    .object (("type", type) :: ("logicalType", .string logicalType) :: parameters)
  .object [("protocol", .string "Clock"),
    ("types", .array [.object [("type", .string "record"), ("name", .string "Tick"),
      ("fields", .array [
        field "id" (fixed "Id" 16 "uuid"),
        field "twin" (.string "Id"),
        field "amount" (annotated (.string "Id") "decimal" [("precision", .ofNat 4)]),
        field "again" (annotated (annotated (.string "Id") "unknown" []) "uuid" []),
        field "span" (annotated (fixed "Span" 12 "duration") "duration" [])])]]),
    ("messages", .object [("wait", .object [
      ("request", .array [field "span" (.string "Span")]), ("response", .string "null")])])]

/-- What the entries of this protocol say about types. -/
def clockTypings : List Entry.Typing :=
  let id := Schema.logical (.named .fixed 2) .uuid
  let span := ("span", Schema.logical (.named .fixed 3) .duration, "System.TimeSpan")
  [⟨.unqualified "Clock", none, [[span]]⟩,
    ⟨.unqualified "Tick", none, [[("id", id, "System.Guid"), ("twin", id, "System.Guid"),
      ("amount", .logical (.named .fixed 2) (.decimal 4 0), "decimal"),
      ("again", id, "System.Guid"), span]]⟩,
    ⟨.unqualified "Id", some (some .uuid), []⟩, ⟨.unqualified "Span", some (some .duration), []⟩]

/-- All of them are there again when the protocol is projected and resolved again. -/
theorem typings_of_toJson_clock :
    clock.EveryObject Members.Orderly ∧
      ∃ document json again, Document.resolve { synthesizeBases := false } clock = .ok document ∧
        document.registry.AvoidsKeywords ∧ document.Whole ∧ document.toJson = .ok json ∧
        Document.resolve { synthesizeBases := false } json = .ok again ∧
        document.registry.typings = clockTypings ∧ again.registry.typings = clockTypings := by
  have orderly : clock.EveryObject Members.Orderly := by decide +kernel
  obtain ⟨document, accepted⟩ :=
    Document.exists_of_isOk { synthesizeBases := false } clock (by decide +kernel)
  have every : ((Document.resolve { synthesizeBases := false } clock).toOption.all fun document =>
      decide document.registry.AvoidsKeywords && decide document.Whole &&
        decide (document.registry.typings = clockTypings)) = true := by decide +kernel
  simp only [accepted, Except.toOption, Option.all_some, Bool.and_eq_true, decide_eq_true_eq]
    at every
  obtain ⟨⟨avoids, whole⟩, typings⟩ := every
  obtain ⟨json, again, projected, resolved, same⟩ :=
    typings_of_toJson orderly rfl accepted avoids whole
  exact ⟨orderly, document, json, again, accepted, avoids, whole, projected, resolved, typings,
    same.trans typings⟩

/-- A record whose first field declares a fixed type, beneath a logical type that is not its own,
and whose second field has that fixed type. -/
def relabeled : Json :=
  let field (name : String) (type : Json) : Json :=
    .object [("name", .string name), ("type", type)]
  let fixed : Json :=
    .object [("type", .string "fixed"), ("name", .string "Id"), ("size", .ofNat 16)]
  .object [("type", .string "record"), ("name", .string "Ids"), ("fields", .array [
    field "first" (.object [("type", fixed), ("logicalType", .string "uuid")]),
    field "second" (.string "Id")])]

/-- The fixed type takes on the logical type that is laid over its declaration. -/
theorem not_typings_of_toJson_relabeled :
    ¬ ∀ (options : Options) (root : Json) (document : Document),
      root.EveryObject (fun members => (members.map Prod.fst).Nodup) →
      options.synthesizeBases = false → Document.resolve options root = .ok document →
      document.registry.AvoidsKeywords →
      ∃ json again, document.toJson = .ok json ∧ Document.resolve options json = .ok again ∧
        again.registry.typings = document.registry.typings := by
  intro claim
  have distinct : relabeled.EveryObject fun members => (members.map Prod.fst).Nodup := by
    decide +kernel
  obtain ⟨document, accepted⟩ :=
    Document.exists_of_isOk { synthesizeBases := false } relabeled (by decide +kernel)
  have every : ((Document.resolve { synthesizeBases := false } relabeled).toOption.all
      fun document => decide document.registry.AvoidsKeywords &&
        document.toJson.toOption.all fun json =>
          (Document.resolve { synthesizeBases := false } json).toOption.all fun again =>
            again.registry.typings ≠ document.registry.typings) = true := by decide +kernel
  simp only [accepted, Except.toOption, Option.all_some, Bool.and_eq_true, decide_eq_true_eq]
    at every
  obtain ⟨avoids, changed⟩ := every
  obtain ⟨json, again, projected, resolved, same⟩ :=
    claim { synthesizeBases := false } relabeled document distinct rfl accepted avoids
  simp [projected, resolved, same] at changed

end Document

end AvroGraph
