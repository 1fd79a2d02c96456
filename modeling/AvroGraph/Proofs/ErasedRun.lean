import AvroGraph.Proofs.Erasure

/-!
# Resolution without abstract bases

A walk that links no reference to a base, and gives every slot a base of its own branches, goes
the same way when no bases are wanted, from what erasure leaves of its registry to what erasure
leaves of its result (`Node.erased`).
-/

namespace AvroGraph

open Resolving

namespace Schema

mutual

/-- No part of a schema is an abstract base, and its unions are represented by their reductions. -/
def Plain (options : Options) : Schema → Prop
  | .primitive _ | .boxed => True
  | .named kind _ => kind ≠ .abstractBase
  | .array items => items.Plain options
  | .map values => values.Plain options
  | .union branches underlying nullable =>
    AllPlain options branches ∧ reduceBranches options branches = ⟨underlying, nullable⟩
  | .logical underlying _ => underlying.Plain options

/-- Every schema of a list is plain. -/
def AllPlain (options : Options) : List Schema → Prop
  | [] => True
  | schema :: rest => schema.Plain options ∧ AllPlain options rest

end

variable {whole registry : Registry} {options : Options} {schema : Schema}

/-- A union of plain branches is plain. -/
theorem plain_ofBranches {branches : List Schema} (plain : AllPlain options branches) :
    (ofBranches options branches).Plain options :=
  ⟨plain, rfl⟩

/-- To take a logical type away leaves a schema plain. -/
theorem Plain.bare (plain : schema.Plain options) : schema.bare.Plain options := by
  cases schema with
  | logical underlying overlay =>
    rw [Schema.bare]
    split <;> exact plain
  | _ => exact plain

/-- What refers to a declaration is plain. -/
theorem plain_toSchema {entry : Entry} (isDeclared : entry.isAbstractBase = false)
    (handle : Handle) : (entry.toSchema handle).Plain options := by
  cases entry with
  | fixed fixedType =>
    simp only [Entry.toSchema]
    cases fixedType.overlay <;> simp [Plain]
  | abstractBase => cases isDeclared
  | _ => simp [Entry.toSchema, Entry.kind, Plain]

/-- What is declared is counted among the declarations after erasure. -/
theorem erase_named {kind : NamedKind} {handle : Handle} (declared : kind ≠ .abstractBase) :
    (named kind handle).erase whole options = .named kind (whole.rank handle) := by
  cases kind <;> first | rfl | exact absurd rfl declared

/-- A base is erased to a union or, where there is none, to a handle. -/
theorem eraseBase_cases (whole : Registry) (options : Options) (base : Handle) :
    (∃ branches underlying nullable,
      whole.eraseBase options base = .union branches underlying nullable) ∨
    whole.eraseBase options base = .named .abstractBase (whole.rank base) := by
  unfold Registry.eraseBase
  split
  · exact .inl ⟨_, _, _, rfl⟩
  · exact .inr rfl

/-- Erasure takes nothing for null and keeps null. -/
@[simp]
theorem isNull_erase (schema : Schema) : (schema.erase whole options).isNull = schema.isNull := by
  cases schema with
  | named kind handle =>
    by_cases isBase : kind = .abstractBase
    · subst isBase
      obtain ⟨_, _, _, same⟩ | same := eraseBase_cases whole options handle <;>
        simp [erase, same, isNull]
    · simp [erase_named isBase, isNull]
  | primitive type => rfl
  | _ => simp [erase, isNull]

/-- Schemas in a row are erased one by one. -/
theorem eraseEach_eq_map (schemas : List Schema) :
    eraseEach whole options schemas = schemas.map (erase whole options) := by
  induction schemas with
  | nil => rfl
  | cons schema rest ih => simp [eraseEach, ih]

/-- Erasure keeps what a plain schema is at its root. -/
theorem isNamed_erase (plain : schema.Plain options) :
    (schema.erase whole options).isNamed = schema.isNamed := by
  cases schema with
  | named kind handle => simp [erase_named plain, isNamed, handle?]
  | _ => simp [erase, isNamed, handle?]

/-- A plain schema is of the same kind after erasure. -/
theorem kind_erase (plain : schema.Plain options) :
    (schema.erase whole options).kind = schema.kind := by
  cases schema with
  | named kind handle => simp [erase_named plain, Schema.kind]
  | _ => simp [erase, Schema.kind]

/-- To take a logical type away and to erase can be done in either order. -/
theorem bare_erase (plain : schema.Plain options) :
    (schema.erase whole options).bare = schema.bare.erase whole options := by
  cases schema with
  | logical underlying overlay =>
    have inner : underlying.Plain options := plain
    rw [erase, bare, bare, isNamed_erase inner]
    split <;> simp [erase]
  | named kind handle => simp [erase_named plain, bare]
  | _ => simp [erase, bare]

end Schema

/-- The reduction of a schema, after erasure. -/
def Reduction.erase (whole : Registry) (options : Options) (reduction : Reduction) : Reduction where
  underlying := reduction.underlying.erase whole options
  nullable := reduction.nullable

section

variable {whole : Registry} {options : Options}

/-- To make a reduction nullable and to erase can be done in either order. -/
theorem Reduction.erase_orNull (reduction : Reduction) :
    (reduction.orNull).erase whole options = (reduction.erase whole options).orNull := rfl

mutual

/-- A plain schema is reduced alike after erasure. -/
theorem Schema.reduction_erase : (schema : Schema) → schema.Plain options →
    (schema.erase whole options).reduction options.withoutBases =
      (schema.reduction options).erase whole options
  | .union branches _ _, plain => by
    rw [Schema.erase, Schema.reduction, Schema.reduction]
    exact reduceBranches_erase branches plain.1
  | .named kind handle, plain => by
    rw [Schema.erase_named plain]
    simp [Schema.reduction, Reduction.erase, Schema.erase_named plain]
  | .primitive _, _ | .array _, _ | .map _, _ | .logical _ _, _ | .boxed, _ => by
    simp [Schema.reduction, Reduction.erase, Schema.erase]

/-- Plain branches are reduced alike after erasure. -/
theorem reduceBranches_erase : (branches : List Schema) → Schema.AllPlain options branches →
    reduceBranches options.withoutBases (eraseEach whole options branches) =
      (reduceBranches options branches).erase whole options
  | [], _ => rfl
  | [only], plain => only.reduction_erase plain.1
  | [first, second], plain => by
    simp only [eraseEach, reduceBranches, Schema.isNull_erase]
    split
    · split
      · rfl
      · rw [first.reduction_erase plain.1, Reduction.erase_orNull]
    · split
      · rw [second.reduction_erase plain.2.1, Reduction.erase_orNull]
      · rfl
  | first :: second :: third :: rest, _ => by
    simp [eraseEach, reduceBranches, Reduction.erase, Schema.erase, Schema.eraseEach_eq_map,
      Function.comp_def]

end

end

section

variable {whole registry after : Registry} {options : Options}

/-- A union of plain branches is made alike after erasure. -/
theorem Schema.erase_ofBranches {branches : List Schema} (plain : AllPlain options branches) :
    (ofBranches options branches).erase whole options =
      ofBranches options.withoutBases (eraseEach whole options branches) := by
  simp only [ofBranches, erase, reduceBranches_erase branches plain, Reduction.erase]

/-- A plain union is the union of its branches. -/
theorem Schema.Plain.eq_ofBranches {branches : List Schema} {underlying : Schema} {nullable : Bool}
    (plain : (union branches underlying nullable).Plain options) :
    union branches underlying nullable = ofBranches options branches := by
  rw [ofBranches, plain.2]

/-- The branches of a base count declarations after erasure. -/
theorem Schema.map_rerank (options : Options) {branches : List Schema}
    (records : ∀ branch ∈ branches, branch.isRecord = true ∨ branch.isNull = true) :
    branches.map (rerank whole) = eraseEach whole options branches := by
  rw [eraseEach_eq_map]
  refine List.map_congr_left fun branch member => ?_
  rcases records branch member with isRecord | isNull
  · cases branch with
    | named kind handle => cases kind <;> first | rfl | cases isRecord
    | _ => cases isRecord
  · cases branch with
    | primitive => rfl
    | _ => cases isNull

/-- Whether a reference is linked to an abstract base. -/
def Event.linksBase : Event → Bool
  | .reference _ (.named .abstractBase _) => true
  | _ => false

/-- What a walk meets is undisturbed by bases: no reference is linked to one, and every slot has
one of its own branches. -/
structure Event.Undisturbed (whole : Registry) (event : Event) : Prop where
  unlinked : event.linksBase = false
  own : event.HasOwnBase whole

/-- The type of a slot is erased to the type that its node resolves to. -/
theorem Slot.declared_erase {owner : Name} {name : String} {declared : Schema} {slot : Slot}
    (plain : declared.Plain options)
    (filled : registry.slot options owner name declared = .ok (slot, after))
    (own : (Event.slot owner name declared slot).HasOwnBase whole) :
    slot.declared.erase whole options = declared.erase whole options := by
  rw [Registry.slot_eq_ok] at filled
  split at filled
  · next wanted =>
    obtain ⟨base, -, rfl⟩ := filled
    have calls := (Bool.and_eq_true_iff.1 wanted).2
    obtain ⟨_, body, ⟨⟩, found, derived, -⟩ := own calls
    cases declared with
    | union branches underlying nullable =>
      rw [plain.eq_ofBranches, Schema.erase_ofBranches plain.1, Schema.erase, Registry.eraseBase,
        found]
      rw [Schema.branches] at calls derived
      simp only [derived]
      rw [Schema.map_rerank options (isRecord_or_isNull_of_callsForBase calls)]
    | _ => simp [Schema.branches, callsForBase] at calls
  · obtain ⟨-, rfl⟩ := filled
    rfl

/-- A slot without bases takes the type as it is, and nothing changes. -/
theorem Registry.slot_withoutBases {owner : Name} {name : String} {declared : Schema} :
    registry.slot options.withoutBases owner name declared =
      .ok (⟨declared, declared.underlying, declared.isNullable⟩, registry) := by
  rw [slot_eq_ok]
  simp

/-- The default of a plain type becomes the same literal after erasure. -/
theorem DefaultLiteral.synthesizeOption_erase {declared : Schema} {default : Option Json}
    {literal : Option DefaultLiteral} (keeps : registry.KeepsKinds whole)
    (plain : declared.Plain options)
    (synthesized : synthesizeOption registry declared default = .ok literal) :
    synthesizeOption (registry.erase whole options) (declared.erase whole options) default =
      .ok literal := by
  cases default with
  | none => exact synthesized
  | some value =>
    rw [synthesizeOption] at synthesized ⊢
    cases declared with
    | named kind handle =>
      rw [Schema.erase_named plain]
      cases kind with
      | enum =>
        cases found : registry.get? handle with
        | none => simp [synthesize, found, Except.map] at synthesized
        | some entry =>
          cases entry with
          | enum enumeration =>
            have erased := Registry.get?_erase options keeps found rfl
            simpa [synthesize, found, erased, Entry.enum?, Entry.erase] using synthesized
          | _ => simp [synthesize, found, Entry.enum?, Except.map] at synthesized
      | _ => exact synthesized
    | _ => simpa [Schema.erase, synthesize, Schema.kind] using synthesized

/-- The field of a slot becomes, after erasure, the field of the type that its node resolves to. -/
theorem Field.ofSlot_erase (details : FieldDetails) {owner : Name} {name : String}
    {declared : Schema} {slot : Slot} {default : Option Json} {literal : Option DefaultLiteral}
    (keeps : after.KeepsKinds whole) (plain : declared.Plain options)
    (filled : registry.slot options owner name declared = .ok (slot, after))
    (own : (Event.slot owner name declared slot).HasOwnBase whole)
    (synthesized : DefaultLiteral.synthesizeOption after slot.declared default = .ok literal) :
    ∃ other, DefaultLiteral.synthesizeOption (after.erase whole options)
        (declared.erase whole options) default = .ok other ∧
      (ofSlot name slot default literal details).erase whole options =
        ofSlot name ⟨declared.erase whole options, (declared.erase whole options).underlying,
          (declared.erase whole options).isNullable⟩ default other details := by
  have same := Slot.declared_erase plain filled own
  rw [Registry.slot_eq_ok] at filled
  split at filled
  · next wanted =>
    obtain ⟨base, -, rfl⟩ := filled
    cases declared with
    | union branches underlying nullable =>
      cases default with
      | none =>
        cases synthesized
        exact ⟨none, rfl, by simp [erase, ofSlot, same]⟩
      | some value =>
        cases synthesized
        refine ⟨some (.unsupported "union"), rfl, ?_⟩
        simp [erase, ofSlot, same, DefaultLiteral.literal?, Schema.erase, Schema.kind]
    | _ => simp [Schema.branches, callsForBase] at wanted
  · obtain ⟨-, rfl⟩ := filled
    refine ⟨literal, DefaultLiteral.synthesizeOption_erase keeps plain synthesized, ?_⟩
    cases declared with
    | named kind handle => cases kind <;> first | rfl | exact absurd rfl plain
    | _ => rfl

/-! ## Logical types -/

/-- What accepts a logical type: a primitive type, or a fixed type that is declared. -/
theorem LogicalType.cases_of_accepts {overlay : LogicalType} {schema : Schema}
    (accepted : overlay.accepts registry schema = true) :
    (∃ type, schema = .primitive type) ∨ ∃ handle fixedType, schema = .named .fixed handle ∧
      registry.get? handle = some (.fixed fixedType) := by
  cases schema with
  | primitive type => exact .inl ⟨type, rfl⟩
  | named kind handle =>
    cases kind with
    | fixed =>
      have sized : ∃ size, fixedSize? registry (.named .fixed handle) = some size := by
        rw [← Option.isSome_iff_exists]
        cases overlay <;> simp_all [accepts]
      obtain ⟨size, sized⟩ := sized
      rw [fixedSize?, Registry.fixed?] at sized
      cases found : registry.get? handle with
      | none => simp [found] at sized
      | some entry =>
        cases entry with
        | fixed fixedType => exact .inr ⟨handle, fixedType, rfl, found⟩
        | _ => simp [found, Entry.fixed?] at sized
    | _ => cases overlay <;> simp [accepts, fixedSize?] at accepted
  | _ => cases overlay <;> simp [accepts, fixedSize?] at accepted

/-- A logical type that fits a plain schema fits it after erasure. -/
theorem LogicalType.accepts_erase {overlay : LogicalType} {schema : Schema}
    (keeps : registry.KeepsKinds whole) (plain : schema.Plain options)
    (accepted : overlay.accepts registry schema = true) :
    overlay.accepts (registry.erase whole options) (schema.erase whole options) = true := by
  obtain ⟨type, rfl⟩ | ⟨handle, fixedType, rfl, found⟩ := cases_of_accepts accepted
  · exact accepted
  · rw [Schema.erase_named plain]
    have erased := Registry.get?_erase options keeps found rfl
    have size : fixedSize? (registry.erase whole options) (.named .fixed (whole.rank handle)) =
        fixedSize? registry (.named .fixed handle) := by
      simp [fixedSize?, Registry.fixed?, found, erased, Entry.fixed?, Entry.erase]
    cases overlay <;> simp_all [accepts]

/-- A logical type is kept by the same declaration after erasure. -/
theorem Registry.keepOverlay_erase {overlay : LogicalType} {declaresFixed : Bool}
    {schema : Schema} (keeps : registry.KeepsKinds whole) (plain : schema.Plain options)
    (accepted : overlay.accepts registry schema = true) :
    (registry.keepOverlay declaresFixed schema overlay).erase whole options =
      (registry.erase whole options).keepOverlay declaresFixed (schema.erase whole options)
        overlay := by
  obtain ⟨type, rfl⟩ | ⟨handle, fixedType, rfl, found⟩ := LogicalType.cases_of_accepts accepted
  · rfl
  · rw [Schema.erase_named plain]
    cases declaresFixed with
    | true => exact setOverlay_erase keeps found
    | false => rfl

/-- A logical type is laid over a plain schema alike after erasure. -/
theorem Registry.annotate_erase {declaresFixed : Bool} {inner schema : Schema} {name : String}
    {overlay : Except Reason (Option LogicalType)} (keeps : registry.KeepsKinds whole)
    (plain : inner.Plain options)
    (annotated : registry.annotate declaresFixed inner name overlay = .ok (schema, after)) :
    schema.Plain options ∧
      (registry.erase whole options).annotate declaresFixed (inner.erase whole options) name
        overlay = .ok (schema.erase whole options, after.erase whole options) := by
  obtain ⟨known, rfl, rfl⟩ | ⟨known, isKnown, accepted, rfl, rfl⟩ := annotate_eq_ok.1 annotated
  · refine ⟨plain.bare, annotate_eq_ok.2 (.inl ⟨known, ?_, rfl⟩)⟩
    rw [Schema.bare_erase plain]
  · refine ⟨plain.bare, annotate_eq_ok.2 (.inr ⟨known, isKnown, ?_, ?_, ?_⟩)⟩
    · rw [Schema.bare_erase plain]
      exact LogicalType.accepts_erase keeps plain.bare accepted
    · rw [Schema.bare_erase plain, Schema.erase]
    · rw [Schema.bare_erase plain]
      exact keepOverlay_erase keeps plain.bare accepted

/-! ## Walks -/

/-- A record is registered without fields, and erasure leaves it alone. -/
theorem recordEntry_erase (declaration : Declaration) (isError : Bool) :
    (declaration.recordEntry isError).erase whole options = declaration.recordEntry isError := by
  cases isError <;> rfl

/-- A record is no abstract base. -/
theorem isAbstractBase_recordEntry (declaration : Declaration) (isError : Bool) :
    (declaration.recordEntry isError).isAbstractBase = false := by
  cases isError <;> rfl

/-- The names of fields are distinct after erasure if they were before. -/
theorem checkNewField_erase (owner : Name) (done : List Field) (field : Field) :
    checkNewField owner (done.map (Field.erase whole options)) (field.erase whole options) =
      checkNewField owner done field := by
  have sameNames : (fun other : Field => decide ((other.erase whole options).name =
      (field.erase whole options).name)) = fun other => decide (other.name = field.name) := rfl
  rw [checkNewField, checkNewField, List.any_map, Function.comp_def, sameNames]
  rfl

/-- A message may be one-way after erasure if it might be before. -/
theorem checkOneWay_erase (message : String) (flag : Bool) (response : Schema)
    (errors : List Schema) :
    checkOneWay message flag (response.erase whole options) (eraseEach whole options errors) =
      checkOneWay message flag response errors := by
  rw [checkOneWay, checkOneWay, Schema.isNull_erase, Schema.eraseEach_eq_map, List.isEmpty_map]

/-- A rule that holds of plain schemas before erasure holds after it. -/
def Vet.Erases (vet : Vet) (whole : Registry) (options : Options) : Prop :=
  ∀ registry schema, schema.Plain options → vet registry schema = .ok () →
    vet (registry.erase whole options) (schema.erase whole options) = .ok ()

/-- Branches may be anything. -/
theorem Vet.erases_branch : Vet.branch.Erases whole options := fun _ _ _ _ => rfl

/-- A type of a protocol that is named is named after erasure. -/
theorem Vet.erases_protocolType : Vet.protocolType.Erases whole options := by
  intro registry schema plain vetted
  rw [protocolType] at vetted ⊢
  rwa [Schema.bare_erase plain, Schema.isNamed_erase plain.bare, Schema.kind_erase plain]

/-- An error of a message that is an error schema is one after erasure. -/
theorem Vet.erases_messageError (message : String) :
    (Vet.messageError message).Erases whole options := by
  intro registry schema _ vetted
  cases schema with
  | named kind handle => cases kind <;> first | rfl | cases vetted
  | _ => cases vetted

end

/-! ## Undisturbed walks -/

section

variable (whole : Registry) (options : Options)

/-- An undisturbed walk of a node goes the same way without bases. -/
def Node.Erases (node : Node) : Prop :=
  ∀ ⦃registry after around schema⦄, (node.resolve options around).Yields registry schema after →
    after.KeepsKinds whole →
    (∀ event ∈ node.events options around registry, event.Undisturbed whole) →
    schema.Plain options ∧ (node.resolve options.withoutBases around).Yields
      (registry.erase whole options) (schema.erase whole options) (after.erase whole options)

/-- An undisturbed walk of nodes in a row goes the same way without bases, whatever rule their
schemas are held to. -/
def NodesErase (nodes : List Node) : Prop :=
  ∀ ⦃registry after around vet schemas⦄, vet.Erases whole options →
    (resolveEach options around vet nodes).Yields registry schemas after →
    after.KeepsKinds whole →
    (∀ event ∈ eventsOfEach options around nodes registry, event.Undisturbed whole) →
    Schema.AllPlain options schemas ∧
      (resolveEach options.withoutBases around vet nodes).Yields (registry.erase whole options)
        (eraseEach whole options schemas) (after.erase whole options)

/-- An undisturbed walk of a field goes the same way without bases. -/
def FieldNode.Erases (node : FieldNode) : Prop :=
  ∀ ⦃registry after owner field⦄, (node.resolve options owner).Yields registry field after →
    after.KeepsKinds whole →
    (∀ event ∈ node.events options owner registry, event.Undisturbed whole) →
    (node.resolve options.withoutBases owner).Yields (registry.erase whole options)
      (field.erase whole options) (after.erase whole options)

/-- An undisturbed walk of fields in a row goes the same way without bases. -/
def FieldsErase (nodes : List FieldNode) : Prop :=
  ∀ ⦃registry after owner done fields⦄,
    (resolveFields options owner done nodes).Yields registry fields after →
    after.KeepsKinds whole →
    (∀ event ∈ eventsOfFields options owner nodes registry, event.Undisturbed whole) →
    (resolveFields options.withoutBases owner (done.map (Field.erase whole options)) nodes).Yields
      (registry.erase whole options) (fields.map (Field.erase whole options))
      (after.erase whole options)

/-- An undisturbed walk of a message goes the same way without bases. -/
def MessageNode.Erases (node : MessageNode) : Prop :=
  ∀ ⦃registry after around message⦄, (node.resolve options around).Yields registry message after →
    after.KeepsKinds whole →
    (∀ event ∈ node.events options around registry, event.Undisturbed whole) →
    (node.resolve options.withoutBases around).Yields (registry.erase whole options)
      (message.erase whole options) (after.erase whole options)

/-- An undisturbed walk of messages in a row goes the same way without bases. -/
def MessagesErase (nodes : List MessageNode) : Prop :=
  ∀ ⦃registry after around messages⦄,
    (resolveMessages options around nodes).Yields registry messages after →
    after.KeepsKinds whole →
    (∀ event ∈ eventsOfMessages options around nodes registry, event.Undisturbed whole) →
    (resolveMessages options.withoutBases around nodes).Yields (registry.erase whole options)
      (messages.map (Message.erase whole options)) (after.erase whole options)

end

section

variable {whole : Registry} {options : Options} {node : Node}

namespace Node.Erases

/-- What is malformed does not succeed. -/
theorem malformed (reason : Reason) (source : Json) :
    (Node.malformed reason source).Erases whole options :=
  fun _ _ _ _ succeeds => absurd succeeds Node.yields_malformed

/-- A reference that is linked to a declaration is linked to it without bases. -/
theorem reference (text : String) : (Node.reference text).Erases whole options := by
  intro registry after around schema succeeds keeps undisturbed
  rw [Node.events, succeeds.followed] at undisturbed
  have noBase : ∀ base, schema ≠ .named .abstractBase base := by
    rintro base rfl
    cases (undisturbed _ List.mem_cons_self).unlinked
  obtain ⟨linked, rfl⟩ := Node.yields_reference.1 succeeds
  refine ⟨?_, Node.yields_reference.2 ⟨Registry.reference_erase keeps linked noBase, rfl⟩⟩
  obtain ⟨primitive, -, rfl⟩ | ⟨-, name, handle, -, -, schemaOf⟩ :=
    Registry.reference_eq_ok.1 linked
  · trivial
  · obtain ⟨entry, -, rfl⟩ := Option.map_eq_some_iff.1 schemaOf
    exact Schema.plain_toSchema (Entry.isAbstractBase_of_toSchema noBase) handle

/-- An object around a type is left out. -/
theorem nested (source : Json) (inner : node.Erases whole options) :
    (Node.nested source node).Erases whole options := by
  intro registry after around schema succeeds keeps undisturbed
  obtain ⟨plain, walks⟩ := inner (Node.yields_nested.1 succeeds) keeps undisturbed
  exact ⟨plain, Node.yields_nested.2 walks⟩

/-- The union of the branches is the union of what is left of them. -/
theorem union (source : Json) {branches : List Node} (each : NodesErase whole options branches) :
    (Node.union source branches).Erases whole options := by
  intro registry after around schema succeeds keeps undisturbed
  obtain ⟨schemas, resolving, rfl⟩ := Node.yields_union.1 succeeds
  obtain ⟨plain, walks⟩ := each Vet.erases_branch resolving keeps undisturbed
  exact ⟨Schema.plain_ofBranches plain,
    Node.yields_union.2 ⟨_, walks, Schema.erase_ofBranches plain⟩⟩

/-- An array of items. -/
theorem array (source : Json) (items : node.Erases whole options) :
    (Node.array source node).Erases whole options := by
  intro registry after around schema succeeds keeps undisturbed
  obtain ⟨inner, resolving, rfl⟩ := Node.yields_array.1 succeeds
  obtain ⟨plain, walks⟩ := items resolving keeps undisturbed
  exact ⟨plain, Node.yields_array.2 ⟨_, walks, rfl⟩⟩

/-- A map of values. -/
theorem map (source : Json) (values : node.Erases whole options) :
    (Node.map source node).Erases whole options := by
  intro registry after around schema succeeds keeps undisturbed
  obtain ⟨inner, resolving, rfl⟩ := Node.yields_map.1 succeeds
  obtain ⟨plain, walks⟩ := values resolving keeps undisturbed
  exact ⟨plain, Node.yields_map.2 ⟨_, walks, rfl⟩⟩

/-- A record is registered at its rank and given what is left of its fields. -/
theorem record (source : Json) (isError : Bool) (heading : Heading) {fields : List FieldNode}
    (own : FieldsObey .ownOverlays fields) (each : FieldsErase whole options fields) :
    (Node.record source isError heading fields).Erases whole options := by
  intro registry after around schema succeeds keeps undisturbed
  obtain ⟨declaration, handle, registered, done, filled, resolved, register, filling, rfl, rfl⟩ :=
    Node.yields_record.1 succeeds
  rw [Node.events, (Heading.yields_declare.2 ⟨resolved, handle, register⟩).followed]
    at undisturbed
  have grows := grows_resolveFields own filling
  have filledKeeps : filled.KeepsKinds whole :=
    (Registry.amended_setFields handle done).keepsKinds.trans keeps
  have registers := Registry.register_erase options
    (isAbstractBase_recordEntry declaration isError) register
    (grows.keepsKinds.trans filledKeeps)
  rw [recordEntry_erase] at registers
  obtain ⟨body, found⟩ := grows.record register
  refine ⟨by cases isError <;> simp [Schema.Plain, NamedKind.ofRecord], ?_⟩
  refine Node.yields_record.2 ⟨declaration, _, _, _, _, resolved, registers,
    each filling filledKeeps undisturbed, Registry.setFields_erase filledKeeps found, ?_⟩
  cases isError <;> rfl

/-- An enum is registered at its rank. -/
theorem enum (source : Json) (heading : Heading) (symbols : List (Option String))
    (default : Except Reason (Option String)) :
    (Node.enum source heading symbols default).Erases whole options := by
  intro registry after around schema succeeds keeps _
  obtain ⟨declaration, enumeration, handle, resolved, checked, register, rfl⟩ :=
    Node.yields_enum.1 succeeds
  have same : options.strictNames = options.withoutBases.strictNames := rfl
  rw [Declaration.enumeration_congr same] at checked
  exact ⟨by simp [Schema.Plain], Node.yields_enum.2 ⟨declaration, enumeration, _, resolved,
    checked, Registry.register_erase options rfl register keeps, rfl⟩⟩

/-- A fixed type is registered at its rank. -/
theorem fixed (source : Json) (heading : Heading) (size : Option Nat) :
    (Node.fixed source heading size).Erases whole options := by
  intro registry after around schema succeeds keeps _
  obtain ⟨declaration, fixedType, handle, resolved, sized, register, rfl⟩ :=
    Node.yields_fixed.1 succeeds
  exact ⟨by simp [Schema.Plain], Node.yields_fixed.2 ⟨declaration, fixedType, _, resolved,
    sized, Registry.register_erase options rfl register keeps, rfl⟩⟩

/-- A protocol is registered at its rank and given what is left of its types and messages. -/
theorem protocol (source : Json) (heading : Heading) {types : List Node}
    {messages : List MessageNode} (ownTypes : NodesObey .ownOverlays types)
    (ownMessages : MessagesObey .ownOverlays messages) (eachType : NodesErase whole options types)
    (eachMessage : MessagesErase whole options messages) :
    (Node.protocol source heading types messages).Erases whole options := by
  intro registry after around schema succeeds keeps undisturbed
  obtain ⟨declaration, handle, registered, schemas, typed, done, filled, resolved, register,
    typing, filling, rfl, rfl⟩ := Node.yields_protocol.1 succeeds
  rw [Node.events, (Heading.yields_declare.2 ⟨resolved, handle, register⟩).followed,
    typing.followed, List.forall_mem_append] at undisturbed
  have typedGrows := grows_resolveEach ownTypes typing
  have filledGrows := grows_resolveMessages ownMessages filling
  have filledKeeps : filled.KeepsKinds whole :=
    (Registry.amended_setProtocol handle schemas done).keepsKinds.trans keeps
  have typedKeeps := filledGrows.keepsKinds.trans filledKeeps
  have isDeclared : (Entry.protocol declaration.protocol).isAbstractBase = false := rfl
  have registers := Registry.register_erase options isDeclared register
    (typedGrows.keepsKinds.trans typedKeeps)
  have found := (typedGrows.trans filledGrows).protocol register
  obtain ⟨-, walksTypes⟩ := eachType Vet.erases_protocolType typing typedKeeps undisturbed.1
  exact ⟨by simp [Schema.Plain], Node.yields_protocol.2 ⟨declaration, _, _, _, _, _, _, resolved,
    registers, walksTypes, eachMessage filling filledKeeps undisturbed.2,
    Registry.setProtocol_erase filledKeeps found, rfl⟩⟩

/-- A logical type is laid over what is left of the type. -/
theorem logical (source : Json) (name : String) (overlay : Except Reason (Option LogicalType))
    (declaresFixed : Bool) (inner : node.Erases whole options) :
    (Node.logical source name overlay declaresFixed node).Erases whole options := by
  intro registry after around schema succeeds keeps undisturbed
  obtain ⟨underlying, between, resolving, annotated⟩ := Node.yields_logical.1 succeeds
  rw [Node.events, resolving.followed, List.forall_mem_append] at undisturbed
  have betweenKeeps := (Registry.keepsKinds_annotate annotated).trans keeps
  obtain ⟨plain, walks⟩ := inner resolving betweenKeeps undisturbed.1
  obtain ⟨plainSchema, annotates⟩ := Registry.annotate_erase betweenKeeps plain annotated
  exact ⟨plainSchema, Node.yields_logical.2 ⟨_, _, walks, annotates⟩⟩

end Node.Erases

/-- No nodes, no schemas. -/
theorem NodesErase.nil : NodesErase whole options [] := by
  intro registry after around vet schemas _ succeeds _ _
  obtain ⟨rfl, rfl⟩ := yields_resolveEach_nil.1 succeeds
  exact ⟨trivial, yields_resolveEach_nil.2 ⟨rfl, rfl⟩⟩

/-- The other nodes go on from what is left after the first one. -/
theorem NodesErase.cons {rest : List Node} (own : NodesObey .ownOverlays rest)
    (head : node.Erases whole options) (tail : NodesErase whole options rest) :
    NodesErase whole options (node :: rest) := by
  intro registry after around vet schemas vets succeeds keeps undisturbed
  obtain ⟨schema, between, others, first, vetted, walksRest, rfl⟩ :=
    yields_resolveEach_cons.1 succeeds
  rw [eventsOfEach, first.followed, List.forall_mem_append] at undisturbed
  have betweenKeeps := (grows_resolveEach own walksRest).keepsKinds.trans keeps
  obtain ⟨plain, walks⟩ := head first betweenKeeps undisturbed.1
  obtain ⟨plainRest, walksOn⟩ := tail vets walksRest keeps undisturbed.2
  exact ⟨⟨plain, plainRest⟩, yields_resolveEach_cons.2
    ⟨_, _, _, walks, vets _ _ plain vetted, walksOn, rfl⟩⟩

/-- A field that is malformed does not succeed. -/
theorem FieldNode.Erases.malformed (reason : Reason) (source : Json) :
    (FieldNode.malformed reason source).Erases whole options :=
  fun _ _ _ _ succeeds => absurd succeeds FieldNode.yields_malformed

/-- A field takes its type as it is, where it would be given a base. -/
theorem FieldNode.Erases.field (source : Json) (name : String) (typeSource : Json)
    (default : Option Json) (details : Except Reason FieldDetails)
    (type : node.Erases whole options) :
    (FieldNode.field source name node typeSource default details).Erases whole options := by
  intro registry after owner field succeeds keeps undisturbed
  obtain ⟨declared, typed, slot, literal, said, checked, typing, filled, synthesized, isSaid,
    rfl⟩ := FieldNode.yields_field.1 succeeds
  rw [FieldNode.events, typing.followed, (yields_change.2 filled).followed,
    List.forall_mem_append, List.forall_mem_singleton] at undisturbed
  have typedKeeps := (Registry.grows_slot filled).keepsKinds.trans keeps
  obtain ⟨plain, walks⟩ := type typing typedKeeps undisturbed.1
  obtain ⟨other, synthesizes, same⟩ := Field.ofSlot_erase said keeps plain filled
    undisturbed.2.own synthesized
  have slotted := Registry.slot_erase filled keeps
  rw [← slotted] at walks
  exact FieldNode.yields_field.2 ⟨_, _, _, other, said, checked, walks,
    Registry.slot_withoutBases, synthesizes, isSaid, same⟩

/-- No fields besides those that have been resolved. -/
theorem FieldsErase.nil : FieldsErase whole options [] := by
  intro registry after owner done fields succeeds _ _
  obtain ⟨rfl, rfl⟩ := yields_resolveFields_nil.1 succeeds
  exact yields_resolveFields_nil.2 ⟨rfl, rfl⟩

/-- The other fields go on from what is left after the first one. -/
theorem FieldsErase.cons {node : FieldNode} {rest : List FieldNode}
    (own : FieldsObey .ownOverlays rest) (head : node.Erases whole options)
    (tail : FieldsErase whole options rest) : FieldsErase whole options (node :: rest) := by
  intro registry after owner done fields succeeds keeps undisturbed
  obtain ⟨field, between, first, checked, walksRest⟩ := yields_resolveFields_cons.1 succeeds
  rw [eventsOfFields, first.followed, List.forall_mem_append] at undisturbed
  have betweenKeeps := (grows_resolveFields own walksRest).keepsKinds.trans keeps
  have walksOn := tail walksRest keeps undisturbed.2
  rw [List.map_append, List.map_singleton] at walksOn
  refine yields_resolveFields_cons.2 ⟨_, _, head first betweenKeeps undisturbed.1, ?_, walksOn⟩
  rw [checkNewField_erase, checked]

/-- A message that is malformed does not succeed. -/
theorem MessageNode.Erases.malformed (reason : Reason) (source : Json) :
    (MessageNode.malformed reason source).Erases whole options :=
  fun _ _ _ _ succeeds => absurd succeeds MessageNode.yields_malformed

/-- The parameters of a message, its response and its errors go on from what is left before them. -/
theorem MessageNode.Erases.message {source responseSource : Json} {name : String}
    {request : List FieldNode} {errors : List Node} {oneWay : Except Reason Bool}
    {details : Except Reason Details} (ownResponse : node.Obeys .ownOverlays)
    (ownErrors : NodesObey .ownOverlays errors) (parameters : FieldsErase whole options request)
    (response : node.Erases whole options) (failures : NodesErase whole options errors) :
    (MessageNode.message source name request node responseSource errors oneWay details).Erases
      whole options := by
  intro registry after around message succeeds keeps undisturbed
  obtain ⟨fields, asked, declared, typed, slot, answered, failed, flag, said, checked,
    asking, answering, filled, failing, isFlag, isOneWay, isSaid, rfl⟩ :=
    MessageNode.yields_message.1 succeeds
  rw [MessageNode.events, asking.followed, answering.followed, (yields_change.2 filled).followed,
    List.forall_mem_append, List.forall_mem_append, List.forall_mem_cons] at undisturbed
  obtain ⟨requests, responses, own, fails⟩ := undisturbed
  have answeredKeeps := (grows_resolveEach ownErrors failing).keepsKinds.trans keeps
  have typedKeeps := (Registry.grows_slot filled).keepsKinds.trans answeredKeeps
  have askedKeeps := (node.grows ownResponse answering).keepsKinds.trans typedKeeps
  have asks := parameters asking askedKeeps requests
  obtain ⟨plain, answers⟩ := response answering typedKeeps responses
  obtain ⟨-, failsOn⟩ := failures (Vet.erases_messageError _) failing keeps fails
  have slotted := Registry.slot_erase filled answeredKeeps
  have same := Slot.declared_erase plain filled own.own
  rw [← slotted] at answers
  refine MessageNode.yields_message.2 ⟨_, _, _, _, _, _, _, flag, said, checked, asks, answers,
    Registry.slot_withoutBases, failsOn, isFlag, ?_, isSaid, ?_⟩
  · rw [← same, checkOneWay_erase, isOneWay]
  · simp [Message.erase, Message.ofParts, same, eraseEach, Schema.erase]

/-- No messages. -/
theorem MessagesErase.nil : MessagesErase whole options [] := by
  intro registry after around messages succeeds _ _
  obtain ⟨rfl, rfl⟩ := yields_resolveMessages_nil.1 succeeds
  exact yields_resolveMessages_nil.2 ⟨rfl, rfl⟩

/-- The other messages go on from what is left after the first one. -/
theorem MessagesErase.cons {node : MessageNode} {rest : List MessageNode}
    (own : MessagesObey .ownOverlays rest) (head : node.Erases whole options)
    (tail : MessagesErase whole options rest) : MessagesErase whole options (node :: rest) := by
  intro registry after around messages succeeds keeps undisturbed
  obtain ⟨message, between, others, first, walksRest, rfl⟩ :=
    yields_resolveMessages_cons.1 succeeds
  rw [eventsOfMessages, first.followed, List.forall_mem_append] at undisturbed
  have betweenKeeps := (grows_resolveMessages own walksRest).keepsKinds.trans keeps
  exact yields_resolveMessages_cons.2 ⟨_, _, _, head first betweenKeeps undisturbed.1,
    tail walksRest keeps undisturbed.2, rfl⟩

mutual

/-- An undisturbed walk goes the same way without bases. -/
theorem Node.erased : (node : Node) → node.Obeys .ownOverlays → node.Erases whole options
  | .malformed reason source, _ => .malformed reason source
  | .reference text, _ => .reference text
  | .nested source inner, own => .nested source (inner.erased own.2)
  | .union source branches, own => .union source (nodes_erased branches own.2)
  | .array source items, own => .array source (items.erased own.2)
  | .map source values, own => .map source (values.erased own.2)
  | .record source isError heading fields, own =>
    .record source isError heading own.2 (fields_erased fields own.2)
  | .enum source heading symbols default, _ => .enum source heading symbols default
  | .fixed source heading size, _ => .fixed source heading size
  | .protocol source heading types messages, own =>
    .protocol source heading own.2.1 own.2.2 (nodes_erased types own.2.1)
      (messages_erased messages own.2.2)
  | .logical source name overlay declaresFixed inner, own =>
    .logical source name overlay declaresFixed (inner.erased own.2)

/-- An undisturbed walk of nodes in a row goes the same way without bases. -/
theorem nodes_erased : (nodes : List Node) → NodesObey .ownOverlays nodes →
    NodesErase whole options nodes
  | [], _ => .nil
  | node :: rest, own => .cons own.2 (node.erased own.1) (nodes_erased rest own.2)

/-- An undisturbed walk of a field goes the same way without bases. -/
theorem FieldNode.erased : (node : FieldNode) → node.Obeys .ownOverlays →
    node.Erases whole options
  | .malformed reason source, _ => .malformed reason source
  | .field source name type typeSource default details, own =>
    .field source name typeSource default details (type.erased own.2)

/-- An undisturbed walk of fields in a row goes the same way without bases. -/
theorem fields_erased : (nodes : List FieldNode) → FieldsObey .ownOverlays nodes →
    FieldsErase whole options nodes
  | [], _ => .nil
  | node :: rest, own => .cons own.2 (node.erased own.1) (fields_erased rest own.2)

/-- An undisturbed walk of a message goes the same way without bases. -/
theorem MessageNode.erased : (node : MessageNode) → node.Obeys .ownOverlays →
    node.Erases whole options
  | .malformed reason source, _ => .malformed reason source
  | .message _ _ request response _ errors _ _, own =>
    .message own.2.2.1 own.2.2.2 (fields_erased request own.2.1) (response.erased own.2.2.1)
      (nodes_erased errors own.2.2.2)

/-- An undisturbed walk of messages in a row goes the same way without bases. -/
theorem messages_erased : (nodes : List MessageNode) → MessagesObey .ownOverlays nodes →
    MessagesErase whole options nodes
  | [], _ => .nil
  | node :: rest, own => .cons own.2 (node.erased own.1) (messages_erased rest own.2)

end

end

end AvroGraph
