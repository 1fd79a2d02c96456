import AvroGraph.Proofs.TypeGraph
import AvroGraph.Registry.TypeName

/-!
# Coherent slots

Fields, parameters and responses keep what their declared types already say: the type that
represents it, whether it admits null, the type name and what becomes of a default. All of this
agrees with the declared type in every registry that a resolver reaches
(`Registry.Reached.slots_coherent`), also where a base has taken the place of a union.
-/

namespace AvroGraph

/-! ## Slots -/

/-- What a slot keeps agrees with its declared type. -/
structure Slot.Coherent (options : Options) (slot : Slot) : Prop where
  /-- A union keeps what it is reduced to, and it is none that a base has to take the place of. -/
  union : ∀ branches underlying nullable, slot.declared = .union branches underlying nullable →
    slot.underlying = underlying ∧ slot.nullable = nullable ∧
      (options.synthesizeBases = true → callsForBase branches = false)
  /-- All other types represent themselves, and only a base is nullable. -/
  other : slot.declared.isUnion = false → slot.underlying = slot.declared ∧
    (slot.nullable = true → ∃ base, slot.declared = .named .abstractBase base)
  reduced : slot.underlying.isUnion = false

section

variable {options : Options} {registry : Registry}

/-- An intact schema is not represented by a union. -/
theorem Schema.Intact.isUnion_underlying {schema : Schema}
    (intact : schema.Intact options registry) : schema.underlying.isUnion = false := by
  cases intact with
  | @union branches underlying nullable _ reduced =>
    have represented : ((Schema.union branches underlying nullable).reduction
        options).underlying.isUnion = false :=
      reduction_induction (fun _ representative => representative.isUnion = false) options
        (fun _ => rfl) (fun _ => rfl) (fun _ => id) (fun _ => id) _
    cases reduced
    exact represented
  | _ => rfl

/-- A slot that is filled with an intact type is coherent. -/
theorem Slot.Filled.coherent {slot : Slot} (filled : slot.Filled options)
    (intact : slot.declared.Intact options registry) : slot.Coherent options where
  union branches underlying nullable isUnion := by
    have unbased := filled.unbased
    have isNullable := filled.nullable
    rw [isUnion] at unbased isNullable
    refine ⟨by rw [filled.underlying, isUnion]; rfl, ?_, fun wanted => ?_⟩
    · obtain same | ⟨_, isBase⟩ := isNullable
      · exact same
      · cases isBase
    · rwa [wanted, Bool.true_and] at unbased
  other noUnion := by
    have isNullable := filled.nullable
    rw [filled.underlying]
    generalize slot.declared = declared at noUnion isNullable
    cases declared with
    | union => cases noUnion
    | _ =>
      refine ⟨rfl, fun nullable => isNullable.resolve_left ?_⟩
      simp [nullable, Schema.isNullable]
  reduced := by
    rw [filled.underlying]
    exact intact.isUnion_underlying

end

/-! ## Fields -/

/-- What a field keeps agrees with its declared type and with its default. -/
structure Field.Coherent (options : Options) (registry : Registry) (field : Field) : Prop where
  slot : field.slot.Coherent options
  /-- The type of a field goes by the name of its declared type, -/
  typeName : (∀ base, field.declared ≠ .named .abstractBase base) →
    registry.fieldTypeName field = registry.typeName field.declared
  /-- except that the name of a base is marked if the field admits null. -/
  baseName : ∀ base, field.declared = .named .abstractBase base →
    registry.fieldTypeName field = markNullable (registry.typeName field.declared) field.nullable
  absent : field.default = none → field.literal = none ∧ field.remarks = none
  /-- A default shows in a literal, or in a remark where there is none. -/
  present : ∀ default, field.default = some default →
    (∃ text, DefaultLiteral.synthesize registry field.declared default = .ok (.literal text) ∧
      field.literal = some text ∧ field.remarks = none) ∨
    ∃ kind remark,
      DefaultLiteral.synthesize registry field.declared default = .ok (.unsupported kind) ∧
      (DefaultLiteral.unsupported kind).remark? = some remark ∧
      field.literal = none ∧ field.remarks = some remark

section

variable {options : Options} {registry : Registry} {law : NodeLaw} {field : Field}

/-- A slot that is coherent and declared as something else than a base goes by the name of what it
is declared as. -/
theorem Slot.Coherent.typeName {slot : Slot} (coherent : slot.Coherent options)
    (declared : ∀ base, slot.declared ≠ .named .abstractBase base) :
    markNullable (registry.typeName slot.underlying) slot.nullable =
      registry.typeName slot.declared := by
  cases isDeclared : slot.declared with
  | union branches underlying nullable =>
    obtain ⟨same, isNullable, -⟩ := coherent.union _ _ _ isDeclared
    rw [same, isNullable, Registry.typeName_union]
  | _ =>
    obtain ⟨same, nullable⟩ := coherent.other (by rw [isDeclared]; rfl)
    have notNullable : slot.nullable = false := by
      refine Bool.eq_false_iff.2 fun isNullable => ?_
      obtain ⟨base, isBase⟩ := nullable isNullable
      exact declared base isBase
    rw [notNullable, same, isDeclared]
    rfl

/-- A field that is resolved with an intact type is coherent. -/
theorem Field.Resolved.coherent (resolved : field.Resolved options law
    (fun registry schema => schema.Intact options registry) registry) :
    field.Coherent options registry where
  slot := resolved.filled.coherent resolved.declared
  typeName declared := (resolved.filled.coherent resolved.declared).typeName declared
  baseName base isBase := by
    have same : field.underlying = field.declared.underlying := resolved.filled.underlying
    rw [Registry.fieldTypeName, same, isBase]
    rfl
  absent isAbsent := by
    obtain ⟨literal, synthesized, isLiteral, isRemark⟩ := resolved.default
    rw [isAbsent] at synthesized
    cases synthesized
    exact ⟨isLiteral, isRemark⟩
  present default isPresent := by
    obtain ⟨literal, synthesized, isLiteral, isRemark⟩ := resolved.default
    rw [isPresent, DefaultLiteral.synthesizeOption] at synthesized
    cases made : DefaultLiteral.synthesize registry field.declared default with
    | error reason =>
      rw [made] at synthesized
      cases synthesized
    | ok found =>
      rw [made] at synthesized
      cases synthesized
      cases found with
      | literal text => exact .inl ⟨text, rfl, isLiteral, isRemark⟩
      | unsupported kind => exact .inr ⟨kind, _, rfl, rfl, isLiteral, isRemark⟩

end

/-! ## Registries -/

namespace Registry

variable {options : Options} {registry : Registry} {handle : Handle} {entry : Entry}

/-- In every registry that a resolver reaches, the fields of records and errors, the parameters of
messages and their responses agree with their declared types. -/
theorem Reached.slots_coherent (reached : registry.Reached options)
    (found : registry.get? handle = some entry) :
    (∀ fields ∈ entry.fieldLists, ∀ field ∈ fields, field.Coherent options registry) ∧
      ∀ body, entry = .protocol body →
        ∀ message ∈ body.messages, message.slot.Coherent options := by
  have resolved := reached.allResolved handle entry found
  refine ⟨fun fields member field isField => ?_, ?_⟩
  · exact ((resolved.fields fields member).2 field isField).coherent
  · rintro body rfl message member
    have answered := resolved.parts.2.1 message member
    exact answered.filled.coherent answered.response

/-- A message with a parameter whose record has fields of three kinds: a union, a union of records
and null, and an enum. -/
def playing : Json :=
  let declare (kind name : String) (rest : Members) : Json :=
    .object ([("type", .string kind), ("name", .string name)] ++ rest)
  let slot (name : String) (type : Json) (rest : Members) : Json :=
    .object ([("name", .string name), ("type", type)] ++ rest)
  let record (name : String) (fields : List Json) : Json :=
    declare "record" name [("fields", .array fields)]
  let suit := declare "enum" "Suit" [("symbols", .array [.string "hearts", .string "spades"])]
  let move := record "Move"
    [slot "lead" (.array [.array [.string "null", suit]]) [("default", .null)],
      slot "card" (.array [.string "null", record "Face" [], record "Pip" []]) [],
      slot "trump" (.string "Suit") [("default", .string "spades")]]
  .object [("protocol", .string "n.Game"), ("messages", .object [("play", .object
    [("request", .array [slot "move" move []]),
      ("response", .array [.string "Face", .string "Pip"])])])]

/-- What is registered for it. -/
def played : Registry :=
  ((Resolver.mk {} .empty).resolve playing none).2.registry

/-- The record of the parameter, as it is registered. -/
def playedMove : Record :=
  let suit := Schema.named .enum 2
  let lead : Field := {
    name := "lead", declared := .union [.union [.null, suit] suit true] suit true
    underlying := suit, nullable := true, default := some .null
    remarks := some "default value for a field of type 'union' is not synthesized" }
  let card : Field := {
    name := "card", declared := .named .abstractBase 5, underlying := .named .abstractBase 5
    nullable := true }
  let trump : Field := {
    name := "trump", declared := suit, underlying := suit, nullable := false
    default := some (.string "spades"), literal := some "n.Suit.spades" }
  { name := ⟨"Move", some "n"⟩, fields := [lead, card, trump] }

/-- Its fields agree with their declared types, and only the union and the base are nullable. -/
theorem slots_coherent_playedMove :
    played.Reached {} ∧ played.get? 1 = some (.record playedMove) ∧
      playedMove.fields.map played.fieldTypeName = ["n.Suit?", "n.MoveCardBase?", "n.Suit"] ∧
      (∀ fields ∈ (Entry.record playedMove).fieldLists, ∀ field ∈ fields,
        field.Coherent {} played) ∧
      ∀ body, Entry.record playedMove = .protocol body →
        ∀ message ∈ body.messages, message.slot.Coherent {} := by
  have reached : played.Reached {} := by
    unfold played
    exact .resolve playing none .empty
  have found : played.get? 1 = some (.record playedMove) := by decide +kernel
  exact ⟨reached, found, by decide +kernel, Reached.slots_coherent reached found⟩

end Registry

end AvroGraph
