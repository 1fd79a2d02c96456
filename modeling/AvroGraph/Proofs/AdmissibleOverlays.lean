import AvroGraph.Proofs.DistinctKeys
import AvroGraph.Proofs.Moments
import AvroGraph.Proofs.TypeGraph

/-!
# Admissible logical types

Wherever a resolver leaves a logical type, in the entries of its registry or in a schema that it
returns, it stands over a type that accepts it, and an object of some document writes it just so
(`Resolver.overlays_admissible`). Fixed types that are declared bring their logical types along to
every reference, so these have to be admissible as well.
-/

namespace AvroGraph

/-! ## Logical types in a document -/

namespace Json

mutual

/-- All objects inside a value, the value included. -/
def objects : Json → List Members
  | .array items => objectsOfItems items
  | .object members => members :: objectsOfMembers members
  | .null | .bool _ | .number _ | .string _ => []

/-- All objects inside the values of a list. -/
def objectsOfItems : List Json → List Members
  | [] => []
  | item :: rest => item.objects ++ objectsOfItems rest

/-- All objects inside the values of members. -/
def objectsOfMembers : List (String × Json) → List Members
  | [] => []
  | (_, value) :: rest => value.objects ++ objectsOfMembers rest

end

variable {condition : Members → Prop}

mutual

/-- A condition on every object that is listed is one on every object inside. -/
theorem everyObject_of_objects : (json : Json) → (∀ members ∈ json.objects, condition members) →
    json.EveryObject condition
  | .array items, each => everyObjectOfItems_of_objects items each
  | .object members, each =>
    have ⟨here, inside⟩ := List.forall_mem_cons.1 each
    ⟨here, everyObjectOfMembers_of_objects members inside⟩
  | .null, _ | .bool _, _ | .number _, _ | .string _, _ => trivial

/-- A condition on every object that is listed for items holds inside each of them. -/
theorem everyObjectOfItems_of_objects : (items : List Json) →
    (∀ members ∈ objectsOfItems items, condition members) → EveryObjectOfItems condition items
  | [], _ => trivial
  | item :: rest, each =>
    have ⟨first, others⟩ := List.forall_mem_append.1 each
    ⟨everyObject_of_objects item first, everyObjectOfItems_of_objects rest others⟩

/-- A condition on every object that is listed for members holds inside each of them. -/
theorem everyObjectOfMembers_of_objects : (members : List (String × Json)) →
    (∀ inner ∈ objectsOfMembers members, condition inner) → EveryObjectOfMembers condition members
  | [], _ => trivial
  | (_, value) :: rest, each =>
    have ⟨first, others⟩ := List.forall_mem_append.1 each
    ⟨everyObject_of_objects value first, everyObjectOfMembers_of_objects rest others⟩

end

end Json

/-- An object writes a logical type: its name and, if it is a decimal, its precision and its scale,
which is zero if absent. A decimal has a positive precision below two to the 32 and a scale up to
that. -/
structure Members.Writes (members : Members) (overlay : LogicalType) : Prop where
  name : members.get? "logicalType" = some (.string overlay.name)
  decimal : ∀ precision scale, overlay = .decimal precision scale →
    members.get? "precision" = some (.ofNat precision) ∧
      (members.get? "scale" = some (.ofNat scale) ∨ members.get? "scale" = none ∧ scale = 0) ∧
      1 ≤ precision ∧ precision < 0x100000000 ∧ scale ≤ precision

/-- An object in one of the documents of calls writes a logical type. -/
def WrittenIn (calls : List (Json × Option String)) (overlay : LogicalType) : Prop :=
  ∃ call ∈ calls, ∃ members ∈ call.1.objects, members.Writes overlay

/-- A logical type that is read from members is written there. -/
theorem LogicalType.writes_of_read {members : Members} {name : String} {overlay : LogicalType}
    (named : members.get? "logicalType" = some (.string name))
    (read : LogicalType.read name members = .ok (some overlay)) : members.Writes overlay where
  name := by rw [named, name_of_read read]
  decimal precision scale isDecimal := by
    subst isDecimal
    obtain ⟨_, _, ⟨⟩, isPrecision, isScale, positive, bounded, fits⟩ :=
      readDecimal_eq_ok.1 (readDecimal_of_read read)
    exact ⟨isPrecision, isScale, positive, Nat.lt_of_le_of_lt bounded (by decide), fits⟩

/-- The law that logical types are of some sort. -/
def NodeLaw.overlays (sort : LogicalType → Prop) : NodeLaw where
  node
    | .logical _ _ overlay _ _ => ∀ known, overlay = .ok (some known) → sort known
    | _ => True
  field _ := True
  message _ := True

section

variable {sort : LogicalType → Prop}

/-- The rule on logical types asks nothing of the plain nodes around them. -/
theorem NodeLaw.asksLogical_overlays : (overlays sort).AsksLogical where
  node node plain := by
    cases node with
    | logical => cases plain
    | _ => trivial
  field _ := trivial
  message _ := trivial

/-- The logical types that nodes are classified with are those that their objects write. -/
theorem NodeLaw.governs_overlays :
    (overlays sort).Governs fun members => ∀ overlay, members.Writes overlay → sort overlay :=
  asksLogical_overlays.governs fun _ written _ named known read =>
    written known (LogicalType.writes_of_read named read)

/-- If every logical type that is written in a document is of a sort, so is every one that a node
lays over a type. -/
theorem Node.obeys_overlays (json : Json)
    (written : ∀ members ∈ json.objects, ∀ overlay, members.Writes overlay → sort overlay) :
    (ofJson json).Obeys (.overlays sort) :=
  obeys_ofJson NodeLaw.governs_overlays json (json.everyObject_of_objects written)

end

/-! ## Logical types in a schema -/

namespace Schema

mutual

/-- The logical types in a schema, each with what it is laid over. -/
def overlays : Schema → List (Schema × LogicalType)
  | .primitive _ | .named _ _ | .boxed => []
  | .array items => items.overlays
  | .map values => values.overlays
  | .union branches underlying _ => overlaysOfEach branches ++ underlying.overlays
  | .logical underlying overlay => (underlying, overlay) :: underlying.overlays

/-- The logical types in the schemas of a list. -/
def overlaysOfEach : List Schema → List (Schema × LogicalType)
  | [] => []
  | schema :: rest => schema.overlays ++ overlaysOfEach rest

end

variable {pair : Schema × LogicalType}

/-- The logical types in schemas in a row are those in each of them. -/
theorem mem_overlaysOfEach {schemas : List Schema} :
    pair ∈ overlaysOfEach schemas ↔ ∃ schema ∈ schemas, pair ∈ schema.overlays := by
  induction schemas with
  | nil => simp [overlaysOfEach]
  | cons schema rest ih => simp [overlaysOfEach, ih]

/-- Nothing in what represents a schema is new. -/
theorem overlays_reduction (options : Options) (schema : Schema) :
    ∀ pair ∈ (schema.reduction options).underlying.overlays, pair ∈ schema.overlays := by
  refine reduction_induction (fun schema representative =>
    ∀ pair ∈ representative.overlays, pair ∈ schema.overlays) options ?_ ?_ ?_ ?_ schema
  · exact fun _ _ member => absurd member List.not_mem_nil
  · exact fun _ _ member => absurd member List.not_mem_nil
  · exact fun _ _ _ => id
  · intro branches underlying nullable branch representative isBranch inside pair member
    exact List.mem_append_left _ (mem_overlaysOfEach.2 ⟨branch, isBranch, inside pair member⟩)

/-- To take a logical type away adds none. -/
theorem overlays_bare (schema : Schema) :
    ∀ pair ∈ schema.bare.overlays, pair ∈ schema.overlays := by
  cases schema with
  | logical underlying overlay =>
    rw [bare]
    split
    · exact fun pair => List.mem_cons_of_mem _
    · exact fun pair => id
  | _ => exact fun pair => id

/-- What represents a union has no logical types besides those of its branches. -/
theorem overlays_underlying (schema : Schema) :
    ∀ pair ∈ schema.underlying.overlays, pair ∈ schema.overlays := by
  cases schema with
  | union branches underlying nullable => exact fun pair => List.mem_append_right _
  | _ => exact fun pair => id

/-- Whether a schema is a logical type. -/
def isLogical : Schema → Bool
  | .logical _ _ => true
  | _ => false

end Schema

/-- A logical type is of some sort, and it is laid over a plain type that accepts it. -/
structure LogicalType.Admissible (sort : LogicalType → Prop) (registry : Registry)
    (underlying : Schema) (overlay : LogicalType) : Prop where
  sort : sort overlay
  accepted : overlay.accepts registry underlying = true
  noUnion : underlying.isUnion = false
  notLogical : underlying.isLogical = false

/-- All logical types in a schema are admissible. -/
def Schema.Admissible (sort : LogicalType → Prop) (registry : Registry) (schema : Schema) : Prop :=
  ∀ pair ∈ schema.overlays, pair.2.Admissible sort registry pair.1

section

variable {sort other : LogicalType → Prop} {registry before after : Registry} {schema : Schema}
  {overlay : LogicalType}

/-- A logical type that accepts a schema is admissible over it. -/
theorem LogicalType.Admissible.of_accepts (isSort : sort overlay)
    (accepted : overlay.accepts registry schema = true) :
    overlay.Admissible sort registry schema := by
  obtain ⟨type, rfl⟩ | ⟨handle, fixedType, rfl, -⟩ := LogicalType.cases_of_accepts accepted <;>
    exact ⟨isSort, accepted, rfl, rfl⟩

/-- What has been accepted would be accepted again, since fixed types keep their sizes. -/
theorem LogicalType.accepts_retained (retains : before.Retains after)
    (accepted : overlay.accepts before schema = true) : overlay.accepts after schema = true := by
  have same : fixedSize? before schema = fixedSize? after schema := by
    obtain ⟨type, rfl⟩ | ⟨handle, fixedType, rfl, found⟩ := cases_of_accepts accepted
    · rfl
    · obtain ⟨later, isLater, stays⟩ := retains handle _ found
      cases later with
      | fixed body =>
        have size : body.size = fixedType.size := by
          simp only [Entry.stripped, Entry.fixed.injEq, FixedType.mk.injEq] at stays
          exact stays.2.1
        simp only [fixedSize?, Registry.fixed?, found, isLater, Option.bind_some, Entry.fixed?,
          Option.map_some, size]
      | _ => cases stays
  rwa [← accepts_congr same]

namespace Schema.Admissible

/-- Parts of an admissible schema are admissible. -/
theorem of_subset {inner : Schema} (admissible : schema.Admissible sort registry)
    (inside : ∀ pair ∈ inner.overlays, pair ∈ schema.overlays) : inner.Admissible sort registry :=
  fun pair member => admissible pair (inside pair member)

/-- A schema without logical types is admissible. -/
theorem of_nil (nothing : schema.overlays = []) : schema.Admissible sort registry := by
  intro pair member
  rw [nothing] at member
  cases member

/-- A schema stays admissible where the sizes of fixed types are retained. -/
theorem mono (retains : before.Retains after) (admissible : schema.Admissible sort before) :
    schema.Admissible sort after := by
  intro pair member
  have here := admissible pair member
  exact .of_accepts here.sort (LogicalType.accepts_retained retains here.accepted)

/-- A union of admissible branches is admissible, and so is what represents it. -/
theorem ofBranches {options : Options} {branches : List Schema}
    (each : ∀ branch ∈ branches, branch.Admissible sort registry) :
    (Schema.ofBranches options branches).Admissible sort registry := by
  have whole : ∀ pair ∈ overlaysOfEach branches, pair.2.Admissible sort registry pair.1 := by
    intro pair member
    obtain ⟨branch, isBranch, inside⟩ := mem_overlaysOfEach.1 member
    exact each branch isBranch pair inside
  refine List.forall_mem_append.2 ⟨whole, fun pair member => ?_⟩
  have represented := overlays_reduction options (.union branches .boxed false) pair member
  rw [Schema.overlays, Schema.overlays, List.append_nil] at represented
  exact whole pair represented

/-- A logical type that accepts an admissible schema makes an admissible schema. -/
theorem logical (isSort : sort overlay) (accepted : overlay.accepts registry schema = true)
    (admissible : schema.Admissible sort registry) :
    (Schema.logical schema overlay).Admissible sort registry :=
  List.forall_mem_cons.2 ⟨.of_accepts isSort accepted, admissible⟩

end Schema.Admissible

end

/-! ## Logical types in a registry -/

namespace Registry

variable {options : Options} {sort : LogicalType → Prop} {registry after : Registry}

/-- The logical types that references to entries bring along are admissible. -/
def Admissible (sort : LogicalType → Prop) (registry : Registry) : Prop :=
  ∀ handle schema, registry.schemaOf? handle = some schema → schema.Admissible sort registry

/-- What refers to a declaration has a logical type only if a fixed type is declared with it. -/
theorem overlays_toSchema {entry : Entry} (plain : ∀ fixedType, entry = .fixed fixedType →
    fixedType.overlay = none) (handle : Handle) : (entry.toSchema handle).overlays = [] := by
  cases entry with
  | fixed fixedType =>
    rw [Entry.toSchema_plain (plain fixedType rfl)]
    rfl
  | _ => rfl

/-- A fixed type keeps its size when it is given a logical type. -/
theorem retains_setOverlay (registry : Registry) (handle : Handle) (overlay : LogicalType) :
    registry.Retains (registry.setOverlay handle overlay) :=
  retains_update fun entry => by cases entry <;> rfl

/-- Whatever becomes of a logical type, fixed types keep their sizes. -/
theorem retains_annotate {declaresFixed : Bool} {inner schema : Schema} {name : String}
    {overlay : Except Reason (Option LogicalType)}
    (annotated : registry.annotate declaresFixed inner name overlay = .ok (schema, after)) :
    registry.Retains after := by
  obtain rfl | ⟨handle, known, rfl⟩ := eq_or_setOverlay_of_annotate annotated
  · exact .refl _
  · exact registry.retains_setOverlay handle known

namespace Admissible

/-- What there are references to may change as long as what is new is admissible. -/
theorem mono (admissible : registry.Admissible sort) (retains : registry.Retains after)
    (new : ∀ handle schema, after.schemaOf? handle = some schema →
      registry.schemaOf? handle = some schema ∨ schema.Admissible sort after) :
    after.Admissible sort := by
  intro handle schema found
  obtain old | isAdmissible := new handle schema found
  · exact (admissible handle schema old).mono retains
  · exact isAdmissible

/-- There is nothing to be inadmissible in an empty registry. -/
theorem empty : Registry.empty.Admissible sort := by
  intro handle schema found
  simp [Registry.empty, schemaOf?, get?] at found

/-- What a node declares has no logical types when it is registered. -/
theorem register {node : Node} {entry : Entry} {handle : Handle}
    (admissible : registry.Admissible sort) (declares : node.Declares options entry)
    (registered : registry.register entry = .ok (handle, after)) : after.Admissible sort := by
  have grows : registry.Grows after := keeps_register registered
  refine admissible.mono grows.retains fun other schema found => ?_
  rw [schemaOf?, get?_register registered] at found
  split at found
  · cases found
    refine .inr (.of_nil (overlays_toSchema ?_ other))
    rintro fixedType rfl
    have plain := declares.stripped_eq
    simp only [Entry.stripped, Entry.fixed.injEq] at plain
    rw [← plain]
  · exact .inl found

/-- A change that leaves kinds and logical types alone does not show. -/
theorem update {handle : Handle} {change : Entry → Entry} (admissible : registry.Admissible sort)
    (retains : registry.Retains (registry.update handle change))
    (same : ∀ entry handle, (change entry).toSchema handle = entry.toSchema handle) :
    (registry.update handle change).Admissible sort := by
  refine admissible.mono retains fun other schema found => .inl ?_
  rw [schemaOf?] at found ⊢
  rw [get?_update] at found
  split at found
  · rw [Option.map_map] at found
    rw [← found]
    exact congrArg (fun view => Option.map view (registry.get? other))
      (funext fun entry => (same entry other).symm)
  · exact found

/-- A slot adds bases, which have no logical types of their own. -/
theorem slot {owner : Name} {name : String} {declared : Schema} {slot : Slot}
    (admissible : registry.Admissible sort)
    (filled : registry.slot options owner name declared = .ok (slot, after)) :
    after.Admissible sort := by
  have grows := grows_slot filled
  refine admissible.mono grows.retains fun other schema found => ?_
  obtain ⟨entry, isEntry, rfl⟩ := Option.map_eq_some_iff.1 found
  by_cases old : other < registry.size
  · obtain ⟨before, isBefore⟩ := exists_get? old
    obtain ⟨grown, isGrown, growth⟩ := grows.entry other before old isBefore
    obtain rfl := Option.some.inj (isGrown.symm.trans isEntry)
    rw [growth.toSchema_eq, schemaOf?, isBefore]
    exact .inl rfl
  · have isBase := isAbstractBase_of_slot filled isEntry (Nat.not_lt.1 old)
    refine .inr (.of_nil (overlays_toSchema ?_ other))
    rintro fixedType rfl
    cases isBase

/-- A fixed type may be given a logical type that accepts it. -/
theorem setOverlay {handle : Handle} {known : LogicalType} (admissible : registry.Admissible sort)
    (isSort : sort known) (accepted : known.accepts registry (.named .fixed handle) = true) :
    (registry.setOverlay handle known).Admissible sort := by
  have retains := registry.retains_setOverlay handle known
  refine admissible.mono retains fun other schema found => ?_
  rw [schemaOf?, Registry.setOverlay, get?_update] at found
  split at found
  · next same =>
    subst same
    rw [Option.map_map] at found
    obtain ⟨entry, isEntry, rfl⟩ := Option.map_eq_some_iff.1 found
    cases entry with
    | fixed =>
      exact .inr (.logical isSort (LogicalType.accepts_retained retains accepted) (.of_nil rfl))
    | _ => exact .inl (by rw [schemaOf?, isEntry]; rfl)
  · exact .inl found

/-- A fixed type is given only a logical type that accepts it. -/
theorem annotate {source : Json} {declaresFixed : Bool} {node : Node} {inner schema : Schema}
    {name : String} {overlay : Except Reason (Option LogicalType)}
    (admissible : registry.Admissible sort)
    (lawful : (NodeLaw.overlays sort).node (.logical source name overlay declaresFixed node))
    (annotated : registry.annotate declaresFixed inner name overlay = .ok (schema, after)) :
    after.Admissible sort := by
  obtain ⟨-, -, rfl⟩ | ⟨known, isKnown, accepted, -, rfl⟩ := annotate_eq_ok.1 annotated
  · exact admissible
  · generalize inner.bare = underlying at accepted
    unfold keepOverlay
    split
    · split
      · exact admissible.setOverlay (lawful known isKnown) accepted
      · exact admissible
    · exact admissible

/-- Admissible registries and schemas meet what walks ask of a condition. -/
theorem condition : Registry.Condition options (.overlays sort) (Admissible sort)
    fun registry schema => schema.Admissible sort registry where
  lasts retains _ := .mono retains
  reference admissible linked := by
    obtain ⟨_, _, rfl⟩ | ⟨_, _, handle, _, _, schemaOf⟩ := reference_eq_ok.1 linked
    · exact .of_nil rfl
    · exact admissible handle _ schemaOf
  array := id
  map := id
  union := .ofBranches
  declared _ _ _ := .of_nil rfl
  slot _ declared filled := by
    have retains := (grows_slot filled).retains
    rw [slot_eq_ok] at filled
    split at filled
    · obtain ⟨base, -, rfl⟩ := filled
      exact .of_nil rfl
    · obtain ⟨rfl, rfl⟩ := filled
      exact declared
  annotate lawful underlying annotated := by
    have retains := retains_annotate annotated
    have bare := underlying.of_subset (Schema.overlays_bare _)
    obtain ⟨-, rfl, -⟩ | ⟨known, isKnown, accepted, rfl, -⟩ := annotate_eq_ok.1 annotated
    · exact bare.mono retains
    · exact (Schema.Admissible.logical (lawful known isKnown) accepted bare).mono retains

/-- Whatever a walk does keeps a registry admissible. -/
theorem invariant : Registry.Invariant options (.overlays sort) (Admissible sort)
    fun registry schema => schema.Admissible sort registry where
  register admissible _ declares registered := admissible.register declares registered
  setFields admissible _ _ :=
    admissible.update (retains_setFields _) fun entry _ => by cases entry <;> rfl
  setProtocol admissible _ _ _ _ :=
    admissible.update (retains_setProtocol _ _) fun entry _ => by cases entry <;> rfl
  slot admissible _ _ _ filled := admissible.slot filled
  annotate admissible lawful _ annotated := admissible.annotate lawful annotated

end Admissible

end Registry

/-! ## Types in entries -/

/-- The type of a slot, as it is declared and as it is represented. -/
def Slot.types (slot : Slot) : List Schema :=
  [slot.declared, slot.underlying]

/-- The types in a message. -/
def Message.types (message : Message) : List Schema :=
  message.request.flatMap (fun field => field.slot.types) ++ message.slot.types ++ message.errors

/-- The types in an entry. -/
def Entry.types : Entry → List Schema
  | .record body | .error body => body.fields.flatMap fun field => field.slot.types
  | .enum _ | .fixed _ => []
  | .protocol body => body.types ++ body.messages.flatMap Message.types
  | .abstractBase base => base.derived

section

variable {options : Options} {law : NodeLaw} {sort : LogicalType → Prop} {registry : Registry}

/-- Every type that a slot gives rise to is as admissible as its declared type. -/
theorem Slot.Filled.admissible {slot : Slot} (filled : slot.Filled options)
    (declared : slot.declared.Admissible sort registry) :
    ∀ type ∈ slot.types, type.Admissible sort registry := by
  refine List.forall_mem_cons.2 ⟨declared, List.forall_mem_singleton.2 ?_⟩
  rw [filled.underlying]
  exact declared.of_subset (Schema.overlays_underlying _)

/-- Every type of a resolved field is admissible. -/
theorem Field.admissible_types {fields : List Field} (resolved : ∀ field ∈ fields,
      field.Resolved options law (fun registry schema => schema.Admissible sort registry)
        registry) :
    ∀ type ∈ fields.flatMap fun field => field.slot.types, type.Admissible sort registry := by
  intro type member
  obtain ⟨field, isField, inside⟩ := List.mem_flatMap.1 member
  have here := resolved field isField
  exact here.filled.admissible here.declared type inside

/-- Every type in a resolved message is admissible. -/
theorem Message.Resolved.admissible {message : Message} (resolved : message.Resolved options law
      (fun registry schema => schema.Admissible sort registry) registry) :
    ∀ type ∈ message.types, type.Admissible sort registry := by
  obtain ⟨handles, same, -⟩ := resolved.errors
  rw [Message.types, List.forall_mem_append, List.forall_mem_append]
  refine ⟨⟨Field.admissible_types resolved.request,
    resolved.filled.admissible resolved.response⟩, ?_⟩
  rw [same]
  refine List.forall_mem_cons.2 ⟨.of_nil rfl, fun type member => ?_⟩
  obtain ⟨handle, -, rfl⟩ := List.mem_map.1 member
  exact .of_nil rfl

/-- Every type in a resolved entry is admissible, and so are the branches of a base. -/
theorem Entry.Resolved.admissible {entry : Entry} (resolved : entry.Resolved options law
      (fun registry schema => schema.Admissible sort registry) registry)
    (grounded : entry.Grounded registry) : ∀ type ∈ entry.types, type.Admissible sort registry := by
  have parts := resolved.parts
  cases entry with
  | record | error => exact Field.admissible_types parts.2
  | enum | fixed => exact List.forall_mem_nil _
  | protocol body =>
    refine List.forall_mem_append.2
      ⟨fun type member => (parts.1 type member).1, fun type member => ?_⟩
    obtain ⟨message, isMessage, inside⟩ := List.mem_flatMap.1 member
    exact (parts.2.1 message isMessage).admissible type inside
  | abstractBase base =>
    -- A base stands for a union of records, which have no logical types.
    intro type member
    have plain := grounded.2 type member
    cases type with
    | primitive | named => exact .of_nil rfl
    | _ => simp [Schema.isRecord, Schema.isNull] at plain

end

/-! ## Runs -/

/-- What an object of a decimal is resolved to is the decimal that it writes. -/
theorem Node.decimal_of_written {options : Options} {around : Option String}
    {registry after : Registry} {members : Members} {type : Json} {schema : Schema}
    (typed : members.get? "type" = some type)
    (named : members.get? "logicalType" = some (.string "decimal"))
    (succeeds : ((ofJson (.object members)).resolve options around).Yields registry schema after) :
    ∃ underlying precision scale, schema = .logical underlying (.decimal precision scale) ∧
      members.Writes (.decimal precision scale) := by
  rw [ofJson_typed typed, named] at succeeds
  obtain ⟨underlying, between, -, annotated⟩ := yields_logical.1 succeeds
  have read : LogicalType.read "decimal" members =
      (LogicalType.readDecimal members).map some := if_pos rfl
  cases decimal : LogicalType.readDecimal members with
  | error reason =>
    rw [read, decimal] at annotated
    cases annotated
  | ok known =>
    obtain ⟨precision, scale, rfl, -⟩ := LogicalType.readDecimal_eq_ok.1 decimal
    rw [decimal] at read
    rw [read] at annotated
    obtain ⟨unknown, -⟩ | ⟨_, ⟨⟩, -, rfl, -⟩ := Registry.annotate_eq_ok.1 annotated
    · cases unknown
    · exact ⟨_, precision, scale, rfl, LogicalType.writes_of_read named read⟩

namespace Resolver

variable {options : Options} {sort : LogicalType → Prop} {calls : List (Json × Option String)}

/-- The condition that carries admissibility along with how entries are resolved. -/
theorem admissibleCondition : Registry.Condition options (.overlays sort)
    (fun registry => registry.Admissible sort ∧ registry.AllResolved options (.overlays sort)
      fun registry schema => schema.Admissible sort registry)
    fun registry schema => schema.Admissible sort registry :=
  Registry.Admissible.condition.weaken fun _ => And.left

/-- Whatever a walk does keeps both of them. -/
theorem admissibleInvariant : Registry.Invariant options (.overlays sort)
    (fun registry => registry.Admissible sort ∧ registry.AllResolved options (.overlays sort)
      fun registry schema => schema.Admissible sort registry)
    fun registry schema => schema.Admissible sort registry :=
  Registry.Admissible.invariant.and
    (Registry.AllResolved.invariant fun retains _ => .mono retains)

/-- Logical types are of the sort that the documents of the calls write. -/
theorem run_admissible (written : ∀ call ∈ calls, ∀ members ∈ call.1.objects, ∀ overlay,
      members.Writes overlay → sort overlay) :
    ((new options).run calls).registry.Admissible sort ∧
      ((new options).run calls).registry.AllResolved options (.overlays sort)
        fun registry schema => schema.Admissible sort registry := by
  have nothing : Registry.empty.AllResolved options (.overlays sort)
      fun registry schema => schema.Admissible sort registry :=
    fun handle _ found => by simp [Registry.empty, Registry.get?] at found
  exact holds_run admissibleCondition admissibleInvariant calls
    (fun call member => Node.obeys_overlays call.1 (written call member))
    ⟨Registry.Admissible.empty, nothing⟩

/-- What a call returns is admissible then and after all calls that follow. -/
theorem admissible_of_returned (written : ∀ call ∈ calls, ∀ members ∈ call.1.objects,
      ∀ overlay, members.Writes overlay → sort overlay) {json : Json}
    (here : ∀ members ∈ json.objects, ∀ overlay, members.Writes overlay → sort overlay)
    {around : Option String} {schema : Schema} {later : Resolver}
    (resolved : ((new options).run calls).resolve json around = (.ok schema, later))
    (more : List (Json × Option String)) :
    schema.Admissible sort (later.run more).registry := by
  have succeeds := yields_of_resolve resolved
  rw [options_run] at succeeds
  have ensured : Resolving.Ensures ((Node.ofJson json).resolve options around)
      ((new options).run calls).registry _ fun schema after => schema.Admissible sort after :=
    (Node.ofJson json).ensures admissibleCondition admissibleInvariant
      (Node.obeys_ownOverlays json) (Node.obeys_overlays json here) (run_admissible written)
  exact (ensured.yields schema later.registry succeeds).mono (later.grows_run more).retains

/-- Wherever a resolver leaves a logical type, some document writes it just so and the type that it
is laid over accepts it; the logical types of fixed types are no exception. A decimal is resolved as
its object writes it, and a reference to a fixed type as the object that declares this type. -/
theorem overlays_admissible (options : Options) (calls : List (Json × Option String)) :
    let resolver := (new options).run calls
    (∀ handle entry, resolver.registry.get? handle = some entry →
      (∀ type ∈ entry.types, type.Admissible (WrittenIn calls) resolver.registry) ∧
      ∀ fixedType overlay, entry = .fixed fixedType → fixedType.overlay = some overlay →
        overlay.Admissible (WrittenIn calls) resolver.registry (.named .fixed handle)) ∧
    (∀ json around schema later, resolver.resolve json around = (.ok schema, later) →
      ∀ more, schema.Admissible (WrittenIn (calls ++ [(json, around)])) (later.run more).registry) ∧
    (∀ moment ∈ (new options).moments calls, ∀ (members : Members) (type : Json),
      moment.node = .ofJson (.object members) → members.get? "type" = some type →
      members.get? "logicalType" = some (.string "decimal") →
      ∃ underlying precision scale, moment.schema = .logical underlying (.decimal precision scale) ∧
        members.Writes (.decimal precision scale)) ∧
    ((new options).moments calls).Pairwise fun first second =>
      ∀ (members : Members) (text : String), first.node = .ofJson (.object members) →
        members.get? "type" = some (.string "fixed") → second.node = .reference text →
        second.schema.bare = first.schema.bare → second.schema = first.schema := by
  intro resolver
  have written : ∀ call ∈ calls, ∀ members ∈ call.1.objects, ∀ overlay,
      members.Writes overlay → WrittenIn calls overlay :=
    fun call member members inside overlay writes => ⟨call, member, members, inside, writes⟩
  obtain ⟨admissible, resolved⟩ : _ ∧ resolver.registry.AllResolved options _ _ :=
    run_admissible written
  have reached : resolver.registry.Reached options := Registry.Reached.empty.run calls
  refine ⟨fun handle entry found => ⟨?_, ?_⟩, ?_, ?_, (new options).moments_agree calls⟩
  · exact (resolved handle entry found).admissible (reached.sound.closed handle entry found)
  · rintro fixedType overlay rfl overlaid
    have schemaOf : resolver.registry.schemaOf? handle =
        some (.logical (.named .fixed handle) overlay) := by
      rw [Registry.schemaOf?, found, Option.map_some, Entry.toSchema, overlaid]
    exact admissible handle _ schemaOf (.named .fixed handle, overlay) List.mem_cons_self
  · intro json around schema later returned more
    refine admissible_of_returned ?_ ?_ returned more
    · intro call member members inside overlay writes
      exact ⟨call, List.mem_append_left _ member, members, inside, writes⟩
    · intro members inside overlay writes
      exact ⟨(json, around), by simp, members, inside, writes⟩
  · intro moment isMoment members type isObject typed named
    obtain ⟨-, around, before, walked⟩ := ((new options).passes calls).of_mem moment isMoment
    rw [isObject] at walked
    exact Node.decimal_of_written typed named walked

/-- The declaration of a fixed type that is a duration. -/
def span : Members :=
  [("type", .string "fixed"), ("name", .string "Span"), ("size", .ofNat 12),
    ("logicalType", .string "duration")]

/-- A decimal that is laid over this type elsewhere. -/
def price : Members :=
  [("type", .string "Span"), ("logicalType", .string "decimal"), ("precision", .ofNat 9)]

/-- Calls after the declaration: the decimal, a record that is refused after its first field refers
to the type, and a union with another reference to it. -/
def spans : List (Json × Option String) :=
  let field (name : String) (type : Json) : Json :=
    .object [("name", .string name), ("type", type)]
  let fields := [field "a" (.string "Span"), field "b" (.string "Missing")]
  [(.object price, some "n"),
    (.object [("type", .string "record"), ("name", .string "n.R"), ("fields", .array fields)], none),
    (.array [.string "null", .string "Span"], some "n")]

/-- Only the object that says otherwise has another logical type over the fixed type. It is resolved
just as it is written, and each reference as the declaration. -/
theorem overlays_admissible_spans :
    let calls := (.object span, some "n") :: spans
    let resolver := (new {}).run calls
    let duration := Schema.logical (.named .fixed 0) .duration
    let decimal := Schema.logical (.named .fixed 0) (.decimal 9 0)
    resolver.registry.names = ["n.Span", "n.R"] ∧
      ((new {}).moments calls).map Moment.schema =
        [duration, duration, decimal, duration, .null, duration,
          .union [.null, duration] duration true] ∧
      LogicalType.duration.Admissible (WrittenIn calls) resolver.registry (.named .fixed 0) ∧
      decimal.Admissible (WrittenIn (calls ++ [(.object price, some "n")])) resolver.registry ∧
      price.Writes (.decimal 9 0) ∧
      ∀ moment ∈ ((new {}).run [(.object span, some "n")]).moments spans,
        moment.node = .reference "Span" → moment.schema.bare = .named .fixed 0 →
        moment.schema = duration := by
  intro calls resolver duration decimal
  obtain ⟨entries, returned, decimals, references⟩ := overlays_admissible {} calls
  refine ⟨by decide +kernel, by decide +kernel, ?_, ?_, ?_, ?_⟩
  · let fixedType : FixedType :=
      { name := ⟨"Span", some "n"⟩, size := 12, overlay := some .duration }
    have found : resolver.registry.get? 0 = some (.fixed fixedType) := by decide +kernel
    exact (entries 0 _ found).2 fixedType .duration rfl rfl
  · have admissible := returned (.object price) (some "n") decimal _
      (resolve_of_toOption (by decide +kernel)) []
    have same : (resolver.resolve (.object price) (some "n")).2.registry = resolver.registry := by
      decide +kernel
    exact same ▸ admissible
  · have isDecimal : (((new {}).run [(.object span, some "n")]).resolve (.object price)
        (some "n")).1.toOption = some decimal := by decide +kernel
    have isMoment := mem_moments_of_resolve [(.object span, some "n")] spans.tail
      (resolve_of_toOption isDecimal)
    obtain ⟨underlying, precision, scale, isDecimal, writes⟩ :=
      decimals _ isMoment price (.string "Span") rfl (by decide) (by decide)
    cases isDecimal
    exact writes
  · intro moment isMoment isReference same
    have isDuration : (((new {}).run []).resolve (.object span) (some "n")).1.toOption =
        some duration := by decide +kernel
    have isDeclared := mem_moments_of_resolve [] [] (resolve_of_toOption isDuration)
    rw [List.nil_append, moments, moments, List.append_nil] at isDeclared
    exact (List.pairwise_append.1 references).2.2 _ isDeclared moment isMoment span "Span" rfl
      (by decide) isReference same

end Resolver

end AvroGraph
