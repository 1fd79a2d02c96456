import AvroGraph.Proofs.DistinctKeys
import AvroGraph.Proofs.Occurrences
import AvroGraph.Proofs.Reading

/-!
# Projections read as they are written

Whatever is projected reads as the schema it is projected from. Each definition that occurs in it
introduces an entry that was not written before, and each reference is to one that was
(`Registry.Neat.reads_write`).
-/

namespace AvroGraph

/-! ## Introductions -/

/-- In occurrences that begin where some entries are written and end where others are, every
definition introduces an entry, and nothing is referred to before. -/
inductive Introduces : List Handle → List Occurrence → List Handle → Prop where
  | nil {written : List Handle} : Introduces written [] written
  | definition {written after : List Handle} {handle : Handle} {occurrences : List Occurrence}
      (fresh : handle ∉ written) (following : Introduces (handle :: written) occurrences after) :
      Introduces written (.definition handle :: occurrences) after
  | reference {written after : List Handle} {handle : Handle} {occurrences : List Occurrence}
      (introduced : handle ∈ written) (following : Introduces written occurrences after) :
      Introduces written (.reference handle :: occurrences) after

namespace Introduces

variable {written between after : List Handle} {occurrences others : List Occurrence}
  {handle : Handle}

/-- Introductions can be put one after the other. -/
theorem append (first : Introduces written occurrences between)
    (second : Introduces between others after) :
    Introduces written (occurrences ++ others) after := by
  induction first with
  | nil => exact second
  | definition fresh _ ih => exact .definition fresh (ih second)
  | reference introduced _ ih => exact .reference introduced (ih second)

/-- In the end, what was written before and what is defined is written. -/
theorem mem_iff (introduces : Introduces written occurrences after) :
    handle ∈ after ↔ handle ∈ written ∨ .definition handle ∈ occurrences := by
  induction introduces with
  | nil => simp
  | definition _ _ ih => simp [ih, or_assoc, or_left_comm]
  | reference _ _ ih => simp [ih]

/-- What is written is not defined again. -/
theorem count_of_mem (introduces : Introduces written occurrences after)
    (member : handle ∈ written) : occurrences.count (.definition handle) = 0 := by
  induction introduces with
  | nil => rfl
  | @definition written _ other _ fresh _ ih =>
    have different : other ≠ handle := fun same => fresh (same ▸ member)
    simp [different, ih (List.mem_cons_of_mem other member)]
  | reference _ _ ih => simp [ih member]

/-- What is defined is defined once. -/
theorem count_of_definition (introduces : Introduces written occurrences after)
    (defined : .definition handle ∈ occurrences) : occurrences.count (.definition handle) = 1 := by
  induction introduces with
  | nil => cases defined
  | @definition written _ other _ _ following ih =>
    by_cases same : other = handle
    · subst same
      rw [List.count_cons_self, following.count_of_mem List.mem_cons_self]
    · have later := (List.mem_cons.1 defined).resolve_left
        fun isFirst => same (Occurrence.definition.inj isFirst).symm
      simp [same, ih later]
  | reference _ _ ih => simpa [List.count_cons] using ih (by simpa using defined)

/-- What is referred to has been introduced before. -/
theorem before_reference {early late : List Occurrence}
    (introduces : Introduces written (early ++ .reference handle :: late) after) :
    handle ∈ written ∨ .definition handle ∈ early := by
  induction early generalizing written with
  | nil =>
    cases introduces with
    | reference introduced _ => exact .inl introduced
  | cons first rest ih =>
    cases introduces with
    | definition _ following =>
      rcases ih following with introduced | defined
      · rcases List.mem_cons.1 introduced with rfl | introduced
        · exact .inr List.mem_cons_self
        · exact .inl introduced
      · exact .inr (List.mem_cons_of_mem _ defined)
    | reference _ following => exact (ih following).imp_right (List.mem_cons_of_mem _)

end Introduces

/-! ## Members that do not get in the way -/

namespace Members

variable {members additions : Members} {key : String} {read : String → Json → List Json}

/-- The types in each part come in order. -/
theorem inOrder_append (first second : Members) :
    Members.inOrder read (first ++ second) = first.inOrder read ++ second.inOrder read :=
  List.flatMap_append

/-- Where no member has types in it, there are none. -/
theorem inOrder_eq_nil (silent : ∀ member ∈ members, read member.1 member.2 = []) :
    members.inOrder read = [] :=
  List.flatMap_eq_nil_iff.2 silent

/-- What has no types in it may be inserted anywhere. -/
theorem inOrder_insert {value : Json} (silent : ∀ json, read key json = []) :
    (members.insert key value).inOrder read = members.inOrder read := by
  induction members with
  | nil => simp [insert, inOrder, silent]
  | cons member rest ih =>
    obtain ⟨name, old⟩ := member
    rw [insert]
    split
    · next same => simp [inOrder, same, silent]
    · exact congrArg (read name old ++ ·) ih

/-- Additions at keys where nothing is read leave alone what is. -/
theorem inOrder_extend (silent : ∀ addition ∈ additions, ∀ json, read addition.1 json = []) :
    (members.extend additions).inOrder read = members.inOrder read := by
  induction additions generalizing members with
  | nil => rfl
  | cons addition rest ih =>
    rw [List.forall_mem_cons] at silent
    exact (ih silent.2).trans (inOrder_insert silent.1)

end Members

/-- Members that are added to a definition without any meaning for what is defined. -/
def Members.ClearOf (additions : Members) (kind : NamedKind) : Prop :=
  ∀ addition ∈ additions, addition.1 ∉ kind.definingKeys

namespace Members.ClearOf

variable {members additions : Members} {kind : NamedKind} {around : Option String} {entry : Entry}

/-- Members without meaning leave alone what is found at a key that has one. -/
theorem get?_extend {key : String} (clear : additions.ClearOf kind)
    (isDefining : key ∈ kind.definingKeys) :
    (members.extend additions).get? key = members.get? key :=
  get?_extend_of_clear fun addition member same => clear addition member (same ▸ isDefining)

/-- Members without meaning leave alone what is defined. -/
theorem definedBy (clear : additions.ClearOf entry.kind)
    (defined : entry.DefinedBy around members) :
    entry.DefinedBy around (members.extend additions) :=
  defined.congr fun _ => clear.get?_extend

/-- Members without meaning leave alone which types there are. -/
theorem inOrder_extend (clear : additions.ClearOf kind) :
    (members.extend additions).inOrder kind.typesAt = members.inOrder kind.typesAt :=
  Members.inOrder_extend fun addition member => NamedKind.typesAt_eq_nil (clear addition member)

end Members.ClearOf

/-- The keys of logical types. -/
def overlayKeys : List String := ["logicalType", "precision", "scale"]

/-- A logical type is written at its own keys. -/
theorem LogicalType.key_of_mem_members {overlay : LogicalType} :
    ∀ member ∈ overlay.members, member.1 ∈ overlayKeys := by
  cases overlay with
  | decimal precision scale => by_cases zero : scale = 0 <;> simp [members, overlayKeys, zero]
  | _ => simp [members, overlayKeys]

/-- A logical type leaves alone what stands at other keys. -/
theorem LogicalType.get?_extend {overlay : LogicalType} {members : Members} {key : String}
    (other : key ∉ overlayKeys) :
    (members.extend overlay.members).get? key = members.get? key :=
  Members.get?_extend_of_clear fun _ member same =>
    other (same ▸ LogicalType.key_of_mem_members _ member)

/-- A logical type is not found at other keys. -/
theorem LogicalType.get?_members {overlay : LogicalType} {key : String}
    (other : key ∉ overlayKeys) : overlay.members.get? key = none := by
  rw [Members.get?_eq_none]
  intro isKey
  obtain ⟨member, isMember, rfl⟩ := List.mem_map.1 isKey
  exact other (key_of_mem_members member isMember)

/-- A logical type has no meaning for what is defined. -/
theorem LogicalType.clearOf (overlay : LogicalType) (kind : NamedKind) :
    overlay.members.ClearOf kind := by
  intro member isMember isDefining
  have isKey := key_of_mem_members member isMember
  simp only [overlayKeys, List.mem_cons, List.not_mem_nil, or_false] at isKey
  cases kind <;> rcases isKey with same | same | same <;>
    simp [same, NamedKind.definingKeys] at isDefining

variable {registry : Registry}

/-- An object reads the same with a logical type laid over it. -/
theorem Registry.Reads.overlay {overlay : LogicalType} {around : Option String} {schema : Schema}
    {members : Members} {occurrences : List Occurrence} :
    registry.Reads around schema (.object members) occurrences →
      registry.Reads around schema (.object (members.extend overlay.members)) occurrences
  | .definition found defined inside => by
    refine .definition found ((overlay.clearOf _).definedBy defined) ?_
    rwa [(overlay.clearOf _).inOrder_extend]
  | .array typed present inside =>
    .array ((LogicalType.get?_extend (by simp [overlayKeys])).trans typed)
      ((LogicalType.get?_extend (by simp [overlayKeys])).trans present) inside
  | .map typed present inside =>
    .map ((LogicalType.get?_extend (by simp [overlayKeys])).trans typed)
      ((LogicalType.get?_extend (by simp [overlayKeys])).trans present) inside
  | .laid inside => .laid inside.overlay
  | .wrapped typed plain unnamed inside =>
    .wrapped ((LogicalType.get?_extend (by simp [overlayKeys])).trans typed) plain
      ⟨(LogicalType.get?_extend (by simp [overlayKeys])).trans unnamed.1,
        (LogicalType.get?_extend (by simp [overlayKeys])).trans unnamed.2⟩ inside

/-- A logical type over what reads as its type reads as the logical type. -/
theorem Registry.Reads.project {overlay : LogicalType} {around : Option String} {schema : Schema}
    {json : Json} {occurrences : List Occurrence}
    (reads : registry.Reads around schema json occurrences) :
    registry.Reads around (.logical schema overlay) (overlay.project json) occurrences := by
  have wrapped (plain : json.object? = none) :
      registry.Reads around (.logical schema overlay)
        (.object (Members.extend [("type", json)] overlay.members)) occurrences := by
    refine .wrapped ?_ plain ⟨?_, ?_⟩ reads
    all_goals exact LogicalType.get?_extend (by simp [overlayKeys])
  cases json with
  | object members => exact .laid reads.overlay
  | _ => exact wrapped rfl

/-! ## Tidy parts -/

/-- The extension properties of a message and its parameters are tidy. -/
structure Message.Tidy (message : Message) : Prop where
  request : ∀ field ∈ message.request, field.properties.Tidy Members.reserved
  properties : message.properties.Tidy Members.reservedOfMessages

/-- The extension properties of the parts of an entry are tidy, and messages have distinct names. -/
def Entry.TidyInside : Entry → Prop
  | .record body | .error body => ∀ field ∈ body.fields, field.properties.Tidy Members.reserved
  | .protocol body => (body.messages.map Message.name).Nodup ∧
      ∀ message ∈ body.messages, message.Tidy
  | .enum _ | .fixed _ | .abstractBase _ => True

section

variable {options : Options} {meets : Registry → Schema → Prop}

/-- A resolved field is tidy if its node was keyed. -/
theorem Field.Resolved.tidy {field : Field}
    (resolved : field.Resolved options .keyed meets registry) :
    field.properties.Tidy Members.reserved :=
  have ⟨_, _, _, lawful⟩ := resolved.lawful
  lawful _ rfl

/-- A resolved message is tidy if its node was keyed. -/
theorem Message.Resolved.tidy {message : Message}
    (resolved : message.Resolved options .keyed meets registry) : message.Tidy where
  request field member := (resolved.request field member).tidy
  properties :=
    have ⟨_, _, _, _, _, _, lawful⟩ := resolved.lawful
    lawful _ rfl

/-- The fields and messages of a keyed registry are tidy. -/
theorem Registry.Keyed.tidyInside (keyed : registry.Keyed options) {handle : Handle}
    {entry : Entry} (found : registry.get? handle = some entry) : entry.TidyInside := by
  have parts := (keyed.resolved handle entry found).parts
  cases entry with
  | record body | error body => exact fun field member => (parts.2 field member).tidy
  | protocol body =>
    exact ⟨keyed.distinct_messages found, fun message member => (parts.2.1 message member).tidy⟩
  | enum | fixed | abstractBase => trivial

end

/-! ## What is written of an entry -/

section

variable {define : Define} {around : Option String} {written after : List Handle} {json : Json}
  {jsons : List Json}

/-- Fields are written with their names and their types. -/
theorem reads_projectFields {fields : List Field}
    (tidy : ∀ field ∈ fields, field.properties.Tidy Members.reserved)
    (writes : (projectFields registry define around fields).Yields written jsons after) :
    (Json.array jsons).fieldNames = writtenNames fields ∧
      (Schema.projectEach registry define around (fields.map Field.declared)).Yields written
        (Json.array jsons).fieldTypes after := by
  induction fields generalizing written jsons with
  | nil =>
    obtain ⟨rfl, rfl⟩ := yields_projectFields_nil.1 writes
    exact ⟨rfl, Schema.yields_projectEach_nil.2 ⟨rfl, rfl⟩⟩
  | cons field rest ih =>
    obtain ⟨type, between, others, writesType, writesRest, rfl⟩ :=
      yields_projectFields_cons.1 writes
    rw [List.forall_mem_cons] at tidy
    obtain ⟨names, writesTypes⟩ := ih tidy.2 writesRest
    obtain ⟨members, source, keys, isName, isType, -⟩ := field.exists_project type
    rw [← tidy.1.get?_extend keys (by simp [Members.reserved])] at isName isType
    refine ⟨?_, ?_⟩
    · simpa [Json.fieldNames, Json.elements, Json.array?, writtenNames, Json.get?, source,
        Json.object?, isName] using names
    · have first : (field.project type).get? "type" = some type := by
        simpa [Json.get?, source, Json.object?] using isType
      have types : (Json.array (field.project type :: others)).fieldTypes =
          type :: (Json.array others).fieldTypes := by
        simp [Json.fieldTypes, Json.elements, Json.array?, first]
      rw [types]
      exact Schema.yields_projectEach_cons.2 ⟨type, between, _, writesType, writesTypes, rfl⟩

/-- A message is written with its parameters, its response and its errors in order. -/
theorem Message.Tidy.project {message : Message} (tidy : message.Tidy) (request : List Json)
    (response : Json) (errors : List Json) :
    (message.project request response errors).get? "request" = some (.array request) ∧
      (message.project request response errors).messageTypes =
        (Json.array request).fieldTypes ++ response :: errors := by
  obtain ⟨members, source, keys, -, isRequest, -⟩ := message.exists_project request response errors
  rw [← tidy.properties.get?_extend keys (by simp [Members.reservedOfMessages])] at isRequest
  refine ⟨by simpa [Json.get?, source, Json.object?] using isRequest, ?_⟩
  have silent : ∀ property ∈ message.properties,
      ∀ json, Json.messageTypesAt property.1 json = [] := by
    intro property member json
    have unreserved := tidy.properties.unreserved property member
    unfold Json.messageTypesAt
    split <;> simp_all [Members.reservedOfMessages]
  rw [Message.project, Json.messageTypes, Json.object?, Option.getD_some,
    Members.inOrder_extend silent]
  cases message.doc <;> cases errors <;> cases message.oneWay <;>
    simp [docMembers, Members.inOrder, Json.messageTypesAt, Json.elements, Json.array?]

/-- Messages are written with their names. -/
theorem reads_projectMessages {messages : List Message} {members : Members}
    (tidy : ∀ message ∈ messages, message.Tidy)
    (writes : (projectMessages registry define around messages).Yields written members after) :
    (members.map fun message => (message.1, (message.2.get? "request").map Json.fieldNames)) =
        (messages.map fun message => (message.name, some (writtenNames message.request))) ∧
      (Schema.projectEach registry define around (messages.flatMap Message.schemas)).Yields written
        (members.flatMap fun message => message.2.messageTypes) after := by
  induction messages generalizing written members with
  | nil =>
    obtain ⟨rfl, rfl⟩ := yields_projectMessages_nil.1 writes
    exact ⟨rfl, Schema.yields_projectEach_nil.2 ⟨rfl, rfl⟩⟩
  | cons message rest ih =>
    obtain ⟨request, asked, response, answered, errors, failed, others, asks, answers, fails,
      writesRest, rfl⟩ := yields_projectMessages_cons.1 writes
    rw [List.forall_mem_cons] at tidy
    obtain ⟨names, writesTypes⟩ := ih tidy.2 writesRest
    obtain ⟨parameters, writesRequest⟩ := reads_projectFields tidy.1.request asks
    obtain ⟨isRequest, types⟩ := tidy.1.project request response errors
    refine ⟨?_, ?_⟩
    · rw [List.map_cons, List.map_cons, names, isRequest, Option.map_some, parameters]
    · have writesMessage := Schema.yields_projectEach_append writesRequest
        (Schema.yields_projectEach_cons.2 ⟨response, answered, errors, answers, fails, rfl⟩)
      rw [List.flatMap_cons, List.flatMap_cons, types]
      exact Schema.yields_projectEach_append writesMessage writesTypes

/-- A declaration begins with its kind and its name. -/
theorem heads_headMembers {kind : NamedKind} {name : Name} {doc : Option String}
    {aliases : List String} {rest : Members} (absent : rest.get? "namespace" = none) :
    Members.Heads (headMembers kind name around doc aliases ++ rest) kind name around := by
  constructor <;> simp [headMembers, Members.get?_append, Members.get?_cons, absent]

/-- No types stand at the beginning of a declaration. -/
theorem inOrder_headMembers {kind written : NamedKind} {name : Name} {doc : Option String}
    {aliases : List String} :
    (headMembers written name around doc aliases).inOrder kind.typesAt = [] := by
  refine Members.inOrder_eq_nil fun member isMember => ?_
  simp only [headMembers, List.mem_append, List.mem_cons, List.not_mem_nil, or_false] at isMember
  have isKey : member.1 ∈ ["type", "name", "namespace", "doc", "aliases"] := by
    rcases isMember with (((isType | isName) | isSpace) | isDoc) | isAlias
    · simp [isType]
    · simp [isName]
    · simp [Name.key_of_mem_spaceMembers isSpace]
    · simp [key_of_mem_docMembers isDoc]
    · simp [key_of_mem_aliasMembers isAlias]
  unfold NamedKind.typesAt
  split <;> simp_all

/-- Extension properties of a declaration say nothing about what is defined. -/
theorem Members.Tidy.clearOf {properties : Members} {kind : NamedKind}
    (tidy : properties.Tidy Members.reserved) (isTyped : kind ≠ .protocol) :
    properties.ClearOf kind := by
  intro property member isDefining
  refine tidy.unreserved property member ?_
  cases kind <;> simp_all [NamedKind.definingKeys, Members.reserved] <;> grind

/-- A record or an error is written with its fields. -/
theorem Record.reads_project (isError : Bool) {body : Record}
    (tidy : body.properties.Tidy Members.reserved) :
    ∃ members : Members, body.project (.ofRecord isError) around jsons = .object members ∧
      members.Heads (.ofRecord isError) body.name around ∧
      members.get? "fields" = some (.array jsons) ∧
      members.inOrder (NamedKind.ofRecord isError).typesAt = (Json.array jsons).fieldTypes := by
  have clear : body.properties.ClearOf (.ofRecord isError) := by
    refine tidy.clearOf ?_
    cases isError <;> simp [NamedKind.ofRecord]
  obtain ⟨members, source, declare, -, isFields⟩ :=
    Record.exists_project (.ofRecord isError) around jsons tidy
  refine ⟨members, source, ⟨declare.type, declare.named, declare.space⟩, isFields, ?_⟩
  cases source
  rw [clear.inOrder_extend, Members.inOrder_append, inOrder_headMembers]
  cases isError <;> simp [Members.inOrder, NamedKind.typesAt, NamedKind.ofRecord]

/-- An enum is written with its symbols and its default, and without types. -/
theorem Enumeration.reads_project {enumeration : Enumeration}
    (tidy : enumeration.properties.Tidy Members.reserved) :
    ∃ members : Members, enumeration.project around = .object members ∧
      (Entry.enum enumeration).DefinedBy around members ∧
      members.inOrder NamedKind.enum.typesAt = [] := by
  have clear : enumeration.properties.ClearOf .enum := tidy.clearOf (by simp)
  refine ⟨_, rfl, clear.definedBy ?_, ?_⟩
  · rw [List.append_assoc]
    refine ⟨heads_headMembers ?_, ?_, ?_⟩ <;> cases enumeration.default <;>
      simp [headMembers, Members.get?_append, Members.get?_cons]
  · rw [clear.inOrder_extend, List.append_assoc, Members.inOrder_append, inOrder_headMembers]
    cases enumeration.default <;> simp [Members.inOrder, NamedKind.typesAt]

/-- A fixed type is written with its size, and without types. -/
theorem FixedType.reads_project {fixedType : FixedType}
    (tidy : fixedType.properties.Tidy Members.reserved) :
    ∃ members : Members, fixedType.project around = .object members ∧
      (Entry.fixed fixedType).DefinedBy around members ∧
      members.inOrder NamedKind.fixed.typesAt = [] := by
  have clear : fixedType.properties.ClearOf .fixed := tidy.clearOf (by simp)
  refine ⟨_, rfl, clear.definedBy ?_, ?_⟩
  · rw [List.append_assoc]
    refine ⟨heads_headMembers ?_, ?_⟩
    · cases fixedType.overlay <;>
        simp [Members.get?_cons, LogicalType.get?_members, overlayKeys]
    · simp [headMembers, Members.get?_append, Members.get?_cons]
  · rw [clear.inOrder_extend, List.append_assoc, Members.inOrder_append, inOrder_headMembers]
    refine Members.inOrder_eq_nil fun member _ => ?_
    simp [NamedKind.typesAt]

/-- The head of a protocol, before its types and messages. -/
theorem inOrder_protocolHead {name : Name} {doc : Option String} :
    Members.inOrder NamedKind.protocol.typesAt ([("protocol", Json.string name.localName)] ++
      name.spaceMembers around ++ docMembers doc) = [] := by
  refine Members.inOrder_eq_nil fun member isMember => ?_
  simp only [List.mem_append, List.mem_singleton] at isMember
  rcases isMember with (isProtocol | isSpace) | isDoc
  · simp [isProtocol, NamedKind.typesAt]
  · simp [Name.key_of_mem_spaceMembers isSpace, NamedKind.typesAt]
  · simp [key_of_mem_docMembers isDoc, NamedKind.typesAt]

/-- A protocol is written with its types and then with its messages, if these have distinct
names. -/
theorem Protocol.reads_project {body : Protocol} {messages : Members}
    (tidy : body.properties.Tidy Members.reservedOfProtocols)
    (distinct : (messages.map Prod.fst).Nodup) (sameLength : jsons.length = body.types.length)
    (names : (messages.map fun message =>
        (message.1, (message.2.get? "request").map Json.fieldNames)) =
      body.messages.map fun message => (message.name, some (writtenNames message.request))) :
    ∃ members : Members, body.project around jsons messages = .object members ∧
      (Entry.protocol body).DefinedBy around members ∧
      members.inOrder NamedKind.protocol.typesAt =
        jsons ++ messages.flatMap fun message => message.2.messageTypes := by
  have inOrder : Members.extend [] messages = messages := Members.extend_nil distinct
  have clear : body.properties.ClearOf .protocol := by
    intro property member isDefining
    refine tidy.unreserved property member ?_
    simp_all [NamedKind.definingKeys, Members.reservedOfProtocols, Members.reserved]
    grind
  refine ⟨_, rfl, clear.definedBy ⟨?_, ?_, ?_, ?_⟩, ?_⟩
  · simp [Members.get?_cons]
  · simp [Members.get?_append, Members.get?_cons]
  · simp [Members.get?_append, Members.get?_cons, Json.elements, Json.array?, sameLength]
  · simpa [Members.get?_append, Members.get?_cons, Json.object?, inOrder] using names
  · rw [clear.inOrder_extend, inOrder, Members.inOrder_append, inOrder_protocolHead]
    simp [Members.inOrder, NamedKind.typesAt, Json.elements, Json.array?, Json.object?]

/-- An entry that is written in full is defined, and the types in it are written in order. -/
theorem Entry.reads_project {entry : Entry} (tidy : entry.Tidy) (inside : entry.TidyInside)
    (isDeclared : entry.isAbstractBase = false)
    (writes : (entry.project registry define around).Yields written json after) :
    ∃ members : Members, json = .object members ∧ entry.DefinedBy around members ∧
      (Schema.projectEach registry define entry.name.space entry.schemas).Yields written
        (members.inOrder entry.kind.typesAt) after := by
  cases entry with
  | record body =>
    obtain ⟨fields, writesFields, rfl⟩ := (yields_record false).1 writes
    obtain ⟨names, writesTypes⟩ := reads_projectFields inside writesFields
    obtain ⟨members, source, heads, isFields, types⟩ := Record.reads_project false tidy
    refine ⟨members, source, ⟨heads, by rw [isFields, Option.map_some, names]⟩, ?_⟩
    exact types ▸ writesTypes
  | error body =>
    obtain ⟨fields, writesFields, rfl⟩ := (yields_record true).1 writes
    obtain ⟨names, writesTypes⟩ := reads_projectFields inside writesFields
    obtain ⟨members, source, heads, isFields, types⟩ := Record.reads_project true tidy
    refine ⟨members, source, ⟨heads, by rw [isFields, Option.map_some, names]⟩, ?_⟩
    exact types ▸ writesTypes
  | enum enumeration =>
    obtain ⟨rfl, rfl⟩ := yields_enum.1 writes
    obtain ⟨members, source, defined, types⟩ := Enumeration.reads_project tidy
    exact ⟨members, source, defined, Schema.yields_projectEach_nil.2 ⟨types, rfl⟩⟩
  | fixed fixedType =>
    obtain ⟨rfl, rfl⟩ := yields_fixed.1 writes
    obtain ⟨members, source, defined, types⟩ := FixedType.reads_project tidy
    exact ⟨members, source, defined, Schema.yields_projectEach_nil.2 ⟨types, rfl⟩⟩
  | protocol body =>
    obtain ⟨types, typed, messages, writesTypes, writesMessages, rfl⟩ := yields_protocol.1 writes
    obtain ⟨names, writesMore⟩ := reads_projectMessages inside.2 writesMessages
    obtain ⟨members, source, defined, isTypes⟩ := Protocol.reads_project tidy
      (keys_projectMessages writesMessages ▸ inside.1) (Schema.length_of_projectEach writesTypes)
      names
    refine ⟨members, source, defined, ?_⟩
    exact isTypes ▸ Schema.yields_projectEach_append writesTypes writesMore
  | abstractBase => cases isDeclared

end

/-! ## What is written of a schema -/

/-- Whatever is written at a handle reads as a schema there, and introduces what is written. -/
def Define.Reads (define : Define) (registry : Registry) : Prop :=
  ∀ kind handle around written json after, (define handle around).Yields written json after →
    ∃ occurrences, registry.Reads around (.named kind handle) json occurrences ∧
      Introduces written occurrences after

section

variable {define : Define}

mutual

/-- A schema that is written reads as that schema. -/
theorem Schema.reads (reads : define.Reads registry) {around : Option String}
    {written after : List Handle} {json : Json} : (schema : Schema) →
      (schema.project registry define around).Yields written json after →
      ∃ occurrences, registry.Reads around schema json occurrences ∧
        Introduces written occurrences after
  | .primitive _, writes => by
    obtain ⟨rfl, rfl⟩ := yields_primitive.1 writes
    exact ⟨[], .primitive, .nil⟩
  | .named kind handle, writes => reads kind handle _ _ _ _ (yields_named.1 writes)
  | .array items, writes => by
    obtain ⟨inner, writesItems, rfl⟩ := yields_array.1 writes
    obtain ⟨occurrences, inside, introduces⟩ := items.reads reads writesItems
    exact ⟨occurrences, .array rfl rfl inside, introduces⟩
  | .map values, writes => by
    obtain ⟨inner, writesValues, rfl⟩ := yields_map.1 writes
    obtain ⟨occurrences, inside, introduces⟩ := values.reads reads writesValues
    exact ⟨occurrences, .map rfl rfl inside, introduces⟩
  | .union branches _ _, writes => by
    obtain ⟨jsons, writesEach, rfl⟩ := yields_union.1 writes
    obtain ⟨occurrences, inside, introduces⟩ :=
      Schema.reads_projectEach reads branches writesEach
    exact ⟨occurrences, .union inside, introduces⟩
  | .logical underlying overlay, writes => by
    obtain ⟨inner, writesInner, rfl⟩ := yields_logical.1 writes
    obtain ⟨occurrences, inside, introduces⟩ := underlying.reads reads writesInner
    refine ⟨occurrences, ?_, introduces⟩
    split
    · exact .laid inside
    · exact inside.project
  | .boxed, writes => absurd writes yields_boxed

/-- Schemas in a row that are written read as those schemas. -/
theorem Schema.reads_projectEach (reads : define.Reads registry) {around : Option String}
    {written after : List Handle} {jsons : List Json} : (schemas : List Schema) →
      (projectEach registry define around schemas).Yields written jsons after →
      ∃ occurrences, registry.ReadsEach around schemas jsons occurrences ∧
        Introduces written occurrences after
  | [], writes => by
    obtain ⟨rfl, rfl⟩ := yields_projectEach_nil.1 writes
    exact ⟨[], .nil, .nil⟩
  | schema :: rest, writes => by
    obtain ⟨first, between, others, writesFirst, writesRest, rfl⟩ :=
      yields_projectEach_cons.1 writes
    obtain ⟨occurrences, isFirst, introduces⟩ := schema.reads reads writesFirst
    obtain ⟨more, following, introducesMore⟩ := Schema.reads_projectEach reads rest writesRest
    exact ⟨_, .cons isFirst following, introduces.append introducesMore⟩

end

end

namespace Registry

/-- The extension properties of all entries and of their parts are tidy. -/
structure Neat (registry : Registry) : Prop where
  tidy : ∀ handle entry, registry.get? handle = some entry → entry.Tidy
  inside : ∀ handle entry, registry.get? handle = some entry → entry.TidyInside

/-- A keyed registry is neat. -/
theorem Keyed.neat {options : Options} (keyed : registry.Keyed options) : registry.Neat where
  tidy _ _ := keyed.tidy
  inside _ _ := keyed.tidyInside

/-- What is written at a handle is a definition the first time and a reference from then on; a base
is written as its branches. -/
theorem Neat.reads_defineWith (neat : registry.Neat) {define : Define}
    (reads : define.Reads registry) : Define.Reads (registry.defineWith define) registry := by
  intro kind handle around written json after writes
  obtain ⟨entry, found, writesEntry⟩ := yields_defineWith.1 writes
  split at writesEntry
  · cases entry with
    | abstractBase base =>
      obtain ⟨jsons, writesEach, rfl⟩ := Entry.yields_abstractBase.1 writesEntry
      obtain ⟨occurrences, inside, introduces⟩ := Schema.reads_projectEach reads _ writesEach
      exact ⟨occurrences, .base found inside, introduces⟩
    | _ => contradiction
  · next isBase =>
    have isDeclared : entry.isAbstractBase = false := Bool.eq_false_iff.2 isBase
    split at writesEntry
    · next introduced =>
      obtain ⟨rfl, rfl⟩ := writesEntry
      exact ⟨_, .reference found isDeclared rfl, .reference introduced .nil⟩
    · next fresh =>
      obtain ⟨members, rfl, defined, writesEach⟩ := entry.reads_project
        (neat.tidy handle entry found) (neat.inside handle entry found) isDeclared writesEntry
      obtain ⟨occurrences, inside, introduces⟩ := Schema.reads_projectEach reads _ writesEach
      exact ⟨_, .definition found defined inside, .definition fresh introduces⟩

/-- What is written of an entry reads as the entry. -/
theorem Neat.reads_define (neat : registry.Neat) (depth : Nat) :
    (registry.define depth).Reads registry := by
  induction depth with
  | zero => exact fun _ _ _ _ _ _ writes => absurd writes yields_define_zero
  | succ depth ih => exact neat.reads_defineWith ih

/-- What a schema is written as reads as the schema. -/
theorem Neat.reads_write (neat : registry.Neat) {schema : Schema} {around : Option String}
    {written after : List Handle} {json : Json}
    (writes : (registry.write schema around).Yields written json after) :
    ∃ occurrences, registry.Reads around schema json occurrences ∧
      Introduces written occurrences after :=
  schema.reads (neat.reads_define _) writes

end Registry

end AvroGraph
