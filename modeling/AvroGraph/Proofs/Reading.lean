import AvroGraph.Proofs.NameText
import AvroGraph.Proofs.NodeLaw
import AvroGraph.Proofs.Rewritten
import AvroGraph.Proofs.Walk

/-!
# Reading what is written

What the objects that declarations, fields and messages are written as are classified as, given
how their parts are. For each of them one lemma says that classification finds everything that
was written: the heading, the details and the parts.
-/

namespace AvroGraph

section

variable {key : String} {members : Members}

/-- A text that may be absent is read where it is written if it is there. -/
theorem Members.optionalString_eq {text : Option String}
    (written : members.get? key = text.map Json.string) :
    members.optionalString key = .ok text := by
  rw [optionalString, written]
  cases text <;> rfl

/-- What texts are written as, unless there are none. -/
def writtenTexts : List String → Option Json
  | [] => none
  | texts => some (.ofStrings texts)

/-- Texts are read back from the strings that they are written as. -/
theorem mapM_string? (texts : List String) : (texts.map Json.string).mapM Json.string? = some texts := by
  induction texts with
  | nil => rfl
  | cons text rest ih => simp [Json.string?, ih]

/-- Texts that are written at a key are read there. -/
theorem Members.stringList_eq {texts : List String}
    (written : members.get? key = writtenTexts texts) : members.stringList key = .ok texts := by
  rw [stringList, written]
  cases texts with
  | nil => rfl
  | cons text rest => simp only [writtenTexts, Json.ofStrings, mapM_string?]

/-- Documentation stands at its key, if there is any. -/
@[simp]
theorem get?_docMembers (doc : Option String) :
    Members.get? (docMembers doc) key = if "doc" = key then doc.map .string else none := by
  cases doc <;> simp [docMembers, Members.get?_cons]

/-- Aliases stand at their key, if there are any. -/
@[simp]
theorem get?_aliasMembers (aliases : List String) :
    Members.get? (aliasMembers aliases) key =
      if "aliases" = key then writtenTexts aliases else none := by
  cases aliases <;> simp [aliasMembers, writtenTexts, Members.get?_cons]

/-- A namespace stands at its key, if it differs from the one around. -/
@[simp]
theorem Name.get?_spaceMembers (name : Name) (around : Option String) :
    Members.get? (name.spaceMembers around) key =
      if "namespace" = key then (name.spaceBeside around).map .string else none := by
  obtain ⟨localName, space⟩ := name
  cases space with
  | none => cases around <;> simp [spaceMembers, spaceBeside]
  | some space =>
    by_cases same : around = some space
    · simp [spaceMembers, spaceBeside, same]
    · simp [spaceMembers, spaceBeside, same, Ne.symm same, Members.get?_cons]

/-- Documentation is written at its key alone. -/
theorem key_of_mem_docMembers {doc : Option String} {member : String × Json}
    (isMember : member ∈ docMembers doc) : member.1 = "doc" := by
  cases doc with
  | none => cases isMember
  | some doc => rw [List.mem_singleton.1 isMember]

/-- Aliases are written at their key alone. -/
theorem key_of_mem_aliasMembers {aliases : List String} {member : String × Json}
    (isMember : member ∈ aliasMembers aliases) : member.1 = "aliases" := by
  cases aliases with
  | nil => cases isMember
  | cons => rw [List.mem_singleton.1 isMember]

/-- A namespace is written at its key alone. -/
theorem Name.key_of_mem_spaceMembers {name : Name} {around : Option String}
    {member : String × Json} (isMember : member ∈ name.spaceMembers around) :
    member.1 = "namespace" := by
  rw [spaceMembers] at isMember
  split at isMember
  · split at isMember
    · cases isMember
    · rw [List.mem_singleton.1 isMember]
  · cases isMember

end

/-! ## Heads of declarations -/

/-- What the members of a declaration say about its head. -/
structure Members.Declare (members : Members) (kind : NamedKind) (name : Name)
    (around : Option String) (details : Details) : Prop where
  type : members.get? "type" = some (.string kind.keyword)
  named : members.get? "name" = some (.string name.localName)
  space : members.get? "namespace" = (name.spaceBeside around).map .string
  details : Details.ofMembers members = .ok details

/-- The keys of declarations that do not belong to the head. -/
def bodyKeys : List String := ["fields", "size", "symbols", "default", "logicalType"]

section

variable {kind : NamedKind} {name : Name} {around doc : Option String} {aliases : List String}
  {rest properties members : Members} {details : Details} {key : String}

/-- A declaration is written at reserved keys. -/
theorem reserved_of_mem_declaration (body : ∀ member ∈ rest, member.1 ∈ bodyKeys) :
    ∀ member ∈ headMembers kind name around doc aliases ++ rest, member.1 ∈ Members.reserved := by
  intro member isMember
  simp only [headMembers, List.mem_append, List.mem_cons, List.not_mem_nil, or_false] at isMember
  rcases isMember with ((((isHead | isHead) | isSpace) | isDoc) | isAlias) | isBody
  · simp [Members.reserved, isHead]
  · simp [Members.reserved, isHead]
  · simp [Members.reserved, Name.key_of_mem_spaceMembers isSpace]
  · simp [Members.reserved, key_of_mem_docMembers isDoc]
  · simp [Members.reserved, key_of_mem_aliasMembers isAlias]
  · have known := body member isBody
    simp only [bodyKeys, List.mem_cons, List.not_mem_nil, or_false] at known
    rcases known with same | same | same | same | same <;> simp [Members.reserved, same]

/-- What stands at a key of the body is not hidden by the head or by properties. -/
theorem get?_bodyKey (body : ∀ member ∈ rest, member.1 ∈ bodyKeys)
    (tidy : properties.Tidy Members.reserved) (isBody : key ∈ bodyKeys) :
    ((headMembers kind name around doc aliases ++ rest).extend properties).get? key =
      rest.get? key := by
  simp only [bodyKeys, List.mem_cons, List.not_mem_nil, or_false] at isBody
  have isReserved : key ∈ Members.reserved := by
    rcases isBody with rfl | rfl | rfl | rfl | rfl <;> simp [Members.reserved]
  rw [tidy.get?_extend (reserved_of_mem_declaration body) isReserved]
  rcases isBody with rfl | rfl | rfl | rfl | rfl <;>
    simp [headMembers, Members.get?_append, Members.get?_cons]

/-- Nothing of the body stands at a key of the head. -/
theorem get?_headKey (body : ∀ member ∈ rest, member.1 ∈ bodyKeys) (isHead : key ∉ bodyKeys) :
    rest.get? key = none := by
  rw [Members.get?_eq_none]
  intro isMember
  obtain ⟨member, isRest, rfl⟩ := List.mem_map.1 isMember
  exact isHead (body member isRest)

/-- The head of a declaration is found among its members. -/
theorem declare_headMembers (body : ∀ member ∈ rest, member.1 ∈ bodyKeys)
    (tidy : properties.Tidy Members.reserved) :
    ((headMembers kind name around doc aliases ++ rest).extend properties).Declare kind name around
      { doc, aliases, properties } := by
  have all : ∀ member ∈ headMembers kind name around doc aliases ++ rest,
      member.1 ∈ Members.reserved := reserved_of_mem_declaration body
  have head (key : String) (isReserved : key ∈ Members.reserved) (isHead : key ∉ bodyKeys) :
      ((headMembers kind name around doc aliases ++ rest).extend properties).get? key =
        (headMembers kind name around doc aliases).get? key := by
    rw [tidy.get?_extend all isReserved, Members.get?_append, get?_headKey body isHead,
      Option.or_none]
  refine ⟨?_, ?_, ?_, ?_⟩
  · rw [head _ (by simp [Members.reserved]) (by simp [bodyKeys])]
    simp [headMembers, Members.get?_cons]
  · rw [head _ (by simp [Members.reserved]) (by simp [bodyKeys])]
    simp [headMembers, Members.get?_cons]
  · rw [head _ (by simp [Members.reserved]) (by simp [bodyKeys])]
    simp [headMembers, Members.get?_append, Members.get?_cons]
  · have isDoc : ((headMembers kind name around doc aliases ++ rest).extend properties).get? "doc" =
        doc.map .string := by
      rw [head _ (by simp [Members.reserved]) (by simp [bodyKeys])]
      simp [headMembers, Members.get?_append, Members.get?_cons]
    have isAliases : ((headMembers kind name around doc aliases ++ rest).extend properties).get?
        "aliases" = writtenTexts aliases := by
      rw [head _ (by simp [Members.reserved]) (by simp [bodyKeys])]
      simp [headMembers, Members.get?_append, Members.get?_cons]
    rw [Details.ofMembers, Members.optionalString_eq isDoc, Members.stringList_eq isAliases,
      tidy.without_extend all]
    rfl

/-- The heading that is read of a declaration. -/
def Heading.written (name : Name) (around : Option String) (details : Details) : Heading where
  name := name.localName
  space := name.spaceBeside around
  details := .ok details

namespace Members.Declare

variable (declare : members.Declare kind name around details)
include declare

/-- The heading of a declaration is read as it is written. -/
theorem heading (missing : Reason) {said : Except Reason Details} (isSaid : said = .ok details) :
    Heading.ofMembers members "name" missing said = .ok (.written name around details) := by
  rw [Heading.ofMembers, declare.named, Members.optionalString_eq declare.space, isSaid]
  rfl

/-- A declaration without a logical type is classified by its type. -/
theorem ofMembers_eq (children : Node.Children) (plain : members.get? "logicalType" = none) :
    Node.ofMembers members children = Node.ofTyped members children := by
  have typed : members.has "type" = true := by rw [Members.has, declare.type, Option.isSome_some]
  rw [Node.ofMembers, typed, plain]
  simp

end Members.Declare

/-! ## Declarations -/

/-- What the members of a record or an error say. -/
theorem Record.exists_project {body : Record} (kind : NamedKind) (around : Option String)
    (jsons : List Json) (tidy : body.properties.Tidy Members.reserved) :
    ∃ members : Members, body.project kind around jsons = .object members ∧
      members.Declare kind body.name around ⟨body.doc, body.aliases, body.properties⟩ ∧
      members.get? "logicalType" = none ∧ members.get? "fields" = some (.array jsons) := by
  have keys : ∀ member ∈ [("fields", Json.array jsons)], member.1 ∈ bodyKeys := by simp [bodyKeys]
  refine ⟨_, rfl, declare_headMembers keys tidy, ?_, ?_⟩
  · rw [get?_bodyKey keys tidy (by simp [bodyKeys])]
    simp [Members.get?_cons]
  · rw [get?_bodyKey keys tidy (by simp [bodyKeys])]
    simp [Members.get?_cons]

/-- What the members of an enum say. -/
theorem Enumeration.exists_project {enumeration : Enumeration} (around : Option String)
    (tidy : enumeration.properties.Tidy Members.reserved) :
    ∃ members : Members, enumeration.project around = .object members ∧
      members.Declare .enum enumeration.name around
        ⟨enumeration.doc, enumeration.aliases, enumeration.properties⟩ ∧
      members.get? "logicalType" = none ∧
      members.get? "symbols" = some (.ofStrings enumeration.symbols) ∧
      members.get? "default" = enumeration.default.map .string := by
  obtain ⟨rest, written, keys, logical, symbols, default⟩ : ∃ rest : Members,
      enumeration.project around = .object ((headMembers .enum enumeration.name around
        enumeration.doc enumeration.aliases ++ rest).extend enumeration.properties) ∧
      (∀ member ∈ rest, member.1 ∈ bodyKeys) ∧ rest.get? "logicalType" = none ∧
      rest.get? "symbols" = some (.ofStrings enumeration.symbols) ∧
      rest.get? "default" = enumeration.default.map .string := by
    cases isDefault : enumeration.default with
    | none => exact ⟨[("symbols", .ofStrings enumeration.symbols)], by simp [project, isDefault],
        by simp [bodyKeys, Members.get?_cons]⟩
    | some symbol =>
      exact ⟨[("symbols", .ofStrings enumeration.symbols), ("default", .string symbol)],
        by simp [project, isDefault], by simp [bodyKeys, Members.get?_cons]⟩
  refine ⟨_, written, declare_headMembers keys tidy, ?_, ?_, ?_⟩
  · rw [get?_bodyKey keys tidy (by simp [bodyKeys]), logical]
  · rw [get?_bodyKey keys tidy (by simp [bodyKeys]), symbols]
  · rw [get?_bodyKey keys tidy (by simp [bodyKeys]), default]

/-- What a fixed type is written as: the parameters of its logical type are among its
properties. -/
theorem FixedType.Coherent.project_eq {fixedType : FixedType} (coherent : fixedType.Coherent)
    (around : Option String) :
    fixedType.project around = .object ((headMembers .fixed fixedType.name around fixedType.doc
      fixedType.aliases ++ ("size", Json.ofNat fixedType.size) ::
        (fixedType.overlay.map fun overlay =>
          ("logicalType", Json.string overlay.name)).toList).extend
        fixedType.rewritten.properties) := by
  cases isOverlay : fixedType.overlay with
  | none => simp [project, FixedType.rewritten, isOverlay]
  | some overlay =>
    have keys : ∀ member ∈ headMembers .fixed fixedType.name around fixedType.doc
        fixedType.aliases ++ [("size", .ofNat fixedType.size),
          ("logicalType", .string overlay.name)],
        member.1 ∈ Members.reserved := reserved_of_mem_declaration (by simp [bodyKeys])
    have present := LogicalType.parameters_of_read (coherent.overlay overlay isOverlay)
    have among := coherent.tidy.extend_append keys present
    rw [Option.map_some, Option.toList_some, coherent.rewritten.tidy.extend_eq_append keys]
    simp only [FixedType.rewritten, isOverlay]
    rw [← among]
    simp [project, LogicalType.members_eq, isOverlay]

/-- What the members of a fixed type say. -/
theorem FixedType.Coherent.exists_project {fixedType : FixedType} (coherent : fixedType.Coherent)
    (around : Option String) :
    ∃ members : Members, fixedType.project around = .object members ∧
      members.Declare .fixed fixedType.name around
        ⟨fixedType.doc, fixedType.aliases, fixedType.rewritten.properties⟩ ∧
      members.get? "logicalType" = fixedType.overlay.map (.string ·.name) ∧
      members.get? "size" = some (.ofNat fixedType.size) ∧
      ∀ key ∉ Members.reserved,
        members.get? key = fixedType.rewritten.properties.get? key := by
  have tidy := coherent.rewritten.tidy
  have keys : ∀ member ∈ ("size", Json.ofNat fixedType.size) ::
      (fixedType.overlay.map fun overlay => ("logicalType", Json.string overlay.name)).toList,
      member.1 ∈ bodyKeys := by
    cases fixedType.overlay <;> simp [bodyKeys]
  refine ⟨_, coherent.project_eq around, declare_headMembers keys tidy, ?_, ?_,
    fun key isProperty => ?_⟩
  · refine (get?_bodyKey keys tidy (by simp [bodyKeys])).trans ?_
    cases fixedType.overlay <;> simp [Members.get?_cons]
  · refine (get?_bodyKey keys tidy (by simp [bodyKeys])).trans ?_
    simp [Members.get?_cons]
  · exact tidy.get?_extend_of_notMem (reserved_of_mem_declaration keys) isProperty

/-- A fixed type is written alike before and after it is read back. -/
theorem FixedType.Coherent.project_rewritten {fixedType : FixedType}
    (coherent : fixedType.Coherent) (around : Option String) :
    fixedType.rewritten.project around = fixedType.project around := by
  rw [coherent.project_eq, coherent.rewritten.project_eq, FixedType.rewritten_rewritten]
  rfl

/-- What the members of a protocol say, less its properties. -/
theorem Protocol.exists_project (body : Protocol) {messages : Members} (around : Option String)
    (types : List Json) (distinct : (messages.map Prod.fst).Nodup) :
    ∃ written : Members,
      body.project around types messages = .object (written.extend body.properties) ∧
      (∀ member ∈ written, member.1 ∈ Members.reservedOfProtocols) ∧
      written.get? "protocol" = some (.string body.name.localName) ∧
      written.get? "type" = none ∧
      written.get? "namespace" = (body.name.spaceBeside around).map .string ∧
      written.get? "doc" = body.doc.map .string ∧
      written.get? "types" = some (.array types) ∧
      written.get? "messages" = some (.object messages) := by
  refine ⟨_, rfl, ?_, ?_⟩
  · intro member isMember
    simp only [List.mem_append, List.mem_cons, List.not_mem_nil, or_false] at isMember
    rcases isMember with ((isName | isSpace) | isDoc) | isTypes | isMessages
    · simp [Members.reservedOfProtocols, isName]
    · simp [Members.reservedOfProtocols, Members.reserved, Name.key_of_mem_spaceMembers isSpace]
    · simp [Members.reservedOfProtocols, Members.reserved, key_of_mem_docMembers isDoc]
    · simp [Members.reservedOfProtocols, isTypes]
    · simp [Members.reservedOfProtocols, isMessages]
  · simp [Members.get?_append, Members.get?_cons, Members.extend_nil distinct]

namespace Node

variable {jsons : List Json}

/-- A record is read with its heading and its fields. -/
theorem ofTyped_record {isError : Bool}
    (declare : members.Declare (.ofRecord isError) name around details)
    (fields : members.get? "fields" = some (.array jsons)) :
    ofTyped members (.ofMembers members) =
      .record (.object members) isError (.written name around details) (fieldNodes jsons) := by
  have array : members.array? "fields" = some jsons := by rw [Members.array?, fields]; rfl
  have children : (Children.ofMembers members).fields = fieldNodes jsons := by
    simp [Children.ofMembers, fieldsAt_eq, fields, Json.array?]
  have reads := declare.heading (.missingName (if isError then .error else .record)) rfl
  have isRecord : ofRecord members (.ofMembers members) isError =
      .record (.object members) isError (.written name around details) (fieldNodes jsons) := by
    simp only [ofRecord, array, declare.details, bind, Except.bind, pure, Except.pure, reads,
      ofHeading, children]
  cases isError with
  | true =>
    have type : members.get? "type" = some (.string "error") := declare.type
    simp only [ofTyped, type, isRecord]
  | false =>
    have type : members.get? "type" = some (.string "record") := declare.type
    simp only [ofTyped, type, isRecord]

/-- An enum is read with its heading, its symbols and its default. -/
theorem ofTyped_enum {symbols : List String} {default : Option String}
    (declare : members.Declare .enum name around details)
    (isSymbols : members.get? "symbols" = some (.ofStrings symbols))
    (isDefault : members.get? "default" = default.map .string) :
    ofTyped members (.ofMembers members) =
      .enum (.object members) (.written name around details) (symbols.map some) (.ok default) := by
  have array : members.array? "symbols" = some (symbols.map .string) := by
    rw [Members.array?, isSymbols]
    rfl
  have reads := declare.heading (.missingName .enum) rfl
  rw [ofTyped, declare.type]
  simp only [NamedKind.keyword, ofEnum, array, declare.details, bind, Except.bind, pure,
    Except.pure, reads, ofHeading, Members.optionalString_eq isDefault, Option.getD_some,
    List.map_map]
  rfl

/-- A fixed type is read with its heading and its size. -/
theorem ofTyped_fixed {size : Nat} (declare : members.Declare .fixed name around details)
    (isSize : members.get? "size" = some (.ofNat size)) :
    ofTyped members (.ofMembers members) =
      .fixed (.object members) (.written name around details) (some size) := by
  have reads := declare.heading (.missingName .fixed) declare.details
  have natural : (Json.ofNat size).nat? = some size := Json.nat?_eq_some.2 rfl
  rw [ofTyped, declare.type]
  simp only [NamedKind.keyword, ofFixed, reads, ofHeading, isSize, Option.bind_some, natural]

/-- A record or an error is read back from the object it is written as. -/
theorem ofJson_record (isError : Bool) {body : Record} (around : Option String)
    (jsons : List Json) (tidy : body.properties.Tidy Members.reserved) :
    ofJson (body.project (.ofRecord isError) around jsons) =
      .record (body.project (.ofRecord isError) around jsons) isError
        (.written body.name around ⟨body.doc, body.aliases, body.properties⟩)
        (fieldNodes jsons) := by
  obtain ⟨members, written, declare, plain, fields⟩ :=
    Record.exists_project (.ofRecord isError) around jsons tidy
  rw [written, ofJson_object]
  exact (declare.ofMembers_eq _ plain).trans (ofTyped_record declare fields)

/-- An enum is read back from the object it is written as. -/
theorem ofJson_enum {enumeration : Enumeration} (around : Option String)
    (tidy : enumeration.properties.Tidy Members.reserved) :
    ofJson (enumeration.project around) =
      .enum (enumeration.project around)
        (.written enumeration.name around
          ⟨enumeration.doc, enumeration.aliases, enumeration.properties⟩)
        (enumeration.symbols.map some) (.ok enumeration.default) := by
  obtain ⟨members, written, declare, plain, symbols, default⟩ :=
    Enumeration.exists_project around tidy
  rw [written, ofJson_object]
  exact (declare.ofMembers_eq _ plain).trans (ofTyped_enum declare symbols default)

/-- A fixed type without a logical type is read back from the object it is written as. -/
theorem ofJson_fixed {fixedType : FixedType} (around : Option String)
    (coherent : fixedType.Coherent) (plain : fixedType.overlay = none) :
    ofJson (fixedType.project around) =
      .fixed (fixedType.project around)
        (.written fixedType.name around
          ⟨fixedType.doc, fixedType.aliases, fixedType.rewritten.properties⟩)
        (some fixedType.size) := by
  obtain ⟨members, written, declare, logical, size, -⟩ := coherent.exists_project around
  rw [plain] at logical
  rw [written, ofJson_object]
  exact (declare.ofMembers_eq _ logical).trans (ofTyped_fixed declare size)

/-- A fixed type with a logical type is read back from the object it is written as, the logical
type included. -/
theorem ofJson_overlaid {fixedType : FixedType} {overlay : LogicalType} (around : Option String)
    (coherent : fixedType.Coherent) (isOverlay : fixedType.overlay = some overlay) :
    ofJson (fixedType.project around) =
      .logical (fixedType.project around) overlay.name (.ok (some overlay)) true
        (.fixed (fixedType.project around)
          (.written fixedType.name around
            ⟨fixedType.doc, fixedType.aliases, fixedType.rewritten.properties⟩)
          (some fixedType.size)) := by
  obtain ⟨members, written, declare, logical, size, property⟩ := coherent.exists_project around
  have precision : members.get? "precision" = fixedType.properties.get? "precision" := by
    rw [property _ (by simp [Members.reserved]), coherent.get?_rewritten]
  have scale : members.get? "scale" = fixedType.properties.get? "scale" := by
    rw [property _ (by simp [Members.reserved]), coherent.get?_rewritten]
  have reads : LogicalType.read overlay.name members = .ok (some overlay) := by
    rw [LogicalType.read_congr precision scale, coherent.overlay overlay isOverlay]
  have typed : members.has "type" = true := by rw [Members.has, declare.type, Option.isSome_some]
  rw [isOverlay] at logical
  rw [written, ofJson_object, ofMembers, typed, logical]
  simp only [Option.map_some, Bool.not_true, Bool.and_false, Bool.false_eq_true, ↓reduceIte, reads,
    declare.type, NamedKind.keyword]
  rw [← ofTyped_fixed declare size]
  rfl

/-- A protocol is read back from the object it is written as. -/
theorem ofJson_protocol {body : Protocol} {messages : Members} (around : Option String)
    (types : List Json) (tidy : body.properties.Tidy Members.reservedOfProtocols)
    (distinct : (messages.map Prod.fst).Nodup) :
    ofJson (body.project around types messages) =
      .protocol (body.project around types messages)
        (.written body.name around { doc := body.doc, properties := body.properties })
        (nodes types) (messageNodes messages) := by
  obtain ⟨written, source, keys, isName, untyped, isSpace, isDoc, isTypes, isMessages⟩ :=
    Protocol.exists_project body around types distinct
  have among (key : String) (isReserved : key ∈ Members.reservedOfProtocols) :=
    tidy.get?_extend keys isReserved
  have properties := tidy.without_extend keys
  rw [source]
  generalize written.extend body.properties = members at among properties ⊢
  rw [← among _ (by simp [Members.reservedOfProtocols, Members.reserved])]
    at isName untyped isSpace isDoc isTypes isMessages
  have head : Heading.ofMembers members "protocol" .badProtocol
      (Details.withoutAliases Members.reservedOfProtocols members) =
        .ok (.written body.name around { doc := body.doc, properties := body.properties }) := by
    rw [Heading.ofMembers, isName, Members.optionalString_eq isSpace, Details.withoutAliases,
      Members.optionalString_eq isDoc, properties]
    rfl
  rw [ofJson_object, ofMembers]
  simp [Members.has, isName, untyped, ofProtocol, head, ofHeading, isTypes, isMessages,
    Children.ofMembers, nodesAt_eq, messagesAt_eq, Json.array?, Json.object?]

end Node

/-! ## Containers and overlays -/

/-- The words that make an object a declaration or a container where they are its type. -/
def objectKeywords : List String := ["record", "error", "enum", "fixed", "array", "map"]

namespace Node

/-- An array is read with its items. -/
theorem ofJson_array (items : Json) :
    ofJson (.object [("type", .string "array"), ("items", items)]) =
      .array (.object [("type", .string "array"), ("items", items)]) (ofJson items) := by
  rw [ofJson_object, ofMembers]
  simp [Members.has, Members.get?_cons, ofTyped, Children.ofMembers, nodeAt_eq]

/-- A map is read with its values. -/
theorem ofJson_map (values : Json) :
    ofJson (.object [("type", .string "map"), ("values", values)]) =
      .map (.object [("type", .string "map"), ("values", values)]) (ofJson values) := by
  rw [ofJson_object, ofMembers]
  simp [Members.has, Members.get?_cons, ofTyped, Children.ofMembers, nodeAt_eq]

/-- A logical type is read back from the object that it is laid over a text in. -/
theorem ofJson_project_string {overlay : LogicalType} {text name : String}
    (read : LogicalType.read name members = .ok (some overlay)) (free : text ∉ objectKeywords) :
    ofJson (overlay.project (.string text)) =
      .logical (overlay.project (.string text)) overlay.name (.ok (some overlay)) false
        (.nested (overlay.project (.string text)) (.reference text)) := by
  have isObject : overlay.project (.string text) =
      .object (("type", .string text) :: overlay.members) := by
    cases overlay with
    | decimal precision scale =>
      by_cases zero : scale = 0 <;>
        simp [LogicalType.project, LogicalType.members, Members.extend, Members.insert, zero]
    | _ => rfl
  rw [isObject, ofJson_object, ofMembers]
  have logical : Members.get? (("type", .string text) :: overlay.members) "logicalType" =
      some (.string overlay.name) := by
    simp [LogicalType.members, Members.get?_cons]
  have reads : LogicalType.read overlay.name (("type", .string text) :: overlay.members) =
      .ok (some overlay) :=
    LogicalType.read_of_read read (by simp [Members.get?_cons]) (by simp [Members.get?_cons])
  have typed : Members.get? (("type", .string text) :: overlay.members) "type" =
      some (.string text) := by
    simp [Members.get?_cons]
  generalize ("type", Json.string text) :: overlay.members = written at logical reads typed ⊢
  simp only [objectKeywords, List.mem_cons, List.not_mem_nil, or_false, not_or] at free
  simp [Members.has, logical, reads, typed, ofTyped, Children.ofMembers, nodeAt_eq, free,
    ofJson_string]

end Node

/-! ## Fields and messages -/

/-- What the members of a field say, less its properties. -/
theorem Field.exists_project (field : Field) (type : Json) :
    ∃ written : Members, field.project type = .object (written.extend field.properties) ∧
      (∀ member ∈ written, member.1 ∈ Members.reserved) ∧
      written.get? "name" = some (.string field.name) ∧ written.get? "type" = some type ∧
      written.get? "default" = field.default ∧ written.get? "doc" = field.doc.map .string ∧
      written.get? "order" = field.order.map (fun order => .string order.keyword) ∧
      written.get? "aliases" = writtenTexts field.aliases := by
  refine ⟨_, rfl, ?_, ?_⟩
  · intro member isMember
    simp only [List.mem_append, List.mem_cons, List.not_mem_nil, or_false] at isMember
    rcases isMember with ((((isName | isType) | isDefault) | isDoc) | isOrder) | isAlias
    · simp [Members.reserved, isName]
    · simp [Members.reserved, isType]
    · split at isDefault
      · simp [Members.reserved, List.mem_singleton.1 isDefault]
      · cases isDefault
    · simp [Members.reserved, key_of_mem_docMembers isDoc]
    · split at isOrder
      · simp [Members.reserved, List.mem_singleton.1 isOrder]
      · cases isOrder
    · simp [Members.reserved, key_of_mem_aliasMembers isAlias]
  · cases field.default <;> cases field.order <;>
      simp [Members.get?_append, Members.get?_cons]

/-- A field is read back from the object it is written as. -/
theorem FieldNode.ofJson_project {field : Field} (type : Json)
    (tidy : field.properties.Tidy Members.reserved) :
    FieldNode.ofJson (field.project type) =
      .field (field.project type) field.name (Node.ofJson type) type field.default
        (.ok ⟨field.order, field.doc, field.aliases, field.properties⟩) := by
  obtain ⟨written, source, keys, isName, isType, isDefault, isDoc, isOrder, isAliases⟩ :=
    Field.exists_project field type
  have among (key : String) (isReserved : key ∈ Members.reserved) :=
    tidy.get?_extend keys isReserved
  have properties := tidy.without_extend keys
  rw [source]
  generalize written.extend field.properties = members at among properties ⊢
  rw [← among _ (by simp [Members.reserved])] at isName isType isDefault isDoc isOrder isAliases
  have details : FieldDetails.ofMembers members =
      .ok ⟨field.order, field.doc, field.aliases, field.properties⟩ := by
    rw [FieldDetails.ofMembers, isOrder, Members.optionalString_eq isDoc,
      Members.stringList_eq isAliases, properties]
    cases field.order with
    | none => rfl
    | some order =>
      simp [Json.string?, FieldOrder.ofKeyword?_keyword, bind, Except.bind, pure, Except.pure]
  rw [ofJson_object, ofMembers, isName, nodeAt_eq, isType, isDefault, details]
  rfl

/-- What the members of a message say, less its properties. -/
theorem Message.exists_project (message : Message) (request : List Json) (response : Json)
    (errors : List Json) :
    ∃ written : Members,
      message.project request response errors = .object (written.extend message.properties) ∧
      (∀ member ∈ written, member.1 ∈ Members.reservedOfMessages) ∧
      written.get? "doc" = message.doc.map .string ∧
      written.get? "request" = some (.array request) ∧
      written.get? "response" = some response ∧
      written.get? "errors" = (if errors.isEmpty then none else some (.array errors)) ∧
      (written.get? "one-way").or (written.get? "oneWay") =
        if message.oneWay then some (.bool true) else none := by
  refine ⟨_, rfl, ?_, ?_⟩
  · intro member isMember
    simp only [List.mem_append, List.mem_cons, List.not_mem_nil, or_false] at isMember
    rcases isMember with ((isDoc | isRequest | isResponse) | isErrors) | isOneWay
    · simp [Members.reservedOfMessages, key_of_mem_docMembers isDoc]
    · simp [Members.reservedOfMessages, isRequest]
    · simp [Members.reservedOfMessages, isResponse]
    · split at isErrors
      · cases isErrors
      · simp [Members.reservedOfMessages, List.mem_singleton.1 isErrors]
    · split at isOneWay
      · simp [Members.reservedOfMessages, List.mem_singleton.1 isOneWay]
      · cases isOneWay
  · cases errors.isEmpty <;> cases message.oneWay <;>
      simp [Members.get?_append, Members.get?_cons]

/-- A message is read back from the object it is written as. -/
theorem MessageNode.ofJson_project {message : Message} (request : List Json) (response : Json)
    (errors : List Json) (tidy : message.properties.Tidy Members.reservedOfMessages) :
    MessageNode.ofJson message.name (message.project request response errors) =
      .message (message.project request response errors) message.name (fieldNodes request)
        (Node.ofJson response) response (nodes errors) (.ok message.oneWay)
        (.ok { doc := message.doc, properties := message.properties }) := by
  obtain ⟨written, source, keys, isDoc, isRequest, isResponse, isErrors, isOneWay⟩ :=
    Message.exists_project message request response errors
  have among (key : String) (isReserved : key ∈ Members.reservedOfMessages) :=
    tidy.get?_extend keys isReserved
  have properties := tidy.without_extend keys
  rw [source]
  generalize written.extend message.properties = members at among properties ⊢
  rw [← among _ (by simp [Members.reservedOfMessages])] at isDoc isRequest isResponse isErrors
  rw [← among "one-way" (by simp [Members.reservedOfMessages]),
    ← among "oneWay" (by simp [Members.reservedOfMessages])] at isOneWay
  have details : Details.withoutAliases Members.reservedOfMessages members =
      .ok { doc := message.doc, properties := message.properties } := by
    rw [Details.withoutAliases, Members.optionalString_eq isDoc, properties]
    rfl
  rw [ofJson_object, ofMembers, Members.array?, isRequest, nodeAt_eq, nodesAt_eq, fieldsAt_eq, isRequest,
    isResponse, isErrors, isOneWay, details]
  cases errors with
  | nil => cases message.oneWay <;> rfl
  | cons => cases message.oneWay <;> rfl

end

end AvroGraph
