import AvroGraph.Proofs.Reordered

/-!
# Documents with keys in another order

The order of keys does not matter to a resolution, except for the messages of a protocol: two
documents that differ in it alone are accepted together, and come to the same root and the same
entries in the same order (`Document.resolve_reordered`). An object is classified by what stands at
its keys, so each kind of node comes to the same, and the document does by induction on how it is
reordered.
-/

namespace AvroGraph

/-- The type of an object is a schema, unless it is a keyword. -/
theorem Role.atKey_type {members : Members} {type : Json} (typed : members.get? "type" = some type)
    (other : ∀ keyword ∈ ["record", "error", "enum", "fixed", "array", "map"],
      type ≠ .string keyword) : Role.atKey .schema members "type" = .schema := by
  simp only [atKey, partsOfSchema, typed]
  split
  case h_1 untyped => cases untyped
  case h_8 => rfl
  all_goals simp_all

/-- Two values are read alike as what they stand for. -/
def Role.ReadAlike : Role → Json → Json → Prop
  | .data, _, _ => True
  | .schema, left, right => (Node.ofJson left).Same (.ofJson right)
  | .schemas, left, right =>
    List.Forall₂ Node.Same (left.array?.elim [] nodes) (right.array?.elim [] nodes)
  | .field, left, right => (FieldNode.ofJson left).Same (.ofJson right)
  | .fields, left, right =>
    List.Forall₂ FieldNode.Same (left.array?.elim [] fieldNodes) (right.array?.elim [] fieldNodes)
  | .message, left, right => ∀ name, (MessageNode.ofJson name left).Same (.ofJson name right)
  | .messages, left, right =>
    List.Forall₂ MessageNode.Same (left.object?.elim [] messageNodes)
      (right.object?.elim [] messageNodes)

/-- The same becomes of two defaults: only one without parts has a literal. -/
theorem Json.Reordered.synthesize {role : Role} {left right : Json} (reordered : Reordered role left right)
    (registry : Registry) (declared : Schema) :
    Tally Eq (DefaultLiteral.synthesize registry declared left)
      (DefaultLiteral.synthesize registry declared right) := by
  cases reordered with
  | array | object =>
    cases declared with
    | primitive type => cases type <;> exact .error _ _
    | named kind handle =>
      cases kind with
      | enum =>
        simp only [DefaultLiteral.synthesize]
        split <;> exact .error _ _
      | _ => exact .ok rfl
    | _ => exact .ok rfl
  | _ => exact .refl Eq.refl _

/-- Two objects with the same members but for their order, which are read alike at every key. -/
structure Members.ReadAlike (roles : String → Role) (members others : Members) : Prop
    extends Members.Reordered roles members others where
  reads : ∀ key, Option.Rel (roles key).ReadAlike (members.get? key) (others.get? key)

namespace Members.ReadAlike

variable {roles : String → Role} {members others : Members} {key : String}
  (alike : Members.ReadAlike roles members others)

include alike

/-! ## Children -/

/-- A schema that has to be there. -/
theorem schema (isSchema : roles key = .schema) (reason : Reason) (source another : Json) :
    ((nodeAt key members).getD (.malformed reason source)).Same
      ((nodeAt key others).getD (.malformed reason another)) := by
  have reads := alike.reads key
  rw [isSchema] at reads
  rw [nodeAt_eq, nodeAt_eq]
  generalize members.get? key = left at reads ⊢
  generalize others.get? key = right at reads ⊢
  cases reads with
  | none => exact .malformed _ _ _ _
  | some same => exact same

/-- What is read of the parts at a key is the same one by one. -/
theorem parts {α β : Type} {same : α → α → Prop} {parts? : Json → Option β} {read : β → List α}
    (reads : ∀ left right, (roles key).ReadAlike left right →
      List.Forall₂ same ((parts? left).elim [] read) ((parts? right).elim [] read)) :
    List.Forall₂ same (((members.get? key).bind parts?).elim [] read)
      (((others.get? key).bind parts?).elim [] read) := by
  have pair := alike.reads key
  generalize members.get? key = left at pair ⊢
  generalize others.get? key = right at pair ⊢
  cases pair with
  | none => exact .nil
  | some same => exact reads _ _ same

/-- Schemas at a key are the same nodes, in the same order. -/
theorem schemas (isSchemas : roles key = .schemas) :
    List.Forall₂ Node.Same (nodesAt key members) (nodesAt key others) := by
  rw [nodesAt_eq, nodesAt_eq]
  exact alike.parts (isSchemas ▸ fun _ _ same => same)

/-- Fields at a key are the same, in the same order. -/
theorem fields (isFields : roles key = .fields) :
    List.Forall₂ FieldNode.Same (fieldsAt key members) (fieldsAt key others) := by
  rw [fieldsAt_eq, fieldsAt_eq]
  exact alike.parts (isFields ▸ fun _ _ same => same)

/-- Messages at a key are the same, in the same order. -/
theorem messages (isMessages : roles key = .messages) :
    List.Forall₂ MessageNode.Same (messagesAt key members) (messagesAt key others) := by
  rw [messagesAt_eq, messagesAt_eq]
  exact alike.parts (isMessages ▸ fun _ _ same => same)

/-- Schemas in an array that may be missing; anything else is malformed. -/
theorem listed (isSchemas : roles key = .schemas) (reason : Reason) (source another : Json) :
    List.Forall₂ Node.Same
      (match members.get? key with
        | none | some .null | some (.array _) => nodesAt key members
        | some _ => [.malformed reason source])
      (match others.get? key with
        | none | some .null | some (.array _) => nodesAt key others
        | some _ => [.malformed reason another]) := by
  have schemas := alike.schemas isSchemas
  have malformed : List.Forall₂ Node.Same [.malformed reason source] [.malformed reason another] :=
    .cons (.malformed _ _ _ _) .nil
  obtain ⟨absent, neither⟩ | ⟨left, right, found, isOther, value, -⟩ := alike.get?_cases key
  · rw [absent, neither]
    exact schemas
  · rw [found, isOther]
    cases value <;> first | exact schemas | exact malformed

/-- The messages of a protocol, which may be missing, too. -/
theorem keyed (isMessages : roles key = .messages) (reason : Reason) (source another : Json) :
    List.Forall₂ MessageNode.Same
      (match members.get? key with
        | none | some .null | some (.object _) => messagesAt key members
        | some _ => [.malformed reason source])
      (match others.get? key with
        | none | some .null | some (.object _) => messagesAt key others
        | some _ => [.malformed reason another]) := by
  have messages := alike.messages isMessages
  have malformed : List.Forall₂ MessageNode.Same [.malformed reason source]
      [.malformed reason another] := .cons (.malformed _ _ _ _) .nil
  obtain ⟨absent, neither⟩ | ⟨left, right, found, isOther, value, -⟩ := alike.get?_cases key
  · rw [absent, neither]
    exact messages
  · rw [found, isOther]
    cases value <;> first | exact messages | exact malformed

/-- A default is the same, and the same becomes of it. -/
theorem default (key : String) : Json.SameDefault (members.get? key) (others.get? key) := by
  obtain ⟨absent, neither⟩ | ⟨left, right, found, isOther, value, same⟩ := alike.get?_cases key
  · rw [absent, neither]
    exact ⟨rfl, fun _ _ => .ok rfl⟩
  · rw [found, isOther]
    exact ⟨same, fun registry declared => (value.synthesize registry declared).map some⟩

/-- The details of a declaration that needs an array at a key. -/
theorem detailsWith (key : String) (missing : Reason) :
    Tally Details.Same
      (do
        let details ← Details.ofMembers members
        match members.array? key with
        | some _ => return details
        | none => .error missing)
      (do
        let details ← Details.ofMembers others
        match others.array? key with
        | some _ => return details
        | none => .error missing) := by
  refine .bind alike.details fun _ _ said => ?_
  have listed := alike.array?_rel key
  generalize members.array? key = lefts at listed ⊢
  generalize others.array? key = rights at listed ⊢
  cases listed with
  | some => exact .ok said
  | none => exact .error _ _

end Members.ReadAlike

/-! ## Objects -/

namespace Node.Same

variable {members others : Members}

/-- Declarations come to the same if their headings do. -/
theorem ofHeading {heading other : Except Reason Heading} (headings : Tally Heading.Same heading other)
    {make remake : Heading → Node}
    (made : ∀ heading other, heading.Same other → (make heading).Same (remake other))
    (source another : Json) :
    (Node.ofHeading source heading make).Same (.ofHeading another other remake) := by
  cases headings with
  | ok same => exact made _ _ same
  | error reason cause => exact .malformed _ _ _ _

/-- Records whose members are read alike are the same. -/
theorem ofRecord (alike : Members.ReadAlike (Role.atKey .schema members) members others)
    (isFields : Role.atKey .schema members "fields" = .fields) (isError : Bool) :
    (Node.ofRecord members (.ofMembers members) isError).Same
      (.ofRecord others (.ofMembers others) isError) :=
  ofHeading (alike.heading (alike.detailsWith "fields" _))
    (fun _ _ headings => record headings _ _ (alike.fields isFields) isError) _ _

/-- Enums whose members are read alike are the same. -/
theorem ofEnum (alike : Members.ReadAlike (Role.atKey .schema members) members others) :
    (Node.ofEnum members).Same (.ofEnum others) := by
  have symbols : ((members.array? "symbols").getD []).map Json.string? =
      ((others.array? "symbols").getD []).map Json.string? := by
    have listed := alike.array?_rel "symbols"
    generalize members.array? "symbols" = lefts at listed ⊢
    generalize others.array? "symbols" = rights at listed ⊢
    cases listed with
    | some items => exact map_eq_of_forall₂ (fun _ _ item => Json.Reordered.string?_eq item) items
    | none => rfl
  refine ofHeading (alike.heading (alike.detailsWith "symbols" _)) (fun _ _ headings => ?_) _ _
  rw [symbols, alike.optionalString_eq]
  exact enum headings _ _ _ _

/-- Fixed types whose members are read alike are the same. -/
theorem ofFixed (alike : Members.ReadAlike (Role.atKey .schema members) members others) :
    (Node.ofFixed members).Same (.ofFixed others) := by
  refine ofHeading (alike.heading alike.details) (fun _ _ headings => ?_) _ _
  rw [alike.nat?_eq]
  exact fixed headings _ _ _

/-- Protocols whose members are read alike are the same. -/
theorem ofProtocol (alike : Members.ReadAlike (Role.atKey .schema members) members others)
    (isSchemas : Role.atKey .schema members "types" = .schemas)
    (isMessages : Role.atKey .schema members "messages" = .messages) :
    (Node.ofProtocol members (.ofMembers members)).Same (.ofProtocol others (.ofMembers others)) :=
  ofHeading (alike.heading (alike.withoutAliases _))
    (fun _ _ headings => protocol headings _ _ (alike.listed isSchemas _ _ _)
      (alike.keyed isMessages _ _ _)) _ _

/-- An object that stands for its type. -/
theorem nestedIn (alike : Members.ReadAlike (Role.atKey .schema members) members others)
    (isSchema : Role.atKey .schema members "type" = .schema) :
    (Node.nested (.object members)
      ((nodeAt "type" members).getD (.malformed .missingType (.object members)))).Same
    (.nested (.object others)
      ((nodeAt "type" others).getD (.malformed .missingType (.object others)))) :=
  .nested (alike.schema isSchema _ _ _) _ _

/-- An object by its type alone. -/
theorem ofTyped (alike : Members.ReadAlike (Role.atKey .schema members) members others) :
    (Node.ofTyped members (.ofMembers members)).Same (.ofTyped others (.ofMembers others)) := by
  rw [Node.ofTyped]
  split
  case h_1 untyped =>
    rw [Node.ofTyped, alike.get?_eq_none.1 untyped]
    exact .malformed _ _ _ _
  case h_2 typed =>
    rw [Node.ofTyped, alike.get?_string.1 typed]
    exact ofRecord alike (by simp only [Role.atKey, Role.partsOfSchema, typed]; rfl) false
  case h_3 typed =>
    rw [Node.ofTyped, alike.get?_string.1 typed]
    exact ofRecord alike (by simp only [Role.atKey, Role.partsOfSchema, typed]; rfl) true
  case h_4 typed =>
    rw [Node.ofTyped, alike.get?_string.1 typed]
    exact ofEnum alike
  case h_5 typed =>
    rw [Node.ofTyped, alike.get?_string.1 typed]
    exact ofFixed alike
  case h_6 typed =>
    rw [Node.ofTyped, alike.get?_string.1 typed]
    exact .array (alike.schema (by simp only [Role.atKey, Role.partsOfSchema, typed]; rfl) _ _ _) _ _
  case h_7 typed =>
    rw [Node.ofTyped, alike.get?_string.1 typed]
    exact .map (alike.schema (by simp only [Role.atKey, Role.partsOfSchema, typed]; rfl) _ _ _) _ _
  case h_8 text notRecord notError notEnum notFixed notArray notMap typed =>
    have isSchema := Role.atKey_type typed (by simp_all)
    rw [Node.ofTyped, alike.get?_string.1 typed]
    split
    case h_8 => exact nestedIn alike isSchema
    case h_11 notString _ _ same => exact absurd (Option.some.inj same).symm (notString text)
    all_goals simp_all
  case h_9 typed | h_10 typed =>
    have isSchema := Role.atKey_type typed (by simp)
    obtain ⟨right, isOther, value⟩ := alike.reordered_of_get? typed
    cases value
    rw [Node.ofTyped, isOther]
    exact nestedIn alike isSchema
  case h_11 type _ _ _ _ _ _ notString notObject notArray typed =>
    obtain ⟨right, isOther, value⟩ := alike.reordered_of_get? typed
    rw [Node.ofTyped, isOther]
    cases value with
    | string => exact absurd rfl (notString _)
    | array => exact absurd rfl (notArray _)
    | object => exact absurd rfl (notObject _)
    | _ => exact .malformed _ _ _ _

/-- An object in the place of a schema comes to the same whatever the order of its keys. -/
theorem ofMembers (alike : Members.ReadAlike (Role.atKey .schema members) members others) :
    (Node.ofMembers members (.ofMembers members)).Same
      (.ofMembers others (.ofMembers others)) := by
  rw [Node.ofMembers, Node.ofMembers, alike.has_eq, alike.has_eq]
  split
  · next isProtocol =>
    rw [← alike.has_eq, ← alike.has_eq, Bool.and_eq_true] at isProtocol
    have untyped : members.get? "type" = none := by simpa [Members.has] using isProtocol.2
    refine ofProtocol alike ?_ ?_ <;>
      simp only [Role.atKey, Role.partsOfSchema, untyped, isProtocol.1, if_true] <;> rfl
  · obtain ⟨absent, neither⟩ | ⟨left, right, found, isOther, value, -⟩ :=
      alike.get?_cases "logicalType"
    · rw [absent, neither]
      exact ofTyped alike
    · rw [found, isOther]
      cases value with
      | string =>
        simp only [alike.read_eq, alike.get?_string]
        exact .logical (ofTyped alike) _ _ _ _ _
      | _ => exact .malformed _ _ _ _

end Node.Same

/-- An object in the place of a field comes to the same whatever the order of its keys. -/
theorem FieldNode.Same.ofMembers {members others : Members}
    (alike : Members.ReadAlike (Role.atKey .field members) members others) :
    (FieldNode.ofMembers members (nodeAt "type" members)).Same
      (.ofMembers others (nodeAt "type" others)) := by
  rw [FieldNode.ofMembers, FieldNode.ofMembers, alike.string?_eq]
  split
  · exact .malformed _ _ _ _
  · exact .field (alike.schema rfl _ _ _) (alike.default _) alike.fieldDetails _ _ _ _ _

/-- An object in the place of a message comes to the same whatever the order of its keys. -/
theorem MessageNode.Same.ofMembers {members others : Members}
    (alike : Members.ReadAlike (Role.atKey .message members) members others) (name : String) :
    (MessageNode.ofMembers name members (fieldsAt "request" members) (nodeAt "response" members)
      (nodesAt "errors" members)).Same
    (.ofMembers name others (fieldsAt "request" others) (nodeAt "response" others)
      (nodesAt "errors" others)) := by
  rw [MessageNode.ofMembers, MessageNode.ofMembers]
  refine .message ?_ (alike.schema rfl _ _ _) (alike.listed rfl _ _ _) ?_ (alike.withoutAliases _)
    _ _ _ _ _
  · have listed := alike.array?_rel "request"
    generalize members.array? "request" = lefts at listed ⊢
    generalize others.array? "request" = rights at listed ⊢
    cases listed with
    | some => exact alike.fields rfl
    | none => exact .cons (.malformed _ _ _ _) .nil
  · obtain ⟨absent, neither⟩ | ⟨left, right, found, isOther, value, -⟩ :=
      alike.get?_cases "one-way"
    · obtain ⟨missing, without⟩ | ⟨left, right, found, isOther, value, -⟩ :=
        alike.get?_cases "oneWay"
      · rw [absent, neither, missing, without]
        exact .ok rfl
      · rw [absent, neither, found, isOther]
        cases value <;> first | exact .ok rfl | exact .error _ _
    · rw [found, isOther]
      cases value <;> first | exact .ok rfl | exact .error _ _

/-! ## Values -/

/-- A message that is no object is malformed, whatever it is instead. -/
theorem MessageNode.Same.ofOther (name : String) (source another : Json) :
    (MessageNode.ofOther name source).Same (.ofOther name another) :=
  .message (.cons (.malformed _ _ _ _) .nil) (.malformed _ _ _ _) .nil (.ok rfl)
    (.ok ⟨rfl, rfl, rfl⟩) _ _ _ _ _

/-- A value without parts is read as it is. -/
theorem Role.readAlike_self (role : Role) {json : Json} (noArray : json.array? = none)
    (noObject : json.object? = none) : role.ReadAlike json json := by
  cases json with
  | array => cases noArray
  | object => cases noObject
  | string text =>
    cases role with
    | data => trivial
    | schema => exact .reference text
    | schemas | fields | messages => exact .nil
    | field => exact .malformed _ _ _ _
    | message => exact fun name => .ofOther name _ _
  | _ =>
    cases role with
    | data => trivial
    | schemas | fields | messages => exact .nil
    | schema | field => exact .malformed _ _ _ _
    | message => exact fun name => .ofOther name _ _

/-- Items that are read alike are the same nodes. -/
theorem forall₂_nodes {lefts rights : List Json}
    (items : List.Forall₂ Role.schema.ReadAlike lefts rights) :
    List.Forall₂ Node.Same (nodes lefts) (nodes rights) := by
  induction items with
  | nil => exact .nil
  | cons head _ ih => exact .cons head ih

/-- Items that are read alike are the same fields. -/
theorem forall₂_fieldNodes {lefts rights : List Json}
    (items : List.Forall₂ Role.field.ReadAlike lefts rights) :
    List.Forall₂ FieldNode.Same (fieldNodes lefts) (fieldNodes rights) := by
  induction items with
  | nil => exact .nil
  | cons head _ ih => exact .cons head ih

/-- Entries of the same names that are read alike are the same messages. -/
theorem forall₂_messageNodes {members others : Members}
    (entries : List.Forall₂ (fun left right => left.1 = right.1 ∧
      Role.message.ReadAlike left.2 right.2) members others) :
    List.Forall₂ MessageNode.Same (messageNodes members) (messageNodes others) := by
  induction entries with
  | nil => exact .nil
  | @cons left right _ _ head _ ih =>
    obtain ⟨name, value⟩ := left
    obtain ⟨_, other⟩ := right
    obtain ⟨rfl, reads⟩ := head
    exact .cons (reads name) ih

/-- Arrays are read alike if their items are, in order. -/
theorem Role.readAlike_array (role : Role) {lefts rights : List Json}
    (items : List.Forall₂ role.item.ReadAlike lefts rights) :
    role.ReadAlike (.array lefts) (.array rights) := by
  cases role with
  | data => trivial
  | schema => exact .union (forall₂_nodes items) _ _
  | schemas => exact forall₂_nodes items
  | field => exact .malformed _ _ _ _
  | fields => exact forall₂_fieldNodes items
  | message => exact fun name => .ofOther name _ _
  | messages => exact .nil

/-- Values that differ in the order of keys alone are read alike. -/
theorem Json.Reordered.readAlike {role : Role} {left right : Json}
    (reordered : Reordered role left right) (distinct : left.EveryObject Members.DistinctKeys) :
    role.ReadAlike left right := by
  induction reordered with
  | null role | bool role | number role | string role => exact role.readAlike_self rfl rfl
  | @array role lefts rights length items ih =>
    refine role.readAlike_array (List.forall₂_iff_get.2 ⟨length, fun index left right => ?_⟩)
    exact ih index left right (EveryObjectOfItems.item distinct (List.getElem_mem left))
  | @object role members permuted others perm order keys values ih =>
    have inside {index : Nat} (left : index < permuted.length) :
        permuted[index].2.EveryObject Members.DistinctKeys :=
      EveryObjectOfMembers.member distinct.2 (perm.mem_iff.2 (List.getElem_mem left))
    have reads index left right := ih index left right (inside left)
    have alike : Members.ReadAlike (role.atKey members) members others :=
      { keys := keys ▸ perm.map Prod.fst
        distinct := distinct.1
        values := Members.get?_rel_of_perm
          (fun key left right => Reordered (role.atKey members key) left right ∧
            left.same right = true) perm distinct.1 keys fun index left right =>
          ⟨values index left right, (values index left right).same (inside left)⟩
        reads := Members.get?_rel_of_perm (fun key => (role.atKey members key).ReadAlike) perm
          distinct.1 keys reads }
    cases role with
    | data => trivial
    | schema => exact .ofMembers alike
    | schemas | fields => exact .nil
    | field => exact .ofMembers alike
    | message => exact fun name => .ofMembers alike name
    | messages =>
      -- The names of messages keep their order, so messages are read one by one.
      obtain rfl := order rfl
      exact forall₂_messageNodes
        (Members.forall₂_of_keys (fun _ => Role.message.ReadAlike) keys reads)

/-! ## Documents -/

/-- Two documents are the same: their roots are equal, and their registries have the same entries in
the same order under the same names. Only defaults and extension properties may differ, and these in
the order of members alone. -/
structure Document.Same (left right : Document) : Prop where
  root : left.root = right.root
  entries : Entry.sameAll left.registry.entries right.registry.entries = true
  index : left.registry.index = right.registry.index
  bases : left.registry.bases = right.registry.bases
  literals : left.registry.entries.map Entry.literals = right.registry.entries.map Entry.literals

/-- The order of keys does not matter. If two documents differ in it alone, the messages of
protocols apart, one is accepted exactly if the other is, and then they are the same. -/
theorem Document.resolve_reordered {left right : Json} (reordered : Json.Reordered .schema left right)
    (distinct : left.EveryObject Members.DistinctKeys) (options : Options) :
    Tally Document.Same (resolve options left) (resolve options right) := by
  have start : Registry.empty.Same .empty := ⟨.nil, rfl, rfl⟩
  obtain ⟨tally, registries⟩ := reordered.readAlike distinct options none _ _ start
  simp only [resolve, Resolver.parse, Resolver.resolve, Resolver.new]
  generalize ((Node.ofJson left).resolve options none).outcome .empty = outcome
    at tally registries ⊢
  generalize ((Node.ofJson right).resolve options none).outcome .empty = another
    at tally registries ⊢
  obtain ⟨result, after⟩ := outcome
  obtain ⟨twin, later⟩ := another
  cases tally with
  | error violation failure => exact .error violation failure
  | ok roots =>
    exact .ok {
      root := roots
      entries := sameList_iff.2 registries.entries
      index := registries.index
      bases := registries.bases
      literals := map_eq_of_forall₂ (fun _ _ same => Entry.Same.literals_eq same)
        registries.entries }

namespace Document

/-- A protocol whose objects are arranged in some way, except for its messages. A property of its
record has the name that the messages have in the protocol. -/
def mailbox (arrange : Members → Members) : Json :=
  .object (arrange [
    ("protocol", .string "Mailbox"),
    ("types", .array [.object (arrange [
      ("type", .string "record"),
      ("name", .string "Letter"),
      ("messages", .object (arrange [("first", .null), ("last", .null)])),
      ("fields", .array [.object (arrange [
        ("name", .string "stamps"),
        ("type", .object (arrange [("type", .string "map"), ("values", .string "int")])),
        ("default", .object (arrange [("blue", .ofNat 1), ("red", .ofNat 2)]))])])])]),
    ("messages", .object [
      ("send", .object (arrange [
        ("request", .array [.object (arrange [("name", .string "letter"), ("type", .string "Letter")])]),
        ("response", .string "null")])),
      ("clear", .object (arrange [("request", .array []), ("one-way", .bool true),
        ("response", .string "null")]))])])

/-- All objects but the messages turned around: both documents are accepted, with entries that are
the same and yet differ. -/
theorem resolve_reordered_mailbox :
    Json.Reordered .schema (mailbox id) (mailbox List.reverse) ∧
      (mailbox id).EveryObject Members.DistinctKeys ∧
      ∃ document other, resolve {} (mailbox id) = .ok document ∧
        resolve {} (mailbox List.reverse) = .ok other ∧ document.Same other ∧
        document.registry ≠ other.registry := by
  have reordered : Json.Reordered .schema (mailbox id) (mailbox List.reverse) := by
    have turned (members : Members) : members.Perm members.reverse := members.reverse_perm.symm
    refine .object_of_forall₂ (turned _) nofun
      (.cons ⟨rfl, ?messages⟩ (.cons ⟨rfl, ?types⟩ (.cons ⟨rfl, .string _ _⟩ .nil)))
    case messages =>
      refine .object_of_forall₂ (.refl _) (fun _ => rfl)
        (.cons ⟨rfl, ?send⟩ (.cons ⟨rfl, ?clear⟩ .nil))
      case send =>
        refine .object_of_forall₂ (turned _) nofun
          (.cons ⟨rfl, .string _ _⟩ (.cons ⟨rfl, .array_of_forall₂ (.cons ?_ .nil)⟩ .nil))
        exact .object_of_forall₂ (turned _) nofun
          (.cons ⟨rfl, .string _ _⟩ (.cons ⟨rfl, .string _ _⟩ .nil))
      case clear =>
        exact .object_of_forall₂ (turned _) nofun (.cons ⟨rfl, .string _ _⟩
          (.cons ⟨rfl, .bool _ _⟩ (.cons ⟨rfl, .array_of_forall₂ .nil⟩ .nil)))
    case types =>
      refine .array_of_forall₂ (.cons (.object_of_forall₂ (turned _) nofun
        (.cons ⟨rfl, .array_of_forall₂ (.cons ?field .nil)⟩ (.cons ⟨rfl, ?property⟩
          (.cons ⟨rfl, .string _ _⟩ (.cons ⟨rfl, .string _ _⟩ .nil))))) .nil)
      case field =>
        refine .object_of_forall₂ (turned _) nofun
          (.cons ⟨rfl, ?default⟩ (.cons ⟨rfl, ?type⟩ (.cons ⟨rfl, .string _ _⟩ .nil)))
        case default =>
          exact .object_of_forall₂ (turned _) nofun
            (.cons ⟨rfl, .number _ _⟩ (.cons ⟨rfl, .number _ _⟩ .nil))
        case type =>
          exact .object_of_forall₂ (turned _) nofun
            (.cons ⟨rfl, .string _ _⟩ (.cons ⟨rfl, .string _ _⟩ .nil))
      case property =>
        exact .object_of_forall₂ (turned _) nofun
          (.cons ⟨rfl, .null _⟩ (.cons ⟨rfl, .null _⟩ .nil))
  have distinct : (mailbox id).EveryObject Members.DistinctKeys := by decide +kernel
  refine ⟨reordered, distinct, ?_⟩
  have differ : ((resolve {} (mailbox id)).toOption.map Document.registry).isSome = true ∧
      (resolve {} (mailbox id)).toOption.map Document.registry ≠
        (resolve {} (mailbox List.reverse)).toOption.map Document.registry := by
    decide +kernel
  have tally := resolve_reordered reordered distinct {}
  generalize resolve {} (mailbox id) = result at tally differ ⊢
  generalize resolve {} (mailbox List.reverse) = another at tally differ ⊢
  cases tally with
  | error => cases differ.1
  | ok same => exact ⟨_, _, rfl, rfl, same, fun equal => differ.2 (congrArg some equal)⟩

end Document

end AvroGraph
