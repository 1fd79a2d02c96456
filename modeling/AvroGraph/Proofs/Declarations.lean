import AvroGraph.Proofs.SlotBases

/-!
# Declarations in order

Which names a document declares can be read off its JSON (`Json.declaredNames`): the traversal knows
nothing of registries, references, options or abstract bases. A document that is accepted has
exactly these declarations in its registry, each once and in this order
(`Document.declaredNames_registry`).
-/

namespace AvroGraph

/-! ## What JSON declares -/

/-- The name that a text spells. A dotted one brings its own namespace; any other lives in the
namespace given beside it, or else in the one around it. -/
def Name.qualified (text : String) (beside around : Option String) : Name :=
  match Text.cutAtLastDot text.toList with
  | some (space, localName) => ⟨String.ofList localName, some (String.ofList space)⟩
  | none => ⟨text, beside.or around⟩

/-- The name that an object declares at a key. -/
def Members.declaredName? (members : Members) (key : String) (around : Option String) :
    Option Name :=
  ((members.get? key).bind Json.string?).map fun text =>
    .qualified text ((members.get? "namespace").bind Json.string?) around

/-- What a value of a document stands for. -/
inductive Place where
  | schema
  | field
  | message

mutual

/-- The names that a value declares at its place within a namespace. A declaration comes before what
is declared inside it; nothing is declared but where a schema is wanted. -/
def Json.declaredNames (place : Place) (around : Option String) : Json → List Name
  | .array branches =>
    match place with
    | .schema => declaredNamesOfItems .schema around branches
    | .field | .message => []
  | .object members =>
    match place with
    | .schema =>
      match Members.get? members "type" with
      | none =>
        (Members.declaredName? members "protocol" around).elim [] fun name =>
          name :: (declaredNamesOfItemsAt "types" .schema name.space members ++
            declaredNamesOfMessagesAt "messages" name.space members)
      | some (.string "record") | some (.string "error") =>
        (Members.declaredName? members "name" around).elim [] fun name =>
          name :: declaredNamesOfItemsAt "fields" .field name.space members
      | some (.string "enum") | some (.string "fixed") =>
        (Members.declaredName? members "name" around).toList
      | some (.string "array") => declaredNamesAt "items" around members
      | some (.string "map") => declaredNamesAt "values" around members
      | some _ => declaredNamesAt "type" around members
    | .field => declaredNamesAt "type" around members
    | .message =>
      declaredNamesOfItemsAt "request" .field around members ++
        declaredNamesAt "response" around members ++
        declaredNamesOfItemsAt "errors" .schema around members
  | _ => []

/-- The names that values declare one after another. -/
def declaredNamesOfItems (place : Place) (around : Option String) : List Json → List Name
  | [] => []
  | item :: rest => item.declaredNames place around ++ declaredNamesOfItems place around rest

/-- The names that the messages of a protocol declare one after another. -/
def declaredNamesOfMessages (around : Option String) : List (String × Json) → List Name
  | [] => []
  | (_, value) :: rest =>
    value.declaredNames .message around ++ declaredNamesOfMessages around rest

/-- The names that the schema at a key declares. -/
def declaredNamesAt (key : String) (around : Option String) : List (String × Json) → List Name
  | [] => []
  | (name, value) :: rest =>
    if name = key then value.declaredNames .schema around else declaredNamesAt key around rest

/-- The names that the values in the array at a key declare. -/
def declaredNamesOfItemsAt (key : String) (place : Place) (around : Option String) :
    List (String × Json) → List Name
  | [] => []
  | (name, value) :: rest =>
    if name = key then
      match value with
      | .array items => declaredNamesOfItems place around items
      | _ => []
    else declaredNamesOfItemsAt key place around rest

/-- The names that the messages in the object at a key declare. -/
def declaredNamesOfMessagesAt (key : String) (around : Option String) :
    List (String × Json) → List Name
  | [] => []
  | (name, value) :: rest =>
    if name = key then
      match value with
      | .object entries => declaredNamesOfMessages around entries
      | _ => []
    else declaredNamesOfMessagesAt key around rest

end

section

variable (key name : String) (around : Option String) (value : Json) (rest : List (String × Json))

/-- The first member at a key has the items there. -/
theorem declaredNamesOfItemsAt_cons (place : Place) :
    declaredNamesOfItemsAt key place around ((name, value) :: rest) =
      if name = key then value.array?.elim [] (declaredNamesOfItems place around)
      else declaredNamesOfItemsAt key place around rest := by
  cases value <;> rfl

/-- The first member at a key has the messages there. -/
theorem declaredNamesOfMessagesAt_cons :
    declaredNamesOfMessagesAt key around ((name, value) :: rest) =
      if name = key then value.object?.elim [] (declaredNamesOfMessages around)
      else declaredNamesOfMessagesAt key around rest := by
  cases value <;> rfl

end

/-! ## What a registry holds -/

namespace Registry

variable {registry after : Registry} {entry : Entry} {handle : Handle}

/-- The names of the declarations, in the order of their registration. -/
def declaredNames (registry : Registry) : List Name :=
  registry.declarations.map Entry.name

/-- To register a declaration adds its name at the end; bases are not counted. -/
theorem declaredNames_register (registered : registry.register entry = .ok (handle, after)) :
    after.declaredNames =
      registry.declaredNames ++ if entry.isAbstractBase then [] else [entry.name] := by
  obtain ⟨-, -, rfl⟩ := register_eq_ok.1 registered
  cases isBase : entry.isAbstractBase <;> simp [declaredNames, declarations, isBase]

/-- Amendments leave the declared names alone. -/
theorem Amended.declaredNames_eq (amended : registry.Amended after) :
    after.declaredNames = registry.declaredNames := by
  obtain ⟨handle, change, amends, rfl⟩ := amended
  exact map_declarations_update (fun entry => Entry.isAbstractBase_of_kind (amends.kind entry))
    amends.name registry handle

/-- Links to a base leave the declared names alone. -/
theorem declaredNames_addBases (handles : List Handle) (base : Handle) :
    (handles.foldl (fun result record => result.addBase record base) registry).declaredNames =
      registry.declaredNames :=
  keep_addBases (fun result => result.declaredNames = registry.declaredNames)
    (fun same amended => amended.declaredNames_eq.trans same) handles base rfl

/-- The base of a slot is no declaration. -/
theorem declaredNames_slot {options : Options} {owner : Name} {name : String} {declared : Schema}
    {slot : Slot} (filled : registry.slot options owner name declared = .ok (slot, after)) :
    after.declaredNames = registry.declaredNames := by
  obtain rfl | ⟨-, base, registered, register, rfl⟩ := slot_cases filled
  · rfl
  · rw [declaredNames_addBases]
    exact (declaredNames_register register).trans (List.append_nil _)

/-- Whatever becomes of a logical type, the declared names are left alone. -/
theorem declaredNames_annotate {declaresFixed : Bool} {inner schema : Schema} {name : String}
    {overlay : Except Reason (Option LogicalType)}
    (annotated : registry.annotate declaresFixed inner name overlay = .ok (schema, after)) :
    after.declaredNames = registry.declaredNames := by
  obtain rfl | amended := eq_or_amended_of_annotate annotated
  · rfl
  · exact amended.declaredNames_eq

end Registry

/-! ## What a walk adds -/

open Resolving

/-- A name that can be resolved is the qualified one. -/
theorem Name.eq_qualified_of_resolve {text : String} {beside around : Option String} {name : Name}
    (resolved : resolve text beside around = .ok name) : name = qualified text beside around := by
  rw [qualified]
  cases cut : Text.cutAtLastDot text.toList with
  | some parts =>
    rw [resolve, cut] at resolved
    split at resolved
    · cases resolved
    · obtain ⟨_, -, ⟨⟩⟩ := bind_eq_ok.1 resolved
      rfl
  | none => exact ((resolve_undotted (Text.cutAtLastDot_eq_none.1 cut)).1 resolved).2.2.2

/-- An optional string that can be read is the string at its key, if there is one. -/
theorem Members.string?_of_optionalString {members : Members} {key : String} {text : Option String}
    (read : members.optionalString key = .ok text) :
    (members.get? key).bind Json.string? = text := by
  rw [optionalString] at read
  split at read <;> cases read
  all_goals simp_all [Json.string?]

/-- The declaration of a heading has the name that its object declares. -/
theorem Heading.declaredName?_eq {members : Members} {key : String} {missing : Reason}
    {details : Except Reason Details} {heading : Heading} {options : Options}
    {around : Option String} {declaration : Declaration}
    (read : Heading.ofMembers members key missing details = .ok heading)
    (resolved : heading.resolve options around = .ok declaration) :
    members.declaredName? key around = some declaration.name := by
  have named := Name.eq_qualified_of_resolve (Heading.resolve_eq_ok.1 resolved).1
  rw [Heading.ofMembers] at read
  split at read
  · next text isText =>
    obtain ⟨space, isSpace, ⟨⟩⟩ := bind_eq_ok.1 read
    rw [Members.declaredName?, isText, Members.string?_of_optionalString isSpace, named]
    rfl
  · cases read

/-- A walk that succeeds adds declarations of certain names to whatever registry it starts in. -/
def Resolving.Adds {α : Type} (walk : Resolving α) (names : List Name) : Prop :=
  ∀ registry value after, walk.Yields registry value after →
    after.declaredNames = registry.declaredNames ++ names

/-- A walk that leaves the registry as it is adds no names. -/
theorem Resolving.Adds.still {α : Type} {walk : Resolving α}
    (same : ∀ registry value after, walk.Yields registry value after → registry = after) :
    walk.Adds [] := by
  intro registry value after walks
  rw [same registry value after walks, List.append_nil]

/-- What stands at the keys of an object adds the declarations in it, whatever it stands for. -/
structure Members.PartsAdd (options : Options) (members : Members) : Prop where
  schema : ∀ key around, ∀ node ∈ nodeAt key members,
    (node.resolve options around).Adds (declaredNamesAt key around members)
  schemas : ∀ key around vet, (resolveEach options around vet (nodesAt key members)).Adds
    (declaredNamesOfItemsAt key .schema around members)
  fields : ∀ key owner done, (resolveFields options owner done (fieldsAt key members)).Adds
    (declaredNamesOfItemsAt key .field owner.space members)
  messages : ∀ key around, (resolveMessages options around (messagesAt key members)).Adds
    (declaredNamesOfMessagesAt key around members)

section

variable {options : Options} {around : Option String} {members : Members}

/-- No nodes add no names. -/
theorem adds_resolveEach_nil {vet : Vet} : (resolveEach options around vet []).Adds [] :=
  .still fun _ _ _ walks => (yields_resolveEach_nil.1 walks).2

/-- No fields add no names. -/
theorem adds_resolveFields_nil {owner : Name} {done : List Field} :
    (resolveFields options owner done []).Adds [] :=
  .still fun _ _ _ walks => (yields_resolveFields_nil.1 walks).2

/-- No messages add no names. -/
theorem adds_resolveMessages_nil : (resolveMessages options around []).Adds [] :=
  .still fun _ _ _ walks => (yields_resolveMessages_nil.1 walks).2

namespace Node

/-- What is malformed does not succeed, and so it may be said to add any names. -/
theorem adds_malformed (reason : Reason) (source : Json) (names : List Name) :
    ((malformed reason source).resolve options around).Adds names :=
  fun _ _ _ walks => absurd walks yields_malformed

/-- A child that has to be there adds what it declares. -/
theorem adds_getD (adds : members.PartsAdd options) (key : String) (reason : Reason) (source : Json) :
    (((nodeAt key members).getD (.malformed reason source)).resolve options around).Adds
      (declaredNamesAt key around members) := by
  cases child : nodeAt key members with
  | none => exact adds_malformed reason source _
  | some node => exact adds.schema key around node child

/-- A node with a heading adds what it adds once the heading is read. -/
theorem adds_ofHeading {source : Json} {heading : Except Reason Heading} {make : Heading → Node}
    {names : List Name}
    (made : ∀ read, heading = .ok read → ((make read).resolve options around).Adds names) :
    ((ofHeading source heading make).resolve options around).Adds names := by
  cases heading with
  | ok read => exact made read rfl
  | error reason => exact adds_malformed reason source names

/-- A record comes before what its fields declare. -/
theorem adds_ofRecord (adds : members.PartsAdd options) (isError : Bool) :
    ((ofRecord members (.ofMembers members) isError).resolve options around).Adds
      ((members.declaredName? "name" around).elim [] fun name =>
        name :: declaredNamesOfItemsAt "fields" .field name.space members) := by
  refine adds_ofHeading fun heading read registry schema after walks => ?_
  obtain ⟨declaration, handle, registered, done, filled, resolved, register, inside, rfl, rfl⟩ :=
    yields_record.1 walks
  have added := adds.fields "fields" declaration.name [] _ _ _ inside
  -- To be given its fields leaves a record where it was registered, ahead of what they declare.
  rw [(Registry.amended_setFields handle done).declaredNames_eq, added,
    Registry.declaredNames_register register, Heading.declaredName?_eq read resolved,
    List.append_assoc]
  cases isError <;> rfl

/-- An enum adds its own name. -/
theorem adds_ofEnum :
    ((ofEnum members).resolve options around).Adds (members.declaredName? "name" around).toList := by
  refine adds_ofHeading fun heading read registry schema after walks => ?_
  obtain ⟨declaration, enumeration, handle, resolved, checked, register, rfl⟩ :=
    yields_enum.1 walks
  rw [Registry.declaredNames_register register, Heading.declaredName?_eq read resolved,
    ← (Declaration.enumeration_eq_ok checked).1]
  rfl

/-- A fixed type adds its own name. -/
theorem adds_ofFixed :
    ((ofFixed members).resolve options around).Adds
      (members.declaredName? "name" around).toList := by
  refine adds_ofHeading fun heading read registry schema after walks => ?_
  obtain ⟨declaration, fixedType, handle, resolved, sized, register, rfl⟩ := yields_fixed.1 walks
  rw [Registry.declaredNames_register register, Heading.declaredName?_eq read resolved,
    ← (Declaration.fixedType_eq_ok.1 sized).2.1]
  rfl

/-- A protocol comes before what its types declare, and that before what its messages declare. -/
theorem adds_ofProtocol (adds : members.PartsAdd options) :
    ((ofProtocol members (.ofMembers members)).resolve options around).Adds
      ((members.declaredName? "protocol" around).elim [] fun name =>
        name :: (declaredNamesOfItemsAt "types" .schema name.space members ++
          declaredNamesOfMessagesAt "messages" name.space members)) := by
  refine adds_ofHeading fun heading read registry schema after walks => ?_
  obtain ⟨declaration, handle, registered, schemas, typed, done, filled, resolved, register, types,
    messages, rfl, rfl⟩ := yields_protocol.1 walks
  have typesAdd : typed.declaredNames = registered.declaredNames ++
      declaredNamesOfItemsAt "types" .schema declaration.name.space members := by
    split at types
    case h_4 =>
      obtain ⟨_, _, _, first, -⟩ := yields_resolveEach_cons.1 types
      exact absurd first yields_malformed
    all_goals exact adds.schemas "types" _ _ _ _ _ types
  have messagesAdd : filled.declaredNames = typed.declaredNames ++
      declaredNamesOfMessagesAt "messages" declaration.name.space members := by
    split at messages
    case h_4 =>
      obtain ⟨_, _, _, first, -⟩ := yields_resolveMessages_cons.1 messages
      exact absurd first MessageNode.yields_malformed
    all_goals exact adds.messages "messages" _ _ _ _ messages
  rw [(Registry.amended_setProtocol handle schemas done).declaredNames_eq, messagesAdd, typesAdd,
    Registry.declaredNames_register register, Heading.declaredName?_eq read resolved]
  simp only [List.append_assoc]
  rfl

/-- Where a type is given, an object adds what it declares. -/
theorem adds_ofTyped (adds : members.PartsAdd options) :
    ((ofTyped members (.ofMembers members)).resolve options around).Adds
      ((Json.object members).declaredNames .schema around) := by
  rw [ofTyped]
  split
  case h_1 => exact adds_malformed _ _ _
  case h_2 isType | h_3 isType =>
    simp only [Json.declaredNames, isType]
    exact adds_ofRecord adds _
  case h_4 isType =>
    simp only [Json.declaredNames, isType]
    exact adds_ofEnum
  case h_5 isType =>
    simp only [Json.declaredNames, isType]
    exact adds_ofFixed
  case h_6 isType =>
    simp only [Json.declaredNames, isType]
    intro registry schema after walks
    obtain ⟨inner, inside, rfl⟩ := yields_array.1 walks
    exact adds_getD adds "items" _ _ _ _ _ inside
  case h_7 isType =>
    simp only [Json.declaredNames, isType]
    intro registry schema after walks
    obtain ⟨inner, inside, rfl⟩ := yields_map.1 walks
    exact adds_getD adds "values" _ _ _ _ _ inside
  case h_8 isType =>
    -- A type by any other name is a reference, which is read from the value at the key itself.
    simp only [Json.declaredNames, isType]
    split
    case h_8 => exact adds_getD adds "type" _ _
    all_goals simp_all
  case h_9 isType | h_10 isType =>
    simp only [Json.declaredNames, isType]
    exact adds_getD adds "type" _ _
  case h_11 => exact adds_malformed _ _ _

/-- A protocol is an object without a type; a logical type adds no declaration. -/
theorem adds_ofMembers (adds : members.PartsAdd options) :
    ((ofMembers members (.ofMembers members)).resolve options around).Adds
      ((Json.object members).declaredNames .schema around) := by
  rw [ofMembers]
  split
  · next isProtocol =>
    have untyped : members.get? "type" = none := by
      simpa [Members.has] using (Bool.and_eq_true_iff.1 isProtocol).2
    simp only [Json.declaredNames, untyped]
    exact adds_ofProtocol adds
  · split
    · exact adds_ofTyped adds
    · intro registry schema after walks
      obtain ⟨underlying, between, inside, annotated⟩ := yields_logical.1 walks
      rw [Registry.declaredNames_annotate annotated]
      exact adds_ofTyped adds _ _ _ inside
    · exact adds_malformed _ _ _

end Node

/-- A field adds what its type does, in the namespace of its owner. -/
theorem FieldNode.adds_ofMembers (adds : members.PartsAdd options) (owner : Name) :
    ((ofMembers members (nodeAt "type" members)).resolve options owner).Adds
      (declaredNamesAt "type" owner.space members) := by
  rw [ofMembers]
  intro registry field after walks
  split at walks
  · exact absurd walks FieldNode.yields_malformed
  · obtain ⟨declared, typed, slot, _, _, -, inside, filled, -, -, -⟩ :=
      FieldNode.yields_field.1 walks
    rw [Registry.declaredNames_slot filled]
    exact Node.adds_getD adds "type" _ _ _ _ _ inside

/-- What the parameters of a message declare comes before what its response declares, and that
before what its errors declare. -/
theorem MessageNode.adds_ofMembers (adds : members.PartsAdd options) (name : String) :
    ((ofMembers name members (fieldsAt "request" members) (nodeAt "response" members)
        (nodesAt "errors" members)).resolve options around).Adds
      ((Json.object members).declaredNames .message around) := by
  intro registry message after walks
  obtain ⟨parameters, asked, declared, typed, slot, answered, failures, _, _, -, request, response,
    filled, errors, -⟩ := MessageNode.yields_message.1 walks
  have requestAdds : asked.declaredNames = registry.declaredNames ++
      declaredNamesOfItemsAt "request" .field around members := by
    split at request
    · exact adds.fields "request" ⟨name, around⟩ _ _ _ _ request
    · obtain ⟨_, _, first, -⟩ := yields_resolveFields_cons.1 request
      exact absurd first FieldNode.yields_malformed
  have errorsAdd : after.declaredNames = answered.declaredNames ++
      declaredNamesOfItemsAt "errors" .schema around members := by
    split at errors
    case h_4 =>
      obtain ⟨_, _, _, first, -⟩ := yields_resolveEach_cons.1 errors
      exact absurd first Node.yields_malformed
    all_goals exact adds.schemas "errors" _ _ _ _ _ errors
  rw [errorsAdd, Registry.declaredNames_slot filled,
    Node.adds_getD adds "response" _ _ _ _ _ response, requestAdds, Json.declaredNames]
  simp only [List.append_assoc]

end

variable {options : Options}

mutual

/-- Whatever value stands in the place of a schema, a walk over it adds the declarations in it. -/
theorem Node.adds_ofJson : (json : Json) → ∀ around,
    ((Node.ofJson json).resolve options around).Adds (json.declaredNames .schema around)
  | .string _, _ => .still fun _ _ _ walks => (Node.yields_reference.1 walks).2
  | .array items, around => by
    intro registry schema after walks
    obtain ⟨branches, inside, -⟩ := Node.yields_union.1 walks
    exact adds_resolveEach items around .branch _ _ _ inside
  | .object members, around => Node.adds_ofMembers (Members.partsAdd members)
  | .null, _ | .bool _, _ | .number _, _ => Node.adds_malformed _ _ _

/-- Nodes in a row add what each of them does, in order. -/
theorem adds_resolveEach : (items : List Json) → ∀ around vet,
    (resolveEach options around vet (nodes items)).Adds
      (declaredNamesOfItems .schema around items)
  | [], _, _ => adds_resolveEach_nil
  | item :: rest, around, vet => by
    intro registry schemas after walks
    obtain ⟨_, between, _, first, -, others, -⟩ := yields_resolveEach_cons.1 walks
    rw [adds_resolveEach rest around vet _ _ _ others, Node.adds_ofJson item around _ _ _ first,
      List.append_assoc, declaredNamesOfItems]

/-- A field adds what its document declares. -/
theorem FieldNode.adds_ofJson : (json : Json) → ∀ owner,
    ((FieldNode.ofJson json).resolve options owner).Adds (json.declaredNames .field owner.space)
  | .object members, owner => FieldNode.adds_ofMembers (Members.partsAdd members) owner
  | .null, _ | .bool _, _ | .number _, _ | .string _, _ | .array _, _ =>
    fun _ _ _ walks => absurd walks FieldNode.yields_malformed

/-- Fields in a row add what each of them does, in order. -/
theorem adds_resolveFields : (items : List Json) → ∀ owner done,
    (resolveFields options owner done (fieldNodes items)).Adds
      (declaredNamesOfItems .field owner.space items)
  | [], _, _ => adds_resolveFields_nil
  | item :: rest, owner, done => by
    intro registry fields after walks
    obtain ⟨_, between, first, -, others⟩ := yields_resolveFields_cons.1 walks
    rw [adds_resolveFields rest owner _ _ _ _ others, FieldNode.adds_ofJson item owner _ _ _ first,
      List.append_assoc, declaredNamesOfItems]

/-- A message adds what its document declares. -/
theorem MessageNode.adds_ofJson (name : String) : (json : Json) → ∀ around,
    ((MessageNode.ofJson name json).resolve options around).Adds
      (json.declaredNames .message around)
  | .object members, around => MessageNode.adds_ofMembers (Members.partsAdd members) name
  | .null, _ | .bool _, _ | .number _, _ | .string _, _ | .array _, _ => by
    intro registry message after walks
    obtain ⟨_, _, _, _, _, _, _, _, _, -, request, -⟩ := MessageNode.yields_message.1 walks
    obtain ⟨_, _, first, -⟩ := yields_resolveFields_cons.1 request
    exact absurd first FieldNode.yields_malformed

/-- Messages in a row add what each of them does, in order. -/
theorem adds_resolveMessages : (members : List (String × Json)) → ∀ around,
    (resolveMessages options around (messageNodes members)).Adds
      (declaredNamesOfMessages around members)
  | [], _ => adds_resolveMessages_nil
  | (name, value) :: rest, around => by
    intro registry messages after walks
    obtain ⟨_, between, _, first, others, -⟩ := yields_resolveMessages_cons.1 walks
    rw [adds_resolveMessages rest around _ _ _ others,
      MessageNode.adds_ofJson name value around _ _ _ first, List.append_assoc,
      declaredNamesOfMessages]

-- By recursion on the members: each value may come to stand at any key, so its nodes, fields and
-- messages are all at hand here.
/-- So every member of an object adds what it declares. -/
theorem Members.partsAdd : (members : List (String × Json)) → Members.PartsAdd options members
  | [] =>
    { schema _ _ _ member := by cases member
      schemas _ _ _ := adds_resolveEach_nil
      fields _ _ _ := adds_resolveFields_nil
      messages _ _ := adds_resolveMessages_nil }
  | (name, value) :: rest =>
    have others := Members.partsAdd rest
    { schema key around node member := by
        rw [nodeAt] at member
        rw [declaredNamesAt]
        split at member
        · next isKey =>
          cases member
          rw [if_pos isKey]
          exact Node.adds_ofJson value around
        · next isOther =>
          rw [if_neg isOther]
          exact others.schema key around node member
      schemas key around vet := by
        rw [nodesAt_cons, declaredNamesOfItemsAt_cons]
        split
        · cases value with
          | array items => exact adds_resolveEach items around vet
          | _ => exact adds_resolveEach_nil
        · exact others.schemas key around vet
      fields key owner done := by
        rw [fieldsAt_cons, declaredNamesOfItemsAt_cons]
        split
        · cases value with
          | array items => exact adds_resolveFields items owner done
          | _ => exact adds_resolveFields_nil
        · exact others.fields key owner done
      messages key around := by
        rw [messagesAt_cons, declaredNamesOfMessagesAt_cons]
        split
        · cases value with
          | object entries => exact adds_resolveMessages entries around
          | _ => exact adds_resolveMessages_nil
        · exact others.messages key around }

end

/-! ## Documents -/

/-- The declarations of a document that is accepted are those of its JSON, each once and in order.
-/
theorem Document.declaredNames_registry {root : Json} {document : Document}
    (accepted : Document.resolve options root = .ok document) :
    document.registry.declaredNames = root.declaredNames .schema none ∧
      (root.declaredNames .schema none).Nodup := by
  have names : document.registry.declaredNames = root.declaredNames .schema none :=
    Node.adds_ofJson root none _ _ _ (Document.resolve_eq_ok.1 accepted)
  refine ⟨names, names ▸ ?_⟩
  exact (reached accepted).sound.indexed.distinct.sublist (List.filter_sublist.map Entry.name)

/-- A protocol that declares schemas inside a type, a union and a message, next to objects that look
like declarations and are none. -/
def roster : Json :=
  let declare (kind name : String) (rest : Members) : Json :=
    .object ([("type", .string kind), ("name", .string name)] ++ rest)
  let slot (name : String) (type : Json) (rest : Members) : Json :=
    .object ([("name", .string name), ("type", type)] ++ rest)
  let enum (name : String) : Json := declare "enum" name [("symbols", .array [.string "x"])]
  let record (name : String) (fields : List Json) : Json :=
    declare "record" name [("fields", .array fields), ("items", enum "Ignored")]
  .object [
    ("messages", .object [("m", .object [
      ("response", .object [("type", .object [("type", .string "map"), ("values", enum "V")])]),
      ("request", .array [slot "p" (.array [.string "A", record "B" []]) []]),
      ("errors", .array [declare "error" "E" [("fields", .array []),
        ("namespace", .string "errors")]])])]),
    ("protocol", .string "n.P"),
    ("types", .array [
      record "A" [
        slot "a" (record "other.C" [slot "f" (declare "fixed" "F" [("size", .number (.integer 16)),
          ("logicalType", .string "uuid")]) []]) [("default", enum "Default")],
        slot "b" (.array [.string "A", .string "other.C", .string "null"]) [],
        slot "c" (.object [("type", .string "array"), ("items", enum "I")])
          [("extension", enum "Extension")]]])]

/-- Abstract bases stand between the declarations, which come in the order of the traversal. -/
theorem Document.declaredNames_registry_roster :
    ∃ document, Document.resolve {} roster = .ok document ∧
      document.registry.declaredNames = roster.declaredNames .schema none ∧
      (roster.declaredNames .schema none).Nodup ∧
      (roster.declaredNames .schema none).map Name.full =
        ["n.P", "n.A", "other.C", "other.F", "n.I", "n.B", "n.V", "errors.E"] ∧
      document.registry.names =
        ["n.P", "n.A", "other.C", "other.F", "n.ABBase", "n.I", "n.B", "n.MPBase", "n.V",
          "errors.E"] := by
  obtain ⟨document, accepted⟩ := Document.exists_of_isOk {} roster (by decide +kernel)
  have registered : (Document.resolve {} roster).toOption.map (·.registry.names) = some
      ["n.P", "n.A", "other.C", "other.F", "n.ABBase", "n.I", "n.B", "n.MPBase", "n.V",
        "errors.E"] := by decide +kernel
  rw [accepted] at registered
  obtain ⟨names, distinct⟩ := declaredNames_registry accepted
  exact ⟨document, accepted, names, distinct, by decide +kernel, Option.some.inj registered⟩

end AvroGraph
