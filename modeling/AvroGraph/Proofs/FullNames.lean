import AvroGraph.Proofs.Declarations
import AvroGraph.Proofs.Members
import AvroGraph.Proofs.Rewritten

/-!
# Names written in full

A declaration may leave its namespace to a member beside its name, to a protocol or a record around
it, or to the caller. `Json.inFull` writes every such name out where it is declared and changes
nothing else. A declaration is read with the same meaning then (`Heading.ofMembers_inFull`,
`Heading.resolve_inFull`), and a document declares the same names, whatever namespace it comes to
stand in (`Json.sameNames`).
-/

namespace AvroGraph

/-! ## Names in full -/

namespace Name

/-- A name in full is spelled as it is if no namespace is missing, and else with the namespace that
it is left to before it. -/
theorem full_qualified_cases (text : String) (beside around : Option String) :
    ((qualified text beside around).full = text ∧ ∀ other, (around = none → other = none) →
        qualified text beside other = qualified text beside around) ∨
      ∃ space, '.' ∉ text.toList ∧ beside.or around = some space ∧
        qualified text beside around = ⟨text, some space⟩ := by
  cases cut : Text.cutAtLastDot text.toList with
  | some parts =>
    obtain ⟨isDotted, -⟩ := Text.dotted_of_cutAtLastDot cut
    refine .inl ⟨?_, fun other _ => ?_⟩
    · rw [qualified, cut]
      exact isDotted.symm
    · rw [qualified, qualified, cut]
  | none =>
    cases inForce : beside.or around with
    | none =>
      obtain ⟨noSpace, outside⟩ := Option.or_eq_none_iff.1 inForce
      refine .inl ⟨?_, fun other within => ?_⟩
      · rw [qualified, cut, inForce]
        rfl
      · rw [qualified, qualified, noSpace, outside, within outside]
    | some space =>
      refine .inr ⟨space, Text.cutAtLastDot_eq_none.1 cut, rfl, ?_⟩
      rw [qualified, cut, inForce]

variable {raw : String} {beside around : Option String} {name : Name}

/-- A name in full means where it stands what it meant before. -/
theorem resolve_full_qualified :
    resolve (qualified raw beside around).full beside around = .ok name ↔
      resolve raw beside around = .ok name := by
  obtain ⟨isFull, -⟩ | ⟨space, undotted, inForce, spelled⟩ :=
    full_qualified_cases raw beside around
  · rw [isFull]
  · rw [spelled, resolve_undotted undotted, inForce]
    change resolve (space ++ "." ++ raw) beside around = .ok name ↔ _
    rw [resolve_dotted undotted]
    constructor
    · rintro ⟨⟨sound, visible⟩, rfl⟩
      refine ⟨visible, ?_, ?_, rfl⟩
      · rintro rfl
        cases inForce
        exact ne_empty_of_checkSegments sound rfl
      · rintro _ ⟨⟩
        exact sound
    · rintro ⟨visible, -, sound, rfl⟩
      exact ⟨⟨sound space rfl, visible⟩, rfl⟩

/-- A name in full is the same name within any namespace, or within none if it has none. -/
theorem qualified_full (text : String) (beside : Option String) {other : Option String}
    (within : around = none → other = none) :
    qualified (qualified text beside around).full beside other = qualified text beside around := by
  obtain ⟨isFull, same⟩ | ⟨space, undotted, -, spelled⟩ := full_qualified_cases text beside around
  · rw [isFull, same other within]
  · have cut := Text.cutAtLastDot_eq_some.2 ⟨Text.toList_dotted space text, undotted⟩
    rw [spelled]
    change qualified (space ++ "." ++ text) beside other = _
    rw [qualified, cut]
    simp only [String.ofList_toList]

end Name

/-! ## Documents in full -/

/-- What a value is to the object that it stands in, as far as names go. -/
inductive Part where
  /-- Nothing that declares a name. -/
  | other
  /-- The name of a declaration, and that name in full. -/
  | name (full : String)
  /-- A value at its place within a namespace. -/
  | value (place : Place) (around : Option String)
  /-- An array of parts. -/
  | array (part : Part)
  /-- An object of parts. -/
  | object (part : Part)

/-- What stands at a key; what is not listed declares nothing. -/
def Part.atKey (parts : List (String × Part)) (key : String) : Part :=
  (parts.lookup key).getD .other

/-- What stands in the namespace of a record. -/
def Part.insideRecord (space : Option String) : List (String × Part) :=
  [("fields", .array (.value .field space))]

/-- What stands in the namespace of a protocol. -/
def Part.insideProtocol (space : Option String) : List (String × Part) :=
  [("types", .array (.value .schema space)), ("messages", .object (.value .message space))]

namespace Members

/-- The parts of a declaration whose name is at a key: the name and what stands in its namespace. -/
def partsOfDeclaration (members : Members) (key : String) (around : Option String)
    (inside : Option String → List (String × Part)) : List (String × Part) :=
  (members.declaredName? key around).elim [] fun name => (key, .name name.full) :: inside name.space

/-- The parts of an object at its place within a namespace. -/
def parts (members : Members) (place : Place) (around : Option String) : List (String × Part) :=
  match place with
  | .schema =>
    match members.get? "type" with
    | none => members.partsOfDeclaration "protocol" around Part.insideProtocol
    | some (.string "record") | some (.string "error") =>
      members.partsOfDeclaration "name" around Part.insideRecord
    | some (.string "enum") | some (.string "fixed") =>
      members.partsOfDeclaration "name" around fun _ => []
    | some (.string "array") => [("items", .value .schema around)]
    | some (.string "map") => [("values", .value .schema around)]
    | some _ => [("type", .value .schema around)]
  | .field => [("type", .value .schema around)]
  | .message =>
    [("request", .array (.value .field around)), ("response", .value .schema around),
      ("errors", .array (.value .schema around))]

end Members

mutual

/-- A part of a document with the name of every declaration in it written in full. -/
def Json.inFull (part : Part) (json : Json) : Json :=
  match part, json with
  | .name full, .string _ => .string full
  | .value .schema around, .array branches =>
    .array (itemsInFull (.value .schema around) branches)
  | .value place around, .object members =>
    .object (membersInFull (.atKey (Members.parts members place around)) members)
  | .array part, .array items => .array (itemsInFull part items)
  | .object part, .object members => .object (membersInFull (fun _ => part) members)
  | _, json => json

/-- The items of an array, each with its names in full. -/
def itemsInFull (part : Part) : List Json → List Json
  | [] => []
  | item :: rest => item.inFull part :: itemsInFull part rest

/-- The members of an object, each with its names in full. -/
def membersInFull (parts : String → Part) : List (String × Json) → Members
  | [] => []
  | (key, value) :: rest => (key, value.inFull (parts key)) :: membersInFull parts rest

end

/-- What is neither a schema nor a part of one is left as it is. -/
theorem Json.inFull_other (json : Json) : json.inFull .other = json := by
  cases json <;> rfl

/-- At each key stands what was there, with names in full if it is a part. -/
theorem get?_membersInFull (parts : String → Part) (members : Members) (key : String) :
    (membersInFull parts members).get? key =
      (members.get? key).map (Json.inFull (parts key)) := by
  induction members with
  | nil => rfl
  | cons member rest ih =>
    obtain ⟨name, value⟩ := member
    rw [membersInFull, Members.get?_cons, Members.get?_cons, ih]
    split
    · next same => rw [same, Option.map_some]
    · rfl

/-- Where an object has no parts, it stays as it is. -/
theorem sameBesides_membersInFull {parts : List (String × Part)} {keys : List String}
    (within : ∀ part ∈ parts, part.1 ∈ keys) (members : Members) :
    (membersInFull (.atKey parts) members).SameBesides keys members := by
  have quiet (key : String) (other : key ∉ keys) : Part.atKey parts key = .other := by
    have unlisted : parts.lookup key = none := by
      rw [List.lookup_eq_none_iff]
      intro part isPart
      simpa using fun same : key = part.1 => other (same ▸ within part isPart)
    rw [Part.atKey, unlisted, Option.getD_none]
  constructor
  · intro key other
    rw [get?_membersInFull, quiet key other]
    cases members.get? key with
    | none => rfl
    | some value => rw [Option.map_some, Json.inFull_other]
  · intro reserved reservedKeys
    induction members with
    | nil => rfl
    | cons member rest ih =>
      obtain ⟨key, value⟩ := member
      simp only [Members.without] at ih
      simp only [Members.without, membersInFull, List.filter_cons, ih]
      by_cases isReserved : key ∈ reserved
      · simp [isReserved]
      · rw [quiet key fun isKey => isReserved (reservedKeys isKey), Json.inFull_other]

namespace Members

variable {members : Members} {around : Option String}

/-- The parts of a declaration stand at its key or inside it. -/
theorem mem_partsOfDeclaration {key : String} {inside : Option String → List (String × Part)}
    {part : String × Part} (isPart : part ∈ members.partsOfDeclaration key around inside) :
    part.1 = key ∨ ∃ space, part ∈ inside space := by
  rw [partsOfDeclaration] at isPart
  cases declared : members.declaredName? key around with
  | none => simp [declared] at isPart
  | some name =>
    rw [declared, Option.elim_some, List.mem_cons] at isPart
    obtain rfl | isInside := isPart
    · exact .inl rfl
    · exact .inr ⟨_, isInside⟩

/-- An object with a type has parts at few keys, and all of them have a meaning of their own. -/
theorem parts_typed {type : Json} (typed : members.get? "type" = some type) :
    ∀ part ∈ members.parts .schema around,
      part.1 ∈ ["name", "fields", "items", "values", "type"] := by
  intro part isPart
  simp only [parts, typed] at isPart
  split at isPart
  case h_1 untyped => cases untyped
  case h_2 | h_3 | h_4 | h_5 =>
    obtain isName | ⟨space, isInside⟩ := mem_partsOfDeclaration isPart
    · simp [isName]
    · simp_all [Part.insideRecord]
  all_goals simp_all

/-- A protocol has parts at few keys, and all of them have a meaning of their own. -/
theorem parts_untyped (untyped : members.get? "type" = none) :
    ∀ part ∈ members.parts .schema around, part.1 ∈ ["protocol", "types", "messages"] := by
  intro part isPart
  simp only [parts, untyped] at isPart
  obtain isName | ⟨space, isInside⟩ := mem_partsOfDeclaration isPart
  · simp [isName]
  · obtain rfl | rfl : part = ("types", _) ∨ part = ("messages", _) := by
      simpa [Part.insideProtocol] using isInside
    all_goals simp

end Members

/-- The members of an object at its place within a namespace, with their names in full. -/
abbrev Members.inFull (members : Members) (place : Place) (around : Option String) : Members :=
  membersInFull (.atKey (members.parts place around)) members

section

variable {members : Members} {around : Option String}

/-- An object with a type is the same with names in full, apart from its name and its parts. -/
theorem Members.sameBesides_typed (around : Option String) {type : Json}
    (typed : members.get? "type" = some type) :
    (members.inFull .schema around).SameBesides ["name", "fields", "items", "values", "type"]
      members :=
  sameBesides_membersInFull (parts_typed typed) members

/-- A protocol is the same with names in full, apart from its name and its parts. -/
theorem Members.sameBesides_untyped (around : Option String)
    (untyped : members.get? "type" = none) :
    (members.inFull .schema around).SameBesides ["protocol", "types", "messages"] members :=
  sameBesides_membersInFull (parts_untyped untyped) members

/-- A key with neither a name nor schemas has the same value. -/
theorem Members.get?_inFull {key : String}
    (other : key ∉ ["name", "fields", "items", "values", "type", "protocol", "types", "messages"]) :
    (members.inFull .schema around).get? key = members.get? key := by
  cases type : members.get? "type" with
  | none => exact (sameBesides_untyped around type).get? _ (by simp_all)
  | some value => exact (sameBesides_typed around type).get? _ (by simp_all)

/-- A keyword is no name that a declaration has. -/
theorem Members.get?_type_inFull {text : String} :
    (members.inFull .schema around).get? "type" = some (.string text) ↔
      members.get? "type" = some (.string text) := by
  have isPart : Part.atKey (members.parts .schema around) "type" = .other ∨
      Part.atKey (members.parts .schema around) "type" = .value .schema around := by
    rw [parts]
    split
    case h_1 =>
      rw [partsOfDeclaration]
      cases members.declaredName? "protocol" around <;> exact .inl rfl
    case h_2 | h_3 | h_4 | h_5 =>
      rw [partsOfDeclaration]
      cases members.declaredName? "name" around <;> exact .inl rfl
    case h_6 | h_7 => exact .inl rfl
    case h_8 => exact .inr rfl
  rw [get?_membersInFull]
  cases members.get? "type" with
  | none => rfl
  | some value =>
    obtain isOther | isSchema := isPart
    · rw [isOther, Option.map_some, Json.inFull_other]
    · rw [isSchema, Option.map_some]
      cases value <;> simp [Json.inFull]

/-- The type of an object is a schema, unless it is a keyword. -/
theorem Members.atKey_type (around : Option String) {type : Json}
    (typed : members.get? "type" = some type)
    (other : ∀ keyword ∈ ["record", "error", "enum", "fixed", "array", "map"],
      type ≠ .string keyword) :
    Part.atKey (members.parts .schema around) "type" = .value .schema around := by
  simp only [parts, typed]
  split
  case h_1 untyped => cases untyped
  case h_8 => rfl
  all_goals simp_all

/-! ## Headings -/

/-- A heading with its name in full. -/
def Heading.inFull (heading : Heading) (around : Option String) : Heading :=
  { heading with name := (Name.qualified heading.name heading.space around).full }

/-- A heading in full is resolved as it was before. -/
theorem Heading.resolve_inFull {heading : Heading} {options : Options} {declaration : Declaration} :
    (heading.inFull around).resolve options around = .ok declaration ↔
      heading.resolve options around = .ok declaration := by
  rw [resolve_eq_ok, resolve_eq_ok, inFull, Name.resolve_full_qualified]

/-- Where a declaration has its name, it has it in full. -/
theorem Members.string?_inFull {key : String} {inside : Option String → List (String × Part)}
    (layout : members.parts .schema around = members.partsOfDeclaration key around inside) :
    ((members.inFull .schema around).get? key).bind Json.string? =
      (members.declaredName? key around).map Name.full := by
  rw [get?_membersInFull, layout, partsOfDeclaration]
  cases declared : members.declaredName? key around with
  | none =>
    have unnamed : (members.get? key).bind Json.string? = none := Option.map_eq_none_iff.1 declared
    simp only [Option.elim_none, Part.atKey, List.lookup_nil, Option.getD_none, Option.map_none]
    rw [← unnamed]
    cases members.get? key with
    | none => rfl
    | some value => rw [Option.map_some, Json.inFull_other]
  | some name =>
    obtain ⟨text, isText, -⟩ := Option.map_eq_some_iff.1 declared
    obtain ⟨value, found, isString⟩ := Option.bind_eq_some_iff.1 isText
    simp only [found, Option.map_some, Option.elim_some, Part.atKey, List.lookup_cons_self,
      Option.getD_some, Option.bind_some]
    cases value <;> cases isString
    rfl

/-- The heading of a declaration is read with its name in full. -/
theorem Heading.ofMembers_inFull {key : String} {inside : Option String → List (String × Part)}
    (layout : members.parts .schema around = members.partsOfDeclaration key around inside)
    (missing : Reason) (details : Except Reason Details) :
    Heading.ofMembers (members.inFull .schema around) key missing details =
      (Heading.ofMembers members key missing details).map (·.inFull around) := by
  have sameSpace : (members.inFull .schema around).optionalString "namespace" =
      members.optionalString "namespace" := by
    rw [Members.optionalString, Members.get?_inFull (by decide), Members.optionalString]
  rw [Heading.ofMembers, Heading.ofMembers, sameSpace, Members.string?_inFull layout,
    Members.declaredName?]
  cases (members.get? key).bind Json.string? with
  | none => rfl
  | some text =>
    simp only [Option.map_some]
    cases read : members.optionalString "namespace" with
    | error reason => rfl
    | ok space =>
      rw [Members.string?_of_optionalString read]
      rfl

/-! ## Declared names -/

/-- What is declared at a key is declared by the value there. -/
theorem declaredNamesAt_eq (key : String) (around : Option String) (members : Members) :
    declaredNamesAt key around members =
      (members.get? key).elim [] (Json.declaredNames .schema around) := by
  induction members with
  | nil => rfl
  | cons member rest ih =>
    obtain ⟨name, value⟩ := member
    rw [declaredNamesAt, Members.get?_cons, ih]
    split <;> rfl

/-- What is declared by items at a key is declared by those of the array there. -/
theorem declaredNamesOfItemsAt_eq (key : String) (place : Place) (around : Option String)
    (members : Members) :
    declaredNamesOfItemsAt key place around members =
      ((members.get? key).bind Json.array?).elim [] (declaredNamesOfItems place around) := by
  induction members with
  | nil => rfl
  | cons member rest ih =>
    obtain ⟨name, value⟩ := member
    rw [declaredNamesOfItemsAt_cons, Members.get?_cons, ih]
    split <;> rfl

/-- What is declared by messages at a key is declared by those of the object there. -/
theorem declaredNamesOfMessagesAt_eq (key : String) (around : Option String) (members : Members) :
    declaredNamesOfMessagesAt key around members =
      ((members.get? key).bind Json.object?).elim [] (declaredNamesOfMessages around) := by
  induction members with
  | nil => rfl
  | cons member rest ih =>
    obtain ⟨name, value⟩ := member
    rw [declaredNamesOfMessagesAt_cons, Members.get?_cons, ih]
    split <;> rfl

/-- Where an object declares a name, it declares the same one in full. -/
theorem Members.declaredName?_inFull {key : String} {inside : Option String → List (String × Part)}
    (layout : members.parts .schema around = members.partsOfDeclaration key around inside)
    {other : Option String} (within : around = none → other = none) :
    (members.inFull .schema around).declaredName? key other = members.declaredName? key around := by
  rw [declaredName?, string?_inFull layout, get?_inFull (by decide), declaredName?, Option.map_map,
    Option.map_map]
  cases (members.get? key).bind Json.string? with
  | none => rfl
  | some text => exact congrArg some (Name.qualified_full text _ within)

/-- A value declares the same names in full, also within another namespace. -/
structure Json.SameNames (json : Json) : Prop where
  value : ∀ place {around other : Option String}, (around = none → other = none) →
    (json.inFull (.value place around)).declaredNames place other = json.declaredNames place around
  items : ∀ place {around other : Option String}, (around = none → other = none) →
    (json.inFull (.array (.value place around))).array?.elim [] (declaredNamesOfItems place other) =
      json.array?.elim [] (declaredNamesOfItems place around)
  messages : ∀ {around other : Option String}, (around = none → other = none) →
    (json.inFull (.object (.value .message around))).object?.elim []
        (declaredNamesOfMessages other) =
      json.object?.elim [] (declaredNamesOfMessages around)

section

variable {parts : String → Part} {key : String} {other : Option String}
  (same : ∀ key value, members.get? key = some value → value.SameNames)
  (within : around = none → other = none)

include same within

/-- A schema at a key declares the same names in full, within any namespace. -/
theorem declaredNamesAt_inFull (isPart : parts key = .value .schema around) :
    declaredNamesAt key other (membersInFull parts members) =
      declaredNamesAt key around members := by
  rw [declaredNamesAt_eq, declaredNamesAt_eq, get?_membersInFull, isPart]
  cases found : members.get? key with
  | none => rfl
  | some value => exact (same key value found).value .schema within

/-- Items at a key declare the same names in full, within any namespace. -/
theorem declaredNamesOfItemsAt_inFull {place : Place}
    (isPart : parts key = .array (.value place around)) :
    declaredNamesOfItemsAt key place other (membersInFull parts members) =
      declaredNamesOfItemsAt key place around members := by
  rw [declaredNamesOfItemsAt_eq, declaredNamesOfItemsAt_eq, get?_membersInFull, isPart]
  cases found : members.get? key with
  | none => rfl
  | some value => exact (same key value found).items place within

/-- Messages at a key declare the same names in full, within any namespace. -/
theorem declaredNamesOfMessagesAt_inFull (isPart : parts key = .object (.value .message around)) :
    declaredNamesOfMessagesAt key other (membersInFull parts members) =
      declaredNamesOfMessagesAt key around members := by
  rw [declaredNamesOfMessagesAt_eq, declaredNamesOfMessagesAt_eq, get?_membersInFull, isPart]
  cases found : members.get? key with
  | none => rfl
  | some value => exact (same key value found).messages within

/-- A record declares its name and what its fields declare. -/
theorem Members.declaredNames_record
    (layout : members.parts .schema around =
      members.partsOfDeclaration "name" around Part.insideRecord) :
    (((members.inFull .schema around).declaredName? "name" other).elim [] fun name =>
        name :: declaredNamesOfItemsAt "fields" .field name.space
          (members.inFull .schema around)) =
      (members.declaredName? "name" around).elim [] fun name =>
        name :: declaredNamesOfItemsAt "fields" .field name.space members := by
  rw [declaredName?_inFull layout within]
  cases declared : members.declaredName? "name" around with
  | none => rfl
  | some name =>
    rw [Option.elim_some, Option.elim_some, declaredNamesOfItemsAt_inFull same id]
    rw [layout, partsOfDeclaration, declared]
    rfl

/-- A protocol declares its name and what its types and messages declare. -/
theorem Members.declaredNames_protocol
    (layout : members.parts .schema around =
      members.partsOfDeclaration "protocol" around Part.insideProtocol) :
    (((members.inFull .schema around).declaredName? "protocol" other).elim [] fun name =>
        name :: (declaredNamesOfItemsAt "types" .schema name.space
            (members.inFull .schema around) ++
          declaredNamesOfMessagesAt "messages" name.space (members.inFull .schema around))) =
      (members.declaredName? "protocol" around).elim [] fun name =>
        name :: (declaredNamesOfItemsAt "types" .schema name.space members ++
          declaredNamesOfMessagesAt "messages" name.space members) := by
  rw [declaredName?_inFull layout within]
  cases declared : members.declaredName? "protocol" around with
  | none => rfl
  | some name =>
    rw [Option.elim_some, Option.elim_some, declaredNamesOfItemsAt_inFull same id,
      declaredNamesOfMessagesAt_inFull same id]
    all_goals
      rw [layout, partsOfDeclaration, declared]
      rfl

/-- An object in the place of a schema declares the same names. -/
theorem Members.declaredNames_inFull :
    (Json.object (members.inFull .schema around)).declaredNames .schema other =
      (Json.object members).declaredNames .schema around := by
  rw [Json.declaredNames, Json.declaredNames]
  cases type : members.get? "type" with
  | none =>
    rw [(sameBesides_untyped around type).get? _ (by decide), type]
    exact declaredNames_protocol same within (by simp only [parts, type])
  | some value =>
    cases value with
    | string text =>
      rw [get?_type_inFull.2 type]
      split
      case h_1 untyped => cases untyped
      case h_2 isType | h_3 isType =>
        cases isType
        exact declaredNames_record same within (by simp only [parts, type])
      case h_4 isType | h_5 isType =>
        cases isType
        rw [declaredName?_inFull (by simp only [parts, type]; rfl) within]
      case h_6 isType | h_7 isType =>
        cases isType
        refine declaredNamesAt_inFull same within ?_
        simp only [parts, type]
        rfl
      case h_8 =>
        refine declaredNamesAt_inFull same within (atKey_type around type ?_)
        simp_all
    | _ =>
      have isPart := atKey_type around type (by simp)
      rw [get?_membersInFull, isPart, type]
      exact declaredNamesAt_inFull same within isPart

end

/-- An array declares the same names in full if its items do. -/
theorem Json.sameNames_array {items : List Json} (same : ∀ item ∈ items, item.SameNames) :
    (Json.array items).SameNames := by
  have each (place : Place) {around other : Option String} (within : around = none → other = none) :
      declaredNamesOfItems place other (itemsInFull (.value place around) items) =
        declaredNamesOfItems place around items := by
    induction items with
    | nil => rfl
    | cons item rest ih =>
      obtain ⟨first, others⟩ := List.forall_mem_cons.1 same
      rw [itemsInFull, declaredNamesOfItems, declaredNamesOfItems, first.value place within,
        ih others]
  refine ⟨fun place around other within => ?_, fun place around other within => each place within,
    fun _ => rfl⟩
  cases place with
  | schema => exact each .schema within
  | _ => rfl

/-- An object declares the same names in full if the values in it do. -/
theorem Json.sameNames_object {members : List (String × Json)}
    (same : ∀ member ∈ members, member.2.SameNames) : (Json.object members).SameNames where
  value place around other within := by
    have atKeys : ∀ key value, Members.get? members key = some value → value.SameNames :=
      fun _ _ found => same _ (Members.mem_of_get? found)
    cases place with
    | schema => exact Members.declaredNames_inFull atKeys within
    | field => exact declaredNamesAt_inFull atKeys within rfl
    | message =>
      simp only [inFull, declaredNames]
      rw [declaredNamesOfItemsAt_inFull atKeys within rfl, declaredNamesAt_inFull atKeys within rfl,
        declaredNamesOfItemsAt_inFull atKeys within rfl]
  items _ _ _ _ := rfl
  messages {around other} within := by
    change declaredNamesOfMessages other (membersInFull (fun _ => .value .message around) members) =
      declaredNamesOfMessages around members
    induction members with
    | nil => rfl
    | cons member rest ih =>
      obtain ⟨first, others⟩ := List.forall_mem_cons.1 same
      rw [membersInFull, declaredNamesOfMessages, declaredNamesOfMessages,
        first.value .message within, ih others]

mutual

/-- Every value declares the same names in full. -/
theorem Json.sameNames : (json : Json) → json.SameNames
  | .array items => Json.sameNames_array (itemsSameNames items)
  | .object members => Json.sameNames_object (membersSameNames members)
  | .null | .bool _ | .number _ | .string _ =>
    { value place _ _ _ := by cases place <;> rfl
      items _ _ _ _ := rfl
      messages _ := rfl }

/-- The items of an array declare the same names in full. -/
theorem itemsSameNames : (items : List Json) → ∀ item ∈ items, item.SameNames
  | [] => nofun
  | item :: rest => List.forall_mem_cons.2 ⟨item.sameNames, itemsSameNames rest⟩

/-- The values in an object declare the same names in full. -/
theorem membersSameNames :
    (members : List (String × Json)) → ∀ member ∈ members, member.2.SameNames
  | [] => nofun
  | (_, value) :: rest => List.forall_mem_cons.2 ⟨value.sameNames, membersSameNames rest⟩

end

end

end AvroGraph
