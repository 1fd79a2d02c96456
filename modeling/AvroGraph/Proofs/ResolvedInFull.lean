import AvroGraph.Proofs.FullNames

/-!
# Documents with names in full

A document comes to the same schema and the same registry whether its declarations leave their
namespaces to what is around them or bring them along in their names, whatever has been registered
before (`Resolver.resolve_eq_ok_inFull`). The two walks may fail for different reasons, so they are
compared by what they yield.
-/

namespace AvroGraph

namespace Resolving

/-- Two walks succeed alike, whatever has been registered before. -/
def SameYields {α : Type} (first second : Resolving α) : Prop :=
  ∀ registry value after, first.Yields registry value after ↔ second.Yields registry value after

/-- A walk yields the same as itself. -/
theorem SameYields.refl {α : Type} (walk : Resolving α) : walk.SameYields walk := fun _ _ _ => .rfl

end Resolving

/-- A value comes to the same if its names are in full, whatever it stands for. -/
structure Json.SameInFull (options : Options) (json : Json) : Prop where
  schema : ∀ around, ((Node.ofJson json).resolve options around).SameYields
    ((Node.ofJson (json.inFull (.value .schema around))).resolve options around)
  schemas : ∀ around vet, (resolveEach options around vet (json.array?.elim [] nodes)).SameYields
    (resolveEach options around vet
      ((json.inFull (.array (.value .schema around))).array?.elim [] nodes))
  field : ∀ owner, ((FieldNode.ofJson json).resolve options owner).SameYields
    ((FieldNode.ofJson (json.inFull (.value .field owner.space))).resolve options owner)
  fields : ∀ owner done,
    (resolveFields options owner done (json.array?.elim [] fieldNodes)).SameYields
      (resolveFields options owner done
        ((json.inFull (.array (.value .field owner.space))).array?.elim [] fieldNodes))
  message : ∀ name around, ((MessageNode.ofJson name json).resolve options around).SameYields
    ((MessageNode.ofJson name (json.inFull (.value .message around))).resolve options around)
  messages : ∀ around,
    (resolveMessages options around (json.object?.elim [] messageNodes)).SameYields
      (resolveMessages options around
        ((json.inFull (.object (.value .message around))).object?.elim [] messageNodes))

/-- What stands at the keys of an object comes to the same if its names are in full. -/
def Members.SameInFull (options : Options) (members : Members) : Prop :=
  ∀ key value, members.get? key = some value → value.SameInFull options

section

variable {members : Members} {around : Option String}

section

variable {options : Options} {parts : String → Part} {key : String}
  (agree : members.SameInFull options)

include agree

/-- A child that has to be there. -/
theorem Node.sameYields_getD (isPart : parts key = .value .schema around) (reason : Reason)
    (source other : Json) :
    (((nodeAt key members).getD (.malformed reason source)).resolve options around).SameYields
      (((nodeAt key (membersInFull parts members)).getD (.malformed reason other)).resolve
        options around) := by
  rw [nodeAt_eq, nodeAt_eq, get?_membersInFull, isPart]
  cases found : members.get? key with
  | none => exact fun _ _ _ => iff_of_false yields_malformed yields_malformed
  | some value => exact (agree key value found).schema around

/-- Schemas at a key yield the same with names in full. -/
theorem sameYields_nodesAt (isPart : parts key = .array (.value .schema around)) (vet : Vet) :
    (resolveEach options around vet (nodesAt key members)).SameYields
      (resolveEach options around vet (nodesAt key (membersInFull parts members))) := by
  rw [nodesAt_eq, nodesAt_eq, get?_membersInFull, isPart]
  cases found : members.get? key with
  | none => exact .refl _
  | some value => exact (agree key value found).schemas around vet

/-- Fields at a key yield the same with names in full. -/
theorem sameYields_fieldsAt {owner : Name} (isPart : parts key = .array (.value .field owner.space))
    (done : List Field) :
    (resolveFields options owner done (fieldsAt key members)).SameYields
      (resolveFields options owner done (fieldsAt key (membersInFull parts members))) := by
  rw [fieldsAt_eq, fieldsAt_eq, get?_membersInFull, isPart]
  cases found : members.get? key with
  | none => exact .refl _
  | some value => exact (agree key value found).fields owner done

/-- Messages at a key yield the same with names in full. -/
theorem sameYields_messagesAt (isPart : parts key = .object (.value .message around)) :
    (resolveMessages options around (messagesAt key members)).SameYields
      (resolveMessages options around (messagesAt key (membersInFull parts members))) := by
  rw [messagesAt_eq, messagesAt_eq, get?_membersInFull, isPart]
  cases found : members.get? key with
  | none => exact .refl _
  | some value => exact (agree key value found).messages around

end

section

variable {options : Options}

/-- What is malformed yields nothing, for whatever reason. -/
theorem Node.sameYields_malformed (reason : Reason) (source other : Json) :
    ((malformed reason source).resolve options around).SameYields
      ((malformed reason other).resolve options around) :=
  fun _ _ _ => iff_of_false yields_malformed yields_malformed

/-- Nodes in a row yield the same if the first one and the others do. -/
theorem sameYields_resolveEach_cons {vet : Vet} {node full : Node} {rest fullRest : List Node}
    (first : (node.resolve options around).SameYields (full.resolve options around))
    (others : (resolveEach options around vet rest).SameYields
      (resolveEach options around vet fullRest)) :
    (resolveEach options around vet (node :: rest)).SameYields
      (resolveEach options around vet (full :: fullRest)) := by
  intro registry schemas after
  simp only [yields_resolveEach_cons, first _ _ _, others _ _ _]

/-- Fields in a row yield the same if the first one and the others do. -/
theorem sameYields_resolveFields_cons {owner : Name} {node full : FieldNode}
    {rest fullRest : List FieldNode}
    (first : (node.resolve options owner).SameYields (full.resolve options owner))
    (others : ∀ done, (resolveFields options owner done rest).SameYields
      (resolveFields options owner done fullRest)) (done : List Field) :
    (resolveFields options owner done (node :: rest)).SameYields
      (resolveFields options owner done (full :: fullRest)) := by
  intro registry fields after
  simp only [yields_resolveFields_cons, first _ _ _, others _ _ _ _]

/-- Messages in a row yield the same if the first one and the others do. -/
theorem sameYields_resolveMessages_cons {node full : MessageNode} {rest fullRest : List MessageNode}
    (first : (node.resolve options around).SameYields (full.resolve options around))
    (others : (resolveMessages options around rest).SameYields
      (resolveMessages options around fullRest)) :
    (resolveMessages options around (node :: rest)).SameYields
      (resolveMessages options around (full :: fullRest)) := by
  intro registry messages after
  simp only [yields_resolveMessages_cons, first _ _ _, others _ _ _]

end

/-! ## Declarations -/

section

variable {options : Options}

/-- What is made of a heading agrees with what is made of it in full. The name that is in force is
the one that the object declares. -/
theorem Node.sameYields_ofHeading {key : String} {inside : Option String → List (String × Part)}
    (layout : members.parts .schema around = members.partsOfDeclaration key around inside)
    {missing : Reason} {details detailsInFull : Except Reason Details}
    (said : detailsInFull = details) {source other : Json} {make remake : Heading → Node}
    (made : ∀ heading : Heading,
      (∀ declaration, heading.resolve options around = .ok declaration →
        members.declaredName? key around = some declaration.name) →
      ((make heading).resolve options around).SameYields
        ((remake (heading.inFull around)).resolve options around)) :
    ((ofHeading source (Heading.ofMembers members key missing details) make).resolve
        options around).SameYields
      ((ofHeading other (Heading.ofMembers (members.inFull .schema around) key missing
        detailsInFull) remake).resolve options around) := by
  rw [said, Heading.ofMembers_inFull layout]
  cases read : Heading.ofMembers members key missing details with
  | ok heading => exact made heading fun declaration => Heading.declaredName?_eq read
  | error reason => exact sameYields_malformed reason source other

/-- The array at a key stays one. -/
theorem Members.array?_membersInFull (members : Members) {parts : String → Part} {key : String}
    (isPart : parts key = .other ∨ ∃ part, parts key = .array part) :
    ∃ rewrite, (membersInFull parts members).array? key = (members.array? key).map rewrite := by
  rw [Members.array?, get?_membersInFull, Members.array?]
  obtain isOther | ⟨part, isArray⟩ := isPart
  · refine ⟨id, ?_⟩
    cases members.get? key with
    | none => rfl
    | some value => rw [isOther, Option.map_some, Json.inFull_other, Option.map_id, id]
  · refine ⟨itemsInFull part, ?_⟩
    rw [isArray]
    cases members.get? key with
    | none => rfl
    | some value => cases value <;> rfl

/-- A record and its fields. -/
theorem Node.sameYields_ofRecord (agree : members.SameInFull options) {type : Json}
    (typed : members.get? "type" = some type)
    (layout : members.parts .schema around =
      members.partsOfDeclaration "name" around Part.insideRecord) (isError : Bool) :
    ((ofRecord members (.ofMembers members) isError).resolve options around).SameYields
      ((ofRecord (members.inFull .schema around) (.ofMembers (members.inFull .schema around))
        isError).resolve options around) := by
  have same := Members.sameBesides_typed around typed
  have isPart : Part.atKey (members.parts .schema around) "fields" = .other ∨
      ∃ part, Part.atKey (members.parts .schema around) "fields" = .array part := by
    rw [layout, Members.partsOfDeclaration]
    cases members.declaredName? "name" around with
    | none => exact .inl rfl
    | some name => exact .inr ⟨_, rfl⟩
  obtain ⟨rewrite, listed⟩ := members.array?_membersInFull isPart
  refine sameYields_ofHeading layout ?_ fun heading declares registry schema after => ?_
  · rw [same.details (by decide) (by decide) (by decide), listed]
    cases members.array? "fields" <;> rfl
  · simp only [yields_record, Heading.resolve_inFull]
    refine exists_congr fun declaration => exists₄_congr fun handle registered done filled =>
      and_congr_right fun resolved => and_congr_right fun _ => and_congr_left' ?_
    refine sameYields_fieldsAt agree ?_ [] _ _ _
    rw [layout, Members.partsOfDeclaration, declares declaration resolved]
    rfl

/-- An enum has no parts but its name. -/
theorem Node.sameYields_ofEnum {type : Json} (typed : members.get? "type" = some type)
    (layout : members.parts .schema around =
      members.partsOfDeclaration "name" around fun _ => []) :
    ((ofEnum members).resolve options around).SameYields
      ((ofEnum (members.inFull .schema around)).resolve options around) := by
  have same := Members.sameBesides_typed around typed
  have listed : (members.inFull .schema around).array? "symbols" = members.array? "symbols" := by
    rw [Members.array?, same.get? _ (by decide), Members.array?]
  refine sameYields_ofHeading layout ?_ fun heading declares registry schema after => ?_
  · rw [same.details (by decide) (by decide) (by decide), listed]
  · simp only [yields_enum, Heading.resolve_inFull, listed,
      same.optionalString "default" (by decide)]

/-- A fixed type yields the same with names in full. -/
theorem Node.sameYields_ofFixed {type : Json} (typed : members.get? "type" = some type)
    (layout : members.parts .schema around =
      members.partsOfDeclaration "name" around fun _ => []) :
    ((ofFixed members).resolve options around).SameYields
      ((ofFixed (members.inFull .schema around)).resolve options around) := by
  have same := Members.sameBesides_typed around typed
  refine sameYields_ofHeading layout ?_ fun heading declares registry schema after => ?_
  · exact same.details (by decide) (by decide) (by decide)
  · simp only [yields_fixed, Heading.resolve_inFull, same.get? "size" (by decide)]

/-- Schemas in an array, which may be missing. -/
theorem Node.sameYields_listed (agree : members.SameInFull options) {parts : String → Part}
    {key : String} (isPart : parts key = .array (.value .schema around)) (vet : Vet)
    (reason : Reason) (source other : Json) :
    (resolveEach options around vet
      (match members.get? key with
      | none | some .null | some (.array _) => nodesAt key members
      | some _ => [.malformed reason source])).SameYields
    (resolveEach options around vet
      (match (membersInFull parts members).get? key with
      | none | some .null | some (.array _) => nodesAt key (membersInFull parts members)
      | some _ => [.malformed reason other])) := by
  have listed := sameYields_nodesAt agree isPart vet
  rw [get?_membersInFull, isPart]
  cases members.get? key with
  | none => exact listed
  | some value =>
    cases value with
    | null | array => exact listed
    | _ => exact sameYields_resolveEach_cons (sameYields_malformed _ source other) (.refl _)

/-- The messages of a protocol, which may be missing. -/
theorem Node.sameYields_messages (agree : members.SameInFull options) {parts : String → Part}
    (isPart : parts "messages" = .object (.value .message around)) (source other : Json) :
    (resolveMessages options around
      (match members.get? "messages" with
      | none | some .null | some (.object _) => messagesAt "messages" members
      | some _ => [.malformed .badMessages source])).SameYields
    (resolveMessages options around
      (match (membersInFull parts members).get? "messages" with
      | none | some .null | some (.object _) =>
        messagesAt "messages" (membersInFull parts members)
      | some _ => [.malformed .badMessages other])) := by
  have keyed := sameYields_messagesAt agree isPart
  rw [get?_membersInFull, isPart]
  cases members.get? "messages" with
  | none => exact keyed
  | some value =>
    cases value with
    | null | object => exact keyed
    | _ =>
      exact sameYields_resolveMessages_cons
        (fun _ _ _ => iff_of_false MessageNode.yields_malformed MessageNode.yields_malformed)
        (.refl _)

/-- A protocol, its types and its messages. -/
theorem Node.sameYields_ofProtocol (agree : members.SameInFull options)
    (untyped : members.get? "type" = none) :
    ((ofProtocol members (.ofMembers members)).resolve options around).SameYields
      ((ofProtocol (members.inFull .schema around)
        (.ofMembers (members.inFull .schema around))).resolve options around) := by
  have same := Members.sameBesides_untyped around untyped
  have layout : members.parts .schema around =
      members.partsOfDeclaration "protocol" around Part.insideProtocol := by
    simp only [Members.parts, untyped]
  refine sameYields_ofHeading layout ?_ fun heading declares registry schema after => ?_
  · exact same.withoutAliases (by decide) (by decide)
  · simp only [yields_protocol, Heading.resolve_inFull]
    refine exists_congr fun declaration => exists₄_congr fun handle registered schemas typed =>
      exists₂_congr fun done filled => and_congr_right fun resolved => and_congr_right fun _ =>
        and_congr ?_ (and_congr_left' ?_)
    · refine sameYields_listed agree ?_ _ _ _ _ _ _ _
      rw [layout, Members.partsOfDeclaration, declares declaration resolved]
      rfl
    · refine sameYields_messages agree ?_ _ _ _ _ _
      rw [layout, Members.partsOfDeclaration, declares declaration resolved]
      rfl

/-! ## Other objects -/

/-- An object that stands for its type. -/
theorem Node.sameYields_nested (agree : members.SameInFull options)
    (isPart : Part.atKey (members.parts .schema around) "type" = .value .schema around)
    (source other : Json) :
    ((nested source ((nodeAt "type" members).getD (.malformed .missingType source))).resolve
        options around).SameYields
      ((nested other ((nodeAt "type" (members.inFull .schema around)).getD
        (.malformed .missingType other))).resolve options around) := by
  intro registry schema after
  rw [yields_nested, yields_nested]
  exact sameYields_getD agree isPart _ _ _ _ _ _

/-- An array, whose items are in full. -/
theorem Node.sameYields_ofArray (agree : members.SameInFull options)
    (isPart : Part.atKey (members.parts .schema around) "items" = .value .schema around)
    (source other : Json) :
    ((array source ((nodeAt "items" members).getD (.malformed .missingItems source))).resolve
        options around).SameYields
      ((array other ((nodeAt "items" (members.inFull .schema around)).getD
        (.malformed .missingItems other))).resolve options around) := by
  intro registry schema after
  simp only [yields_array]
  exact exists_congr fun inner => and_congr_left' (sameYields_getD agree isPart _ _ _ _ _ _)

/-- A map, whose values are in full. -/
theorem Node.sameYields_ofMap (agree : members.SameInFull options)
    (isPart : Part.atKey (members.parts .schema around) "values" = .value .schema around)
    (source other : Json) :
    ((map source ((nodeAt "values" members).getD (.malformed .missingValues source))).resolve
        options around).SameYields
      ((map other ((nodeAt "values" (members.inFull .schema around)).getD
        (.malformed .missingValues other))).resolve options around) := by
  intro registry schema after
  simp only [yields_map]
  exact exists_congr fun inner => and_congr_left' (sameYields_getD agree isPart _ _ _ _ _ _)

/-- An object by its type alone. -/
theorem Node.sameYields_ofTyped (agree : members.SameInFull options) :
    ((ofTyped members (.ofMembers members)).resolve options around).SameYields
      ((ofTyped (members.inFull .schema around)
        (.ofMembers (members.inFull .schema around))).resolve options around) := by
  rw [ofTyped]
  split
  case h_1 untyped =>
    rw [ofTyped, (Members.sameBesides_untyped around untyped).get? _ (by decide), untyped]
    exact sameYields_malformed _ _ _
  case h_2 typed =>
    rw [ofTyped, Members.get?_type_inFull.2 typed]
    exact sameYields_ofRecord agree typed (by simp only [Members.parts, typed]) false
  case h_3 typed =>
    rw [ofTyped, Members.get?_type_inFull.2 typed]
    exact sameYields_ofRecord agree typed (by simp only [Members.parts, typed]) true
  case h_4 typed =>
    rw [ofTyped, Members.get?_type_inFull.2 typed]
    exact sameYields_ofEnum typed (by simp only [Members.parts, typed])
  case h_5 typed =>
    rw [ofTyped, Members.get?_type_inFull.2 typed]
    exact sameYields_ofFixed typed (by simp only [Members.parts, typed])
  case h_6 typed =>
    rw [ofTyped, Members.get?_type_inFull.2 typed]
    exact sameYields_ofArray agree (by simp only [Members.parts, typed]; rfl) _ _
  case h_7 typed =>
    rw [ofTyped, Members.get?_type_inFull.2 typed]
    exact sameYields_ofMap agree (by simp only [Members.parts, typed]; rfl) _ _
  case h_8 text notRecord notError notEnum notFixed notArray notMap typed =>
    have isPart := Members.atKey_type around typed (by simp_all)
    rw [ofTyped, Members.get?_type_inFull.2 typed]
    split
    case h_8 => exact sameYields_nested agree isPart _ _
    case h_11 notString _ _ same => exact absurd (Option.some.inj same).symm (notString text)
    all_goals simp_all
  case h_9 typed =>
    have isPart := Members.atKey_type around typed (by simp)
    rw [ofTyped, get?_membersInFull, isPart, typed]
    exact sameYields_nested agree isPart _ _
  case h_10 typed =>
    have isPart := Members.atKey_type around typed (by simp)
    rw [ofTyped, get?_membersInFull, isPart, typed]
    exact sameYields_nested agree isPart _ _
  case h_11 type _ _ _ _ _ _ notString notObject notArray typed =>
    have isPart := Members.atKey_type around typed fun keyword _ => notString keyword
    rw [ofTyped, get?_membersInFull, isPart, typed]
    cases type with
    | string text => exact absurd rfl (notString text)
    | array items => exact absurd rfl (notArray items)
    | object inner => exact absurd rfl (notObject inner)
    | _ => exact sameYields_malformed _ _ _

/-- A logical type lies over what its object is without it. -/
theorem Node.sameYields_ofMembers (agree : members.SameInFull options) :
    ((ofMembers members (.ofMembers members)).resolve options around).SameYields
      ((ofMembers (members.inFull .schema around)
        (.ofMembers (members.inFull .schema around))).resolve options around) := by
  have has (key : String) : (members.inFull .schema around).has key = members.has key := by
    rw [Members.has, get?_membersInFull, Option.isSome_map, Members.has]
  rw [ofMembers, ofMembers, has, has, Members.get?_inFull (by decide)]
  split
  · next isProtocol =>
    have untyped : members.get? "type" = none := by
      simpa [Members.has] using (Bool.and_eq_true_iff.1 isProtocol).2
    exact sameYields_ofProtocol agree untyped
  · split
    · exact sameYields_ofTyped agree
    · intro registry schema after
      have overlay (name : String) : LogicalType.read name (members.inFull .schema around) =
          LogicalType.read name members :=
        LogicalType.read_congr (Members.get?_inFull (by decide)) (Members.get?_inFull (by decide))
      simp only [yields_logical, overlay, Members.get?_type_inFull, sameYields_ofTyped agree _ _ _]
    · exact sameYields_malformed _ _ _

/-- A field that is malformed yields nothing, for whatever reason. -/
theorem FieldNode.sameYields_malformed (owner : Name) (reason : Reason) (source other : Json) :
    ((malformed reason source).resolve options owner).SameYields
      ((malformed reason other).resolve options owner) :=
  fun _ _ _ => iff_of_false yields_malformed yields_malformed

/-- A field yields the same with the names in its type in full. -/
theorem FieldNode.sameYields_ofMembers (agree : members.SameInFull options) (owner : Name) :
    ((ofMembers members (nodeAt "type" members)).resolve options owner).SameYields
      ((ofMembers (members.inFull .field owner.space)
        (nodeAt "type" (members.inFull .field owner.space))).resolve options owner) := by
  have same : (members.inFull .field owner.space).SameBesides ["type"] members :=
    sameBesides_membersInFull (by simp [Members.parts]) members
  rw [ofMembers, ofMembers, same.get? "name" (by decide)]
  split
  · exact sameYields_malformed owner _ _ _
  · next name _ =>
    have type := Node.sameYields_getD agree
      (show Part.atKey (members.parts .field owner.space) "type" = .value .schema owner.space
        from rfl) (.fieldWithoutType name) (.object members)
      (.object (members.inFull .field owner.space))
    intro registry field after
    simp only [yields_field, type _ _ _, same.get? "default" (by decide),
      same.fieldDetails (by decide) (by decide) (by decide) (by decide)]

/-- A message yields the same if its parameters, its response and its errors do. -/
theorem MessageNode.sameYields_message {name : String} {request fullRequest : List FieldNode}
    {response fullResponse : Node} {errors fullErrors : List Node}
    (requestAgrees : (resolveFields options ⟨name, around⟩ [] request).SameYields
      (resolveFields options ⟨name, around⟩ [] fullRequest))
    (responseAgrees : (response.resolve options around).SameYields
      (fullResponse.resolve options around))
    (errorsAgree : (resolveEach options around (.messageError name) errors).SameYields
      (resolveEach options around (.messageError name) fullErrors))
    (source other responseSource otherSource : Json) (oneWay : Except Reason Bool)
    (details : Except Reason Details) :
    ((message source name request response responseSource errors oneWay details).resolve
        options around).SameYields
      ((message other name fullRequest fullResponse otherSource fullErrors oneWay
        details).resolve options around) := by
  intro registry result after
  simp only [yields_message, requestAgrees _ _ _, responseAgrees _ _ _, errorsAgree _ _ _]

/-- A message yields the same with the names in it in full. -/
theorem MessageNode.sameYields_ofMembers (agree : members.SameInFull options) (name : String) :
    ((ofMembers name members (fieldsAt "request" members) (nodeAt "response" members)
        (nodesAt "errors" members)).resolve options around).SameYields
      ((ofMembers name (members.inFull .message around)
        (fieldsAt "request" (members.inFull .message around))
        (nodeAt "response" (members.inFull .message around))
        (nodesAt "errors" (members.inFull .message around))).resolve options around) := by
  have same : (members.inFull .message around).SameBesides ["request", "response", "errors"]
      members := sameBesides_membersInFull (by simp [Members.parts]) members
  have request : (resolveFields options ⟨name, around⟩ []
      (if (members.array? "request").isSome then fieldsAt "request" members
        else [.malformed (.missingRequest name) (.object members)])).SameYields
      (resolveFields options ⟨name, around⟩ []
        (if ((members.inFull .message around).array? "request").isSome then
          fieldsAt "request" (members.inFull .message around)
        else [.malformed (.missingRequest name) (.object (members.inFull .message around))])) := by
    obtain ⟨rewrite, listed⟩ := members.array?_membersInFull
      (.inr ⟨_, show Part.atKey (members.parts .message around) "request" = .array _ from rfl⟩)
    rw [listed, Option.isSome_map]
    split
    · exact sameYields_fieldsAt agree rfl []
    · exact sameYields_resolveFields_cons (FieldNode.sameYields_malformed _ _ _ _)
        (fun _ => .refl _) []
  have response := Node.sameYields_getD agree
    (show Part.atKey (members.parts .message around) "response" = .value .schema around from rfl)
    (.missingResponse name) (.object members) (.object (members.inFull .message around))
  have errors := Node.sameYields_listed agree
    (show Part.atKey (members.parts .message around) "errors" = .array (.value .schema around)
      from rfl) (.messageError name) .badErrors (.object members)
    (.object (members.inFull .message around))
  rw [ofMembers, ofMembers, same.get? "one-way" (by decide), same.get? "oneWay" (by decide),
    same.withoutAliases (show _ ⊆ Members.reservedOfMessages by decide) (by decide)]
  exact sameYields_message request response errors _ _ _ _ _ _

end

end

/-! ## Values -/

section

variable {options : Options}

/-- Schemas in a row yield the same with names in full. -/
theorem sameYields_resolveEach {items : List Json} (agree : ∀ item ∈ items, item.SameInFull options)
    (around : Option String) (vet : Vet) :
    (resolveEach options around vet (nodes items)).SameYields
      (resolveEach options around vet (nodes (itemsInFull (.value .schema around) items))) := by
  induction items with
  | nil => exact .refl _
  | cons item rest ih =>
    obtain ⟨first, others⟩ := List.forall_mem_cons.1 agree
    exact sameYields_resolveEach_cons (first.schema around) (ih others)

/-- Fields in a row yield the same with names in full. -/
theorem sameYields_resolveFields {items : List Json}
    (agree : ∀ item ∈ items, item.SameInFull options) (owner : Name) (done : List Field) :
    (resolveFields options owner done (fieldNodes items)).SameYields
      (resolveFields options owner done
        (fieldNodes (itemsInFull (.value .field owner.space) items))) := by
  induction items generalizing done with
  | nil => exact .refl _
  | cons item rest ih =>
    obtain ⟨first, others⟩ := List.forall_mem_cons.1 agree
    exact sameYields_resolveFields_cons (first.field owner) (ih others) done

/-- Messages in a row yield the same with names in full. -/
theorem sameYields_resolveMessages {members : List (String × Json)}
    (agree : ∀ member ∈ members, member.2.SameInFull options) (around : Option String) :
    (resolveMessages options around (messageNodes members)).SameYields
      (resolveMessages options around
        (messageNodes (membersInFull (fun _ => .value .message around) members))) := by
  induction members with
  | nil => exact .refl _
  | cons member rest ih =>
    obtain ⟨first, others⟩ := List.forall_mem_cons.1 agree
    exact sameYields_resolveMessages_cons (first.message member.1 around) (ih others)

/-- An array yields the same with names in full if its items do. -/
theorem Json.sameInFull_array {items : List Json}
    (agree : ∀ item ∈ items, item.SameInFull options) :
    (Json.array items).SameInFull options where
  schema around := by
    intro registry schema after
    simp only [Node.ofJson_union, inFull, Node.yields_union, sameYields_resolveEach agree around _ _ _ _]
  schemas := sameYields_resolveEach agree
  field _ := .refl _
  fields := sameYields_resolveFields agree
  message _ _ := .refl _
  messages _ := .refl _

/-- An object yields the same with names in full if the values in it do. -/
theorem Json.sameInFull_object {members : List (String × Json)}
    (agree : ∀ member ∈ members, member.2.SameInFull options) :
    (Json.object members).SameInFull options :=
  have atKeys : Members.SameInFull options members :=
    fun _ _ found => agree _ (Members.mem_of_get? found)
  { schema _ := Node.sameYields_ofMembers atKeys
    schemas _ _ := .refl _
    field := FieldNode.sameYields_ofMembers atKeys
    fields _ _ := .refl _
    message name _ := MessageNode.sameYields_ofMembers atKeys name
    messages := sameYields_resolveMessages agree }

mutual

/-- Every value comes to the same if its names are in full. -/
theorem Json.sameInFull : (json : Json) → json.SameInFull options
  | .array items => Json.sameInFull_array (itemsSameInFull items)
  | .object members => Json.sameInFull_object (membersSameInFull members)
  | .null | .bool _ | .number _ | .string _ =>
    { schema _ := .refl _
      schemas _ _ := .refl _
      field _ := .refl _
      fields _ _ := .refl _
      message _ _ := .refl _
      messages _ := .refl _ }

/-- The items of an array come to the same with names in full. -/
theorem itemsSameInFull : (items : List Json) → ∀ item ∈ items, item.SameInFull options
  | [] => nofun
  | item :: rest => List.forall_mem_cons.2 ⟨item.sameInFull, itemsSameInFull rest⟩

/-- The values in an object come to the same with names in full. -/
theorem membersSameInFull :
    (members : List (String × Json)) → ∀ member ∈ members, member.2.SameInFull options
  | [] => nofun
  | (_, value) :: rest => List.forall_mem_cons.2 ⟨value.sameInFull, membersSameInFull rest⟩

end

end

/-! ## Resolvers -/

namespace Resolver

/-- A resolver succeeds where the walk of the node does, and keeps its options. -/
theorem resolve_eq_ok {resolver later : Resolver} {node : Json} {around : Option String}
    {schema : Schema} :
    resolver.resolve node around = (.ok schema, later) ↔
      ∃ registry, ((Node.ofJson node).resolve resolver.options around).Yields resolver.registry
        schema registry ∧ { resolver with registry } = later := by
  simp [resolve, Resolving.Yields, Prod.ext_iff]

/-- A resolver comes to a schema and a registry from a document exactly if it comes to the same ones
from the document with every name in full, whatever it has registered before. The document in full
declares the names that it declares anyway, also where it stands within another namespace. -/
theorem resolve_eq_ok_inFull (resolver : Resolver) (document : Json) (around : Option String) :
    (∀ schema later, resolver.resolve document around = (.ok schema, later) ↔
      resolver.resolve (document.inFull (.value .schema around)) around = (.ok schema, later)) ∧
    ∀ other, (around = none → other = none) →
      (document.inFull (.value .schema around)).declaredNames .schema other =
        document.declaredNames .schema around := by
  refine ⟨fun schema later => ?_, fun other within => document.sameNames.value .schema within⟩
  simp only [resolve_eq_ok, document.sameInFull.schema around _ _ _]

/-- A protocol that declares schemas of given names: in a type with a namespace of its own, below
one with a dotted name, and in a message. An extension that looks like a declaration is none. -/
def declaring (protocol record enum error fixed parameter failure : String) : Json :=
  let declare (kind name : String) (rest : Members) : Json :=
    .object ([("type", .string kind), ("name", .string name)] ++ rest)
  let field (name : String) (type : Json) : Json :=
    .object [("name", .string name), ("type", type)]
  .object [
    ("protocol", .string protocol),
    ("types", .array [
      declare "record" record [("namespace", .string "n.inner"), ("fields", .array [
        field "a" (.object [("type", .string "array"),
          ("items", declare "enum" enum [("symbols", .array [.string "x"])])]),
        field "b" (.array [.string "null", .string "E", declare "error" error [("fields", .array [
          field "c" (declare "fixed" fixed [("size", .ofNat 4),
            ("extension", declare "enum" "E" [])])])]])])]]),
    ("messages", .object [("m", .object [
      ("request", .array [field "p" (declare "record" parameter [("fields", .array [])])]),
      ("response", .string "null"),
      ("errors", .array [declare "error" failure [("fields", .array [])]])])])]

/-- Most of its names are left to the namespaces that they stand in. -/
def inheriting : Json := declaring "P" "A" "E" "o.F" "X" "Q" "R"

/-- Those names in full, where the protocol stands in the namespace `root`. -/
theorem resolve_eq_ok_inFull_inheriting :
    let full := declaring "root.P" "n.inner.A" "n.inner.E" "o.F" "o.X" "root.Q" "root.R"
    inheriting.inFull (.value .schema (some "root")) = full ∧
      (∃ later,
        (new {}).resolve inheriting (some "root") = (.ok (.named .protocol 0), later) ∧
        (new {}).resolve full (some "root") = (.ok (.named .protocol 0), later) ∧
        later.registry.names =
          ["root.P", "n.inner.A", "n.inner.E", "o.F", "o.X", "root.Q", "root.R"]) ∧
      ∀ other,
        full.declaredNames .schema other = inheriting.declaredNames .schema (some "root") := by
  intro full
  have isFull : inheriting.inFull (.value .schema (some "root")) = full := by decide +kernel
  obtain ⟨returned, registered⟩ :
      ((new {}).resolve inheriting (some "root")).1.toOption = some (.named .protocol 0) ∧
        ((new {}).resolve inheriting (some "root")).2.registry.names =
          ["root.P", "n.inner.A", "n.inner.E", "o.F", "o.X", "root.Q", "root.R"] := by
    decide +kernel
  obtain ⟨resolves, declares⟩ := resolve_eq_ok_inFull (new {}) inheriting (some "root")
  rw [isFull] at resolves declares
  refine ⟨isFull, ?_, fun other => declares other (by simp)⟩
  cases outcome : (new {}).resolve inheriting (some "root") with
  | mk result later =>
    rw [outcome] at returned registered
    cases result with
    | error violation => cases returned
    | ok schema =>
      cases returned
      exact ⟨later, rfl, (resolves _ _).1 outcome, registered⟩

end Resolver

end AvroGraph
