import AvroGraph.Proofs.Redeclared
import AvroGraph.Proofs.SpelledNames
import AvroGraph.Proofs.Visits

/-!
# Schemas that are recovered from what is written

In a plain registry, what is written of a schema is read back as a schema like it, and the entries
that are written come back one by one (`Schema.recovers`), whichever of them have been read before.
So it does not matter where a projection begins, as long as every entry has a spelling where it
stands (`Registry.Plain.recovers_defineSpelled`).
-/

namespace AvroGraph

open Projecting Resolving

/-- A JSON within a namespace is read back as a schema like a given one, and then the entries that
are written have been read. -/
def Schema.Recovered (options : Options) (source again : Registry) (around : Option String)
    (schema : Schema) (json : Json) (written : List Handle) : Prop :=
  ∃ other after, ((Node.ofJson json).resolve options around).Yields again other after ∧
    source.Follows after written ∧ schema.Alike source after other

/-- What is written of the entry at a handle is read back, whatever has been read before. -/
def Define.Recovers (options : Options) (source : Registry) (define : Define) : Prop :=
  ∀ {handle : Handle} {origin : Entry} {around : Option String} {written last : List Handle}
    {json : Json} {again : Registry}, source.get? handle = some origin →
    (∀ space ∈ around, Name.checkSegments space = .ok ()) →
    (define handle around).Yields written json last → source.Follows again written →
    (Schema.named origin.kind handle).Recovered options source again around json last

section

variable {options : Options} {source again : Registry} {define : Define} {around : Option String}
  {written last : List Handle}

mutual

/-- What is written of a schema is read back as a schema like it. -/
theorem Schema.recovers (recovers : define.Recovers options source)
    (enclosing : ∀ space ∈ around, Name.checkSegments space = .ok ()) {again : Registry}
    {written last : List Handle} {json : Json} : (schema : Schema) → schema.GroundedPlainly source →
      (schema.project source define around).Yields written json last →
      source.Follows again written → schema.Recovered options source again around json last
  | .primitive type, _, writes, follows => by
    obtain ⟨rfl, rfl⟩ := yields_primitive.1 writes
    have isKeyword := Primitive.ofKeyword?_eq_some.2 (rfl : type.keyword = type.keyword)
    refine ⟨_, again, ?_, follows, .primitive type⟩
    rw [Node.ofJson_string]
    exact Node.yields_reference.2 ⟨Registry.reference_eq_ok.2 (.inl ⟨type, isKeyword, rfl⟩), rfl⟩
  | .named kind handle, grounded, writes, follows => by
    obtain ⟨origin, found, rfl⟩ := Registry.kindAt?_eq_some.1 grounded.1
    exact recovers found enclosing (yields_named.1 writes) follows
  | .array items, grounded, writes, follows => by
    obtain ⟨inner, writesItems, rfl⟩ := yields_array.1 writes
    obtain ⟨other, after, walks, followsAfter, -⟩ :=
      items.recovers recovers enclosing grounded writesItems follows
    refine ⟨_, after, ?_, followsAfter, .array items other⟩
    rw [Node.ofJson_array]
    exact Node.yields_array.2 ⟨other, walks, rfl⟩
  | .map values, grounded, writes, follows => by
    obtain ⟨inner, writesValues, rfl⟩ := yields_map.1 writes
    obtain ⟨other, after, walks, followsAfter, -⟩ :=
      values.recovers recovers enclosing grounded writesValues follows
    refine ⟨_, after, ?_, followsAfter, .map values other⟩
    rw [Node.ofJson_map]
    exact Node.yields_map.2 ⟨other, walks, rfl⟩
  | .union branches _ _, grounded, writes, follows => by
    obtain ⟨jsons, writesEach, rfl⟩ := yields_union.1 writes
    have each := And.intro (allGrounded_iff.1 grounded.1) (allUnannotated_iff.1 grounded.2)
    obtain ⟨others, after, walks, followsAfter, -⟩ := Schema.recovers_projectEach recovers enclosing
      .branch branches (fun branch member => ⟨each.1 branch member, each.2 branch member⟩)
      (fun _ _ _ _ _ => rfl) writesEach follows
    refine ⟨.ofBranches options others, after, ?_, followsAfter, .union branches others _ _ _ _⟩
    rw [Node.ofJson_union]
    exact Node.yields_union.2 ⟨others, walks, rfl⟩
  | .logical _ _, grounded, _, _ => grounded.2.elim
  | .boxed, grounded, _, _ => grounded.1.elim

/-- What is written of a list of schemas is read back as one of the same length, if a rule admits
all schemas that are like those. -/
theorem Schema.recovers_projectEach (recovers : define.Recovers options source)
    (enclosing : ∀ space ∈ around, Name.checkSegments space = .ok ()) (vet : Vet) {again : Registry}
    {written last : List Handle} {jsons : List Json} : (schemas : List Schema) →
      (∀ schema ∈ schemas, schema.GroundedPlainly source) →
      (∀ schema ∈ schemas, ∀ after other, schema.Alike source after other →
        vet after other = .ok ()) →
      (projectEach source define around schemas).Yields written jsons last →
      source.Follows again written →
      ∃ others after, (resolveEach options around vet (AvroGraph.nodes jsons)).Yields again others
          after ∧
        source.Follows after last ∧ others.length = schemas.length
  | [], _, _, writes, follows => by
    obtain ⟨rfl, rfl⟩ := yields_projectEach_nil.1 writes
    exact ⟨[], again, yields_resolveEach_nil.2 ⟨rfl, rfl⟩, follows, rfl⟩
  | schema :: rest, grounded, vets, writes, follows => by
    obtain ⟨json, middle, more, writesFirst, writesRest, rfl⟩ := yields_projectEach_cons.1 writes
    obtain ⟨other, between, walks, followsBetween, alike⟩ := schema.recovers recovers enclosing
      (grounded schema List.mem_cons_self) writesFirst follows
    obtain ⟨others, after, walksRest, followsAfter, same⟩ :=
      Schema.recovers_projectEach recovers enclosing vet rest
        (fun other member => grounded other (List.mem_cons_of_mem _ member))
        (fun other member => vets other (List.mem_cons_of_mem _ member)) writesRest followsBetween
    refine ⟨other :: others, after, yields_resolveEach_cons.2 ⟨other, between, others, walks,
      vets schema List.mem_cons_self between other alike, walksRest, rfl⟩, followsAfter, ?_⟩
    rw [List.length_cons, same, List.length_cons]

end

/-! ## Fields and messages -/

/-- A field is read back. -/
theorem Field.recovers (unwanted : options.synthesizeBases = false)
    (recovers : define.Recovers options source) {owner : Name}
    (enclosing : ∀ space ∈ owner.space, Name.checkSegments space = .ok ()) {field : Field}
    {json : Json} (resolved : field.Resolved options .unannotated Schema.GroundedPlainly source)
    (writes : (field.declared.project source define owner.space).Yields written json last)
    (follows : source.Follows again written) :
    ∃ other after, ((FieldNode.ofJson (field.project json)).resolve options owner).Yields again
        other after ∧
      source.Follows after last ∧ other.name = field.name := by
  obtain ⟨literal, synthesized, -⟩ := resolved.default
  obtain ⟨_, _, _, lawful⟩ := resolved.lawful
  obtain ⟨declared, after, walks, followsAfter, alike⟩ :=
    field.declared.recovers recovers enclosing resolved.declared writes follows
  obtain ⟨again, synthesizedAgain⟩ := alike.synthesizeOption synthesized
  let slot : Slot := ⟨declared, declared.underlying, declared.isNullable⟩
  let details : FieldDetails := ⟨field.order, field.doc, field.aliases, field.properties⟩
  refine ⟨.ofSlot field.name slot field.default again details, after, ?_, followsAfter, rfl⟩
  rw [FieldNode.ofJson_project json (lawful _ rfl)]
  exact FieldNode.yields_field.2 ⟨declared, after, slot, again, details, resolved.simple, walks,
    (Registry.slot_eq_ok_withoutBases unwanted).2 ⟨rfl, rfl⟩, synthesizedAgain, rfl, rfl⟩

/-- The fields of an owner are read back. -/
theorem recovers_projectFields (unwanted : options.synthesizeBases = false)
    (recovers : define.Recovers options source) (owner : Name)
    (enclosing : ∀ space ∈ owner.space, Name.checkSegments space = .ok ()) (done : List Field)
    {fields : List Field} {jsons : List Json}
    (resolved : ∀ field ∈ fields, field.Resolved options .unannotated Schema.GroundedPlainly source)
    (distinct : (done.map Field.name ++ fields.map Field.name).Nodup)
    (writes : (projectFields source define owner.space fields).Yields written jsons last)
    (follows : source.Follows again written) :
    ∃ others after,
      (resolveFields options owner done (fieldNodes jsons)).Yields again others after ∧
      source.Follows after last := by
  induction fields generalizing again written jsons done with
  | nil =>
    obtain ⟨rfl, rfl⟩ := yields_projectFields_nil.1 writes
    exact ⟨done, again, yields_resolveFields_nil.2 ⟨rfl, rfl⟩, follows⟩
  | cons field rest ih =>
    obtain ⟨type, middle, more, writesType, writesRest, rfl⟩ := yields_projectFields_cons.1 writes
    obtain ⟨other, between, walks, followsBetween, sameName⟩ := field.recovers unwanted recovers
      enclosing (resolved field List.mem_cons_self) writesType follows
    have new : other.name ∉ done.map Field.name := by
      rw [sameName]
      exact fun member => List.disjoint_of_nodup_append distinct member List.mem_cons_self
    have distinctRest : ((done ++ [other]).map Field.name ++ rest.map Field.name).Nodup := by
      simpa [sameName] using distinct
    obtain ⟨others, after, walksRest, followsAfter⟩ := ih (done ++ [other])
      (fun later member => resolved later (List.mem_cons_of_mem _ member)) distinctRest writesRest
      followsBetween
    exact ⟨others, after, yields_resolveFields_cons.2 ⟨other, between, walks,
      checkNewField_eq_ok.2 new, walksRest⟩, followsAfter⟩

/-- A message is read back. -/
theorem Message.recovers (unwanted : options.synthesizeBases = false)
    (recovers : define.Recovers options source)
    (enclosing : ∀ space ∈ around, Name.checkSegments space = .ok ()) {message : Message}
    {asked answered : List Handle} {request errors : List Json} {response : Json}
    (resolved : message.Resolved options .unannotated Schema.GroundedPlainly source)
    (asks : (projectFields source define around message.request).Yields written request asked)
    (answers : (message.response.project source define around).Yields asked response answered)
    (fails : (Schema.projectEach source define around (message.errors.drop 1)).Yields answered
      errors last)
    (follows : source.Follows again written) :
    ∃ other after, ((MessageNode.ofJson message.name
        (message.project request response errors)).resolve options around).Yields again other
          after ∧
      source.Follows after last := by
  obtain ⟨_, _, _, _, _, _, lawful⟩ := resolved.lawful
  obtain ⟨handles, isErrors, grounded⟩ := resolved.errors
  obtain ⟨parameters, between, walksRequest, followsAsked⟩ :=
    recovers_projectFields unwanted recovers ⟨message.name, around⟩ enclosing [] resolved.request
      resolved.distinct asks follows
  obtain ⟨declared, middle, walksResponse, followsAnswered, alike⟩ :=
    message.response.recovers recovers enclosing resolved.response answers followsAsked
  have isFailures : message.errors.drop 1 = handles.map (.named .error) := by
    rw [isErrors, List.drop_succ_cons, List.drop_zero]
  obtain ⟨failures, after, walksErrors, followsAfter, sameLength⟩ :=
    Schema.recovers_projectEach recovers enclosing (.messageError message.name) _
      (by simpa [isFailures] using grounded)
      (by
        rw [isFailures]
        rintro _ member after other alikeError
        obtain ⟨handle, -, rfl⟩ := List.mem_map.1 member
        exact alikeError.messageError message.name)
      fails followsAnswered
  -- The check looks at null and at whether there are errors, which are read back.
  have oneWay : checkOneWay message.name message.oneWay declared failures = .ok () := by
    have sameEmpty : failures.isEmpty = (message.errors.drop 1).isEmpty := by
      rw [Bool.eq_iff_iff, List.isEmpty_iff_length_eq_zero, List.isEmpty_iff_length_eq_zero,
        sameLength]
    rw [← resolved.oneWay, checkOneWay, checkOneWay, alike.isNull_eq, sameEmpty]
  let slot : Slot := ⟨declared, declared.underlying, declared.isNullable⟩
  let details : Details := { doc := message.doc, properties := message.properties }
  refine ⟨.ofParts message.name parameters slot failures message.oneWay details, after, ?_,
    followsAfter⟩
  rw [MessageNode.ofJson_project request response errors (lawful _ rfl)]
  exact MessageNode.yields_message.2 ⟨parameters, between, declared, middle, slot, middle, failures,
    message.oneWay, details, resolved.simple, walksRequest, walksResponse,
    (Registry.slot_eq_ok_withoutBases unwanted).2 ⟨rfl, rfl⟩, walksErrors, rfl, oneWay, rfl, rfl⟩

/-- The messages of a protocol are read back. -/
theorem recovers_projectMessages (unwanted : options.synthesizeBases = false)
    (recovers : define.Recovers options source)
    (enclosing : ∀ space ∈ around, Name.checkSegments space = .ok ()) {messages : List Message}
    {members : Members}
    (resolved : ∀ message ∈ messages,
      message.Resolved options .unannotated Schema.GroundedPlainly source)
    (writes : (projectMessages source define around messages).Yields written members last)
    (follows : source.Follows again written) :
    ∃ others after, (resolveMessages options around (messageNodes members)).Yields again others
        after ∧
      source.Follows after last := by
  induction messages generalizing again written members with
  | nil =>
    obtain ⟨rfl, rfl⟩ := yields_projectMessages_nil.1 writes
    exact ⟨[], again, yields_resolveMessages_nil.2 ⟨rfl, rfl⟩, follows⟩
  | cons message rest ih =>
    obtain ⟨request, asked, response, answered, errors, failed, more, asks, answers, fails,
      writesRest, rfl⟩ := yields_projectMessages_cons.1 writes
    obtain ⟨other, between, walks, followsBetween⟩ := message.recovers unwanted recovers enclosing
      (resolved message List.mem_cons_self) asks answers fails follows
    obtain ⟨others, after, walksRest, followsAfter⟩ := ih
      (fun later member => resolved later (List.mem_cons_of_mem _ member)) writesRest followsBetween
    exact ⟨_, after, yields_resolveMessages_cons.2 ⟨other, between, others, walks, walksRest, rfl⟩,
      followsAfter⟩

end

/-! ## Entries -/

section

variable {options : Options} {source again after : Registry} {define : Define}
  {around : Option String} {handle : Handle} {entry : Entry} {written last : List Handle}
  {json : Json}

/-- What is registered next for an entry that is written stands for it in the end. -/
theorem Schema.Recovered.of_walk (found : source.get? handle = some entry)
    (follows : source.Follows again written) (suffix : handle :: written <:+ last)
    (walks : ((Node.ofJson json).resolve options around).Yields again (.named entry.kind again.size)
      after)
    (followsAfter : source.Follows after last) :
    (Schema.named entry.kind handle).Recovered options source again around json last := by
  obtain ⟨other, isOther, standsFor⟩ := followsAfter.get?_of_suffix suffix found
  rw [← follows.size_eq] at isOther
  exact ⟨_, after, walks, followsAfter, .named found isOther standsFor⟩

namespace Registry.Plain

variable (plain : source.Plain options)
include plain

/-- Every entry of a plain registry comes of a tidy declaration. -/
theorem declared (found : source.get? handle = some entry) :
    ∃ node, NodeLaw.tidy.node node ∧ node.Declares options entry.stripped := by
  obtain ⟨node, lawful, declares⟩ :=
    (plain.resolved handle entry found).declared (plain.unadorned handle entry found).1
  exact ⟨node, lawful.1, declares⟩

/-- The names in a plain registry are admitted. -/
theorem admitted (found : source.get? handle = some entry) : entry.name.Admitted options := by
  obtain ⟨node, -, declares⟩ := plain.declared found
  rw [← entry.name_stripped]
  exact declares.admitted

/-- The entries of a plain registry are tidy. -/
theorem tidy (found : source.get? handle = some entry) : entry.Tidy := by
  obtain ⟨node, lawful, declares⟩ := plain.declared found
  have properties := declares.tidy (NodeLaw.keyed_of_tidy lawful)
  cases entry <;> exact properties

section

variable (enclosed : entry.name.space = none → around = none) (fresh : handle ∉ written)
  (found : source.get? handle = some entry) (follows : source.Follows again written)
include enclosed fresh found follows

/-- A record is read back with its fields. -/
theorem recovers_record (recovers : define.Recovers options source) (isError : Bool) {body : Record}
    (isRecord : entry = if isError then .error body else .record body) {jsons : List Json}
    (writes : (projectFields source define body.name.space body.fields).Yields (handle :: written)
      jsons last)
    (suffix : handle :: written <:+ last) :
    (Schema.named entry.kind handle).Recovered options source again around
      (body.project (.ofRecord isError) around jsons) last := by
  let declaration : Declaration := ⟨body.name, body.doc, body.aliases, body.properties⟩
  have isName : entry.name = body.name := by
    rw [isRecord]
    cases isError <;> rfl
  have isKind : entry.kind = .ofRecord isError := by
    rw [isRecord]
    cases isError <;> rfl
  have tidy : body.properties.Tidy Members.reserved := by
    have := plain.tidy found
    subst isRecord
    cases isError <;> exact this
  have parts : (body.fields.map Field.name).Nodup ∧ ∀ field ∈ body.fields,
      field.Resolved options .unannotated Schema.GroundedPlainly source := by
    have := (plain.resolved handle entry found).parts
    subst isRecord
    cases isError <;> exact this
  have standsFor : (declaration.recordEntry isError).StandsFor entry := by
    subst isRecord
    cases isError <;> exact ⟨rfl, rfl, rfl, rfl, fun _ => rfl⟩
  have admitted := plain.admitted found
  rw [isName] at admitted enclosed
  obtain ⟨registered, register, followsRegistered⟩ :=
    follows.register plain.sound fresh found standsFor
  obtain ⟨fields, filled, walks, followsFilled⟩ :=
    recovers_projectFields plain.unwanted recovers body.name admitted.wellFormed.space [] parts.2
      parts.1 writes followsRegistered
  refine .of_walk found follows suffix ?_ (followsFilled.setFields again.size fields)
  rw [isKind, Node.ofJson_record isError around jsons tidy]
  exact Node.yields_record.2 ⟨declaration, again.size, registered, fields, filled,
    admitted.resolve_written enclosed _, register, walks, rfl, rfl⟩

/-- An enum is read back. -/
theorem recovers_enum {enumeration : Enumeration} (isEnum : entry = .enum enumeration) :
    (Schema.named entry.kind handle).Recovered options source again around
      (enumeration.project around) (handle :: written) := by
  subst isEnum
  obtain ⟨node, -, declares⟩ := plain.declared found
  have standsFor : (Entry.enum enumeration).StandsFor (.enum enumeration) :=
    ⟨rfl, rfl, rfl, plain.unadorned handle _ found⟩
  obtain ⟨registered, register, followsRegistered⟩ :=
    follows.register plain.sound fresh found standsFor
  refine .of_walk found follows List.suffix_rfl ?_ followsRegistered
  rw [Node.ofJson_enum around (plain.tidy found)]
  exact Node.yields_enum.2 ⟨_, enumeration, again.size,
    (plain.admitted found).resolve_written enclosed _, declares.enumeration, register, rfl⟩

/-- A fixed type is read back. -/
theorem recovers_fixed {fixedType : FixedType} (isFixed : entry = .fixed fixedType) :
    (Schema.named entry.kind handle).Recovered options source again around
      (fixedType.project around) (handle :: written) := by
  subst isFixed
  have unadorned := plain.unadorned handle _ found
  have overlay : fixedType.overlay = none := by
    have same := unadorned.2 handle
    cases isOverlay : fixedType.overlay with
    | none => rfl
    | some known => simp [Entry.toSchema, isOverlay] at same
  have standsFor : (Entry.fixed fixedType).StandsFor (.fixed fixedType) :=
    ⟨rfl, rfl, rfl, unadorned⟩
  obtain ⟨registered, register, followsRegistered⟩ :=
    follows.register plain.sound fresh found standsFor
  refine .of_walk found follows List.suffix_rfl ?_ followsRegistered
  rw [Node.ofJson_fixed around ⟨plain.tidy found, by simp [overlay]⟩ overlay,
    FixedType.rewritten_eq_self overlay]
  exact Node.yields_fixed.2 ⟨_, fixedType, again.size,
    (plain.admitted found).resolve_written enclosed _,
    Declaration.fixedType_eq_ok.2 ⟨rfl, rfl, rfl, overlay⟩, register, rfl⟩

/-- A protocol is read back with its types and its messages. -/
theorem recovers_protocol (recovers : define.Recovers options source) {body : Protocol}
    (isProtocol : entry = .protocol body) {types : List Json} {messages : Members}
    {typed : List Handle}
    (writesTypes : (Schema.projectEach source define body.name.space body.types).Yields
      (handle :: written) types typed)
    (writesMessages : (projectMessages source define body.name.space body.messages).Yields typed
      messages last)
    (suffix : handle :: written <:+ last) :
    (Schema.named entry.kind handle).Recovered options source again around
      (body.project around types messages) last := by
  subst isProtocol
  let declaration : Declaration := ⟨body.name, { doc := body.doc, properties := body.properties }⟩
  obtain ⟨isTypes, resolved, _, _, _, nodes, lawful, names⟩ :=
    (plain.resolved handle _ found).parts
  have standsFor : (Entry.protocol declaration.protocol).StandsFor (.protocol body) :=
    ⟨rfl, rfl, rfl, rfl, fun _ => rfl⟩
  have admitted := plain.admitted found
  obtain ⟨registered, register, followsRegistered⟩ :=
    follows.register plain.sound fresh found standsFor
  obtain ⟨schemas, between, walksTypes, followsTyped, -⟩ :=
    Schema.recovers_projectEach recovers admitted.wellFormed.space .protocolType body.types
      (fun type member => (isTypes type member).1)
      (fun type member _ _ alike => alike.protocolType (isTypes type member).2) writesTypes
      followsRegistered
  obtain ⟨others, filled, walksMessages, followsFilled⟩ :=
    recovers_projectMessages plain.unwanted recovers admitted.wellFormed.space resolved
      writesMessages followsTyped
  have distinct : (messages.map Prod.fst).Nodup := by
    rw [keys_projectMessages writesMessages]
    exact lawful.1.2.sublist names
  refine .of_walk found follows suffix ?_ (followsFilled.setProtocol again.size schemas others)
  rw [Node.ofJson_protocol around types (plain.tidy found) distinct]
  exact Node.yields_protocol.2 ⟨declaration, again.size, registered, schemas, between, others,
    filled, admitted.resolve_written enclosed _, register, walksTypes, walksMessages, rfl, rfl⟩

/-- An entry is read back that is written in full. -/
theorem recovers_entry (recovers : define.Recovers options source) (visits : define.Visits source)
    (writes : (entry.project source define around).Yields (handle :: written) json last) :
    (Schema.named entry.kind handle).Recovered options source again around json last := by
  obtain ⟨_, _, writesInside⟩ := Entry.exists_of_project writes
  have suffix := (Schema.visits_projectEach visits _ writesInside).suffix
  cases entry with
  | record body =>
    obtain ⟨fields, writesFields, rfl⟩ := (Entry.yields_record false).1 writes
    exact plain.recovers_record enclosed fresh found follows recovers false rfl writesFields suffix
  | error body =>
    obtain ⟨fields, writesFields, rfl⟩ := (Entry.yields_record true).1 writes
    exact plain.recovers_record enclosed fresh found follows recovers true rfl writesFields suffix
  | enum enumeration =>
    obtain ⟨rfl, rfl⟩ := Entry.yields_enum.1 writes
    exact plain.recovers_enum enclosed fresh found follows rfl
  | fixed fixedType =>
    obtain ⟨rfl, rfl⟩ := Entry.yields_fixed.1 writes
    exact plain.recovers_fixed enclosed fresh found follows rfl
  | protocol body =>
    obtain ⟨types, typed, messages, writesTypes, writesMessages, rfl⟩ :=
      Entry.yields_protocol.1 writes
    exact plain.recovers_protocol enclosed fresh found follows recovers rfl writesTypes
      writesMessages suffix
  | abstractBase => cases (plain.unadorned handle _ found).1

end

variable (avoids : source.AvoidsKeywords)
include avoids

/-- The entry at a handle is read back from what is written of it, in full or as a reference, if it
has a spelling and the entries in it are read back. -/
theorem recovers_defineWith (recovers : define.Recovers options source)
    (visits : define.Visits source) (found : source.get? handle = some entry)
    (enclosing : ∀ space ∈ around, Name.checkSegments space = .ok ())
    (spells : source.Spells written around handle)
    (writes : (source.defineWith define handle around).Yields written json last)
    (follows : source.Follows again written) :
    (Schema.named entry.kind handle).Recovered options source again around json last := by
  have isDeclared := (plain.unadorned handle entry found).1
  obtain ⟨_, isEntry, writesEntry⟩ := yields_defineWith.1 writes
  obtain rfl := Option.some.inj (found.symm.trans isEntry)
  rw [if_neg (by simp [isDeclared])] at writesEntry
  split at writesEntry
  · next member =>
    obtain ⟨rfl, rfl⟩ := writesEntry
    have free := avoids entry (List.mem_of_getElem? found) isDeclared
    obtain ⟨place, other, linked, isOther, standsFor⟩ := follows.reference found member
      (plain.admitted found).wellFormed free enclosing spells
    rw [standsFor.kind_eq] at linked
    refine ⟨_, again, ?_, follows, .named found isOther standsFor⟩
    rw [Node.ofJson_string]
    exact Node.yields_reference.2 ⟨linked, rfl⟩
  · next fresh =>
    have enclosed : entry.name.space = none → around = none := fun outside => by
      rw [Option.eq_none_iff_forall_ne_some]
      intro space isSpace
      exact fresh (spells entry found outside space isSpace).1
    exact plain.recovers_entry enclosed fresh found follows recovers visits writesEntry

/-- Wherever a projection begins, what it writes of entries is read back, if it spells them. -/
theorem recovers_defineSpelled (depth : Nat) :
    (source.defineSpelled depth).Recovers options source := by
  induction depth with
  | zero => exact fun _ _ writes => absurd writes yields_define_zero
  | succ depth ih =>
    intro handle entry around written last json again found enclosing writes follows
    obtain ⟨spells, writesEntry⟩ := yields_defineSpelled_succ.1 writes
    have visits : (source.defineSpelled depth).Visits source :=
      fun _ _ _ _ _ writes => plain.unadorned.visits_define depth _ _ _ _ _
        (source.defineSpelled_extends depth _ _ _ _ _ writes)
    exact plain.recovers_defineWith avoids ih visits found enclosing spells writesEntry follows

end Registry.Plain

end

end AvroGraph
