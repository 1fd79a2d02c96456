import AvroGraph.Proofs.Adequacy
import AvroGraph.Proofs.Redeclared

/-!
# Resolutions of what is written

A walk that succeeds is repeated on what its schema is written as, if all types are whole: the
written document resolves to the same schema and leaves the same registry, as it is read back
(`Node.rereads`). The projection and the walk go through the document in step (`Registry.InStep`),
so each of them meets a declaration for the first time where the other does.
-/

namespace AvroGraph

open Resolving

/-- What a walk meets can be written and read back: no reference is linked to a base, and every slot
with a base has one of its own branches. -/
structure Event.Rereadable (options : Options) (final : Registry) (event : Event) : Prop where
  unlinked : event.linksBase = false
  own : options.synthesizeBases = true → event.HasOwnBase final

/-- A rule that holds of schemas in a registry holds of them in the registry as it is read
back. -/
def Vet.Rereads (vet : Vet) : Prop :=
  ∀ registry schema, vet registry schema = .ok () → vet registry.rewritten schema = .ok ()

/-- Any schema is a branch. -/
theorem Vet.rereads_branch : Vet.branch.Rereads := fun _ _ => id

/-- Whether a schema is a type of a protocol does not depend on the registry. -/
theorem Vet.rereads_protocolType : Vet.protocolType.Rereads := fun _ _ => id

/-- Whether a schema is an error of a message does not either. -/
theorem Vet.rereads_messageError (message : String) : (Vet.messageError message).Rereads := by
  intro registry schema vetted
  cases schema with
  | named kind handle => cases kind <;> first | rfl | cases vetted
  | _ => cases vetted

section

variable {options : Options} {around : Option String}
  {registry registered filled after final : Registry}

/-- A record that is given its fields has them in the end. -/
theorem Registry.LeadsTo.record {declaration : Declaration} {isError : Bool} {handle : Handle}
    {done : List Field}
    (leads : (filled.setFields handle done).LeadsTo registry.size final)
    (register : registry.register (declaration.recordEntry isError) = .ok (handle, registered))
    (grows : registered.Grows filled) :
    ∃ bases, let body : Record := { declaration.record with fields := done, bases }
      final.get? handle = some (if isError then .error body else .record body) := by
  have above : registry.size ≤ handle := Nat.le_of_eq (handle_register register).symm
  have here := get?_registered register
  obtain ⟨entry, found, growth⟩ := grows.entry handle _ (lt_size_of_get? here) here
  cases isError with
  | true =>
    obtain rfl := growth.eq_of_kind (by simp [Declaration.recordEntry, Entry.kind])
    have given : (filled.setFields handle done).get? handle =
        some (.error { declaration.record with fields := done }) := by
      rw [setFields, get?_update, if_pos rfl, found]
      rfl
    obtain ⟨complete, isComplete, -, growsOn⟩ := leads handle _ given
    obtain rfl := (growsOn above).eq_of_kind (by simp [Entry.kind])
    exact ⟨[], isComplete⟩
  | false =>
    obtain ⟨bases, rfl, -⟩ := growth.record
    have given : (filled.setFields handle done).get? handle =
        some (.record { declaration.record with fields := done, bases := [] ++ bases }) := by
      rw [setFields, get?_update, if_pos rfl, found]
      rfl
    obtain ⟨complete, isComplete, -, growsOn⟩ := leads handle _ given
    obtain ⟨more, rfl, -⟩ := (growsOn above).record
    exact ⟨_, isComplete⟩

/-- A protocol that is given its parts has them in the end. -/
theorem Registry.LeadsTo.protocol {body : Protocol} {handle : Handle} {types : List Schema}
    {messages : List Message}
    (leads : (filled.setProtocol handle types messages).LeadsTo registry.size final)
    (register : registry.register (.protocol body) = .ok (handle, registered))
    (grows : registered.Grows filled) :
    final.get? handle = some (.protocol { body with types, messages }) := by
  have given : (filled.setProtocol handle types messages).get? handle =
      some (.protocol { body with types, messages }) := by
    rw [setProtocol, get?_update, if_pos rfl, grows.protocol register]
    rfl
  obtain ⟨complete, isComplete, -, growsOn⟩ := leads handle _ given
  have above : registry.size ≤ handle := Nat.le_of_eq (handle_register register).symm
  obtain rfl := (growsOn above).eq_of_kind (by simp [Entry.kind])
  exact isComplete

end

/-! ## What is read back -/

section

variable (options : Options) (final : Registry)

/-- A node is read back: a walk of it that succeeds, on the way to the last registry and in step
with a projection of that, is repeated on what its schema is written as. -/
def Node.Rereads (node : Node) : Prop :=
  ∀ ⦃registry after around schema depth written last json⦄,
    (node.resolve options around).Yields registry schema after →
    after.LeadsTo registry.size final →
    (∀ event ∈ node.events options around registry, event.Rereadable options final) →
    schema.isWhole final = true → final.InStep registry written →
    (schema.project final (final.define depth) around).Yields written json last →
    final.InStep after last ∧
      ((Node.ofJson json).resolve options around).Yields registry.rewritten schema after.rewritten

/-- Nodes in a row are read back, whatever rule their schemas are held to. -/
def NodesReread (nodes : List Node) : Prop :=
  ∀ ⦃registry after around vet schemas depth written last jsons⦄, vet.Rereads →
    (resolveEach options around vet nodes).Yields registry schemas after →
    after.LeadsTo registry.size final →
    (∀ event ∈ eventsOfEach options around nodes registry, event.Rereadable options final) →
    Schema.allWhole final schemas = true → final.InStep registry written →
    (Schema.projectEach final (final.define depth) around schemas).Yields written jsons last →
    final.InStep after last ∧
      (resolveEach options around vet (AvroGraph.nodes jsons)).Yields registry.rewritten schemas
        after.rewritten

/-- A field is read back. -/
def FieldNode.Rereads (node : FieldNode) : Prop :=
  ∀ ⦃registry after owner field depth written last json⦄,
    (node.resolve options owner).Yields registry field after →
    after.LeadsTo registry.size final →
    (∀ event ∈ node.events options owner registry, event.Rereadable options final) →
    field.declared.isWhole final = true → final.InStep registry written →
    (field.declared.project final (final.define depth) owner.space).Yields written json last →
    final.InStep after last ∧
      ((FieldNode.ofJson (field.project json)).resolve options owner).Yields registry.rewritten
        field after.rewritten

/-- Fields in a row are read back, behind those that have been. -/
def FieldsReread (nodes : List FieldNode) : Prop :=
  ∀ ⦃registry after owner done new depth written last jsons⦄,
    (resolveFields options owner done nodes).Yields registry (done ++ new) after →
    after.LeadsTo registry.size final →
    (∀ event ∈ eventsOfFields options owner nodes registry, event.Rereadable options final) →
    Schema.allWhole final (new.map Field.declared) = true → final.InStep registry written →
    (projectFields final (final.define depth) owner.space new).Yields written jsons last →
    final.InStep after last ∧
      (resolveFields options owner done (fieldNodes jsons)).Yields registry.rewritten
        (done ++ new) after.rewritten

/-- A message is read back. -/
def MessageNode.Rereads (node : MessageNode) : Prop :=
  ∀ ⦃registry after around message depth written asked answered last request errors response⦄,
    (node.resolve options around).Yields registry message after →
    after.LeadsTo registry.size final →
    (∀ event ∈ node.events options around registry, event.Rereadable options final) →
    Schema.allWhole final message.schemas = true → final.InStep registry written →
    (projectFields final (final.define depth) around message.request).Yields written request
      asked →
    (message.response.project final (final.define depth) around).Yields asked response answered →
    (Schema.projectEach final (final.define depth) around (message.errors.drop 1)).Yields answered
      errors last →
    final.InStep after last ∧
      ((MessageNode.ofJson message.name (message.project request response errors)).resolve options
        around).Yields registry.rewritten message after.rewritten

/-- Messages in a row are read back. -/
def MessagesReread (nodes : List MessageNode) : Prop :=
  ∀ ⦃registry after around messages depth written last members⦄,
    (resolveMessages options around nodes).Yields registry messages after →
    after.LeadsTo registry.size final →
    (∀ event ∈ eventsOfMessages options around nodes registry, event.Rereadable options final) →
    Schema.allWhole final (messages.flatMap Message.schemas) = true →
    final.InStep registry written →
    (projectMessages final (final.define depth) around messages).Yields written members last →
    final.InStep after last ∧
      (resolveMessages options around (messageNodes members)).Yields registry.rewritten messages
        after.rewritten

end

section

variable {options : Options} {final : Registry} {node : Node} {heading : Heading}

namespace Node.Rereads

/-- What is malformed does not succeed. -/
theorem malformed (reason : Reason) (source : Json) :
    (Node.malformed reason source).Rereads options final := by
  intro _ _ _ _ _ _ _ _ succeeds
  exact absurd succeeds Node.yields_malformed

/-- A reference is written as one that means the same. -/
theorem reference (avoids : final.AvoidsKeywords) (text : String) :
    (Node.reference text).Rereads options final := by
  intro registry after around schema depth written last json succeeds leads events whole inStep
    writes
  rw [Node.events, succeeds.followed] at events
  obtain ⟨linked, rfl⟩ := Node.yields_reference.1 succeeds
  refine Node.rereads_reference linked ?_ leads avoids inStep writes
  rintro base rfl
  cases (events _ List.mem_cons_self).unlinked

/-- An object around a type is left out. -/
theorem nested (source : Json) (inner : node.Rereads options final) :
    (Node.nested source node).Rereads options final := by
  intro registry after around schema depth written last json succeeds leads events whole inStep
    writes
  exact inner (Node.yields_nested.1 succeeds) leads events whole inStep writes

/-- A union is written as the list of what its branches are written as. -/
theorem union (source : Json) {branches : List Node} (each : NodesReread options final branches) :
    (Node.union source branches).Rereads options final := by
  intro registry after around schema depth written last json succeeds leads events whole inStep
    writes
  obtain ⟨schemas, resolving, rfl⟩ := Node.yields_union.1 succeeds
  obtain ⟨jsons, writesEach, rfl⟩ := Schema.yields_union.1 writes
  obtain ⟨inStepAfter, walks⟩ :=
    each Vet.rereads_branch resolving leads events whole inStep writesEach
  refine ⟨inStepAfter, ?_⟩
  rw [Node.ofJson_union]
  exact Node.yields_union.2 ⟨schemas, walks, rfl⟩

/-- An array is written around what its items are written as. -/
theorem array (source : Json) (items : node.Rereads options final) :
    (Node.array source node).Rereads options final := by
  intro registry after around schema depth written last json succeeds leads events whole inStep
    writes
  obtain ⟨inner, resolving, rfl⟩ := Node.yields_array.1 succeeds
  obtain ⟨_, writesItems, rfl⟩ := Schema.yields_array.1 writes
  obtain ⟨inStepAfter, walks⟩ := items resolving leads events whole inStep writesItems
  refine ⟨inStepAfter, ?_⟩
  rw [Node.ofJson_array]
  exact Node.yields_array.2 ⟨inner, walks, rfl⟩

/-- A map is written around what its values are written as. -/
theorem map (source : Json) (values : node.Rereads options final) :
    (Node.map source node).Rereads options final := by
  intro registry after around schema depth written last json succeeds leads events whole inStep
    writes
  obtain ⟨inner, resolving, rfl⟩ := Node.yields_map.1 succeeds
  obtain ⟨_, writesValues, rfl⟩ := Schema.yields_map.1 writes
  obtain ⟨inStepAfter, walks⟩ := values resolving leads events whole inStep writesValues
  refine ⟨inStepAfter, ?_⟩
  rw [Node.ofJson_map]
  exact Node.yields_map.2 ⟨inner, walks, rfl⟩

/-- A record is met for the first time where it is written in full, and its fields within it. -/
theorem record (complete : final.WholeIn final) (source : Json) (isError : Bool)
    (tidy : heading.Tidy Members.reserved) {fields : List FieldNode}
    (own : FieldsObey .ownOverlays fields) (each : FieldsReread options final fields) :
    (Node.record source isError heading fields).Rereads options final := by
  intro registry after around schema depth written last json succeeds leads events _ inStep writes
  obtain ⟨declaration, handle, registered, done, filled, resolved, register, filling, rfl, rfl⟩ :=
    Node.yields_record.1 succeeds
  rw [Node.events, (Heading.yields_declare.2 ⟨resolved, handle, register⟩).followed] at events
  have grows := grows_resolveFields own filling
  obtain ⟨bases, isComplete⟩ := leads.record register grows
  have isDeclared (body : Record) :
      (if isError then Entry.error body else .record body).isAbstractBase = false := by
    cases isError <;> rfl
  obtain ⟨_, writesEntry⟩ := inStep.yields_fresh register isComplete (isDeclared _) writes
  obtain ⟨jsons, writesFields, rfl⟩ := (Entry.yields_record isError).1 writesEntry
  -- The record is registered before its fields: they are read back with its handle taken.
  have fillingAll : (resolveFields options declaration.name [] fields).Yields registered
      ([] ++ done) filled := filling
  have unfixed : ∀ fixedType, declaration.recordEntry isError ≠ .fixed fixedType := by
    cases isError <;> exact fun _ => nofun
  have wholeFields : Schema.allWhole final (done.map Field.declared) = true := by
    have inside := complete handle _ isComplete (isDeclared _)
    cases isError <;> exact inside
  obtain ⟨inStepFilled, walks⟩ := each fillingAll (.of_setFields register leads) events wholeFields
    (inStep.register register fun fixedType isFixed => absurd isFixed (unfixed fixedType))
    writesFields
  have registers := Registry.register_rewritten register
  have same : (declaration.recordEntry isError).rewritten = declaration.recordEntry isError := by
    cases isError <;> rfl
  rw [same] at registers
  refine ⟨inStepFilled.setFields, ?_⟩
  rw [Node.ofJson_record isError around jsons (tidy.properties resolved)]
  exact Node.yields_record.2 ⟨declaration, handle, _, done, _,
    Heading.resolve_written resolved declaration.details, registers, walks,
    Registry.setFields_rewritten handle done, rfl⟩

/-- An enum is met for the first time where it is written in full. -/
theorem enum (source : Json) (tidy : heading.Tidy Members.reserved) (symbols : List (Option String))
    (default : Except Reason (Option String)) :
    (Node.enum source heading symbols default).Rereads options final := by
  intro registry after around schema depth written last json succeeds leads _ _ inStep writes
  exact Node.rereads_enum tidy succeeds leads inStep writes

/-- A fixed type is met for the first time where it is written in full. -/
theorem fixed (source : Json) (tidy : heading.Tidy Members.reserved) (size : Option Nat) :
    (Node.fixed source heading size).Rereads options final := by
  intro registry after around schema depth written last json succeeds leads _ _ inStep writes
  exact Node.rereads_fixed tidy succeeds leads inStep writes

/-- A protocol is met for the first time where it is written in full, with its types before its
messages, in the walk as in what is written. -/
theorem protocol (complete : final.WholeIn final) (source : Json)
    (tidy : heading.Tidy Members.reservedOfProtocols) {types : List Node}
    {messages : List MessageNode} (names : (messages.map MessageNode.name).Nodup)
    (ownTypes : NodesObey .ownOverlays types) (ownMessages : MessagesObey .ownOverlays messages)
    (eachType : NodesReread options final types)
    (eachMessage : MessagesReread options final messages) :
    (Node.protocol source heading types messages).Rereads options final := by
  intro registry after around schema depth written last json succeeds leads events _ inStep writes
  obtain ⟨declaration, handle, registered, schemas, typed, done, filled, resolved, register,
    typing, filling, rfl, rfl⟩ := Node.yields_protocol.1 succeeds
  rw [Node.events, (Heading.yields_declare.2 ⟨resolved, handle, register⟩).followed,
    typing.followed, List.forall_mem_append] at events
  have typedGrows := grows_resolveEach ownTypes typing
  have filledGrows := grows_resolveMessages ownMessages filling
  have isComplete := leads.protocol register (typedGrows.trans filledGrows)
  obtain ⟨_, writesEntry⟩ := inStep.yields_fresh register isComplete rfl writes
  obtain ⟨jsons, _, members, writesTypes, writesMessages, rfl⟩ :=
    Entry.yields_protocol.1 writesEntry
  obtain ⟨wholeTypes, wholeMessages⟩ :=
    Schema.allWhole_append.1 (complete handle _ isComplete rfl)
  have leadsFilled := Registry.LeadsTo.of_setProtocol register leads
  obtain ⟨inStepTyped, walksTypes⟩ := eachType Vet.rereads_protocolType typing
    (leadsFilled.of_grows filledGrows) events.1 wholeTypes
    (inStep.register register fun _ isFixed => by cases isFixed) writesTypes
  obtain ⟨inStepFilled, walksMessages⟩ := eachMessage filling
    (leadsFilled.weaken typedGrows.size_le) events.2 wholeMessages inStepTyped writesMessages
  have distinct : (members.map Prod.fst).Nodup := by
    rw [keys_projectMessages writesMessages, names_resolveMessages filling]
    exact names
  refine ⟨inStepFilled.setProtocol, ?_⟩
  rw [Node.ofJson_protocol around jsons (tidy.properties resolved) distinct]
  exact Node.yields_protocol.2 ⟨_, handle, _, schemas, _, done, _,
    Heading.resolve_written resolved _, Registry.register_rewritten register, walksTypes,
    walksMessages, Registry.setProtocol_rewritten handle schemas done, rfl⟩

/-- A logical type that is not known is left out, and what it is laid over comes back. One that is
known comes back with it. -/
theorem logical (avoids : final.AvoidsKeywords) {source : Json} {name : String}
    {overlay : Except Reason (Option LogicalType)} {declaresFixed : Bool}
    (tidy : (Node.logical source name overlay declaresFixed node).Obeys .tidy)
    (inner : node.Rereads options final) :
    (Node.logical source name overlay declaresFixed node).Rereads options final := by
  intro registry after around schema depth written last json succeeds leads events whole inStep
    writes
  obtain ⟨underlying, between, resolving, annotated⟩ := Node.yields_logical.1 succeeds
  rw [Node.events, resolving.followed, List.forall_mem_append] at events
  obtain ⟨rfl, isBare, rfl⟩ | ⟨known, rfl, -⟩ := Registry.annotate_eq_ok.1 annotated
  · obtain same | ⟨handle, taken, rfl⟩ := node.bare_eq_or_fixed resolving
    · obtain rfl : schema = underlying := isBare.trans same
      exact inner resolving leads events.1 whole inStep writes
    · obtain rfl : schema = .named .fixed handle := isBare
      exact Node.rereads_stripped tidy.2 resolving rfl whole leads avoids inStep writes
  · exact Node.rereads_known tidy succeeds leads avoids inStep writes

end Node.Rereads

/-- No nodes are written as nothing. -/
theorem NodesReread.nil : NodesReread options final [] := by
  intro registry after around vet schemas depth written last jsons _ succeeds _ _ _ inStep writes
  obtain ⟨rfl, rfl⟩ := yields_resolveEach_nil.1 succeeds
  obtain ⟨rfl, rfl⟩ := Schema.yields_projectEach_nil.1 writes
  exact ⟨inStep, yields_resolveEach_nil.2 ⟨rfl, rfl⟩⟩

/-- Nodes are read back from where the first one has been. -/
theorem NodesReread.cons {rest : List Node} (own : NodesObey .ownOverlays (node :: rest))
    (head : node.Rereads options final) (tail : NodesReread options final rest) :
    NodesReread options final (node :: rest) := by
  intro registry after around vet schemas depth written last jsons vets succeeds leads events whole
    inStep writes
  obtain ⟨schema, between, others, first, vetted, walksRest, rfl⟩ :=
    yields_resolveEach_cons.1 succeeds
  obtain ⟨json, middle, more, writesFirst, writesRest, rfl⟩ :=
    Schema.yields_projectEach_cons.1 writes
  rw [eventsOfEach, first.followed, List.forall_mem_append] at events
  rw [Schema.allWhole, Bool.and_eq_true] at whole
  obtain ⟨inStepBetween, walks⟩ := head first (leads.of_grows (grows_resolveEach own.2 walksRest))
    events.1 whole.1 inStep writesFirst
  obtain ⟨inStepAfter, walksOn⟩ := tail vets walksRest
    (leads.weaken (node.grows own.1 first).size_le) events.2 whole.2 inStepBetween writesRest
  exact ⟨inStepAfter, yields_resolveEach_cons.2
    ⟨schema, _, others, walks, vets _ _ vetted, walksOn, rfl⟩⟩

/-- A field that is malformed does not succeed. -/
theorem FieldNode.Rereads.malformed (reason : Reason) (source : Json) :
    (FieldNode.malformed reason source).Rereads options final := by
  intro _ _ _ _ _ _ _ _ succeeds
  exact absurd succeeds FieldNode.yields_malformed

/-- A field is written with the type that it is declared with, and filled again. -/
theorem FieldNode.Rereads.field {source typeSource : Json} {name : String}
    {default : Option Json} {details : Except Reason FieldDetails}
    (tidy : ∀ said, details = .ok said → said.properties.Tidy Members.reserved)
    (type : node.Rereads options final) :
    (FieldNode.field source name node typeSource default details).Rereads options final := by
  intro registry after owner field depth written last json succeeds leads events whole inStep writes
  obtain ⟨declared, typed, slot, literal, said, checked, typing, filled, synthesized, isSaid,
    rfl⟩ := FieldNode.yields_field.1 succeeds
  rw [FieldNode.events, typing.followed, (yields_change.2 filled).followed,
    List.forall_mem_append, List.forall_mem_singleton] at events
  obtain ⟨inStepTyped, walks⟩ := type typing (leads.of_grows (Registry.grows_slot filled)) events.1
    ((Slot.isWhole_declared filled).symm.trans whole) inStep
    (Slot.project_declared filled events.2.own writes)
  refine ⟨inStepTyped.slot leads filled, ?_⟩
  rw [FieldNode.ofJson_project json (tidy said isSaid)]
  refine FieldNode.yields_field.2 ⟨declared, _, slot, literal, said, checked, walks,
    Registry.slot_rewritten filled, ?_, rfl, rfl⟩
  rw [DefaultLiteral.synthesizeOption_rewritten]
  exact synthesized

/-- No fields are written as nothing. -/
theorem FieldsReread.nil : FieldsReread options final [] := by
  intro registry after owner done new depth written last jsons succeeds _ _ _ inStep writes
  obtain ⟨same, rfl⟩ := yields_resolveFields_nil.1 succeeds
  obtain rfl : new = [] := by simpa using same
  obtain ⟨rfl, rfl⟩ := yields_projectFields_nil.1 writes
  exact ⟨inStep, yields_resolveFields_nil.2 ⟨same, rfl⟩⟩

/-- Fields are read back from where the first one has been. -/
theorem FieldsReread.cons {node : FieldNode} {rest : List FieldNode}
    (own : FieldsObey .ownOverlays (node :: rest)) (head : node.Rereads options final)
    (tail : FieldsReread options final rest) : FieldsReread options final (node :: rest) := by
  intro registry after owner done new depth written last jsons succeeds leads events whole inStep
    writes
  obtain ⟨field, between, first, checked, walksRest⟩ := yields_resolveFields_cons.1 succeeds
  obtain ⟨others, same⟩ := exists_of_resolveFields walksRest
  obtain rfl : new = field :: others := by simpa using same
  obtain ⟨type, middle, more, writesType, writesRest, rfl⟩ := yields_projectFields_cons.1 writes
  rw [eventsOfFields, first.followed, List.forall_mem_append] at events
  rw [same] at walksRest ⊢
  rw [List.map_cons, Schema.allWhole, Bool.and_eq_true] at whole
  obtain ⟨inStepBetween, walks⟩ := head first (leads.of_grows (grows_resolveFields own.2 walksRest))
    events.1 whole.1 inStep writesType
  obtain ⟨inStepAfter, walksOn⟩ := tail walksRest
    (leads.weaken (node.grows own.1 first).size_le) events.2 whole.2 inStepBetween writesRest
  exact ⟨inStepAfter, yields_resolveFields_cons.2 ⟨field, _, walks, checked, walksOn⟩⟩

/-- A message that is malformed does not succeed. -/
theorem MessageNode.Rereads.malformed (reason : Reason) (source : Json) :
    (MessageNode.malformed reason source).Rereads options final := by
  intro _ _ _ _ _ _ _ _ _ _ _ _ succeeds
  exact absurd succeeds MessageNode.yields_malformed

/-- A message is written part by part in the order of the walk: the parameters, the response and the
errors. -/
theorem MessageNode.Rereads.message {source responseSource : Json} {name : String}
    {request : List FieldNode} {errors : List Node} {oneWay : Except Reason Bool}
    {details : Except Reason Details}
    (own : (MessageNode.message source name request node responseSource errors oneWay
      details).Obeys .ownOverlays)
    (tidy : ∀ said, details = .ok said → said.properties.Tidy Members.reservedOfMessages)
    (parameters : FieldsReread options final request) (response : node.Rereads options final)
    (failures : NodesReread options final errors) :
    (MessageNode.message source name request node responseSource errors oneWay details).Rereads
      options final := by
  intro registry after around message depth written askedHandles answeredHandles last requestJson
    errorsJson responseJson succeeds leads events whole inStep asks answers fails
  obtain ⟨fields, asked, declared, typed, slot, answered, schemas, flag, said, checked, asking,
    answering, filled, failing, isFlag, isOneWay, isSaid, rfl⟩ :=
    MessageNode.yields_message.1 succeeds
  rw [MessageNode.events, asking.followed, answering.followed, (yields_change.2 filled).followed,
    List.forall_mem_append, List.forall_mem_append, List.forall_mem_cons] at events
  obtain ⟨eventsAsked, eventsAnswered, eventSlot, eventsFailed⟩ := events
  obtain ⟨wholeAsked, wholeAnswer, wholeFailed⟩ := Message.allWhole_schemas.1 whole
  obtain ⟨leadsAsked, leadsTyped, leadsAnswered, leadsFailed⟩ := leads.message
    (grows_resolveFields own.2.1 asking) (node.grows own.2.2.1 answering)
    (Registry.grows_slot filled) (grows_resolveEach own.2.2.2 failing)
  have askingAll : (resolveFields options ⟨name, around⟩ [] request).Yields registry
      ([] ++ fields) asked := asking
  obtain ⟨inStepAsked, walksAsked⟩ :=
    parameters askingAll leadsAsked eventsAsked wholeAsked inStep asks
  obtain ⟨inStepTyped, walksAnswered⟩ := response answering leadsTyped eventsAnswered
    ((Slot.isWhole_declared filled).symm.trans wholeAnswer) inStepAsked
    (Slot.project_declared filled eventSlot.own answers)
  obtain ⟨inStepAfter, walksFailed⟩ := failures (Vet.rereads_messageError name) failing leadsFailed
    eventsFailed wholeFailed (inStepTyped.slot leadsAnswered filled) fails
  refine ⟨inStepAfter, ?_⟩
  rw [MessageNode.ofJson_project requestJson responseJson errorsJson (tidy said isSaid)]
  exact MessageNode.yields_message.2 ⟨fields, _, declared, _, slot, _, schemas, flag, _, checked,
    walksAsked, walksAnswered, Registry.slot_rewritten filled, walksFailed, rfl, isOneWay, rfl, rfl⟩

/-- No messages are written as nothing. -/
theorem MessagesReread.nil : MessagesReread options final [] := by
  intro registry after around messages depth written last members succeeds _ _ _ inStep writes
  obtain ⟨rfl, rfl⟩ := yields_resolveMessages_nil.1 succeeds
  obtain ⟨rfl, rfl⟩ := yields_projectMessages_nil.1 writes
  exact ⟨inStep, yields_resolveMessages_nil.2 ⟨rfl, rfl⟩⟩

/-- Messages are read back from where the first one has been. -/
theorem MessagesReread.cons {node : MessageNode} {rest : List MessageNode}
    (own : MessagesObey .ownOverlays (node :: rest)) (head : node.Rereads options final)
    (tail : MessagesReread options final rest) : MessagesReread options final (node :: rest) := by
  intro registry after around messages depth written last members succeeds leads events whole inStep
    writes
  obtain ⟨message, between, others, first, walksRest, rfl⟩ :=
    yields_resolveMessages_cons.1 succeeds
  obtain ⟨request, asked, response, answered, errors, failed, more, asks, answers, fails,
    writesRest, rfl⟩ := yields_projectMessages_cons.1 writes
  rw [eventsOfMessages, first.followed, List.forall_mem_append] at events
  rw [List.flatMap_cons, Schema.allWhole_append] at whole
  obtain ⟨inStepBetween, walks⟩ := head first
    (leads.of_grows (grows_resolveMessages own.2 walksRest)) events.1 whole.1 inStep asks answers
    fails
  obtain ⟨inStepAfter, walksOn⟩ := tail walksRest
    (leads.weaken (node.grows own.1 first).size_le) events.2 whole.2 inStepBetween writesRest
  exact ⟨inStepAfter, yields_resolveMessages_cons.2 ⟨message, _, others, walks, walksOn, rfl⟩⟩

/-! ## The walk -/

mutual

/-- A walk that succeeds is repeated on what its schema is written as. -/
theorem Node.rereads (avoids : final.AvoidsKeywords) (complete : final.WholeIn final) :
    (node : Node) → node.Obeys .ownOverlays → node.Obeys .tidy → node.Rereads options final
  | .malformed reason source, _, _ => .malformed reason source
  | .reference text, _, _ => .reference avoids text
  | .nested source inner, own, tidy =>
    .nested source (inner.rereads avoids complete own.2 tidy.2)
  | .union source branches, own, tidy =>
    .union source (nodes_reread avoids complete branches own.2 tidy.2)
  | .array source items, own, tidy =>
    .array source (items.rereads avoids complete own.2 tidy.2)
  | .map source values, own, tidy =>
    .map source (values.rereads avoids complete own.2 tidy.2)
  | .record source isError _ fields, own, tidy =>
    .record complete source isError tidy.1 own.2
      (fields_reread avoids complete fields own.2 tidy.2)
  | .enum source _ symbols default, _, tidy => .enum source tidy symbols default
  | .fixed source _ size, _, tidy => .fixed source tidy size
  | .protocol source _ types messages, own, tidy =>
    .protocol complete source tidy.1.1 tidy.1.2 own.2.1 own.2.2
      (nodes_reread avoids complete types own.2.1 tidy.2.1)
      (messages_reread avoids complete messages own.2.2 tidy.2.2)
  | .logical _ _ _ _ inner, own, tidy =>
    .logical avoids tidy (inner.rereads avoids complete own.2 tidy.2)

/-- Nodes in a row are read back if each of them is. -/
theorem nodes_reread (avoids : final.AvoidsKeywords) (complete : final.WholeIn final) :
    (nodes : List Node) → NodesObey .ownOverlays nodes → NodesObey .tidy nodes →
      NodesReread options final nodes
  | [], _, _ => .nil
  | node :: rest, own, tidy =>
    .cons own (node.rereads avoids complete own.1 tidy.1)
      (nodes_reread avoids complete rest own.2 tidy.2)

/-- A field is read back if its type is. -/
theorem FieldNode.rereads (avoids : final.AvoidsKeywords) (complete : final.WholeIn final) :
    (node : FieldNode) → node.Obeys .ownOverlays → node.Obeys .tidy → node.Rereads options final
  | .malformed reason source, _, _ => .malformed reason source
  | .field _ _ type _ _ _, own, tidy =>
    .field tidy.1 (type.rereads avoids complete own.2 tidy.2)

/-- Fields in a row are read back if each of them is. -/
theorem fields_reread (avoids : final.AvoidsKeywords) (complete : final.WholeIn final) :
    (nodes : List FieldNode) → FieldsObey .ownOverlays nodes → FieldsObey .tidy nodes →
      FieldsReread options final nodes
  | [], _, _ => .nil
  | node :: rest, own, tidy =>
    .cons own (node.rereads avoids complete own.1 tidy.1)
      (fields_reread avoids complete rest own.2 tidy.2)

/-- A message is read back if its parameters, its response and its errors are. -/
theorem MessageNode.rereads (avoids : final.AvoidsKeywords) (complete : final.WholeIn final) :
    (node : MessageNode) → node.Obeys .ownOverlays → node.Obeys .tidy → node.Rereads options final
  | .malformed reason source, _, _ => .malformed reason source
  | .message _ _ request response _ errors _ _, own, tidy =>
    .message own tidy.1 (fields_reread avoids complete request own.2.1 tidy.2.1)
      (response.rereads avoids complete own.2.2.1 tidy.2.2.1)
      (nodes_reread avoids complete errors own.2.2.2 tidy.2.2.2)

/-- Messages in a row are read back if each of them is. -/
theorem messages_reread (avoids : final.AvoidsKeywords) (complete : final.WholeIn final) :
    (nodes : List MessageNode) → MessagesObey .ownOverlays nodes → MessagesObey .tidy nodes →
      MessagesReread options final nodes
  | [], _, _ => .nil
  | node :: rest, own, tidy =>
    .cons own (node.rereads avoids complete own.1 tidy.1)
      (messages_reread avoids complete rest own.2 tidy.2)

end

end

/-- Every fixed type is coherent. -/
def Registry.Coherent (registry : Registry) : Prop :=
  ∀ handle fixedType, registry.get? handle = some (.fixed fixedType) → fixedType.Coherent

/-- What a whole document of tidy nodes is projected to resolves to the document again, as it is
read back. -/
theorem Document.rereads {options : Options} {root : Json} {document : Document}
    (tidy : (Node.ofJson root).Obeys .tidy)
    (accepted : Document.resolve options root = .ok document)
    (avoids : document.registry.AvoidsKeywords) (whole : document.Whole)
    (events : ∀ event ∈ Document.events options root, event.Rereadable options document.registry) :
    ∃ json, document.toJson = .ok json ∧
      Document.resolve options json = .ok ⟨document.root, document.registry.rewritten⟩ ∧
      document.registry.Coherent := by
  obtain ⟨json, projected⟩ := exists_toJson accepted
  obtain ⟨after, writes⟩ := toJson_eq_ok.1 projected
  have nothing : document.registry.InStep .empty [] :=
    ⟨fun _ _ _ _ => by simp [Registry.empty, Registry.size],
      fun _ _ found => by simp [Registry.empty, Registry.get?] at found, .empty⟩
  obtain ⟨inStep, walks⟩ := (Node.ofJson root).rereads avoids whole.declared
    (Node.obeys_ownOverlays root) tidy (resolve_eq_ok.1 accepted) (.refl _ _) events whole.root
    nothing writes
  exact ⟨json, projected, resolve_eq_ok.2 walks, inStep.coherent⟩

end AvroGraph
