import AvroGraph.Proofs.Overlaid

/-!
# Types that keep their logical types

A fixed type that is declared with a logical type brings it along wherever it is referred to, unless
a logical type that is not known stands over the reference and takes it away. A type is whole if no
fixed type in it has lost its logical type in this way. Where none is taken away, every type in a
document is whole (`Document.whole_of_kept`).
-/

namespace AvroGraph

open Resolving

namespace Schema

mutual

/-- Whether no part of a schema is a fixed type without the logical type that it is declared with.
The type that represents a union does not count as a part. -/
def isWhole (registry : Registry) : Schema → Bool
  | .named .fixed handle => ((registry.fixed? handle).bind FixedType.overlay).isNone
  | .primitive _ | .named _ _ | .logical _ _ | .boxed => true
  | .array items => items.isWhole registry
  | .map values => values.isWhole registry
  | .union branches _ _ => allWhole registry branches

/-- Whether every schema of a list is whole. -/
def allWhole (registry : Registry) : List Schema → Bool
  | [] => true
  | schema :: rest => schema.isWhole registry && allWhole registry rest

end

variable {registry : Registry}

/-- Schemas in a row are whole if each of them is. -/
theorem allWhole_iff {schemas : List Schema} :
    allWhole registry schemas = true ↔ ∀ schema ∈ schemas, schema.isWhole registry = true := by
  induction schemas with
  | nil => simp [allWhole]
  | cons schema rest ih => simp [allWhole, ih]

/-- Schemas in a row are whole if those of both parts of it are. -/
theorem allWhole_append {schemas others : List Schema} :
    allWhole registry (schemas ++ others) = true ↔
      allWhole registry schemas = true ∧ allWhole registry others = true := by
  simp [allWhole_iff, or_imp, forall_and]

/-- A union that calls for a base is one of records. -/
theorem allWhole_of_callsForBase {branches : List Schema} (calls : callsForBase branches = true) :
    allWhole registry branches = true := by
  refine allWhole_iff.2 fun branch member => ?_
  have plain := isRecord_or_isNull_of_callsForBase calls branch member
  cases branch with
  | named kind handle =>
    cases kind with
    | fixed => simp [isRecord, isNull] at plain
    | _ => rfl
  | array | map | union => simp [isRecord, isNull] at plain
  | _ => rfl

end Schema

/-- Whether every type in a message is whole. -/
theorem Message.allWhole_schemas {registry : Registry} {message : Message} :
    Schema.allWhole registry message.schemas = true ↔
      Schema.allWhole registry (message.request.map Field.declared) = true ∧
        message.response.isWhole registry = true ∧
          Schema.allWhole registry (message.errors.drop 1) = true := by
  rw [schemas, Schema.allWhole_append, Schema.allWhole, Bool.and_eq_true]

namespace Registry

variable {registry after final : Registry}

/-- Every type in a declaration is whole, as the last registry has it. -/
def WholeIn (registry final : Registry) : Prop :=
  registry.Every fun entry =>
    entry.isAbstractBase = false → Schema.allWhole final entry.schemas = true

instance (registry final : Registry) : Decidable (registry.WholeIn final) :=
  inferInstanceAs (Decidable (registry.Every _))

namespace WholeIn

/-- Declarations stay whole when a record is given fields of whole types. -/
theorem setFields {handle : Handle} {fields : List Field} (whole : registry.WholeIn final)
    (inside : Schema.allWhole final (fields.map Field.declared) = true) :
    (registry.setFields handle fields).WholeIn final := by
  refine Every.update whole fun entry before => ?_
  cases entry with
  | record | error => exact fun _ => inside
  | _ => exact before

/-- Declarations stay whole when a protocol is given types and messages that are whole. -/
theorem setProtocol {handle : Handle} {types : List Schema} {messages : List Message}
    (whole : registry.WholeIn final) (inside : Schema.allWhole final types = true)
    (insideMessages : Schema.allWhole final (messages.flatMap Message.schemas) = true) :
    (registry.setProtocol handle types messages).WholeIn final := by
  refine Every.update whole fun entry before => ?_
  cases entry with
  | protocol => exact fun _ => Schema.allWhole_append.2 ⟨inside, insideMessages⟩
  | _ => exact before

/-- Declarations stay whole when a fixed type is given a logical type. -/
theorem setOverlay {handle : Handle} {overlay : LogicalType} (whole : registry.WholeIn final) :
    (registry.setOverlay handle overlay).WholeIn final := by
  refine Every.update whole fun entry before => ?_
  cases entry with
  | fixed => exact fun _ => rfl
  | _ => exact before

/-- Nothing is inside a declaration when it is registered. -/
theorem register {options : Options} {node : Node} {entry : Entry} {handle : Handle}
    (whole : registry.WholeIn final) (declares : node.Declares options entry)
    (registered : registry.register entry = .ok (handle, after)) : after.WholeIn final := by
  refine Every.register whole (fun _ => ?_) registered
  cases declares with
  | record _ isError => cases isError <;> rfl
  | enum | fixed | protocol => rfl

/-- Declarations stay whole when a slot is filled, since a base is not declared. -/
theorem slot {options : Options} {owner : Name} {name : String} {declared : Schema} {slot : Slot}
    (whole : registry.WholeIn final)
    (filled : registry.slot options owner name declared = .ok (slot, after)) :
    after.WholeIn final := by
  intro handle entry found isDeclared
  have old : handle < registry.size := by
    by_contra new
    rw [isAbstractBase_of_slot filled found (Nat.not_lt.1 new)] at isDeclared
    cases isDeclared
  obtain ⟨before, isBefore⟩ := exists_get? old
  obtain ⟨grown, isGrown, growth⟩ := (grows_slot filled).entry handle before old isBefore
  obtain rfl := Option.some.inj (isGrown.symm.trans found)
  have inside := whole handle before isBefore (growth.isAbstractBase_eq.symm.trans isDeclared)
  cases growth with
  | same => exact inside
  | derives => exact inside

end WholeIn

/-- What a reference is linked to is whole. -/
theorem isWhole_of_reference {start : Handle} {around : Option String} {text : String}
    {schema : Schema} (leads : registry.LeadsTo start final)
    (linked : registry.reference around text = .ok schema) : schema.isWhole final = true := by
  obtain ⟨_, _, rfl⟩ | ⟨_, _, handle, _, _, schemaOf⟩ := reference_eq_ok.1 linked
  · rfl
  · obtain ⟨entry, found, rfl⟩ := Option.map_eq_some_iff.1 schemaOf
    cases entry with
    | fixed fixedType =>
      obtain ⟨last, isLast, turns, -⟩ := leads handle _ found
      obtain rfl := turns.fixed fixedType rfl
      cases isOverlay : fixedType.overlay with
      | none =>
        simp [Entry.toSchema, isOverlay, Schema.isWhole, fixed?, isLast, Entry.fixed?]
      | some overlay => simp [Entry.toSchema, isOverlay, Schema.isWhole]
    | _ => rfl

/-- A fixed type that is whole by its name alone is declared without a logical type. -/
theorem toSchema_of_isWhole {start handle : Handle} {fixedType : FixedType}
    (leads : registry.LeadsTo start final) (found : registry.get? handle = some (.fixed fixedType))
    (whole : (Schema.named .fixed handle).isWhole final = true) :
    (Entry.fixed fixedType).toSchema handle = .named .fixed handle := by
  obtain ⟨last, isLast, turns, -⟩ := leads handle _ found
  obtain rfl := turns.fixed fixedType rfl
  have plain : fixedType.overlay = none := by
    simpa [Schema.isWhole, fixed?, isLast, Entry.fixed?] using whole
  rw [Entry.toSchema, plain]

/-- What is whole without its logical type has none to lose. -/
theorem bare_eq_of_isWhole {start : Handle} {around : Option String} {text : String}
    {schema : Schema} (leads : registry.LeadsTo start final)
    (linked : registry.reference around text = .ok schema)
    (whole : schema.bare.isWhole final = true) : schema.bare = schema := by
  obtain ⟨_, _, rfl⟩ | ⟨_, _, handle, _, _, schemaOf⟩ := reference_eq_ok.1 linked
  · rfl
  · obtain ⟨entry, found, rfl⟩ := Option.map_eq_some_iff.1 schemaOf
    obtain same | ⟨fixedType, overlay, rfl, -, same⟩ := entry.bare_toSchema handle
    · exact same
    · rw [same] at whole
      rw [toSchema_of_isWhole leads found whole]
      rfl

end Registry

namespace Slot

variable {options : Options} {registry after final : Registry} {owner : Name} {name : String}
  {declared : Schema} {slot : Slot}

/-- The type of a slot is whole if its declared type is, and the other way round. -/
theorem isWhole_declared
    (filled : registry.slot options owner name declared = .ok (slot, after)) :
    slot.declared.isWhole final = declared.isWhole final := by
  rw [Registry.slot_eq_ok] at filled
  split at filled
  · next wanted =>
    obtain ⟨base, -, rfl⟩ := filled
    rw [Bool.and_eq_true] at wanted
    cases declared with
    | union => exact (Schema.allWhole_of_callsForBase wanted.2).symm
    | _ => simp [Schema.branches, callsForBase] at wanted
  · obtain ⟨-, rfl⟩ := filled
    rfl

end Slot

/-- Every type in a document is whole. -/
structure Document.Whole (document : Document) : Prop where
  root : document.root.isWhole document.registry = true
  declared : document.registry.WholeIn document.registry

instance (document : Document) : Decidable document.Whole :=
  decidable_of_iff (document.root.isWhole document.registry = true ∧
      document.registry.WholeIn document.registry)
    ⟨fun ⟨root, declared⟩ => ⟨root, declared⟩, fun whole => ⟨whole.root, whole.declared⟩⟩

/-! ## Walks that take no logical type away -/

/-- Whether a logical type that is not known stands over a fixed type with one of its own, which
it takes away. -/
def Event.dropsOverlay : Event → Bool
  | .overlay (.logical (.named .fixed _) _) (.ok none) => true
  | _ => false

/-- A type stays whole where no logical type is taken away. -/
theorem Schema.isWhole_bare {registry : Registry} {schema : Schema}
    (kept : (Event.overlay schema (.ok none)).dropsOverlay = false)
    (whole : schema.isWhole registry = true) : schema.bare.isWhole registry = true := by
  cases schema with
  | logical underlying overlay =>
    cases underlying with
    | named kind handle =>
      cases kind with
      | fixed => cases kept
      | _ => rfl
    | _ => rfl
  | _ => exact whole

section

variable (options : Options) (final : Registry)

/-- Where no logical type is taken away, a node resolves to a type that is whole in the registry
that the walk leads to, and what it registers is whole there as well. -/
def Node.KeepsWhole (node : Node) : Prop :=
  ∀ ⦃registry after around schema⦄, (node.resolve options around).Yields registry schema after →
    after.LeadsTo registry.size final →
    (∀ event ∈ node.events options around registry, event.dropsOverlay = false) →
    registry.WholeIn final → schema.isWhole final = true ∧ after.WholeIn final

/-- Nodes in a row resolve to types that are whole, whatever is asked of each. -/
def NodesKeepWhole (nodes : List Node) : Prop :=
  ∀ ⦃registry after around vet schemas⦄,
    (resolveEach options around vet nodes).Yields registry schemas after →
    after.LeadsTo registry.size final →
    (∀ event ∈ eventsOfEach options around nodes registry, event.dropsOverlay = false) →
    registry.WholeIn final → Schema.allWhole final schemas = true ∧ after.WholeIn final

/-- The type of a field is whole. -/
def FieldNode.KeepsWhole (node : FieldNode) : Prop :=
  ∀ ⦃registry after owner field⦄, (node.resolve options owner).Yields registry field after →
    after.LeadsTo registry.size final →
    (∀ event ∈ node.events options owner registry, event.dropsOverlay = false) →
    registry.WholeIn final → field.declared.isWhole final = true ∧ after.WholeIn final

/-- The types of fields in a row are whole, if those of the fields before them are. -/
def FieldsKeepWhole (nodes : List FieldNode) : Prop :=
  ∀ ⦃registry after owner done fields⦄,
    (resolveFields options owner done nodes).Yields registry fields after →
    after.LeadsTo registry.size final →
    (∀ event ∈ eventsOfFields options owner nodes registry, event.dropsOverlay = false) →
    registry.WholeIn final → Schema.allWhole final (done.map Field.declared) = true →
    Schema.allWhole final (fields.map Field.declared) = true ∧ after.WholeIn final

/-- Every type in a message is whole. -/
def MessageNode.KeepsWhole (node : MessageNode) : Prop :=
  ∀ ⦃registry after around message⦄, (node.resolve options around).Yields registry message after →
    after.LeadsTo registry.size final →
    (∀ event ∈ node.events options around registry, event.dropsOverlay = false) →
    registry.WholeIn final → Schema.allWhole final message.schemas = true ∧ after.WholeIn final

/-- Every type in messages in a row is whole. -/
def MessagesKeepWhole (nodes : List MessageNode) : Prop :=
  ∀ ⦃registry after around messages⦄,
    (resolveMessages options around nodes).Yields registry messages after →
    after.LeadsTo registry.size final →
    (∀ event ∈ eventsOfMessages options around nodes registry, event.dropsOverlay = false) →
    registry.WholeIn final →
    Schema.allWhole final (messages.flatMap Message.schemas) = true ∧ after.WholeIn final

variable {options final}

namespace Node.KeepsWhole

variable {node : Node}

/-- What is malformed does not resolve. -/
theorem malformed (reason : Reason) (source : Json) :
    (Node.malformed reason source).KeepsWhole options final :=
  fun _ _ _ _ succeeds => absurd succeeds Node.yields_malformed

/-- What a reference is linked to brings its logical type along. -/
theorem reference (text : String) : (Node.reference text).KeepsWhole options final := by
  intro registry after around schema succeeds leads _ whole
  obtain ⟨linked, rfl⟩ := Node.yields_reference.1 succeeds
  exact ⟨Registry.isWhole_of_reference leads linked, whole⟩

/-- An object around a type resolves to the type. -/
theorem nested (source : Json) (inner : node.KeepsWhole options final) :
    (Node.nested source node).KeepsWhole options final :=
  fun _ _ _ _ succeeds => inner (Node.yields_nested.1 succeeds)

/-- A union is whole if its branches are. -/
theorem union (source : Json) {branches : List Node}
    (each : NodesKeepWhole options final branches) :
    (Node.union source branches).KeepsWhole options final := by
  intro registry after around schema succeeds leads kept whole
  obtain ⟨schemas, resolving, rfl⟩ := Node.yields_union.1 succeeds
  exact each resolving leads kept whole

/-- An array is whole if its items are. -/
theorem array (source : Json) (items : node.KeepsWhole options final) :
    (Node.array source node).KeepsWhole options final := by
  intro registry after around schema succeeds leads kept whole
  obtain ⟨inner, resolving, rfl⟩ := Node.yields_array.1 succeeds
  obtain ⟨inside, wholeAfter⟩ := items resolving leads kept whole
  exact ⟨inside, wholeAfter⟩

/-- A map is whole if its values are. -/
theorem map (source : Json) (values : node.KeepsWhole options final) :
    (Node.map source node).KeepsWhole options final := by
  intro registry after around schema succeeds leads kept whole
  obtain ⟨inner, resolving, rfl⟩ := Node.yields_map.1 succeeds
  obtain ⟨inside, wholeAfter⟩ := values resolving leads kept whole
  exact ⟨inside, wholeAfter⟩

/-- A record is given fields whose types are whole. -/
theorem record (source : Json) (isError : Bool) (heading : Heading) {fields : List FieldNode}
    (each : FieldsKeepWhole options final fields) :
    (Node.record source isError heading fields).KeepsWhole options final := by
  intro registry after around schema succeeds leads kept whole
  obtain ⟨declaration, handle, registered, done, filled, resolved, register, filling, rfl, rfl⟩ :=
    Node.yields_record.1 succeeds
  rw [Node.events, (Heading.yields_declare.2 ⟨resolved, handle, register⟩).followed] at kept
  obtain ⟨inside, wholeFilled⟩ := each filling (.of_setFields register leads) kept
    (whole.register (.record source isError fields resolved) register) rfl
  exact ⟨by cases isError <;> rfl, wholeFilled.setFields inside⟩

/-- An enum has no types in it. -/
theorem enum (source : Json) (heading : Heading) (symbols : List (Option String))
    (default : Except Reason (Option String)) :
    (Node.enum source heading symbols default).KeepsWhole options final := by
  intro registry after around schema succeeds _ _ whole
  obtain ⟨_, _, _, resolved, checked, register, rfl⟩ := Node.yields_enum.1 succeeds
  exact ⟨rfl, whole.register (.enum source resolved checked) register⟩

/-- A fixed type that is declared by itself has no logical type to lose. -/
theorem fixed (source : Json) (heading : Heading) (size : Option Nat) :
    (Node.fixed source heading size).KeepsWhole options final := by
  intro registry after around schema succeeds leads _ whole
  obtain ⟨_, fixedType, handle, resolved, sized, register, rfl⟩ := Node.yields_fixed.1 succeeds
  obtain ⟨-, -, -, plain⟩ := Declaration.fixedType_eq_ok.1 sized
  obtain ⟨last, isLast, turns, -⟩ := leads handle _ (Registry.get?_registered register)
  obtain rfl := turns.fixed fixedType rfl
  refine ⟨?_, whole.register (.fixed source resolved sized) register⟩
  simp [Schema.isWhole, Registry.fixed?, isLast, Entry.fixed?, plain]

/-- A protocol is given types and messages that are whole. -/
theorem protocol (source : Json) (heading : Heading) {types : List Node}
    {messages : List MessageNode} (ownTypes : NodesObey .ownOverlays types)
    (ownMessages : MessagesObey .ownOverlays messages)
    (eachType : NodesKeepWhole options final types)
    (eachMessage : MessagesKeepWhole options final messages) :
    (Node.protocol source heading types messages).KeepsWhole options final := by
  intro registry after around schema succeeds leads kept whole
  obtain ⟨declaration, handle, registered, schemas, typed, done, filled, resolved, register,
    typing, filling, rfl, rfl⟩ := Node.yields_protocol.1 succeeds
  rw [Node.events, (Heading.yields_declare.2 ⟨resolved, handle, register⟩).followed,
    typing.followed, List.forall_mem_append] at kept
  have leadsFilled := Registry.LeadsTo.of_setProtocol register leads
  obtain ⟨inside, wholeTyped⟩ := eachType typing
    (leadsFilled.of_grows (grows_resolveMessages ownMessages filling)) kept.1
    (whole.register (.protocol source types messages resolved) register)
  obtain ⟨insideMessages, wholeFilled⟩ := eachMessage filling
    (leadsFilled.weaken (grows_resolveEach ownTypes typing).size_le) kept.2 wholeTyped
  exact ⟨rfl, wholeFilled.setProtocol inside insideMessages⟩

/-- A logical type that is known is kept: by the fixed type that is declared, or by the type that
it stands over. One that is not known takes nothing away. -/
theorem logical (source : Json) (name : String) (overlay : Except Reason (Option LogicalType))
    (declaresFixed : Bool) (own : (Node.logical source name overlay declaresFixed node).Obeys
      .ownOverlays) (inner : node.KeepsWhole options final) :
    (Node.logical source name overlay declaresFixed node).KeepsWhole options final := by
  intro registry after around schema succeeds leads kept whole
  obtain ⟨underlying, between, resolving, annotated⟩ := Node.yields_logical.1 succeeds
  rw [Node.events, resolving.followed, List.forall_mem_append, List.forall_mem_singleton] at kept
  obtain ⟨rfl, rfl, rfl⟩ | ⟨known, rfl, accepted, rfl, rfl⟩ :=
    Registry.annotate_eq_ok.1 annotated
  · obtain ⟨inside, wholeAfter⟩ := inner resolving leads kept.1 whole
    exact ⟨Schema.isWhole_bare kept.2 inside, wholeAfter⟩
  · refine ⟨rfl, ?_⟩
    cases declaresFixed with
    | true =>
      -- What declares a fixed type has nothing inside.
      cases node with
      | fixed source _ _ =>
        obtain ⟨_, _, _, resolved, sized, register, rfl⟩ := Node.yields_fixed.1 resolving
        exact (whole.register (.fixed source resolved sized) register).setOverlay
      | malformed => exact absurd resolving Node.yields_malformed
      | _ => exact (own.1 rfl).elim
    | false =>
      rw [Registry.keepOverlay_false] at leads ⊢
      exact (inner resolving leads kept.1 whole).2

end Node.KeepsWhole

/-- No nodes, no types. -/
theorem NodesKeepWhole.nil : NodesKeepWhole options final [] := by
  intro registry after around vet schemas succeeds _ _ whole
  obtain ⟨rfl, rfl⟩ := yields_resolveEach_nil.1 succeeds
  exact ⟨rfl, whole⟩

/-- What the first node registers leads on to what the others do. -/
theorem NodesKeepWhole.cons {node : Node} {rest : List Node} (ownHead : node.Obeys .ownOverlays)
    (own : NodesObey .ownOverlays rest) (head : node.KeepsWhole options final)
    (tail : NodesKeepWhole options final rest) :
    NodesKeepWhole options final (node :: rest) := by
  intro registry after around vet schemas succeeds leads kept whole
  obtain ⟨schema, between, others, first, -, walksRest, rfl⟩ := yields_resolveEach_cons.1 succeeds
  rw [eventsOfEach, first.followed, List.forall_mem_append] at kept
  obtain ⟨inside, wholeBetween⟩ := head first
    (leads.of_grows (grows_resolveEach own walksRest)) kept.1 whole
  obtain ⟨insideRest, wholeAfter⟩ := tail walksRest
    (leads.weaken (node.grows ownHead first).size_le) kept.2 wholeBetween
  exact ⟨Bool.and_eq_true_iff.2 ⟨inside, insideRest⟩, wholeAfter⟩

/-- A field that is malformed does not resolve. -/
theorem FieldNode.KeepsWhole.malformed (reason : Reason) (source : Json) :
    (FieldNode.malformed reason source).KeepsWhole options final :=
  fun _ _ _ _ succeeds => absurd succeeds FieldNode.yields_malformed

/-- The type of a field is whole if what its node resolves to is, with a base or without. -/
theorem FieldNode.KeepsWhole.field (source : Json) (name : String) {node : Node}
    (typeSource : Json) (default : Option Json) (details : Except Reason FieldDetails)
    (type : node.KeepsWhole options final) :
    (FieldNode.field source name node typeSource default details).KeepsWhole options final := by
  intro registry after owner field succeeds leads kept whole
  obtain ⟨declared, typed, slot, _, _, -, typing, filled, -, -, rfl⟩ :=
    FieldNode.yields_field.1 succeeds
  rw [FieldNode.events, typing.followed, List.forall_mem_append] at kept
  obtain ⟨inside, wholeTyped⟩ := type typing (leads.of_grows (Registry.grows_slot filled)) kept.1
    whole
  exact ⟨(Slot.isWhole_declared filled).trans inside, wholeTyped.slot filled⟩

/-- No fields besides those before them. -/
theorem FieldsKeepWhole.nil : FieldsKeepWhole options final [] := by
  intro registry after owner done fields succeeds _ _ whole before
  obtain ⟨rfl, rfl⟩ := yields_resolveFields_nil.1 succeeds
  exact ⟨before, whole⟩

/-- The first field stands before the others. -/
theorem FieldsKeepWhole.cons {node : FieldNode} {rest : List FieldNode}
    (ownHead : node.Obeys .ownOverlays) (own : FieldsObey .ownOverlays rest)
    (head : node.KeepsWhole options final) (tail : FieldsKeepWhole options final rest) :
    FieldsKeepWhole options final (node :: rest) := by
  intro registry after owner done fields succeeds leads kept whole before
  obtain ⟨field, between, first, -, walksRest⟩ := yields_resolveFields_cons.1 succeeds
  rw [eventsOfFields, first.followed, List.forall_mem_append] at kept
  obtain ⟨inside, wholeBetween⟩ := head first
    (leads.of_grows (grows_resolveFields own walksRest)) kept.1 whole
  refine tail walksRest (leads.weaken (node.grows ownHead first).size_le) kept.2 wholeBetween ?_
  rw [List.map_append]
  exact Schema.allWhole_append.2 ⟨before, Bool.and_eq_true_iff.2 ⟨inside, rfl⟩⟩

/-- A message that is malformed does not resolve. -/
theorem MessageNode.KeepsWhole.malformed (reason : Reason) (source : Json) :
    (MessageNode.malformed reason source).KeepsWhole options final :=
  fun _ _ _ _ succeeds => absurd succeeds MessageNode.yields_malformed

/-- A message is whole if its parameters, its response and its errors are. -/
theorem MessageNode.KeepsWhole.message {source responseSource : Json} {name : String}
    {request : List FieldNode} {response : Node} {errors : List Node}
    {oneWay : Except Reason Bool} {details : Except Reason Details}
    (ownRequest : FieldsObey .ownOverlays request) (ownResponse : response.Obeys .ownOverlays)
    (ownErrors : NodesObey .ownOverlays errors) (parameters : FieldsKeepWhole options final request)
    (answer : response.KeepsWhole options final)
    (failures : NodesKeepWhole options final errors) :
    (MessageNode.message source name request response responseSource errors oneWay
      details).KeepsWhole options final := by
  intro registry after around message succeeds leads kept whole
  obtain ⟨fields, asked, declared, typed, slot, answered, schemas, _, _, -, asking, answering,
    filled, failing, -, -, -, rfl⟩ := MessageNode.yields_message.1 succeeds
  rw [MessageNode.events, asking.followed, answering.followed, (yields_change.2 filled).followed,
    List.forall_mem_append, List.forall_mem_append, List.forall_mem_cons] at kept
  obtain ⟨keptAsked, keptAnswered, -, keptFailed⟩ := kept
  obtain ⟨leadsAsked, leadsTyped, -, leadsFailed⟩ := leads.message
    (grows_resolveFields ownRequest asking) (response.grows ownResponse answering)
    (Registry.grows_slot filled) (grows_resolveEach ownErrors failing)
  obtain ⟨insideAsked, wholeAsked⟩ := parameters asking leadsAsked keptAsked whole rfl
  obtain ⟨insideAnswer, wholeTyped⟩ := answer answering leadsTyped keptAnswered wholeAsked
  obtain ⟨insideFailed, wholeAfter⟩ := failures failing leadsFailed keptFailed
    (wholeTyped.slot filled)
  exact ⟨Message.allWhole_schemas.2
    ⟨insideAsked, (Slot.isWhole_declared filled).trans insideAnswer, insideFailed⟩, wholeAfter⟩

/-- No messages, no types. -/
theorem MessagesKeepWhole.nil : MessagesKeepWhole options final [] := by
  intro registry after around messages succeeds _ _ whole
  obtain ⟨rfl, rfl⟩ := yields_resolveMessages_nil.1 succeeds
  exact ⟨rfl, whole⟩

/-- What the first message registers leads on to what the others do. -/
theorem MessagesKeepWhole.cons {node : MessageNode} {rest : List MessageNode}
    (ownHead : node.Obeys .ownOverlays) (own : MessagesObey .ownOverlays rest)
    (head : node.KeepsWhole options final) (tail : MessagesKeepWhole options final rest) :
    MessagesKeepWhole options final (node :: rest) := by
  intro registry after around messages succeeds leads kept whole
  obtain ⟨message, between, others, first, walksRest, rfl⟩ :=
    yields_resolveMessages_cons.1 succeeds
  rw [eventsOfMessages, first.followed, List.forall_mem_append] at kept
  obtain ⟨inside, wholeBetween⟩ := head first
    (leads.of_grows (grows_resolveMessages own walksRest)) kept.1 whole
  obtain ⟨insideRest, wholeAfter⟩ := tail walksRest
    (leads.weaken (node.grows ownHead first).size_le) kept.2 wholeBetween
  rw [List.flatMap_cons]
  exact ⟨Schema.allWhole_append.2 ⟨inside, insideRest⟩, wholeAfter⟩

mutual

/-- Where no logical type is taken away, a walk resolves to a type that is whole, and what it
registers is whole as well. -/
theorem Node.whole : (node : Node) → node.Obeys .ownOverlays → node.KeepsWhole options final
  | .malformed reason source, _ => .malformed reason source
  | .reference text, _ => .reference text
  | .nested source inner, own => .nested source (inner.whole own.2)
  | .union source branches, own => .union source (nodes_whole branches own.2)
  | .array source items, own => .array source (items.whole own.2)
  | .map source values, own => .map source (values.whole own.2)
  | .record source isError heading fields, own =>
    .record source isError heading (fields_whole fields own.2)
  | .enum source heading symbols default, _ => .enum source heading symbols default
  | .fixed source heading size, _ => .fixed source heading size
  | .protocol source heading types messages, own =>
    .protocol source heading own.2.1 own.2.2 (nodes_whole types own.2.1)
      (messages_whole messages own.2.2)
  | .logical source name overlay declaresFixed inner, own =>
    .logical source name overlay declaresFixed own (inner.whole own.2)

/-- Where no logical type is taken away, nodes in a row resolve to types that are whole. -/
theorem nodes_whole : (nodes : List Node) → NodesObey .ownOverlays nodes →
    NodesKeepWhole options final nodes
  | [], _ => .nil
  | node :: rest, own => .cons own.1 own.2 (node.whole own.1) (nodes_whole rest own.2)

/-- Where no logical type is taken away, a field is given a type that is whole. -/
theorem FieldNode.whole : (node : FieldNode) → node.Obeys .ownOverlays →
    node.KeepsWhole options final
  | .malformed reason source, _ => .malformed reason source
  | .field source name type typeSource default details, own =>
    .field source name typeSource default details (type.whole own.2)

/-- Where no logical type is taken away, fields in a row are given types that are whole. -/
theorem fields_whole : (nodes : List FieldNode) → FieldsObey .ownOverlays nodes →
    FieldsKeepWhole options final nodes
  | [], _ => .nil
  | node :: rest, own => .cons own.1 own.2 (node.whole own.1) (fields_whole rest own.2)

/-- Where no logical type is taken away, every type in a message is whole. -/
theorem MessageNode.whole : (node : MessageNode) → node.Obeys .ownOverlays →
    node.KeepsWhole options final
  | .malformed reason source, _ => .malformed reason source
  | .message _ _ request response _ errors _ _, own =>
    .message own.2.1 own.2.2.1 own.2.2.2 (fields_whole request own.2.1)
      (response.whole own.2.2.1) (nodes_whole errors own.2.2.2)

/-- Where no logical type is taken away, every type in messages in a row is whole. -/
theorem messages_whole : (nodes : List MessageNode) → MessagesObey .ownOverlays nodes →
    MessagesKeepWhole options final nodes
  | [], _ => .nil
  | node :: rest, own => .cons own.1 own.2 (node.whole own.1) (messages_whole rest own.2)

end

end

/-- Where no logical type is taken away, every type in a document is whole. -/
theorem Document.whole_of_kept {options : Options} {root : Json} {document : Document}
    (accepted : Document.resolve options root = .ok document)
    (kept : ∀ event ∈ Document.events options root, event.dropsOverlay = false) :
    document.Whole := by
  obtain ⟨root, declared⟩ := (Node.ofJson root).whole (Node.obeys_ownOverlays root)
    (resolve_eq_ok.1 accepted) (.refl _ _) kept Registry.every_empty
  exact ⟨root, declared⟩

end AvroGraph
