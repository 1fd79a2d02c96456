import AvroGraph.Document
import AvroGraph.Proofs.Grounded

/-!
# Events of a resolution

What a walk meets on its way: the references it links, the logical types it lays over schemas
and the slots it fills. `Document.events` collects them for a document. A walk that succeeds is
a series of single steps with these events (`Node.steps`), so a fact about whole walks is an
induction over steps.
-/

namespace AvroGraph

open Resolving

/-- What a walk meets. -/
inductive Event where
  /-- A reference and the schema that it is linked to. -/
  | reference (text : String) (schema : Schema)
  /-- A logical type over a schema. -/
  | overlay (inner : Schema) (overlay : Except Reason (Option LogicalType))
  /-- A slot of an owner, the type its node resolves to, and the slot that comes of it. -/
  | slot (owner : Name) (name : String) (declared : Schema) (slot : Slot)

/-- The events after a walk, if it succeeds. -/
def Resolving.followed {α : Type} (walk : Resolving α) (registry : Registry)
    (next : α → Registry → List Event) : List Event :=
  match walk.outcome registry with
  | (.ok value, after) => next value after
  | (.error _, _) => []

/-- What follows a walk that succeeds goes on from what it yields. -/
theorem Resolving.Yields.followed {α : Type} {walk : Resolving α} {registry after : Registry}
    {value : α} (succeeds : walk.Yields registry value after)
    (next : α → Registry → List Event) : walk.followed registry next = next value after := by
  rw [Resolving.followed, succeeds.outcome]

/-- Resolve a heading and register its declaration. -/
def Heading.declare (heading : Heading) (options : Options) (around : Option String)
    (source : Json) (entry : Declaration → Entry) : Resolving Declaration := do
  let declaration ← check source (heading.resolve options around)
  let _ ← change source (·.register (entry declaration))
  return declaration

mutual

/-- The events of a node within a namespace, from a registry on. -/
def Node.events (options : Options) (around : Option String) : Node → Registry → List Event
  | .malformed _ _, _ | .enum _ _ _ _, _ | .fixed _ _ _, _ => []
  | .reference text, registry =>
    ((Node.reference text).resolve options around).followed registry fun schema _ =>
      [.reference text schema]
  | .nested _ inner, registry => inner.events options around registry
  | .union _ branches, registry => eventsOfEach options around branches registry
  | .array _ items, registry => items.events options around registry
  | .map _ values, registry => values.events options around registry
  | .record source isError heading fields, registry =>
    (heading.declare options around source (·.recordEntry isError)).followed registry
      fun declaration registered => eventsOfFields options declaration.name fields registered
  | .protocol source heading types messages, registry =>
    (heading.declare options around source (.protocol ·.protocol)).followed registry
      fun declaration registered =>
        eventsOfEach options declaration.name.space types registered ++
          (resolveEach options declaration.name.space .protocolType types).followed registered
            fun _ typed => eventsOfMessages options declaration.name.space messages typed
  | .logical _ _ overlay _ inner, registry =>
    inner.events options around registry ++
      (inner.resolve options around).followed registry fun schema _ => [.overlay schema overlay]

/-- The events of nodes in order. -/
def eventsOfEach (options : Options) (around : Option String) :
    List Node → Registry → List Event
  | [], _ => []
  | node :: rest, registry =>
    node.events options around registry ++
      (node.resolve options around).followed registry fun _ between =>
        eventsOfEach options around rest between

/-- The events of a field: those of its type, then its slot. -/
def FieldNode.events (options : Options) (owner : Name) : FieldNode → Registry → List Event
  | .malformed _ _, _ => []
  | .field _ name type typeSource _ _, registry =>
    type.events options owner.space registry ++
      (type.resolve options owner.space).followed registry fun declared typed =>
        (change typeSource (·.slot options owner name declared)).followed typed fun slot _ =>
          [.slot owner name declared slot]

/-- The events of fields in order. -/
def eventsOfFields (options : Options) (owner : Name) : List FieldNode → Registry → List Event
  | [], _ => []
  | node :: rest, registry =>
    node.events options owner registry ++
      (node.resolve options owner).followed registry fun _ between =>
        eventsOfFields options owner rest between

/-- The events of a message: its parameters, its response with the slot of it, its errors. -/
def MessageNode.events (options : Options) (around : Option String) :
    MessageNode → Registry → List Event
  | .malformed _ _, _ => []
  | .message _ name request response responseSource errors _ _, registry =>
    eventsOfFields options ⟨name, around⟩ request registry ++
      (resolveFields options ⟨name, around⟩ [] request).followed registry fun _ asked =>
        response.events options around asked ++
          (response.resolve options around).followed asked fun declared typed =>
            (change responseSource (·.slot options ⟨name, around⟩ "response" declared)).followed
              typed fun slot answered =>
                .slot ⟨name, around⟩ "response" declared slot ::
                  eventsOfEach options around errors answered

/-- The events of messages in order. -/
def eventsOfMessages (options : Options) (around : Option String) :
    List MessageNode → Registry → List Event
  | [], _ => []
  | node :: rest, registry =>
    node.events options around registry ++
      (node.resolve options around).followed registry fun _ between =>
        eventsOfMessages options around rest between

end

/-- The events of a document. -/
def Document.events (options : Options) (root : Json) : List Event :=
  (Node.ofJson root).events options none .empty

/-- A single step of a walk that succeeds, with the event it makes if it makes one. -/
inductive Registry.Step (options : Options) : Registry → List Event → Registry → Prop where
  | register {registry after : Registry} {node : Node} {entry : Entry} {handle : Handle}
      (declares : node.Declares options entry)
      (registered : registry.register entry = .ok (handle, after)) :
      Step options registry [] after
  | setFields (registry : Registry) (handle : Handle) (fields : List Field) :
      Step options registry [] (registry.setFields handle fields)
  | setProtocol (registry : Registry) (handle : Handle) (types : List Schema)
      (messages : List Message) :
      Step options registry [] (registry.setProtocol handle types messages)
  | reference {registry : Registry} {around : Option String} {text : String} {schema : Schema}
      (linked : registry.reference around text = .ok schema) :
      Step options registry [.reference text schema] registry
  | overlay {registry after : Registry} {declaresFixed : Bool} {inner schema : Schema}
      {name : String} {overlay : Except Reason (Option LogicalType)}
      (annotated : registry.annotate declaresFixed inner name overlay = .ok (schema, after)) :
      Step options registry [.overlay inner overlay] after
  | slot {registry after : Registry} {owner : Name} {name : String} {declared : Schema}
      {slot : Slot} (filled : registry.slot options owner name declared = .ok (slot, after)) :
      Step options registry [.slot owner name declared slot] after

/-- A series of steps with the events they make. -/
inductive Registry.Steps (options : Options) : Registry → List Event → Registry → Prop where
  | refl (registry : Registry) : Steps options registry [] registry
  | step {registry middle after : Registry} {events more : List Event}
      (first : Step options registry events middle) (rest : Steps options middle more after) :
      Steps options registry (events ++ more) after

namespace Registry

variable {options : Options} {registry middle after : Registry} {events more : List Event}

/-- A step is a run of one step. -/
theorem Step.steps (step : Step options registry events after) :
    Steps options registry events after := by
  simpa using Steps.step step (.refl after)

/-- Runs can be put one after the other. -/
theorem Steps.append (first : Steps options registry events middle)
    (second : Steps options middle more after) :
    Steps options registry (events ++ more) after := by
  induction first with
  | refl => exact second
  | step head _ ih =>
    rw [List.append_assoc]
    exact .step head (ih second)

end Registry

variable {options : Options} {registry after : Registry} {around : Option String}

/-- A heading declares an entry by being resolved and registering it. -/
theorem Heading.yields_declare {heading : Heading} {source : Json} {entry : Declaration → Entry}
    {declaration : Declaration} :
    (heading.declare options around source entry).Yields registry declaration after ↔
      heading.resolve options around = .ok declaration ∧
        ∃ handle, registry.register (entry declaration) = .ok (handle, after) := by
  simp [Heading.declare, yields_bind, yields_fmap]

mutual

/-- A walk that succeeds is a series of steps that make its events. -/
theorem Node.steps {registry after : Registry} {around : Option String} {schema : Schema} :
    (node : Node) → (node.resolve options around).Yields registry schema after →
      Registry.Steps options registry (node.events options around registry) after
  | .malformed _ _, succeeds => absurd succeeds Node.yields_malformed
  | .reference text, succeeds => by
    rw [Node.events, succeeds.followed]
    obtain ⟨linked, rfl⟩ := Node.yields_reference.1 succeeds
    exact (Registry.Step.reference linked).steps
  | .nested _ inner, succeeds => inner.steps (Node.yields_nested.1 succeeds)
  | .union _ branches, succeeds => by
    obtain ⟨_, each, -⟩ := Node.yields_union.1 succeeds
    exact steps_resolveEach branches each
  | .array _ items, succeeds => by
    obtain ⟨_, inner, -⟩ := Node.yields_array.1 succeeds
    exact items.steps inner
  | .map _ values, succeeds => by
    obtain ⟨_, inner, -⟩ := Node.yields_map.1 succeeds
    exact values.steps inner
  | .record source isError heading fields, succeeds => by
    obtain ⟨declaration, handle, registered, done, filled, resolved, register, filling, rfl, -⟩ :=
      Node.yields_record.1 succeeds
    rw [Node.events, (Heading.yields_declare.2 ⟨resolved, handle, register⟩).followed]
    have registering :=
      (Registry.Step.register (.record source isError fields resolved) register).steps
    have setting : Registry.Steps options filled [] (filled.setFields handle done) :=
      (Registry.Step.setFields filled handle done).steps
    simpa using (registering.append (steps_resolveFields fields filling)).append setting
  | .enum source _ _ _, succeeds => by
    obtain ⟨_, _, _, resolved, checked, register, -⟩ := Node.yields_enum.1 succeeds
    exact (Registry.Step.register (.enum source resolved checked) register).steps
  | .fixed source _ _, succeeds => by
    obtain ⟨_, _, _, resolved, sized, register, -⟩ := Node.yields_fixed.1 succeeds
    exact (Registry.Step.register (.fixed source resolved sized) register).steps
  | .protocol source heading types messages, succeeds => by
    obtain ⟨declaration, handle, registered, schemas, typed, done, filled, resolved, register,
      typing, filling, rfl, -⟩ := Node.yields_protocol.1 succeeds
    rw [Node.events, (Heading.yields_declare.2 ⟨resolved, handle, register⟩).followed, typing.followed]
    have registering :=
      (Registry.Step.register (.protocol source types messages resolved) register).steps
    have setting : Registry.Steps options filled [] (filled.setProtocol handle schemas done) :=
      (Registry.Step.setProtocol filled handle schemas done).steps
    have parts := (steps_resolveEach types typing).append (steps_resolveMessages messages filling)
    simpa using (registering.append parts).append setting
  | .logical _ _ _ _ inner, succeeds => by
    obtain ⟨underlying, between, resolving, annotated⟩ := Node.yields_logical.1 succeeds
    rw [Node.events, resolving.followed]
    exact (inner.steps resolving).append (Registry.Step.overlay annotated).steps

/-- The events of nodes in a row lead from one registry to the next. -/
theorem steps_resolveEach {registry after : Registry} {around : Option String} {vet : Vet}
    {schemas : List Schema} : (nodes : List Node) →
      (resolveEach options around vet nodes).Yields registry schemas after →
      Registry.Steps options registry (eventsOfEach options around nodes registry) after
  | [], succeeds => by
    obtain ⟨-, rfl⟩ := yields_resolveEach_nil.1 succeeds
    exact .refl _
  | node :: rest, succeeds => by
    obtain ⟨_, _, _, first, -, others, -⟩ := yields_resolveEach_cons.1 succeeds
    rw [eventsOfEach, first.followed]
    exact (node.steps first).append (steps_resolveEach rest others)

/-- The events of a field lead from the registry before it to the one after it. -/
theorem FieldNode.steps {registry after : Registry} {owner : Name} {field : Field} :
    (node : FieldNode) → (node.resolve options owner).Yields registry field after →
      Registry.Steps options registry (node.events options owner registry) after
  | .malformed _ _, succeeds => absurd succeeds FieldNode.yields_malformed
  | .field _ _ type _ _ _, succeeds => by
    obtain ⟨declared, typed, slot, _, _, -, typing, filled, -⟩ := FieldNode.yields_field.1 succeeds
    rw [FieldNode.events, typing.followed, (yields_change.2 filled).followed]
    exact (type.steps typing).append (Registry.Step.slot filled).steps

/-- The events of fields in a row lead from one registry to the next. -/
theorem steps_resolveFields {registry after : Registry} {owner : Name} {done fields : List Field} :
    (nodes : List FieldNode) →
      (resolveFields options owner done nodes).Yields registry fields after →
      Registry.Steps options registry (eventsOfFields options owner nodes registry) after
  | [], succeeds => by
    obtain ⟨-, rfl⟩ := yields_resolveFields_nil.1 succeeds
    exact .refl _
  | node :: rest, succeeds => by
    obtain ⟨_, _, first, -, others⟩ := yields_resolveFields_cons.1 succeeds
    rw [eventsOfFields, first.followed]
    exact (node.steps first).append (steps_resolveFields rest others)

/-- The events of a message lead from the registry before it to the one after it. -/
theorem MessageNode.steps {registry after : Registry} {around : Option String}
    {message : Message} : (node : MessageNode) →
      (node.resolve options around).Yields registry message after →
      Registry.Steps options registry (node.events options around registry) after
  | .malformed _ _, succeeds => absurd succeeds MessageNode.yields_malformed
  | .message _ _ request response _ errors _ _, succeeds => by
    obtain ⟨_, _, _, _, _, _, _, _, _, -, asking, answering, filled, failing, -⟩ :=
      MessageNode.yields_message.1 succeeds
    rw [MessageNode.events, asking.followed, answering.followed, (yields_change.2 filled).followed]
    have slotting := (Registry.Step.slot filled).steps.append (steps_resolveEach errors failing)
    exact (steps_resolveFields request asking).append ((response.steps answering).append slotting)

/-- The events of messages in a row lead from one registry to the next. -/
theorem steps_resolveMessages {registry after : Registry} {around : Option String}
    {messages : List Message} : (nodes : List MessageNode) →
      (resolveMessages options around nodes).Yields registry messages after →
      Registry.Steps options registry (eventsOfMessages options around nodes registry) after
  | [], succeeds => by
    obtain ⟨-, rfl⟩ := yields_resolveMessages_nil.1 succeeds
    exact .refl _
  | node :: rest, succeeds => by
    obtain ⟨_, _, _, first, others, -⟩ := yields_resolveMessages_cons.1 succeeds
    rw [eventsOfMessages, first.followed]
    exact (node.steps first).append (steps_resolveMessages rest others)

end

end AvroGraph
