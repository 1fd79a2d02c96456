import AvroGraph.Node.Resolve
import AvroGraph.Proofs.Registry
import Mathlib.Tactic.Simproc.ExistsAndEq

/-!
# Walks that succeed

`Resolving.Yields` names the outcome of a walk that succeeds. A walk is taken apart at its binds
by the rules below, and for each kind of node one lemma says what its success consists of, so
that no later proof opens the monad.
-/

namespace AvroGraph

namespace Resolving

variable {α β : Type} {registry after : Registry}

/-- A walk from a registry succeeds with a value and leaves a registry. -/
def Yields (walk : Resolving α) (registry : Registry) (value : α) (after : Registry) : Prop :=
  walk.outcome registry = (.ok value, after)

/-- What a walk yields is its outcome. -/
theorem Yields.outcome {walk : Resolving α} {value : α}
    (succeeds : walk.Yields registry value after) :
    walk.outcome registry = (.ok value, after) :=
  succeeds

/-- A result by itself yields that, and the registry stays as it is. -/
@[simp]
theorem yields_pure {value result : α} :
    (pure value : Resolving α).Yields registry result after ↔
      result = value ∧ registry = after := by
  simp [Yields, eq_comm]

/-- A violation yields nothing. -/
@[simp]
theorem yields_throw {violation : Violation} {result : α} :
    (throw violation : Resolving α).Yields registry result after ↔ False := by
  simp [Yields]

/-- A check without a value succeeds in one way only. -/
@[simp]
theorem exists_eq_ok_unit {checked : Except Reason Unit} :
    (∃ value, checked = .ok value) ↔ checked = .ok () :=
  ⟨fun ⟨_, succeeds⟩ => succeeds, fun succeeds => ⟨(), succeeds⟩⟩

/-- A sequence succeeds exactly when its parts do, the second where the first one ends. -/
theorem yields_bind {first : Resolving α} {next : α → Resolving β} {result : β} :
    (first >>= next).Yields registry result after ↔
      ∃ value between, first.Yields registry value between ∧
        (next value).Yields between result after := by
  rw [Yields, outcome_bind]
  constructor
  · intro succeeds
    split at succeeds
    · next value between first => exact ⟨value, between, first, succeeds⟩
    · cases succeeds
  · rintro ⟨value, between, firstSucceeds, nextSucceeds⟩
    rw [Yields] at firstSucceeds
    rw [firstSucceeds]
    exact nextSucceeds

/-- A walk that is mapped yields what it is mapped to. -/
theorem yields_fmap {walk : Resolving α} {f : α → β} {result : β} :
    (f <$> walk).Yields registry result after ↔
      ∃ value, walk.Yields registry value after ∧ result = f value := by
  rw [map_eq_pure_bind, yields_bind]
  simp

/-- A change yields the registry that it makes. -/
@[simp]
theorem yields_modify {change : Registry → Registry} {result : PUnit} :
    (modify change : Resolving PUnit).Yields registry result after ↔
      after = change registry := by
  simp [Yields, eq_comm]

/-- A check yields what was checked. -/
@[simp]
theorem yields_check {node : Json} {checked : Except Reason α} {value : α} :
    (check node checked).Yields registry value after ↔
      checked = .ok value ∧ registry = after := by
  rw [Yields, outcome_check, Prod.mk.injEq, mapError_eq_ok]

/-- A question yields its answer. -/
@[simp]
theorem yields_ask {node : Json} {question : Registry → Except Reason α} {value : α} :
    (ask node question).Yields registry value after ↔
      question registry = .ok value ∧ registry = after := by
  rw [Yields, outcome_ask, Prod.mk.injEq, mapError_eq_ok]

/-- A change that may fail yields its result where it succeeds. -/
@[simp]
theorem yields_change {node : Json} {step : Registry → Except Reason (α × Registry)} {value : α} :
    (change node step).Yields registry value after ↔ step registry = .ok (value, after) := by
  rw [Yields, outcome_change]
  cases result : step registry <;> simp [Prod.ext_iff]

end Resolving

open Resolving

attribute [local simp] Node.resolve resolveEach FieldNode.resolve resolveFields
  MessageNode.resolve resolveMessages

variable {options : Options} {around : Option String} {registry after : Registry}

/-- The entry of a record or an error. -/
abbrev Declaration.recordEntry (declaration : Declaration) (isError : Bool) : Entry :=
  if isError then .error declaration.record else .record declaration.record

/-- The kind of a record or an error. -/
abbrev NamedKind.ofRecord (isError : Bool) : NamedKind :=
  if isError then .error else .record

namespace Node

/-- What is malformed yields nothing. -/
@[simp]
theorem yields_malformed {reason : Reason} {source : Json} {schema : Schema} :
    ¬ ((malformed reason source).resolve options around).Yields registry schema after := by
  simp

/-- A reference yields the schema that it is linked to. -/
theorem yields_reference {text : String} {schema : Schema} :
    ((reference text).resolve options around).Yields registry schema after ↔
      registry.reference around text = .ok schema ∧ registry = after := by
  simp

/-- An object around a type yields what the type does. -/
theorem yields_nested {source : Json} {inner : Node} {schema : Schema} :
    ((nested source inner).resolve options around).Yields registry schema after ↔
      (inner.resolve options around).Yields registry schema after := by
  simp

/-- A union yields the union of what its branches do. -/
theorem yields_union {source : Json} {branches : List Node} {schema : Schema} :
    ((union source branches).resolve options around).Yields registry schema after ↔
      ∃ schemas, (resolveEach options around .branch branches).Yields registry schemas after ∧
        schema = .ofBranches options schemas := by
  simp [yields_fmap]

/-- An array yields that of its items. -/
theorem yields_array {source : Json} {items : Node} {schema : Schema} :
    ((array source items).resolve options around).Yields registry schema after ↔
      ∃ inner, (items.resolve options around).Yields registry inner after ∧
        schema = .array inner := by
  simp [yields_fmap]

/-- A map yields that of its values. -/
theorem yields_map {source : Json} {values : Node} {schema : Schema} :
    ((map source values).resolve options around).Yields registry schema after ↔
      ∃ inner, (values.resolve options around).Yields registry inner after ∧
        schema = .map inner := by
  simp [yields_fmap]

/-- A record is registered without its fields and given them once they are resolved. -/
theorem yields_record {source : Json} {isError : Bool} {heading : Heading}
    {fields : List FieldNode} {schema : Schema} :
    ((record source isError heading fields).resolve options around).Yields registry schema after ↔
      ∃ declaration handle registered done filled,
        heading.resolve options around = .ok declaration ∧
        registry.register (declaration.recordEntry isError) = .ok (handle, registered) ∧
        (resolveFields options declaration.name [] fields).Yields registered done filled ∧
        after = filled.setFields handle done ∧
        schema = .named (.ofRecord isError) handle := by
  simp [yields_bind, yields_fmap, and_assoc]

/-- An enum yields a handle once its heading is resolved, its symbols are checked and it is
registered. -/
theorem yields_enum {source : Json} {heading : Heading} {symbols : List (Option String)}
    {default : Except Reason (Option String)} {schema : Schema} :
    ((enum source heading symbols default).resolve options around).Yields registry schema after ↔
      ∃ declaration enumeration handle,
        heading.resolve options around = .ok declaration ∧
        declaration.enumeration options symbols default = .ok enumeration ∧
        registry.register (.enum enumeration) = .ok (handle, after) ∧
        schema = .named .enum handle := by
  simp [yields_bind, yields_fmap, and_assoc]

/-- A fixed type yields a handle once its heading is resolved, its size is there and it is
registered. -/
theorem yields_fixed {source : Json} {heading : Heading} {size : Option Nat} {schema : Schema} :
    ((fixed source heading size).resolve options around).Yields registry schema after ↔
      ∃ declaration fixedType handle,
        heading.resolve options around = .ok declaration ∧
        declaration.fixedType size = .ok fixedType ∧
        registry.register (.fixed fixedType) = .ok (handle, after) ∧
        schema = .named .fixed handle := by
  simp [yields_bind, yields_fmap, and_assoc]

/-- A protocol is registered without its parts and given them once they are resolved. -/
theorem yields_protocol {source : Json} {heading : Heading} {types : List Node}
    {messages : List MessageNode} {schema : Schema} :
    ((protocol source heading types messages).resolve options around).Yields registry schema
        after ↔
      ∃ declaration handle registered schemas typed done filled,
        heading.resolve options around = .ok declaration ∧
        registry.register (.protocol declaration.protocol) = .ok (handle, registered) ∧
        (resolveEach options declaration.name.space .protocolType types).Yields registered schemas
          typed ∧
        (resolveMessages options declaration.name.space messages).Yields typed done filled ∧
        after = filled.setProtocol handle schemas done ∧
        schema = .named .protocol handle := by
  simp [yields_bind, yields_fmap, and_assoc]

/-- A logical type yields what it makes of the type beneath it. -/
theorem yields_logical {source : Json} {name : String}
    {overlay : Except Reason (Option LogicalType)} {declaresFixed : Bool} {inner : Node}
    {schema : Schema} :
    ((logical source name overlay declaresFixed inner).resolve options around).Yields registry
        schema after ↔
      ∃ underlying between,
        (inner.resolve options around).Yields registry underlying between ∧
        between.annotate declaresFixed underlying name overlay = .ok (schema, after) := by
  simp [yields_bind]

end Node

section

variable {vet : Vet}

/-- No nodes yield no schemas. -/
@[simp]
theorem yields_resolveEach_nil {schemas : List Schema} :
    (resolveEach options around vet []).Yields registry schemas after ↔
      schemas = [] ∧ registry = after := by
  simp

/-- Each schema is held against the rule in the registry that its node leaves. -/
theorem yields_resolveEach_cons {node : Node} {rest : List Node} {schemas : List Schema} :
    (resolveEach options around vet (node :: rest)).Yields registry schemas after ↔
      ∃ schema between others,
        (node.resolve options around).Yields registry schema between ∧
        vet between schema = .ok () ∧
        (resolveEach options around vet rest).Yields between others after ∧
        schemas = schema :: others := by
  simp [yields_bind, yields_fmap, and_assoc]

end

/-- The field that comes of a slot, a default and the details beside them. -/
def Field.ofSlot (name : String) (slot : Slot) (default : Option Json)
    (literal : Option DefaultLiteral) (details : FieldDetails) : Field where
  name := name
  declared := slot.declared
  underlying := slot.underlying
  nullable := slot.nullable
  default := default
  doc := details.doc
  aliases := details.aliases
  literal := literal.bind DefaultLiteral.literal?
  order := details.order
  properties := details.properties
  remarks := literal.bind DefaultLiteral.remark?

/-- A field that is malformed yields nothing. -/
@[simp]
theorem FieldNode.yields_malformed {reason : Reason} {source : Json} {owner : Name}
    {field : Field} :
    ¬ ((malformed reason source).resolve options owner).Yields registry field after := by
  simp

/-- A field has a simple name, a type, a slot for that type, and a default that fits. -/
theorem FieldNode.yields_field {source : Json} {name : String} {type : Node} {typeSource : Json}
    {default : Option Json} {details : Except Reason FieldDetails} {owner : Name} {field : Field} :
    ((FieldNode.field source name type typeSource default details).resolve options owner).Yields
        registry field after ↔
      ∃ declared typed slot literal said,
        options.checkSimpleName name = .ok () ∧
        (type.resolve options owner.space).Yields registry declared typed ∧
        typed.slot options owner name declared = .ok (slot, after) ∧
        DefaultLiteral.synthesizeOption after slot.declared default = .ok literal ∧
        details = .ok said ∧
        field = Field.ofSlot name slot default literal said := by
  simp [yields_bind, yields_fmap, and_assoc, Field.ofSlot]

/-- No nodes yield no fields besides those that are there. -/
@[simp]
theorem yields_resolveFields_nil {owner : Name} {done fields : List Field} :
    (resolveFields options owner done []).Yields registry fields after ↔
      fields = done ∧ registry = after := by
  simp

/-- The first field is added to those that are there, under a new name, before the others follow. -/
theorem yields_resolveFields_cons {owner : Name} {done fields : List Field} {node : FieldNode}
    {rest : List FieldNode} :
    (resolveFields options owner done (node :: rest)).Yields registry fields after ↔
      ∃ field between,
        (node.resolve options owner).Yields registry field between ∧
        checkNewField owner done field = .ok () ∧
        (resolveFields options owner (done ++ [field]) rest).Yields between fields after := by
  simp [yields_bind, and_assoc]

/-- The fields of an owner stand behind those before them. -/
theorem exists_of_resolveFields {owner : Name} {nodes : List FieldNode} {done fields : List Field}
    (succeeds : (resolveFields options owner done nodes).Yields registry fields after) :
    ∃ new, fields = done ++ new := by
  induction nodes generalizing registry done with
  | nil =>
    obtain ⟨rfl, rfl⟩ := yields_resolveFields_nil.1 succeeds
    exact ⟨[], (List.append_nil _).symm⟩
  | cons node rest ih =>
    obtain ⟨field, between, -, -, walksRest⟩ := yields_resolveFields_cons.1 succeeds
    obtain ⟨new, rfl⟩ := ih walksRest
    exact ⟨field :: new, by simp⟩

/-- The message that comes of its resolved parts. -/
def Message.ofParts (name : String) (request : List Field) (response : Slot)
    (errors : List Schema) (oneWay : Bool) (details : Details) : Message where
  name := name
  doc := details.doc
  request := request
  response := response.declared
  responseUnderlying := response.underlying
  responseNullable := response.nullable
  errors := .string :: errors
  oneWay := oneWay
  properties := details.properties

/-- A message that is malformed yields nothing. -/
@[simp]
theorem MessageNode.yields_malformed {reason : Reason} {source : Json} {message : Message} :
    ¬ ((malformed reason source).resolve options around).Yields registry message after := by
  simp

/-- A message resolves its parameters, its response and its errors, in this order. -/
theorem MessageNode.yields_message {source : Json} {name : String} {request : List FieldNode}
    {response : Node} {responseSource : Json} {errors : List Node} {oneWay : Except Reason Bool}
    {details : Except Reason Details} {message : Message} :
    ((MessageNode.message source name request response responseSource errors oneWay
        details).resolve options around).Yields registry message after ↔
      ∃ parameters asked declared typed slot answered failures flag said,
        options.checkSimpleName name = .ok () ∧
        (resolveFields options ⟨name, around⟩ [] request).Yields registry parameters asked ∧
        (response.resolve options around).Yields asked declared typed ∧
        typed.slot options ⟨name, around⟩ "response" declared = .ok (slot, answered) ∧
        (resolveEach options around (.messageError name) errors).Yields answered failures after ∧
        oneWay = .ok flag ∧
        checkOneWay name flag slot.declared failures = .ok () ∧
        details = .ok said ∧
        message = Message.ofParts name parameters slot failures flag said := by
  simp [yields_bind, yields_fmap, and_assoc, Message.ofParts, -Bool.exists_bool]

/-- No nodes yield no messages. -/
@[simp]
theorem yields_resolveMessages_nil {messages : List Message} :
    (resolveMessages options around []).Yields registry messages after ↔
      messages = [] ∧ registry = after := by
  simp

/-- The first message comes before the others. -/
theorem yields_resolveMessages_cons {node : MessageNode} {rest : List MessageNode}
    {messages : List Message} :
    (resolveMessages options around (node :: rest)).Yields registry messages after ↔
      ∃ message between others,
        (node.resolve options around).Yields registry message between ∧
        (resolveMessages options around rest).Yields between others after ∧
        messages = message :: others := by
  simp [yields_bind, yields_fmap]

/-- The name of a message. -/
def MessageNode.name : MessageNode → String
  | .malformed _ _ => ""
  | .message _ name _ _ _ _ _ _ => name

/-- Messages have the names of their nodes. -/
theorem names_resolveMessages {nodes : List MessageNode} {messages : List Message}
    (succeeds : (resolveMessages options around nodes).Yields registry messages after) :
    messages.map Message.name = nodes.map MessageNode.name := by
  induction nodes generalizing registry messages with
  | nil =>
    obtain ⟨rfl, rfl⟩ := yields_resolveMessages_nil.1 succeeds
    rfl
  | cons node rest ih =>
    obtain ⟨message, between, others, first, walksRest, rfl⟩ :=
      yields_resolveMessages_cons.1 succeeds
    rw [List.map_cons, List.map_cons, ih walksRest]
    cases node with
    | malformed => exact absurd first MessageNode.yields_malformed
    | message =>
      obtain ⟨_, _, _, _, _, _, _, _, _, -, -, -, -, -, -, -, -, rfl⟩ :=
        MessageNode.yields_message.1 first
      rfl

end AvroGraph
