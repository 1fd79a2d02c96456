import AvroGraph.Projection
import AvroGraph.Proofs.Walk

/-!
# Projections that succeed

`Projecting.Yields` names the outcome of a projection that succeeds. For each kind of schema and
of entry one lemma says what its success consists of, so that no later proof opens the monad. A
projection that succeeds still does so, with the same result, when entries may nest deeper
(`Registry.define_extends`).
-/

namespace AvroGraph

/-- The schemas in a message. The first of its errors goes without saying. -/
def Message.schemas (message : Message) : List Schema :=
  message.request.map Field.declared ++ message.response :: message.errors.drop 1

/-- The schemas in an entry. -/
def Entry.schemas : Entry → List Schema
  | .record body | .error body => body.fields.map Field.declared
  | .enum _ | .fixed _ => []
  | .protocol body => body.types ++ body.messages.flatMap Message.schemas
  | .abstractBase base => base.derived

namespace Projecting

variable {α β : Type} {written after : List Handle}

/-- A projection, with some entries written before, succeeds with a value and some entries
written after. -/
def Yields (projection : Projecting α) (written : List Handle) (value : α)
    (after : List Handle) : Prop :=
  projection.outcome written = (.ok value, after)

/-- What a projection yields is its outcome. -/
theorem Yields.outcome {projection : Projecting α} {value : α}
    (succeeds : projection.Yields written value after) :
    projection.outcome written = (.ok value, after) :=
  succeeds

/-- A projection yields one result only. -/
theorem Yields.unique {projection : Projecting α} {value other : α} {last : List Handle}
    (first : projection.Yields written value after) (second : projection.Yields written other last) :
    value = other ∧ after = last := by
  rw [Yields] at first second
  simpa using first.symm.trans second

/-- A result by itself yields that, and nothing is written. -/
@[simp]
theorem yields_pure {value result : α} :
    (pure value : Projecting α).Yields written result after ↔
      result = value ∧ written = after := by
  simp [Yields, eq_comm]

/-- A violation yields nothing. -/
@[simp]
theorem yields_throw {violation : Violation} {result : α} :
    ¬ (throw violation : Projecting α).Yields written result after := by
  simp [Yields]

/-- A sequence succeeds exactly when its parts do, the second where the first one ends. -/
theorem yields_bind {first : Projecting α} {next : α → Projecting β} {result : β} :
    (first >>= next).Yields written result after ↔
      ∃ value between, first.Yields written value between ∧
        (next value).Yields between result after := by
  rw [Yields, outcome_bind]
  constructor
  · intro succeeds
    split at succeeds
    · next value between first => exact ⟨value, between, first, succeeds⟩
    · cases succeeds
  · rintro ⟨value, between, firstSucceeds, nextSucceeds⟩
    rw [Yields] at firstSucceeds
    rw [firstSucceeds]
    exact nextSucceeds

/-- A projection that is mapped yields what it is mapped to. -/
theorem yields_fmap {projection : Projecting α} {f : α → β} {result : β} :
    (f <$> projection).Yields written result after ↔
      ∃ value, projection.Yields written value after ∧ result = f value := by
  rw [map_eq_pure_bind, yields_bind]
  simp

/-- What has been written is yielded where it is asked for. -/
@[simp]
theorem yields_get {result : List Handle} :
    (get : Projecting (List Handle)).Yields written result after ↔
      result = written ∧ written = after := by
  simp [Yields, eq_comm]

/-- What has been written can be set to anything. -/
@[simp]
theorem yields_set {now : List Handle} {result : PUnit} :
    (set now : Projecting PUnit).Yields written result after ↔ after = now := by
  simp [Yields, eq_comm]

end Projecting

open Projecting

variable {registry : Registry} {define : Define} {around : Option String}
  {written after : List Handle} {json : Json}

namespace Schema

attribute [local simp] project projectEach

/-- A primitive type is written as its keyword. -/
theorem yields_primitive {type : Primitive} :
    ((primitive type).project registry define around).Yields written json after ↔
      json = .string type.keyword ∧ written = after := by
  simp

/-- A named schema is written as its entry is. -/
theorem yields_named {kind : NamedKind} {handle : Handle} :
    ((named kind handle).project registry define around).Yields written json after ↔
      (define handle around).Yields written json after := by
  simp

/-- An array is written with its items. -/
theorem yields_array {items : Schema} :
    ((array items).project registry define around).Yields written json after ↔
      ∃ inner, (items.project registry define around).Yields written inner after ∧
        json = .object [("type", .string "array"), ("items", inner)] := by
  simp [yields_fmap]

/-- A map is written with its values. -/
theorem yields_map {values : Schema} :
    ((map values).project registry define around).Yields written json after ↔
      ∃ inner, (values.project registry define around).Yields written inner after ∧
        json = .object [("type", .string "map"), ("values", inner)] := by
  simp [yields_fmap]

/-- A union is written as the array of its branches. -/
theorem yields_union {branches : List Schema} {underlying : Schema} {nullable : Bool} :
    ((union branches underlying nullable).project registry define around).Yields written json
        after ↔
      ∃ jsons, (projectEach registry define around branches).Yields written jsons after ∧
        json = .array jsons := by
  simp [yields_fmap]

/-- A fixed type is written with the logical type it was declared with; every other logical type
is laid over what is written. -/
theorem yields_logical {underlying : Schema} {overlay : LogicalType} :
    ((logical underlying overlay).project registry define around).Yields written json after ↔
      ∃ inner, (underlying.project registry define around).Yields written inner after ∧
        json = if isOwnOverlay registry underlying overlay then inner
          else overlay.project inner := by
  simp [yields_fmap]

/-- A boxed value is not written. -/
@[simp]
theorem yields_boxed :
    ¬ (boxed.project registry define around).Yields written json after := by
  simp

variable {jsons : List Json}

/-- No schemas are written as nothing. -/
@[simp]
theorem yields_projectEach_nil :
    (projectEach registry define around []).Yields written jsons after ↔
      jsons = [] ∧ written = after := by
  simp

/-- The first schema is written before the others. -/
theorem yields_projectEach_cons {schema : Schema} {rest : List Schema} :
    (projectEach registry define around (schema :: rest)).Yields written jsons after ↔
      ∃ first between others, (schema.project registry define around).Yields written first between ∧
        (projectEach registry define around rest).Yields between others after ∧
        jsons = first :: others := by
  simp [yields_bind, yields_fmap]

end Schema

variable {jsons : List Json}

/-- As many documents are written as there are schemas. -/
theorem Schema.length_of_projectEach {schemas : List Schema}
    (writes : (projectEach registry define around schemas).Yields written jsons after) :
    jsons.length = schemas.length := by
  induction schemas generalizing written jsons with
  | nil =>
    obtain ⟨rfl, -⟩ := yields_projectEach_nil.1 writes
    rfl
  | cons schema rest ih =>
    obtain ⟨_, _, _, -, writesRest, rfl⟩ := yields_projectEach_cons.1 writes
    rw [List.length_cons, List.length_cons, ih writesRest]

/-- No fields are written as nothing. -/
@[simp]
theorem yields_projectFields_nil :
    (projectFields registry define around []).Yields written jsons after ↔
      jsons = [] ∧ written = after := by
  simp [projectFields]

/-- The first field is written before the others. -/
theorem yields_projectFields_cons {field : Field} {rest : List Field} :
    (projectFields registry define around (field :: rest)).Yields written jsons after ↔
      ∃ type between others,
        (field.declared.project registry define around).Yields written type between ∧
        (projectFields registry define around rest).Yields between others after ∧
        jsons = field.project type :: others := by
  simp only [projectFields, List.mapM_cons, yields_bind, yields_pure]
  grind

/-- No messages are written as nothing. -/
@[simp]
theorem yields_projectMessages_nil {members : Members} :
    (projectMessages registry define around []).Yields written members after ↔
      members = [] ∧ written = after := by
  simp [projectMessages]

/-- The first message is written before the others, with its parameters, its response and its errors
in order. -/
theorem yields_projectMessages_cons {message : Message} {rest : List Message} {members : Members} :
    (projectMessages registry define around (message :: rest)).Yields written members after ↔
      ∃ request asked response answered errors failed others,
        (projectFields registry define around message.request).Yields written request asked ∧
        (message.response.project registry define around).Yields asked response answered ∧
        (Schema.projectEach registry define around (message.errors.drop 1)).Yields answered errors
          failed ∧
        (projectMessages registry define around rest).Yields failed others after ∧
        members = (message.name, message.project request response errors) :: others := by
  simp only [projectMessages, List.mapM_cons, yields_bind, yields_pure]
  grind

/-- Messages are written at their names. -/
theorem keys_projectMessages {messages : List Message} {members : Members}
    (writes : (projectMessages registry define around messages).Yields written members after) :
    members.map Prod.fst = messages.map Message.name := by
  induction messages generalizing written members with
  | nil =>
    obtain ⟨rfl, rfl⟩ := yields_projectMessages_nil.1 writes
    rfl
  | cons message rest ih =>
    obtain ⟨_, _, _, _, _, _, others, -, -, -, writesRest, rfl⟩ :=
      yields_projectMessages_cons.1 writes
    rw [List.map_cons, List.map_cons, ih writesRest]

/-- The record in an entry of a record or an error is written with its fields in its namespace. -/
theorem Entry.yields_record (isError : Bool) {body : Record} :
    ((if isError then Entry.error body else .record body).project registry define around).Yields
        written json after ↔
      ∃ fields, (projectFields registry define body.name.space body.fields).Yields written fields
          after ∧
        json = body.project (.ofRecord isError) around fields := by
  cases isError <;> simp [project, yields_fmap, NamedKind.ofRecord]

/-- An enum is written by itself. -/
theorem Entry.yields_enum {enumeration : Enumeration} :
    ((Entry.enum enumeration).project registry define around).Yields written json after ↔
      json = enumeration.project around ∧ written = after := by
  simp [project]

/-- A fixed type is written by itself. -/
theorem Entry.yields_fixed {fixedType : FixedType} :
    ((Entry.fixed fixedType).project registry define around).Yields written json after ↔
      json = fixedType.project around ∧ written = after := by
  simp [project]

/-- A protocol is written with its types before its messages, in its own namespace. -/
theorem Entry.yields_protocol {body : Protocol} :
    ((Entry.protocol body).project registry define around).Yields written json after ↔
      ∃ types typed messages,
        (Schema.projectEach registry define body.name.space body.types).Yields written types typed ∧
        (projectMessages registry define body.name.space body.messages).Yields typed messages
          after ∧
        json = body.project around types messages := by
  simp [project, yields_bind, yields_fmap]

/-- An abstract base is written as the union of its branches. -/
theorem Entry.yields_abstractBase {base : AbstractBase} :
    ((Entry.abstractBase base).project registry define around).Yields written json after ↔
      ∃ jsons, (Schema.projectEach registry define around base.derived).Yields written jsons
          after ∧
        json = .array jsons := by
  simp [project, yields_fmap]

namespace Registry

/-- At no depth at all, no entry is written. -/
@[simp]
theorem yields_define_zero {handle : Handle} :
    ¬ (registry.define 0 handle around).Yields written json after := by
  simp [define]

/-- How the entry at a handle is written, given how the entries in it are. -/
def defineWith (registry : Registry) (define : Define) : Define := fun handle around =>
  match registry.get? handle with
  | none => throw ⟨.foreignHandle handle, .null⟩
  | some entry =>
    if entry.isAbstractBase then entry.project registry define around
    else do
      let written ← get
      if handle ∈ written then return .string (entry.name.reference around)
      else
        set (handle :: written)
        entry.project registry define around

/-- An abstract base is always written out. A declaration is written in full the first time, and
is then a reference. -/
theorem yields_defineWith {handle : Handle} :
    (registry.defineWith define handle around).Yields written json after ↔
      ∃ entry, registry.get? handle = some entry ∧
        if entry.isAbstractBase then
          (entry.project registry define around).Yields written json after
        else if handle ∈ written then
          json = .string (entry.name.reference around) ∧ written = after
        else (entry.project registry define around).Yields (handle :: written) json after := by
  rw [defineWith]
  cases registry.get? handle with
  | none => simp
  | some entry =>
    simp only [Option.some.injEq, exists_eq_left']
    cases entry.isAbstractBase with
    | true => simp
    | false =>
      by_cases member : handle ∈ written <;> simp [yields_bind, member]

/-- One level deeper, an entry is written with what is inside it. -/
theorem yields_define_succ {depth : Nat} {handle : Handle} :
    (registry.define (depth + 1) handle around).Yields written json after ↔
      ∃ entry, registry.get? handle = some entry ∧
        if entry.isAbstractBase then
          (entry.project registry (registry.define depth) around).Yields written json after
        else if handle ∈ written then
          json = .string (entry.name.reference around) ∧ written = after
        else
          (entry.project registry (registry.define depth) around).Yields (handle :: written) json
            after :=
  yields_defineWith

section

variable {depth : Nat} {handle : Handle} {entry : Entry}

/-- An abstract base is written as the union of its branches, over and over. -/
theorem yields_define_base {base : AbstractBase}
    (found : registry.get? handle = some (.abstractBase base)) :
    (registry.define (depth + 1) handle around).Yields written json after ↔
      ∃ jsons, (Schema.projectEach registry (registry.define depth) around base.derived).Yields
          written jsons after ∧
        json = .array jsons := by
  rw [yields_define_succ, found]
  simpa [Entry.isAbstractBase] using Entry.yields_abstractBase

/-- A declaration that is written already is a reference. -/
theorem yields_define_written (found : registry.get? handle = some entry)
    (isDeclared : entry.isAbstractBase = false) (member : handle ∈ written) :
    (registry.define (depth + 1) handle around).Yields written json after ↔
      json = .string (entry.name.reference around) ∧ written = after := by
  simp [yields_define_succ, found, isDeclared, member]

/-- A declaration is written in full the first time, and from then on counts as written. -/
theorem yields_define_fresh (found : registry.get? handle = some entry)
    (isDeclared : entry.isAbstractBase = false) (fresh : handle ∉ written) :
    (registry.define (depth + 1) handle around).Yields written json after ↔
      (entry.project registry (registry.define depth) around).Yields (handle :: written) json
        after := by
  simp [yields_define_succ, found, isDeclared, fresh]

end

end Registry

/-! ## Writing entries in more cases -/

/-- Entries are written by one rule wherever they are by another, and alike. -/
def Define.Extends (define more : Define) : Prop :=
  ∀ handle around written json after, (define handle around).Yields written json after →
    (more handle around).Yields written json after

/-- Fixed types have the same logical types in two registries. -/
def Registry.SameOverlays (registry other : Registry) : Prop :=
  ∀ underlying overlay, Schema.isOwnOverlay other underlying overlay =
    Schema.isOwnOverlay registry underlying overlay

section

variable {registry other : Registry} {define more : Define}

mutual

/-- What is written of a schema depends on the registry through logical types of fixed types and
through how entries are written. -/
theorem Schema.yields_mono (same : registry.SameOverlays other) (extends_ : define.Extends more)
    {around : Option String} {written after : List Handle} {json : Json} : (schema : Schema) →
      (schema.project registry define around).Yields written json after →
      (schema.project other more around).Yields written json after
  | .primitive _, succeeds => yields_primitive.2 (yields_primitive.1 succeeds)
  | .named _ _, succeeds => yields_named.2 (extends_ _ _ _ _ _ (yields_named.1 succeeds))
  | .array items, succeeds => by
    obtain ⟨inner, writes, rfl⟩ := yields_array.1 succeeds
    exact yields_array.2 ⟨inner, items.yields_mono same extends_ writes, rfl⟩
  | .map values, succeeds => by
    obtain ⟨inner, writes, rfl⟩ := yields_map.1 succeeds
    exact yields_map.2 ⟨inner, values.yields_mono same extends_ writes, rfl⟩
  | .union branches _ _, succeeds => by
    obtain ⟨jsons, writes, rfl⟩ := yields_union.1 succeeds
    exact yields_union.2 ⟨jsons, Schema.yields_projectEach_mono same extends_ branches writes, rfl⟩
  | .logical underlying overlay, succeeds => by
    obtain ⟨inner, writes, rfl⟩ := yields_logical.1 succeeds
    refine yields_logical.2 ⟨inner, underlying.yields_mono same extends_ writes, ?_⟩
    rw [same underlying overlay]
  | .boxed, succeeds => absurd succeeds yields_boxed

/-- Schemas in a row are written alike by what extends how entries are written. -/
theorem Schema.yields_projectEach_mono (same : registry.SameOverlays other)
    (extends_ : define.Extends more) {around : Option String} {written after : List Handle}
    {jsons : List Json} : (schemas : List Schema) →
      (projectEach registry define around schemas).Yields written jsons after →
      (projectEach other more around schemas).Yields written jsons after
  | [], succeeds => yields_projectEach_nil.2 (yields_projectEach_nil.1 succeeds)
  | schema :: rest, succeeds => by
    obtain ⟨first, between, others, writes, writesRest, rfl⟩ := yields_projectEach_cons.1 succeeds
    exact yields_projectEach_cons.2 ⟨first, between, others, schema.yields_mono same extends_ writes,
      Schema.yields_projectEach_mono same extends_ rest writesRest, rfl⟩

end

variable (same : registry.SameOverlays other) (extends_ : define.Extends more)
include same extends_

/-- Fields are written alike by what extends how entries are written. -/
theorem yields_projectFields_mono {around : Option String} {written after : List Handle}
    {fields : List Field} {jsons : List Json}
    (succeeds : (projectFields registry define around fields).Yields written jsons after) :
    (projectFields other more around fields).Yields written jsons after := by
  induction fields generalizing written jsons with
  | nil => exact yields_projectFields_nil.2 (yields_projectFields_nil.1 succeeds)
  | cons field rest ih =>
    obtain ⟨type, between, others, writes, writesRest, rfl⟩ :=
      yields_projectFields_cons.1 succeeds
    exact yields_projectFields_cons.2
      ⟨type, between, others, field.declared.yields_mono same extends_ writes, ih writesRest, rfl⟩

/-- Messages are written alike by what extends how entries are written. -/
theorem yields_projectMessages_mono {around : Option String} {written after : List Handle}
    {messages : List Message} {members : Members}
    (succeeds : (projectMessages registry define around messages).Yields written members after) :
    (projectMessages other more around messages).Yields written members after := by
  induction messages generalizing written members with
  | nil => exact yields_projectMessages_nil.2 (yields_projectMessages_nil.1 succeeds)
  | cons message rest ih =>
    obtain ⟨request, asked, response, answered, errors, failed, others, asks, answers, fails,
      writesRest, rfl⟩ := yields_projectMessages_cons.1 succeeds
    exact yields_projectMessages_cons.2 ⟨request, asked, response, answered, errors, failed, others,
      yields_projectFields_mono same extends_ asks,
      message.response.yields_mono same extends_ answers,
      Schema.yields_projectEach_mono same extends_ _ fails, ih writesRest, rfl⟩

/-- An entry is written alike by what extends how other entries are written. -/
theorem Entry.yields_mono {around : Option String} {written after : List Handle} {json : Json}
    (entry : Entry) (succeeds : (entry.project registry define around).Yields written json after) :
    (entry.project other more around).Yields written json after := by
  cases entry with
  | record body =>
    obtain ⟨fields, writes, rfl⟩ := (yields_record false).1 succeeds
    exact (yields_record false).2
      ⟨fields, yields_projectFields_mono same extends_ writes, rfl⟩
  | error body =>
    obtain ⟨fields, writes, rfl⟩ := (yields_record true).1 succeeds
    exact (yields_record true).2
      ⟨fields, yields_projectFields_mono same extends_ writes, rfl⟩
  | enum enumeration => exact yields_enum.2 (yields_enum.1 succeeds)
  | fixed fixedType => exact yields_fixed.2 (yields_fixed.1 succeeds)
  | protocol body =>
    obtain ⟨types, typed, messages, writesTypes, writesMessages, rfl⟩ := yields_protocol.1 succeeds
    exact yields_protocol.2 ⟨types, typed, messages,
      Schema.yields_projectEach_mono same extends_ _ writesTypes,
      yields_projectMessages_mono same extends_ writesMessages, rfl⟩
  | abstractBase base =>
    obtain ⟨jsons, writes, rfl⟩ := yields_abstractBase.1 succeeds
    exact yields_abstractBase.2 ⟨jsons, Schema.yields_projectEach_mono same extends_ _ writes, rfl⟩

end

namespace Registry

variable {define more : Define}

/-- A registry has its own logical types. -/
theorem SameOverlays.refl (registry : Registry) : registry.SameOverlays registry :=
  fun _ _ => rfl

/-- What is written at a handle is written there for another registry too, if it has an entry of
that name there which is written alike in full. -/
theorem defineWith_mono {other : Registry} {handle : Handle} {around : Option String}
    {written after : List Handle} {json : Json}
    (twins : ∀ entry, registry.get? handle = some entry → ∃ twin, other.get? handle = some twin ∧
      twin.name = entry.name ∧ twin.isAbstractBase = entry.isAbstractBase ∧
      ∀ written, (entry.project registry define around).Yields written json after →
        (twin.project other more around).Yields written json after)
    (writes : (registry.defineWith define handle around).Yields written json after) :
    (other.defineWith more handle around).Yields written json after := by
  obtain ⟨entry, found, writes⟩ := yields_defineWith.1 writes
  obtain ⟨twin, isTwin, name, isBase, inside⟩ := twins entry found
  refine yields_defineWith.2 ⟨twin, isTwin, ?_⟩
  rw [isBase, name]
  split at writes
  · next isBase =>
    rw [if_pos isBase]
    exact inside written writes
  · next isDeclared =>
    rw [if_neg isDeclared]
    split at writes
    · next member => rwa [if_pos member]
    · next fresh =>
      rw [if_neg fresh]
      exact inside _ writes

/-- An entry is written alike if the entries in it are. -/
theorem defineWith_extends (registry : Registry) (extends_ : define.Extends more) :
    (registry.defineWith define).Extends (registry.defineWith more) := by
  intro handle around written json after
  exact defineWith_mono fun entry found =>
    ⟨entry, found, rfl, rfl, fun _ => entry.yields_mono (.refl registry) extends_⟩

/-- What is written at one depth is written alike at the next. -/
theorem define_extends_succ (registry : Registry) (depth : Nat) :
    (registry.define depth).Extends (registry.define (depth + 1)) := by
  induction depth with
  | zero => exact fun _ _ _ _ _ succeeds => absurd succeeds yields_define_zero
  | succ depth ih => exact registry.defineWith_extends ih

/-- A projection that succeeds does so too when entries may nest deeper. -/
theorem define_extends (registry : Registry) {depth deeper : Nat} (le : depth ≤ deeper) :
    (registry.define depth).Extends (registry.define deeper) := by
  induction le with
  | refl => exact fun _ _ _ _ _ => id
  | @step deeper _ ih =>
    intro handle around written json after succeeds
    exact define_extends_succ registry deeper _ _ _ _ _ (ih _ _ _ _ _ succeeds)

end Registry

end AvroGraph
