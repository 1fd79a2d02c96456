import AvroGraph.Document
import AvroGraph.Proofs.PairedEntries

/-!
# Marks of nullability

Schemas, fields and messages are marked where they have to admit null. `unmarked` takes the marks
away, and `Below` relates what differs in marks alone, where whatever is marked on the left is
marked on the right. Nothing that a registry is asked or told depends on marks.
-/

namespace AvroGraph

/-! ## Without marks -/

mutual

/-- A schema without marks. -/
def Schema.unmarked : Schema → Schema
  | .primitive type => .primitive type
  | .named kind handle => .named kind handle
  | .array items => .array items.unmarked
  | .map values => .map values.unmarked
  | .union branches underlying _ => .union (unmarkedEach branches) underlying.unmarked false
  | .logical underlying overlay => .logical underlying.unmarked overlay
  | .boxed => .boxed

/-- Schemas without marks. -/
def unmarkedEach : List Schema → List Schema
  | [] => []
  | schema :: rest => schema.unmarked :: unmarkedEach rest

end

/-- A field without marks. -/
def Field.unmarked (field : Field) : Field :=
  { field with
    declared := field.declared.unmarked
    underlying := field.underlying.unmarked
    nullable := false }

/-- A message without marks. -/
def Message.unmarked (message : Message) : Message :=
  { message with
    request := message.request.map Field.unmarked
    response := message.response.unmarked
    responseUnderlying := message.responseUnderlying.unmarked
    responseNullable := false
    errors := unmarkedEach message.errors }

/-- An entry without marks. -/
def Entry.unmarked : Entry → Entry
  | .record body => .record { body with fields := body.fields.map Field.unmarked }
  | .error body => .error { body with fields := body.fields.map Field.unmarked }
  | .protocol body => .protocol { body with
      types := unmarkedEach body.types
      messages := body.messages.map Message.unmarked }
  | .abstractBase base => .abstractBase { base with derived := unmarkedEach base.derived }
  | entry => entry

/-- A registry without marks. -/
def Registry.unmarked (registry : Registry) : Registry :=
  { registry with entries := registry.entries.map Entry.unmarked }

/-- A document without marks. -/
def Document.unmarked (document : Document) : Document :=
  ⟨document.root.unmarked, document.registry.unmarked⟩

/-! ## The same but for marks -/

mutual

/-- Two schemas are the same but for marks, of which the right one has no fewer. -/
inductive Schema.Below : Schema → Schema → Prop where
  | primitive (type : Primitive) : Schema.Below (.primitive type) (.primitive type)
  | named (kind : NamedKind) (handle : Handle) :
      Schema.Below (.named kind handle) (.named kind handle)
  | array {left right : Schema} (items : Schema.Below left right) :
      Schema.Below (.array left) (.array right)
  | map {left right : Schema} (values : Schema.Below left right) :
      Schema.Below (.map left) (.map right)
  | union {lefts rights : List Schema} {left right : Schema} {isLeft isRight : Bool}
      (branches : EachBelow lefts rights) (underlying : Schema.Below left right)
      (nullable : isLeft = true → isRight = true) :
      Schema.Below (.union lefts left isLeft) (.union rights right isRight)
  | logical {left right : Schema} (underlying : Schema.Below left right) (overlay : LogicalType) :
      Schema.Below (.logical left overlay) (.logical right overlay)
  | boxed : Schema.Below .boxed .boxed

/-- Two lists of schemas are the same but for marks, of which the right ones have no fewer. -/
inductive EachBelow : List Schema → List Schema → Prop where
  | nil : EachBelow [] []
  | cons {left right : Schema} {lefts rights : List Schema} (head : Schema.Below left right)
      (tail : EachBelow lefts rights) : EachBelow (left :: lefts) (right :: rights)

end

/-- Two reductions are the same but for marks. -/
structure Reduction.Below (left right : Reduction) : Prop where
  underlying : left.underlying.Below right.underlying
  nullable : left.nullable = true → right.nullable = true

/-- Two slots are the same but for marks. -/
structure Slot.Below (left right : Slot) : Prop where
  declared : left.declared.Below right.declared
  underlying : left.underlying.Below right.underlying
  nullable : left.nullable = true → right.nullable = true

/-- Two fields are the same but for marks. -/
structure Field.Below (left right : Field) : Prop where
  declared : left.declared.Below right.declared
  underlying : left.underlying.Below right.underlying
  nullable : left.nullable = true → right.nullable = true
  rest : right = { left with
    declared := right.declared, underlying := right.underlying, nullable := right.nullable }

/-- Two messages are the same but for marks. -/
structure Message.Below (left right : Message) : Prop where
  request : List.Forall₂ Field.Below left.request right.request
  response : left.response.Below right.response
  responseUnderlying : left.responseUnderlying.Below right.responseUnderlying
  responseNullable : left.responseNullable = true → right.responseNullable = true
  errors : EachBelow left.errors right.errors
  rest : right = { left with
    request := right.request
    response := right.response
    responseUnderlying := right.responseUnderlying
    responseNullable := right.responseNullable
    errors := right.errors }

/-- Two entries are the same but for marks. -/
inductive Entry.Below : Entry → Entry → Prop where
  | record (body : Record) {fields : List Field}
      (below : List.Forall₂ Field.Below body.fields fields) :
      Below (.record body) (.record { body with fields })
  | error (body : Record) {fields : List Field}
      (below : List.Forall₂ Field.Below body.fields fields) :
      Below (.error body) (.error { body with fields })
  | enum (enumeration : Enumeration) : Below (.enum enumeration) (.enum enumeration)
  | fixed (fixedType : FixedType) : Below (.fixed fixedType) (.fixed fixedType)
  | protocol (body : Protocol) {types : List Schema} {messages : List Message}
      (typesBelow : EachBelow body.types types)
      (messagesBelow : List.Forall₂ Message.Below body.messages messages) :
      Below (.protocol body) (.protocol { body with types, messages })
  | abstractBase (base : AbstractBase) {derived : List Schema}
      (below : EachBelow base.derived derived) :
      Below (.abstractBase base) (.abstractBase { base with derived })

/-- Two registries are the same but for marks. -/
structure Registry.Below (left right : Registry) : Prop where
  entries : List.Forall₂ Entry.Below left.entries right.entries
  index : left.index = right.index
  bases : left.bases = right.bases

/-- Two documents are the same but for marks. -/
structure Document.Below (left right : Document) : Prop where
  root : left.root.Below right.root
  registry : left.registry.Below right.registry

mutual

/-- Every schema is the same as itself. -/
theorem Schema.Below.refl : (schema : Schema) → schema.Below schema
  | .primitive type => .primitive type
  | .named kind handle => .named kind handle
  | .array items => .array (.refl items)
  | .map values => .map (.refl values)
  | .union branches underlying _ => .union (.refl branches) (.refl underlying) id
  | .logical underlying overlay => .logical (.refl underlying) overlay
  | .boxed => .boxed

/-- Schemas in a row are below themselves. -/
theorem EachBelow.refl : (schemas : List Schema) → EachBelow schemas schemas
  | [] => .nil
  | schema :: rest => .cons (.refl schema) (.refl rest)

end

/-! ## Erasure -/

mutual

/-- What is below a schema is the same without marks. -/
theorem Schema.Below.unmarked_eq {left right : Schema} :
    left.Below right → left.unmarked = right.unmarked
  | .primitive _ | .named _ _ | .boxed => rfl
  | .array items => by rw [Schema.unmarked, Schema.unmarked, items.unmarked_eq]
  | .map values => by rw [Schema.unmarked, Schema.unmarked, values.unmarked_eq]
  | .union branches underlying _ => by
    rw [Schema.unmarked, Schema.unmarked, branches.unmarked_eq, underlying.unmarked_eq]
  | .logical underlying _ => by
    rw [Schema.unmarked, Schema.unmarked, underlying.unmarked_eq]

/-- Schemas below each other in a row are the same without marks. -/
theorem EachBelow.unmarked_eq {lefts rights : List Schema} :
    EachBelow lefts rights → unmarkedEach lefts = unmarkedEach rights
  | .nil => rfl
  | .cons head tail => by rw [unmarkedEach, unmarkedEach, head.unmarked_eq, tail.unmarked_eq]

end

/-- What is below a field is the same without marks. -/
theorem Field.Below.unmarked_eq {left right : Field} (below : left.Below right) :
    left.unmarked = right.unmarked := by
  rw [below.rest]
  simp only [unmarked, below.declared.unmarked_eq, below.underlying.unmarked_eq]

/-- What is below a message is the same without marks. -/
theorem Message.Below.unmarked_eq {left right : Message} (below : left.Below right) :
    left.unmarked = right.unmarked := by
  rw [below.rest]
  simp only [unmarked, below.response.unmarked_eq, below.responseUnderlying.unmarked_eq,
    below.errors.unmarked_eq,
    map_eq_of_forall₂ (fun _ _ field => Field.Below.unmarked_eq field) below.request]

/-- What is below an entry is the same without marks. -/
theorem Entry.Below.unmarked_eq {left right : Entry} (below : left.Below right) :
    left.unmarked = right.unmarked := by
  cases below with
  | record body below | error body below =>
    simp only [unmarked, map_eq_of_forall₂ (fun _ _ field => Field.Below.unmarked_eq field) below]
  | enum | fixed => rfl
  | protocol body typesBelow messagesBelow =>
    simp only [unmarked, typesBelow.unmarked_eq,
      map_eq_of_forall₂ (fun _ _ message => Message.Below.unmarked_eq message) messagesBelow]
  | abstractBase base below => simp only [unmarked, below.unmarked_eq]

/-- What is below a registry is the same without marks. -/
theorem Registry.Below.unmarked_eq {left right : Registry} (below : left.Below right) :
    left.unmarked = right.unmarked := by
  rw [Registry.unmarked, Registry.unmarked, below.index, below.bases,
    map_eq_of_forall₂ (fun _ _ entry => Entry.Below.unmarked_eq entry) below.entries]

/-- What is below a document is the same without marks. -/
theorem Document.Below.unmarked_eq {left right : Document} (below : left.Below right) :
    left.unmarked = right.unmarked := by
  rw [unmarked, unmarked, below.root.unmarked_eq, below.registry.unmarked_eq]

/-! ## What does not depend on marks -/

namespace Schema.Below

variable {left right : Schema}

/-- Marks do not make a schema null. -/
theorem isNull_eq (below : left.Below right) : left.isNull = right.isNull := by
  cases below <;> rfl

/-- Marks do not make a schema a record. -/
theorem isRecord_eq (below : left.Below right) : left.isRecord = right.isRecord := by
  cases below <;> rfl

/-- Marks do not lead a schema to another entry. -/
theorem handle?_eq (below : left.Below right) : left.handle? = right.handle? := by
  cases below <;> rfl

/-- Marks do not name a schema. -/
theorem isNamed_eq (below : left.Below right) : left.isNamed = right.isNamed := by
  rw [isNamed, isNamed, below.handle?_eq]

/-- Marks do not change the kind of a schema. -/
theorem kind_eq (below : left.Below right) : left.kind = right.kind := by
  cases below <;> rfl

/-- To take a logical type away leaves marks below marks. -/
theorem bare (below : left.Below right) : left.bare.Below right.bare := by
  cases below with
  | logical underlying overlay =>
    rw [Schema.bare, Schema.bare, underlying.isNamed_eq]
    split
    · exact underlying
    · exact .logical underlying overlay
  | union branches underlying nullable => exact .union branches underlying nullable
  | array items => exact .array items
  | map values => exact .map values
  | primitive | named | boxed => constructor

/-- A schema without marks inside it is compared alike. -/
theorem eq_primitive_iff (below : left.Below right) (type : Primitive) :
    left = .primitive type ↔ right = .primitive type := by
  cases below <;> simp

end Schema.Below

namespace EachBelow

variable {lefts rights : List Schema}

/-- Schemas in a row are below each other one by one. -/
theorem forall₂ : {lefts rights : List Schema} → EachBelow lefts rights →
    List.Forall₂ Schema.Below lefts rights
  | _, _, .nil => .nil
  | _, _, .cons head tail => .cons head tail.forall₂

/-- Schemas in a row are below each other behind the first ones. -/
theorem drop : {lefts rights : List Schema} → EachBelow lefts rights → (count : Nat) →
    EachBelow (lefts.drop count) (rights.drop count)
  | _, _, below, 0 => below
  | _, _, .nil, _ + 1 => .nil
  | _, _, .cons _ tail, count + 1 => tail.drop count

/-- Marks do not call for a base. -/
theorem callsForBase_eq (below : EachBelow lefts rights) :
    callsForBase lefts = callsForBase rights := by
  have nulls : lefts.map Schema.isNull = rights.map Schema.isNull :=
    map_eq_of_forall₂ (fun _ _ below => below.isNull_eq) below.forall₂
  have records : lefts.map (fun branch => branch.isRecord || branch.isNull) =
      rights.map fun branch => branch.isRecord || branch.isNull :=
    map_eq_of_forall₂ (fun _ _ below => by rw [below.isRecord_eq, below.isNull_eq]) below.forall₂
  have hasNull := congrArg (List.any · id) nulls
  have hasOther := congrArg (List.any · not) nulls
  have allRecords := congrArg (List.all · id) records
  simp only [List.any_map, List.all_map, Function.comp_def, id_eq] at hasNull hasOther allRecords
  rw [callsForBase, callsForBase, below.forall₂.length_eq, hasNull, hasOther, allRecords]

/-- Marks do not change which records a base is made for. -/
theorem recordHandles_eq (below : EachBelow lefts rights) :
    Registry.recordHandles lefts = Registry.recordHandles rights := by
  have each := below.forall₂
  clear below
  induction each with
  | nil => rfl
  | cons head _ ih =>
    cases head with
    | named kind handle =>
      cases kind with
      | record => exact congrArg (handle :: ·) ih
      | _ => exact ih
    | _ => exact ih

end EachBelow

/-- Nothing that a registry is asked about an entry depends on marks. -/
theorem Entry.indistinct_below : Entry.Indistinct Entry.Below where
  name_eq _ _ below := by cases below <;> rfl
  kind_eq _ _ below := by cases below <;> rfl
  toSchema_eq _ _ below := by cases below <;> rfl
  size_eq _ _ below := by cases below <;> rfl
  symbols_eq _ _ below := by cases below <;> rfl
  derive base _ _ below := by
    cases below with
    | record body fields =>
      dsimp only [derive]
      split
      · exact .record body fields
      · exact .record { body with bases := body.bases ++ [base] } fields
    | _ => constructor <;> assumption

/-- Registries that are the same but for marks pair up. -/
theorem Registry.Below.paired {left right : Registry} (below : left.Below right) :
    left.Paired Entry.Below right :=
  ⟨below.entries, below.index, below.bases⟩

/-- Registries that pair up are the same but for marks. -/
theorem Registry.Paired.below {left right : Registry} (paired : left.Paired Entry.Below right) :
    left.Below right :=
  ⟨paired.entries, paired.index, paired.bases⟩

namespace Registry.Below

variable {left right : Registry} (below : left.Below right)
include below

/-- Fixed types have no marks. -/
theorem fixed?_eq (handle : Handle) : left.fixed? handle = right.fixed? handle :=
  below.paired.bind_get? (fun _ _ below => by cases below <;> rfl) handle

/-- Marks do not change how a schema is called in errors. -/
theorem nameOf_eq {schema other : Schema} (schemas : schema.Below other) :
    left.nameOf schema = right.nameOf other := by
  rw [below.paired.nameOf_eq Entry.indistinct_below]
  cases schemas <;> rfl

/-- Marks do not change which logical types a schema can have. -/
theorem accepts_eq {schema other : Schema} (same : schema.Below other) (overlay : LogicalType) :
    overlay.accepts left schema = overlay.accepts right other := by
  have size : LogicalType.fixedSize? right schema = LogicalType.fixedSize? right other := by
    cases same <;> rfl
  rw [below.paired.accepts_eq Entry.indistinct_below]
  cases overlay <;> simp only [LogicalType.accepts, same.eq_primitive_iff, size]

/-- Marks do not change the literal of a default. -/
theorem synthesizeOption_eq {declared other : Schema} (same : declared.Below other)
    (default : Option Json) :
    DefaultLiteral.synthesizeOption left declared default =
      DefaultLiteral.synthesizeOption right other default := by
  rw [below.paired.synthesizeOption_eq Entry.indistinct_below]
  cases default with
  | none => rfl
  | some default => cases same <;> rfl

end Registry.Below

/-! ## Changes -/

/-- Two changes of registries yield related values and registries that are the same but for
marks. -/
abbrev Changed {α : Type} (same : α → α → Prop) (left right : α × Registry) : Prop :=
  same left.1 right.1 ∧ left.2.Below right.2

namespace Registry.Below

variable {left right : Registry} (below : left.Below right)
include below

/-- To change one entry in the same way leaves registries that are the same but for marks. -/
theorem update {change other : Entry → Entry} (handle : Handle)
    (same : ∀ left right, Entry.Below left right → (change left).Below (other right)) :
    (left.update handle change).Below (right.update handle other) :=
  (below.paired.update handle same).below

/-- To give a record fields that differ in marks leaves registries that are the same but for marks.
-/
theorem setFields (handle : Handle) {fields others : List Field}
    (same : List.Forall₂ Field.Below fields others) :
    (left.setFields handle fields).Below (right.setFields handle others) :=
  below.update handle fun _ _ entries => by
    cases entries with
    | record body => exact .record { body with fields } same
    | error body => exact .error { body with fields } same
    | _ => constructor <;> assumption

/-- To give a protocol types and messages that differ in marks leaves such registries. -/
theorem setProtocol (handle : Handle) {types otherTypes : List Schema}
    {messages others : List Message} (sameTypes : EachBelow types otherTypes)
    (sameMessages : List.Forall₂ Message.Below messages others) :
    (left.setProtocol handle types messages).Below (right.setProtocol handle otherTypes others) :=
  below.update handle fun _ _ entries => by
    cases entries with
    | protocol body => exact .protocol { body with types, messages } sameTypes sameMessages
    | _ => constructor <;> assumption

/-- To give a fixed type its logical type leaves registries that are the same but for marks. -/
theorem setOverlay (handle : Handle) (overlay : LogicalType) :
    (left.setOverlay handle overlay).Below (right.setOverlay handle overlay) :=
  below.update handle fun _ _ entries => by cases entries <;> constructor <;> assumption

/-- An entry is registered in both or refused in both. -/
theorem register {entry other : Entry} (entries : entry.Below other) :
    Agree (Changed Eq) (left.register entry) (right.register other) :=
  (below.paired.register Entry.indistinct_below entries).mono
    fun _ _ after => ⟨after.result, after.registry.below⟩

/-- A slot is filled in both, with the same base if it has one, or refused in both. -/
theorem slot {options other : Options} (bases : options.synthesizeBases = other.synthesizeBases)
    (owner : Name) (name : String) {declared another : Schema} (same : declared.Below another) :
    Agree (Changed Slot.Below) (left.slot options owner name declared)
      (right.slot other owner name another) := by
  have whole := same
  cases same with
  | union branches underlying nullable =>
    rw [Registry.slot, Registry.slot, bases, branches.callsForBase_eq]
    split
    · refine .bind (below.paired.synthesizeBase Entry.indistinct_below owner name
        (fun _ => .abstractBase _ branches) branches.recordHandles_eq) ?_
      rintro ⟨base, registered⟩ ⟨_, other⟩ ⟨rfl, registries⟩
      exact .ok ⟨⟨.named .abstractBase base, .named .abstractBase base, nullable⟩,
        registries.below⟩
    · exact .ok ⟨⟨.union branches underlying nullable, underlying, nullable⟩, below⟩
  | _ => exact .ok ⟨⟨whole, whole, fun isMarked => by cases isMarked⟩, below⟩

/-- A logical type is laid over schemas alike. -/
theorem annotateSchema {schema other : Schema} (same : schema.Below other) (name : String)
    (overlay : Option LogicalType) :
    Agree Schema.Below (schema.annotate left name overlay) (other.annotate right name overlay) := by
  cases overlay with
  | none => exact .ok same
  | some overlay =>
    rw [Schema.annotate, Schema.annotate, below.accepts_eq same, below.nameOf_eq same]
    split
    · exact .ok (.logical same overlay)
    · exact .error _

/-- A logical type is laid over a type in both or refused in both. -/
theorem annotate (declaresFixed : Bool) {schema other : Schema} (same : schema.Below other)
    (name : String) (overlay : Except Reason (Option LogicalType)) :
    Agree (Changed Schema.Below) (left.annotate declaresFixed schema name overlay)
      (right.annotate declaresFixed other name overlay) := by
  refine .bind (.refl Eq.refl overlay) ?_
  rintro known _ rfl
  refine .bind (below.annotateSchema same.bare name known) fun schema other schemas => ?_
  have whole := schemas
  cases schemas with
  | logical underlying overlay =>
    cases underlying with
    | named kind handle =>
      cases kind with
      | fixed =>
        cases declaresFixed with
        | false => exact .ok ⟨whole, below⟩
        | true => exact .ok ⟨whole, below.setOverlay handle overlay⟩
      | _ => exact .ok ⟨whole, below⟩
    | _ => exact .ok ⟨whole, below⟩
  | _ => exact .ok ⟨whole, below⟩

end Registry.Below

end AvroGraph
