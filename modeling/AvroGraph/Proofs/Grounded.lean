import AvroGraph.Proofs.Growth

/-!
# Grounded schemas

A schema is grounded in a registry when every handle in it has an entry of its kind and the box
of a union stands nowhere in it. An entry is grounded when its parts are, and a registry is
closed when all its entries are. All of this lasts as long as entries keep their kinds
(`Registry.KeepsKinds`), which every change of a registry lets them do.
-/

namespace AvroGraph

namespace Registry

/-- The kind of the entry at a handle. -/
def kindAt? (registry : Registry) (handle : Handle) : Option NamedKind :=
  (registry.get? handle).map Entry.kind

/-- Entries stay where they are and keep their kinds. -/
def KeepsKinds (before after : Registry) : Prop :=
  ∀ handle kind, before.kindAt? handle = some kind → after.kindAt? handle = some kind

variable {before after registry : Registry}

/-- There is a kind at a handle if there is an entry of it. -/
theorem kindAt?_eq_some {handle : Handle} {kind : NamedKind} :
    registry.kindAt? handle = some kind ↔
      ∃ entry, registry.get? handle = some entry ∧ entry.kind = kind := by
  simp [kindAt?]

/-- A registry keeps its own kinds. -/
theorem KeepsKinds.refl (registry : Registry) : registry.KeepsKinds registry :=
  fun _ _ kept => kept

/-- What keeps kinds twice keeps them. -/
theorem KeepsKinds.trans {middle : Registry} (first : before.KeepsKinds middle)
    (second : middle.KeepsKinds after) : before.KeepsKinds after :=
  fun handle kind kept => second handle kind (first handle kind kept)

/-- A registry that grows keeps its kinds. -/
theorem Grows.keepsKinds (grows : before.Grows after) : before.KeepsKinds after := by
  intro handle kind known
  obtain ⟨entry, found, same⟩ := kindAt?_eq_some.1 known
  obtain ⟨grown, foundAfter, growth⟩ := grows.entry handle entry (lt_size_of_get? found) found
  exact kindAt?_eq_some.2 ⟨grown, foundAfter, growth.kind_eq.trans same⟩

end Registry

/-- Entries of the same kind are abstract bases or not alike. -/
theorem Entry.isAbstractBase_of_kind {entry other : Entry} (same : entry.kind = other.kind) :
    entry.isAbstractBase = other.isAbstractBase := by
  cases entry <;> cases other <;> first | rfl | cases same

/-- A change of entries that leaves names, kinds and abstract bases alone. -/
structure Entry.Amends (change : Entry → Entry) : Prop where
  name : ∀ entry, (change entry).name = entry.name
  kind : ∀ entry, (change entry).kind = entry.kind
  base : ∀ base, change (.abstractBase base) = .abstractBase base

namespace Registry

variable {before after registry : Registry}

/-- A registry after such a change of one entry. -/
def Amended (before after : Registry) : Prop :=
  ∃ handle change, Entry.Amends change ∧ after = before.update handle change

/-- To give a record its fields is to amend. -/
theorem amended_setFields (handle : Handle) (fields : List Field) :
    registry.Amended (registry.setFields handle fields) := by
  refine ⟨handle, _, ⟨fun entry => ?_, fun entry => ?_, fun _ => rfl⟩, rfl⟩ <;> cases entry <;> rfl

/-- To give a protocol its types and messages is to amend. -/
theorem amended_setProtocol (handle : Handle) (types : List Schema) (messages : List Message) :
    registry.Amended (registry.setProtocol handle types messages) := by
  refine ⟨handle, _, ⟨fun entry => ?_, fun entry => ?_, fun _ => rfl⟩, rfl⟩ <;> cases entry <;> rfl

/-- To give a fixed type its logical type is to amend. -/
theorem amended_setOverlay (handle : Handle) (overlay : LogicalType) :
    registry.Amended (registry.setOverlay handle overlay) := by
  refine ⟨handle, _, ⟨fun entry => ?_, fun entry => ?_, fun _ => rfl⟩, rfl⟩ <;> cases entry <;> rfl

/-- To link a record to a base is to amend. -/
theorem amended_addBase (handle base : Handle) :
    registry.Amended (registry.addBase handle base) := by
  refine ⟨handle, _, ⟨fun entry => ?_, fun entry => ?_, fun _ => rfl⟩, rfl⟩ <;> cases entry <;>
    dsimp only <;> split <;> rfl

/-- Where a schema is annotated, an entry keeps the logical type or the registry stays as it is. -/
theorem eq_or_setOverlay_of_annotate {declaresFixed : Bool} {inner schema : Schema} {name : String}
    {overlay : Except Reason (Option LogicalType)}
    (annotated : registry.annotate declaresFixed inner name overlay = .ok (schema, after)) :
    after = registry ∨ ∃ handle known, after = registry.setOverlay handle known := by
  obtain ⟨_, _, rfl⟩ | ⟨known, _, _, _, rfl⟩ := annotate_eq_ok.1 annotated
  · exact .inl rfl
  · unfold keepOverlay
    split
    · split
      · exact .inr ⟨_, known, rfl⟩
      · exact .inl rfl
    · exact .inl rfl

/-- A logical type over a type leaves the registry as it is, or amends it. -/
theorem eq_or_amended_of_annotate {declaresFixed : Bool} {inner schema : Schema} {name : String}
    {overlay : Except Reason (Option LogicalType)}
    (annotated : registry.annotate declaresFixed inner name overlay = .ok (schema, after)) :
    after = registry ∨ registry.Amended after := by
  obtain rfl | ⟨handle, known, rfl⟩ := eq_or_setOverlay_of_annotate annotated
  · exact .inl rfl
  · exact .inr (amended_setOverlay handle known)

namespace Amended

/-- Amendments leave kinds alone. -/
theorem kindAt?_eq (amended : before.Amended after) (handle : Handle) :
    after.kindAt? handle = before.kindAt? handle := by
  obtain ⟨changed, change, amends, rfl⟩ := amended
  rw [kindAt?, get?_update, kindAt?]
  split
  · cases before.get? handle <;> simp [amends.kind]
  · rfl

/-- Amendments keep the kinds of entries. -/
theorem keepsKinds (amended : before.Amended after) : before.KeepsKinds after :=
  fun handle _ known => (amended.kindAt?_eq handle).trans known

/-- Amendments leave alone which base was made for a slot. -/
theorem baseOf?_eq (amended : before.Amended after) (owner : Name) (slot : String) :
    after.baseOf? owner slot = before.baseOf? owner slot := by
  obtain ⟨_, _, _, rfl⟩ := amended
  rfl

/-- Amendments leave the names of entries alone. -/
theorem names_eq (amended : before.Amended after) :
    after.entries.map Entry.name = before.entries.map Entry.name := by
  obtain ⟨changed, change, amends, rfl⟩ := amended
  refine List.ext_getElem? fun index => ?_
  simp only [update, List.getElem?_map, List.getElem?_modify]
  split
  · cases before.entries[index]? <;> simp [amends.name]
  · cases before.entries[index]? <;> rfl

/-- Abstract bases are the same before and after. -/
theorem get?_base_iff (amended : before.Amended after) {handle : Handle} {body : AbstractBase} :
    after.get? handle = some (.abstractBase body) ↔
      before.get? handle = some (.abstractBase body) := by
  obtain ⟨changed, change, amends, rfl⟩ := amended
  rw [get?_update]
  split
  · constructor
    · intro found
      obtain ⟨entry, isEntry, same⟩ := Option.map_eq_some_iff.1 found
      have kind : entry.kind = .abstractBase := by rw [← amends.kind, same, Entry.kind]
      cases entry with
      | abstractBase old => rwa [← same, amends.base]
      | _ => cases kind
    · intro found
      rw [found, Option.map_some, amends.base]
  · exact Iff.rfl

end Amended

/-- Whatever becomes of a logical type, kinds are kept. -/
theorem keepsKinds_annotate {declaresFixed : Bool} {inner schema : Schema} {name : String}
    {overlay : Except Reason (Option LogicalType)}
    (annotated : registry.annotate declaresFixed inner name overlay = .ok (schema, after)) :
    registry.KeepsKinds after := by
  obtain rfl | amended := eq_or_amended_of_annotate annotated
  · exact .refl after
  · exact amended.keepsKinds

/-- What such changes keep is kept where records are made to derive from a base. -/
theorem keep_addBases (kept : Registry → Prop)
    (amend : ∀ {before after}, kept before → before.Amended after → kept after)
    (handles : List Handle) (base : Handle) (start : kept registry) :
    kept (handles.foldl (fun result record => result.addBase record base) registry) := by
  induction handles generalizing registry with
  | nil => exact start
  | cons head rest ih => exact ih (amend start (amended_addBase head base))

/-- Abstract bases are the same before and after records are made to derive from one. -/
theorem get?_addBases_base (registry : Registry) {handles : List Handle} {base handle : Handle}
    {body : AbstractBase} :
    (handles.foldl (fun result record => result.addBase record base) registry).get? handle =
        some (.abstractBase body) ↔
      registry.get? handle = some (.abstractBase body) :=
  keep_addBases (fun result => result.get? handle = some (.abstractBase body) ↔
      registry.get? handle = some (.abstractBase body))
    (fun same amended => amended.get?_base_iff.trans same) handles base Iff.rfl

/-- Links to a base leave alone which base was made for a slot. -/
theorem baseOf?_addBases {handles : List Handle} {base : Handle} (owner : Name) (slot : String) :
    (handles.foldl (fun result record => result.addBase record base) registry).baseOf? owner slot =
      registry.baseOf? owner slot :=
  keep_addBases (fun result => result.baseOf? owner slot = registry.baseOf? owner slot)
    (fun same amended => (amended.baseOf?_eq owner slot).trans same) handles base rfl

/-- A base is remembered for its own slot and for no other. -/
theorem baseOf?_rememberBase {owner other : Name} {slot name : String} {base : Handle} :
    (registry.rememberBase owner slot base).baseOf? other name =
      if (other, name) = (owner, slot) then some base else registry.baseOf? other name := by
  rw [baseOf?, rememberBase, List.lookup_cons]
  by_cases same : (other, name) = (owner, slot)
  · simp [same]
  · rw [if_neg same, beq_eq_false_iff_ne.2 same, baseOf?]

/-- Every base remembered for a slot is there, and was made for that slot. -/
def KnowsBases (registry : Registry) : Prop :=
  ∀ owner slot base, registry.baseOf? owner slot = some base →
    ∃ body, registry.get? base = some (.abstractBase body) ∧ body.owner = owner ∧
      body.slot = slot

section

variable {owner : Name} {slot : String} {branches : List Schema} {base : Handle}

/-- The base that a slot is given is the one remembered for it. -/
theorem baseOf?_synthesizeBase
    (made : registry.synthesizeBase owner slot branches = .ok (base, after)) :
    after.baseOf? owner slot = some base := by
  obtain ⟨known, rfl⟩ | ⟨-, registered, register, rfl⟩ := synthesizeBase_cases made
  · exact known
  · rw [baseOf?_addBases, baseOf?_rememberBase, if_pos rfl]

/-- Other slots keep what is remembered for them. -/
theorem baseOf?_synthesizeBase_of_ne {other : Name} {name : String}
    (different : (other, name) ≠ (owner, slot))
    (made : registry.synthesizeBase owner slot branches = .ok (base, after)) :
    after.baseOf? other name = registry.baseOf? other name := by
  obtain ⟨-, rfl⟩ | ⟨-, registered, register, rfl⟩ := synthesizeBase_cases made
  · rfl
  · rw [baseOf?_addBases, baseOf?_rememberBase, if_neg different, baseOf?_register register]

/-- A base that is made new stands behind all entries, made for the branches of its slot. -/
theorem get?_synthesizeBase (fresh : registry.baseOf? owner slot = none)
    (made : registry.synthesizeBase owner slot branches = .ok (base, after)) :
    after.get? base = some (.abstractBase
      ⟨registry.freeBaseName (AbstractBase.nameFor owner slot), owner, slot, branches⟩) := by
  obtain ⟨registered, register, rfl⟩ := (synthesizeBase_eq_ok fresh).1 made
  refine (get?_addBases_base (registered.rememberBase owner slot base)).2 ?_
  exact (get?_register register base).trans (if_pos (handle_register register))

end

/-- Links to a base leave as many entries as there were. -/
theorem size_addBases (handles : List Handle) (base : Handle) :
    (handles.foldl (fun result record => result.addBase record base) registry).size =
      registry.size := by
  induction handles generalizing registry with
  | nil => rfl
  | cons head rest ih =>
    rw [List.foldl_cons, ih, addBase, size_update]

/-- All that a slot adds to a registry is an abstract base. -/
theorem isAbstractBase_of_slot {options : Options} {owner : Name} {name : String}
    {declared : Schema} {slot : Slot}
    (filled : registry.slot options owner name declared = .ok (slot, after)) {handle : Handle}
    {entry : Entry} (found : after.get? handle = some entry) (new : registry.size ≤ handle) :
    entry.isAbstractBase = true := by
  have bound := lt_size_of_get? found
  obtain rfl | ⟨-, base, registered, register, rfl⟩ := slot_cases filled
  · exact absurd bound (Nat.not_lt.2 new)
  · have isBase := get?_registered register
    have size : ((recordHandles declared.branches).foldl
        (fun result record => result.addBase record base)
        (registered.rememberBase owner name base)).size = registry.size + 1 := by
      rw [size_addBases, ← size_register register]
      rfl
    rw [size] at bound
    have same : handle = base :=
      (Nat.le_antisymm (Nat.le_of_lt_succ bound) new).trans (handle_register register).symm
    rw [same, (get?_addBases_base (registered.rememberBase owner name base)).2 isBase] at found
    cases found
    rfl

end Registry

namespace Schema

mutual

/-- Every handle of a schema has an entry of its kind, and no part of it is the box. The type
that represents a union does not count as a part. -/
def Grounded (registry : Registry) : Schema → Prop
  | .primitive _ => True
  | .named kind handle => registry.kindAt? handle = some kind
  | .array items => items.Grounded registry
  | .map values => values.Grounded registry
  | .union branches _ _ => AllGrounded registry branches
  | .logical underlying _ => underlying.Grounded registry
  | .boxed => False

/-- Every schema of a list is grounded. -/
def AllGrounded (registry : Registry) : List Schema → Prop
  | [] => True
  | schema :: rest => schema.Grounded registry ∧ AllGrounded registry rest

end

/-- Schemas in a row are grounded if each of them is. -/
theorem allGrounded_iff {registry : Registry} {schemas : List Schema} :
    AllGrounded registry schemas ↔ ∀ schema ∈ schemas, schema.Grounded registry := by
  induction schemas with
  | nil => simp [AllGrounded]
  | cons schema rest ih => simp [AllGrounded, ih]

variable {before after registry : Registry}

mutual

/-- A schema stays grounded while entries keep their kinds. -/
theorem Grounded.mono (keeps : before.KeepsKinds after) :
    (schema : Schema) → schema.Grounded before → schema.Grounded after
  | .primitive _, _ => trivial
  | .named kind handle, grounded => keeps handle kind grounded
  | .array items, grounded => Grounded.mono keeps items grounded
  | .map values, grounded => Grounded.mono keeps values grounded
  | .union branches _ _, grounded => AllGrounded.mono keeps branches grounded
  | .logical underlying _, grounded => Grounded.mono keeps underlying grounded
  | .boxed, grounded => grounded

/-- Schemas in a row stay grounded while entries keep their kinds. -/
theorem AllGrounded.mono (keeps : before.KeepsKinds after) :
    (schemas : List Schema) → AllGrounded before schemas → AllGrounded after schemas
  | [], _ => trivial
  | schema :: rest, grounded =>
    ⟨Grounded.mono keeps schema grounded.1, AllGrounded.mono keeps rest grounded.2⟩

end

/-- The entry at a handle is what its own schema refers to. -/
theorem grounded_toSchema {handle : Handle} {entry : Entry}
    (found : registry.get? handle = some entry) : (entry.toSchema handle).Grounded registry := by
  have named : (named entry.kind handle).Grounded registry :=
    Registry.kindAt?_eq_some.2 ⟨entry, found, rfl⟩
  cases entry with
  | fixed fixedType =>
    simp only [Entry.toSchema]
    cases fixedType.overlay <;> exact named
  | _ => exact named

/-- A reference is linked to an entry that is there. -/
theorem grounded_reference {around : Option String} {text : String} {schema : Schema}
    (resolved : registry.reference around text = .ok schema) : schema.Grounded registry := by
  obtain ⟨_, _, rfl⟩ | ⟨_, _, handle, _, _, schemaOf⟩ := Registry.reference_eq_ok.1 resolved
  · trivial
  · obtain ⟨entry, found, rfl⟩ := Option.map_eq_some_iff.1 schemaOf
    exact grounded_toSchema found

/-- To take a logical type away leaves a schema grounded. -/
theorem grounded_bare {schema : Schema} (grounded : schema.Grounded registry) :
    schema.bare.Grounded registry := by
  cases schema with
  | logical underlying overlay =>
    rw [bare]
    split <;> exact grounded
  | _ => exact grounded

/-- The type of a slot is grounded where the bases of slots are known. -/
theorem grounded_slot {options : Options} {owner : Name} {name : String} {declared : Schema}
    {slot : Slot} (grounded : declared.Grounded registry) (knows : after.KnowsBases)
    (resolved : registry.slot options owner name declared = .ok (slot, after)) :
    slot.declared.Grounded after := by
  rw [Registry.slot_eq_ok] at resolved
  split at resolved
  · obtain ⟨base, made, rfl⟩ := resolved
    obtain ⟨body, found, _⟩ := knows owner name base (Registry.baseOf?_synthesizeBase made)
    exact Registry.kindAt?_eq_some.2 ⟨_, found, rfl⟩
  · obtain ⟨rfl, rfl⟩ := resolved
    exact grounded

/-- A logical type leaves a grounded schema grounded, whether or not an entry keeps it. -/
theorem grounded_annotate {declaresFixed : Bool} {inner schema : Schema} {name : String}
    {overlay : Except Reason (Option LogicalType)} (grounded : inner.Grounded registry)
    (annotated : registry.annotate declaresFixed inner name overlay = .ok (schema, after)) :
    schema.Grounded after := by
  have kept : inner.bare.Grounded after :=
    (grounded_bare grounded).mono (Registry.keepsKinds_annotate annotated)
  obtain ⟨_, rfl, _⟩ | ⟨_, _, _, rfl, _⟩ := Registry.annotate_eq_ok.1 annotated <;> exact kept

end Schema

/-- The type of a field is grounded. -/
def Field.Grounded (registry : Registry) (field : Field) : Prop :=
  field.declared.Grounded registry

/-- The types of a message are grounded. -/
structure Message.Grounded (registry : Registry) (message : Message) : Prop where
  request : ∀ field ∈ message.request, field.Grounded registry
  response : message.response.Grounded registry
  errors : Schema.AllGrounded registry message.errors

/-- The types of an entry are grounded, and a base is made for records and null alone. -/
def Entry.Grounded (registry : Registry) : Entry → Prop
  | .record body | .error body => ∀ field ∈ body.fields, field.Grounded registry
  | .protocol body =>
    Schema.AllGrounded registry body.types ∧ ∀ message ∈ body.messages, message.Grounded registry
  | .abstractBase base =>
    Schema.AllGrounded registry base.derived ∧
      ∀ branch ∈ base.derived, branch.isRecord = true ∨ branch.isNull = true
  | .enum _ | .fixed _ => True

/-- Every entry is grounded. -/
def Registry.Closed (registry : Registry) : Prop :=
  ∀ handle entry, registry.get? handle = some entry → entry.Grounded registry

section

variable {before after registry : Registry}

/-- A message stays grounded where kinds are kept. -/
theorem Message.Grounded.mono {message : Message} (keeps : before.KeepsKinds after)
    (grounded : message.Grounded before) : message.Grounded after where
  request field member := (grounded.request field member).mono keeps
  response := grounded.response.mono keeps
  errors := grounded.errors.mono keeps

/-- An entry stays grounded where kinds are kept. -/
theorem Entry.Grounded.mono {entry : Entry} (keeps : before.KeepsKinds after)
    (grounded : entry.Grounded before) : entry.Grounded after := by
  cases entry with
  | record body | error body => exact fun field member => (grounded field member).mono keeps
  | protocol body =>
    exact ⟨grounded.1.mono keeps, fun message member => (grounded.2 message member).mono keeps⟩
  | abstractBase base => exact ⟨grounded.1.mono keeps, grounded.2⟩
  | enum | fixed => trivial

/-- A changed entry is grounded if it is the change of a grounded one. -/
theorem Registry.Closed.update {change : Entry → Entry} {changed : Handle}
    (closed : registry.Closed) (amends : Entry.Amends change)
    (grounded : ∀ entry, entry.Grounded registry → (change entry).Grounded registry) :
    (registry.update changed change).Closed := by
  have kinds : registry.KeepsKinds (registry.update changed change) :=
    Amended.keepsKinds ⟨changed, change, amends, rfl⟩
  intro handle entry found
  rw [get?_update] at found
  split at found
  · obtain ⟨old, foundOld, rfl⟩ := Option.map_eq_some_iff.1 found
    exact (grounded old (closed handle old foundOld)).mono kinds
  · exact (closed handle entry found).mono kinds

/-- A closed registry stays so when an entry is registered that is grounded in it. -/
theorem Registry.Closed.register {entry : Entry} {handle : Handle} (closed : registry.Closed)
    (grounded : entry.Grounded registry)
    (registered : registry.register entry = .ok (handle, after)) : after.Closed := by
  have kinds : registry.KeepsKinds after := Grows.keepsKinds (keeps_register registered)
  intro other found isFound
  rw [get?_register registered] at isFound
  split at isFound
  · cases isFound
    exact grounded.mono kinds
  · exact (closed other found isFound).mono kinds

end

/-- A node registers an entry for its declaration, before the parts of the declaration are known. -/
inductive Node.Declares (options : Options) : Node → Entry → Prop where
  | record {heading : Heading} {around : Option String} {declaration : Declaration}
      (source : Json) (isError : Bool) (fields : List FieldNode)
      (resolved : heading.resolve options around = .ok declaration) :
      Declares options (.record source isError heading fields) (declaration.recordEntry isError)
  | enum {heading : Heading} {around : Option String} {declaration : Declaration}
      {symbols : List (Option String)} {default : Except Reason (Option String)}
      {enumeration : Enumeration} (source : Json)
      (resolved : heading.resolve options around = .ok declaration)
      (checked : declaration.enumeration options symbols default = .ok enumeration) :
      Declares options (.enum source heading symbols default) (.enum enumeration)
  | fixed {heading : Heading} {around : Option String} {declaration : Declaration}
      {size : Option Nat} {fixedType : FixedType} (source : Json)
      (resolved : heading.resolve options around = .ok declaration)
      (sized : declaration.fixedType size = .ok fixedType) :
      Declares options (.fixed source heading size) (.fixed fixedType)
  | protocol {heading : Heading} {around : Option String} {declaration : Declaration}
      (source : Json) (types : List Node) (messages : List MessageNode)
      (resolved : heading.resolve options around = .ok declaration) :
      Declares options (.protocol source heading types messages) (.protocol declaration.protocol)

namespace Node.Declares

variable {options : Options} {node : Node} {entry : Entry}

/-- Nodes do not declare abstract bases. -/
theorem isAbstractBase (declares : node.Declares options entry) :
    entry.isAbstractBase = false := by
  cases declares with
  | record _ isError => cases isError <;> rfl
  | _ => rfl

/-- What a node declares is grounded in any registry, since it has nothing inside yet. -/
theorem grounded (declares : node.Declares options entry) (registry : Registry) :
    entry.Grounded registry := by
  cases declares with
  | record _ isError => cases isError <;> exact fun _ member => absurd member List.not_mem_nil
  | protocol => exact ⟨trivial, fun _ member => absurd member List.not_mem_nil⟩
  | enum | fixed => trivial

end Node.Declares

end AvroGraph
