import AvroGraph.Proofs.Linked
import AvroGraph.Proofs.SlotBases

/-!
# Erasure of abstract bases

What is left of a registry without its abstract bases: the declarations, with every handle
counting declarations alone and every base in a type replaced by the union it was made for.
Changes of a registry that bring in no base, and lookups that find none, are the same after
erasure.
-/

namespace AvroGraph

/-- The same policies, without abstract bases. -/
abbrev Options.withoutBases (options : Options) : Options :=
  { options with synthesizeBases := false }

/-- An entry that is not referred to as a base is a declaration. -/
theorem Entry.isAbstractBase_of_toSchema {entry : Entry} {handle : Handle}
    (noBase : ∀ base, entry.toSchema handle ≠ .named .abstractBase base) :
    entry.isAbstractBase = false := by
  cases entry with
  | abstractBase => exact absurd rfl (noBase handle)
  | _ => rfl

/-- The number of declarations before a handle. -/
def Registry.rank (registry : Registry) (handle : Handle) : Handle :=
  ((registry.entries.map Entry.kind).take handle).countP (· ≠ .abstractBase)

section

variable (whole : Registry) (options : Options)

/-- A branch of a base, with its handle counting declarations alone. -/
def Schema.rerank : Schema → Schema
  | .named kind handle => .named kind (whole.rank handle)
  | schema => schema

/-- The union that a base was made for. -/
def Registry.eraseBase (base : Handle) : Schema :=
  match whole.get? base with
  | some (.abstractBase body) =>
    .ofBranches options.withoutBases (body.derived.map (Schema.rerank whole))
  | _ => .named .abstractBase (whole.rank base)

mutual

/-- A schema without bases. -/
def Schema.erase : Schema → Schema
  | .primitive type => .primitive type
  | .named .abstractBase base => whole.eraseBase options base
  | .named kind handle => .named kind (whole.rank handle)
  | .array items => .array items.erase
  | .map values => .map values.erase
  | .union branches underlying nullable =>
    .union (eraseEach branches) underlying.erase nullable
  | .logical underlying overlay => .logical underlying.erase overlay
  | .boxed => .boxed

/-- Schemas without bases. -/
def eraseEach : List Schema → List Schema
  | [] => []
  | schema :: rest => schema.erase :: eraseEach rest

end

/-- A field without bases. A default of a union has a remark of its own. -/
def Field.erase (field : Field) : Field :=
  let declared := field.declared.erase whole options
  { field with
    declared
    underlying := declared.underlying
    nullable := declared.isNullable
    remarks :=
      match field.declared with
      | .named .abstractBase _ =>
        field.default.bind fun _ => (DefaultLiteral.unsupported declared.kind).remark?
      | _ => field.remarks }

/-- A message without bases. -/
def Message.erase (message : Message) : Message :=
  let response := message.response.erase whole options
  { message with
    request := message.request.map (Field.erase whole options)
    response
    responseUnderlying := response.underlying
    responseNullable := response.isNullable
    errors := eraseEach whole options message.errors }

/-- A record without bases. -/
def Record.erase (body : Record) : Record :=
  { body with fields := body.fields.map (Field.erase whole options), bases := [] }

/-- A declaration without bases. -/
def Entry.erase : Entry → Entry
  | .record body => .record (body.erase whole options)
  | .error body => .error (body.erase whole options)
  | .protocol body => .protocol { body with
      types := eraseEach whole options body.types
      messages := body.messages.map (Message.erase whole options) }
  | entry => entry

end

/-- The names of the declarations, without those of bases. -/
def Registry.eraseIndex (whole : Registry) (index : List (Name × Handle)) : List (Name × Handle) :=
  index.filterMap fun indexed =>
    if whole.kindAt? indexed.2 = some .abstractBase then none
    else some (indexed.1, whole.rank indexed.2)

/-- The declarations of a registry and their names, without bases. -/
def Registry.erase (registry whole : Registry) (options : Options) : Registry where
  entries := (registry.entries.filter (!·.isAbstractBase)).map (Entry.erase whole options)
  index := whole.eraseIndex registry.index
  bases := []

variable {whole registry after : Registry} {options : Options} {handle : Handle}
  {entry erased : Entry}

/-- Erasure leaves an entry its name. -/
@[simp]
theorem Entry.name_erase (whole : Registry) (options : Options) (entry : Entry) :
    (entry.erase whole options).name = entry.name := by
  cases entry <;> rfl

/-- Erasure makes no entry an abstract base and keeps those that are. -/
@[simp]
theorem Entry.isAbstractBase_erase (whole : Registry) (options : Options) (entry : Entry) :
    (entry.erase whole options).isAbstractBase = entry.isAbstractBase := by
  cases entry <;> rfl

/-- What refers to a declaration refers to it after erasure. -/
theorem Entry.toSchema_erase (isDeclared : entry.isAbstractBase = false) (handle : Handle) :
    (entry.erase whole options).toSchema (whole.rank handle) =
      (entry.toSchema handle).erase whole options := by
  cases entry with
  | fixed fixedType =>
    simp only [erase, toSchema]
    cases fixedType.overlay <;> simp [Schema.erase]
  | abstractBase => cases isDeclared
  | _ => simp [erase, toSchema, kind, Schema.erase]

/-- A change at the length of what stands before an item is a change of that item. -/
theorem modify_length_append {α : Type} (before : List α) (item : α) (behind : List α)
    (change : α → α) :
    (before ++ item :: behind).modify before.length change = before ++ change item :: behind := by
  rw [List.modify_eq_take_cons_drop (by simp)]
  simp

namespace Registry

/-- Ranks agree as far as two registries do. -/
theorem rank_eq (keeps : registry.KeepsKinds whole) (bound : handle ≤ registry.size) :
    whole.rank handle = registry.rank handle := by
  have same : (whole.entries.map Entry.kind).take handle =
      (registry.entries.map Entry.kind).take handle := by
    refine List.ext_getElem? fun index => ?_
    by_cases below : index < handle
    · rw [List.getElem?_take_of_lt below, List.getElem?_take_of_lt below]
      obtain ⟨entry, found⟩ := exists_get? (Nat.lt_of_lt_of_le below bound)
      have known : registry.kindAt? index = some entry.kind :=
        kindAt?_eq_some.2 ⟨entry, found, rfl⟩
      rw [List.getElem?_map, List.getElem?_map]
      exact (keeps index _ known).trans known.symm
    · rw [List.getElem?_eq_none (by simp; omega), List.getElem?_eq_none (by simp; omega)]
  rw [rank, rank, same]

/-- The declarations before a handle, counted. -/
theorem length_declarations_before (registry : Registry) (handle : Handle) :
    ((registry.entries.take handle).filter (!·.isAbstractBase)).length = registry.rank handle := by
  rw [rank, ← List.map_take, List.countP_map, List.countP_eq_length_filter]
  congr 1
  refine List.filter_congr fun entry _ => ?_
  cases entry <;> rfl

/-- The entries before a handle, the entry at it and those after it. -/
theorem entries_split (found : registry.get? handle = some entry) :
    registry.entries = registry.entries.take handle ++
      entry :: registry.entries.drop (handle + 1) := by
  obtain ⟨bound, rfl⟩ := List.getElem?_eq_some_iff.1 found
  rw [← List.drop_eq_getElem_cons bound, List.take_append_drop]

/-- The declarations around a declaration, after erasure. -/
theorem entries_erase_split (whole : Registry) (options : Options) (found : registry.get? handle = some entry)
    (isDeclared : entry.isAbstractBase = false) :
    (registry.erase whole options).entries =
      ((registry.entries.take handle).filter (!·.isAbstractBase)).map (Entry.erase whole options) ++
        entry.erase whole options ::
        ((registry.entries.drop (handle + 1)).filter (!·.isAbstractBase)).map
          (Entry.erase whole options) := by
  have split := congrArg (List.filter (!·.isAbstractBase)) (entries_split found)
  rw [List.filter_append, List.filter_cons_of_pos (by simp [isDeclared])] at split
  rw [erase, split, List.map_append, List.map_cons]

/-- A declaration stands at its rank after erasure. -/
theorem get?_erase (options : Options) (keeps : registry.KeepsKinds whole)
    (found : registry.get? handle = some entry)
    (isDeclared : entry.isAbstractBase = false) :
    (registry.erase whole options).get? (whole.rank handle) = some (entry.erase whole options) := by
  have rank := rank_eq keeps (Nat.le_of_lt (lt_size_of_get? found))
  rw [get?, entries_erase_split whole options found isDeclared, rank, ← length_declarations_before,
    ← List.length_map (Entry.erase whole options), List.getElem?_append_right (Nat.le_refl _)]
  simp

/-- A change of a declaration, before or after erasure. -/
theorem erase_update {change changeErased : Entry → Entry} (keeps : registry.KeepsKinds whole)
    (found : registry.get? handle = some entry) (isDeclared : entry.isAbstractBase = false)
    (stays : (change entry).isAbstractBase = false)
    (same : (change entry).erase whole options = changeErased (entry.erase whole options)) :
    (registry.update handle change).erase whole options =
      (registry.erase whole options).update (whole.rank handle) changeErased := by
  have rank := rank_eq keeps (Nat.le_of_lt (lt_size_of_get? found))
  have changed : (registry.update handle change).get? handle = some (change entry) := by
    rw [get?_update, if_pos rfl, found, Option.map_some]
  have before : (registry.update handle change).entries.take handle =
      registry.entries.take handle := by
    rw [update, List.take_modify, List.modify_eq_self (List.length_take_le _ _)]
  have behind : (registry.update handle change).entries.drop (handle + 1) =
      registry.entries.drop (handle + 1) :=
    List.drop_modify_of_lt _ _ _ _ (Nat.lt_succ_self handle)
  have split := entries_erase_split whole options changed stays
  rw [before, behind, same] at split
  rw [Registry.mk.injEq]
  refine ⟨split.trans ?_, rfl, rfl⟩
  simp only [update]
  rw [entries_erase_split whole options found isDeclared, rank, ← length_declarations_before,
    ← List.length_map (Entry.erase whole options), modify_length_append]

/-- A change that erasure undoes. -/
theorem erase_update_of_eq {change : Entry → Entry}
    (same : ∀ entry, (change entry).erase whole options = entry.erase whole options) :
    (registry.update handle change).erase whole options = registry.erase whole options := by
  have stays (entry : Entry) : (change entry).isAbstractBase = entry.isAbstractBase := by
    rw [← Entry.isAbstractBase_erase whole options, same,
      Entry.isAbstractBase_erase]
  rw [erase, erase, Registry.mk.injEq]
  exact ⟨map_declarations_update stays same registry handle, rfl, rfl⟩

/-- An indexed name is dropped with its base or keeps its declaration. -/
theorem eraseIndex_cons (name : Name) (rest : List (Name × Handle)) :
    whole.eraseIndex ((name, handle) :: rest) =
      if whole.kindAt? handle = some .abstractBase then whole.eraseIndex rest
      else (name, whole.rank handle) :: whole.eraseIndex rest := by
  rw [eraseIndex, List.filterMap_cons]
  split_ifs <;> rfl

/-- A name that is not indexed is not indexed after erasure. -/
theorem lookup_eraseIndex_eq_none {index : List (Name × Handle)} {name : Name}
    (free : index.lookup name = none) : (whole.eraseIndex index).lookup name = none := by
  induction index with
  | nil => rfl
  | cons head rest ih =>
    rw [List.lookup_cons] at free
    split at free
    · cases free
    · next different =>
      rw [eraseIndex_cons]
      split_ifs
      · exact ih free
      · rw [List.lookup_cons, different]
        exact ih free

/-- A name that is indexed for a declaration is indexed for its rank after erasure. -/
theorem lookup_eraseIndex_eq_some {index : List (Name × Handle)} {name : Name}
    (isFound : index.lookup name = some handle)
    (isDeclared : whole.kindAt? handle ≠ some .abstractBase) :
    (whole.eraseIndex index).lookup name = some (whole.rank handle) := by
  induction index with
  | nil => cases isFound
  | cons head rest ih =>
    rw [List.lookup_cons] at isFound
    split at isFound
    · next same =>
      cases isFound
      rw [eraseIndex_cons, if_neg isDeclared, List.lookup_cons, same]
    · next different =>
      rw [eraseIndex_cons]
      split_ifs
      · exact ih isFound
      · rw [List.lookup_cons, different]
        exact ih isFound

/-- What is a declaration in one registry is none of the bases in a later one. -/
theorem kindAt?_ne_abstractBase (keeps : registry.KeepsKinds whole)
    (found : registry.get? handle = some entry) (isDeclared : entry.isAbstractBase = false) :
    whole.kindAt? handle ≠ some .abstractBase := by
  rw [keeps handle entry.kind (kindAt?_eq_some.2 ⟨entry, found, rfl⟩)]
  cases entry with
  | abstractBase => cases isDeclared
  | _ => simp [Entry.kind]

/-- A name that finds a declaration finds it after erasure. -/
theorem find?_erase_eq_some {name : Name} (keeps : registry.KeepsKinds whole)
    (isFound : registry.find? name = some handle) (found : registry.get? handle = some entry)
    (isDeclared : entry.isAbstractBase = false) :
    (registry.erase whole options).find? name = some (whole.rank handle) :=
  lookup_eraseIndex_eq_some isFound (kindAt?_ne_abstractBase keeps found isDeclared)

/-! ## Changes and lookups -/

/-- There are as many entries after erasure as there are declarations. -/
theorem size_erase (keeps : registry.KeepsKinds whole) :
    (registry.erase whole options).size = whole.rank registry.size := by
  rw [rank_eq keeps (Nat.le_refl _), ← length_declarations_before, size, erase, size,
    List.take_length, List.length_map]

/-- A declaration is registered at its rank after erasure. -/
theorem register_erase (options : Options) (isDeclared : entry.isAbstractBase = false)
    (registered : registry.register entry = .ok (handle, after)) (keeps : after.KeepsKinds whole) :
    (registry.erase whole options).register (entry.erase whole options) =
      .ok (whole.rank handle, after.erase whole options) := by
  have kept : registry.KeepsKinds whole :=
    (Grows.keepsKinds (keeps_register registered)).trans keeps
  have declared := kindAt?_ne_abstractBase keeps (get?_registered registered) isDeclared
  obtain ⟨free, rfl, rfl⟩ := register_eq_ok.1 registered
  refine register_eq_ok.2 ⟨?_, (size_erase kept).symm, ?_⟩
  · rw [Entry.name_erase]
    exact lookup_eraseIndex_eq_none free
  · rw [Entry.name_erase, size_erase kept]
    simp [erase, eraseIndex_cons, List.filter_append, isDeclared, declared]

/-- A record that is given its fields is given them after erasure. -/
theorem setFields_erase {fields : List Field} {body : Record} {isError : Bool}
    (keeps : registry.KeepsKinds whole)
    (found : registry.get? handle = some (if isError then .error body else .record body)) :
    (registry.setFields handle fields).erase whole options =
      (registry.erase whole options).setFields (whole.rank handle)
        (fields.map (Field.erase whole options)) := by
  cases isError <;> exact erase_update keeps found rfl rfl rfl

/-- A protocol that is given its types and its messages is given them after erasure. -/
theorem setProtocol_erase {types : List Schema} {messages : List Message} {body : Protocol}
    (keeps : registry.KeepsKinds whole) (found : registry.get? handle = some (.protocol body)) :
    (registry.setProtocol handle types messages).erase whole options =
      (registry.erase whole options).setProtocol (whole.rank handle)
        (eraseEach whole options types) (messages.map (Message.erase whole options)) :=
  erase_update keeps found rfl rfl rfl

/-- A fixed type that is given its logical type is given it after erasure. -/
theorem setOverlay_erase {overlay : LogicalType} {fixedType : FixedType}
    (keeps : registry.KeepsKinds whole) (found : registry.get? handle = some (.fixed fixedType)) :
    (registry.setOverlay handle overlay).erase whole options =
      (registry.erase whole options).setOverlay (whole.rank handle) overlay :=
  erase_update keeps found rfl rfl rfl

/-- Deriving from a base leaves no trace among declarations. -/
theorem addBase_erase (base : Handle) :
    (registry.addBase handle base).erase whole options = registry.erase whole options := by
  refine erase_update_of_eq fun entry => ?_
  cases entry with
  | record body => by_cases member : base ∈ body.bases <;> simp [member, Entry.erase, Record.erase]
  | _ => rfl

/-- Deriving from a base leaves no trace among declarations, however many records do. -/
theorem addBases_erase (handles : List Handle) (base : Handle) :
    (handles.foldl (fun result record => result.addBase record base) registry).erase whole options =
      registry.erase whole options := by
  induction handles generalizing registry with
  | nil => rfl
  | cons head rest ih => exact ih.trans (addBase_erase base)

/-- What becomes of a slot leaves no trace among declarations. -/
theorem slot_erase {owner : Name} {name : String} {declared : Schema} {slot : Slot}
    (filled : registry.slot options owner name declared = .ok (slot, after))
    (keeps : after.KeepsKinds whole) : after.erase whole options = registry.erase whole options := by
  obtain rfl | ⟨-, base, registered, register, rfl⟩ := slot_cases filled
  · rfl
  · have made : (registered.rememberBase owner name base).get? base = _ :=
      (get?_registered register :)
    have isBase := keeps base _ (kindAt?_eq_some.2 ⟨_, (get?_addBases_base _).2 made, rfl⟩)
    obtain ⟨-, rfl, rfl⟩ := register_eq_ok.1 register
    refine (addBases_erase _ registry.size).trans ?_
    simp [erase, eraseIndex_cons, rememberBase, List.filter_append, Entry.isAbstractBase, isBase,
      Entry.kind]

/-- A name that finds a declaration from where it stands does so after erasure. -/
theorem findFrom_erase {around : Option String} {text : String} {name : Name}
    (keeps : registry.KeepsKinds whole) (isFound : registry.findFrom around text name = some handle)
    (found : registry.get? handle = some entry) (isDeclared : entry.isAbstractBase = false) :
    (registry.erase whole options).findFrom around text name = some (whole.rank handle) := by
  rw [findFrom] at isFound ⊢
  cases direct : registry.find? name with
  | some other =>
    rw [direct, Option.some_or, Option.some.injEq] at isFound
    subst isFound
    rw [find?_erase_eq_some keeps direct found isDeclared, Option.some_or]
  | none =>
    rw [direct, Option.none_or] at isFound
    have absent : (registry.erase whole options).find? name = none :=
      lookup_eraseIndex_eq_none direct
    rw [absent, Option.none_or]
    split at isFound
    · next undotted =>
      rw [if_pos undotted]
      exact find?_erase_eq_some keeps isFound found isDeclared
    · cases isFound

/-- A reference that is linked to no base is linked alike after erasure. -/
theorem reference_erase {around : Option String} {text : String} {schema : Schema}
    (keeps : registry.KeepsKinds whole) (linked : registry.reference around text = .ok schema)
    (noBase : ∀ base, schema ≠ .named .abstractBase base) :
    (registry.erase whole options).reference around text = .ok (schema.erase whole options) := by
  obtain ⟨primitive, keyword, rfl⟩ | ⟨noKeyword, name, handle, named, isFound, schemaOf⟩ :=
    reference_eq_ok.1 linked
  · exact reference_eq_ok.2 (.inl ⟨primitive, keyword, rfl⟩)
  · obtain ⟨entry, found, rfl⟩ := Option.map_eq_some_iff.1 schemaOf
    have isDeclared := Entry.isAbstractBase_of_toSchema noBase
    refine reference_eq_ok.2 (.inr ⟨noKeyword, name, _, named,
      findFrom_erase keeps isFound found isDeclared, ?_⟩)
    rw [schemaOf?, get?_erase options keeps found isDeclared, Option.map_some,
      Entry.toSchema_erase isDeclared]

end Registry

end AvroGraph
