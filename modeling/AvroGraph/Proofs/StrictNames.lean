import AvroGraph.Proofs.Sound

/-!
# Strict names

To be strict about names refuses documents and changes nothing else: a document is accepted with
strict names exactly when it is accepted without, to the same result, and every name that its
declarations bring in follows the grammar of identifiers (`Document.resolve_strict_iff`).
-/

namespace AvroGraph

/-! ## Names of entries -/

/-- The simple names in an entry: of fields, of messages and their parameters, and of symbols. -/
def Entry.simpleNames : Entry → List String
  | .record body | .error body => body.fields.map Field.name
  | .enum enumeration => enumeration.symbols
  | .protocol body =>
    body.messages.flatMap fun message => message.name :: message.request.map Field.name
  | .fixed _ | .abstractBase _ => []

/-- The names that a declaration brings in follow the grammar of identifiers. Those of abstract
bases are not declared. -/
structure Entry.NamesValid (entry : Entry) : Prop where
  name : entry.isAbstractBase = false → entry.name.validate = .ok ()
  simple : ∀ name ∈ entry.simpleNames, Name.validateSegment name = .ok ()

/-- The names of a message and of its parameters follow the grammar of identifiers. -/
structure Message.NamesValid (message : Message) : Prop where
  name : Name.validateSegment message.name = .ok ()
  request : ∀ field ∈ message.request, Name.validateSegment field.name = .ok ()

namespace Entry

variable {entry other : Entry}

/-- Names that are brought in are those of the entry and of its parts alone. -/
theorem namesValid_congr (name : entry.name = other.name)
    (isBase : entry.isAbstractBase = other.isAbstractBase)
    (simple : entry.simpleNames = other.simpleNames) : entry.NamesValid ↔ other.NamesValid := by
  constructor
  · intro valid
    exact ⟨name ▸ isBase ▸ valid.name, simple ▸ valid.simple⟩
  · intro valid
    exact ⟨name ▸ isBase ▸ valid.name, simple ▸ valid.simple⟩

/-- A record brings in its own name and those of its fields. -/
theorem namesValid_record {body : Record} :
    (record body).NamesValid ↔ body.name.validate = .ok () ∧
      ∀ field ∈ body.fields, Name.validateSegment field.name = .ok () := by
  constructor
  · intro valid
    exact ⟨valid.name rfl, fun field member => valid.simple _ (List.mem_map_of_mem member)⟩
  · rintro ⟨name, fields⟩
    refine ⟨fun _ => name, fun _ member => ?_⟩
    obtain ⟨field, isField, rfl⟩ := List.mem_map.1 member
    exact fields field isField

/-- A protocol brings in its own name and those of its messages and their parameters. -/
theorem namesValid_protocol {body : Protocol} :
    (protocol body).NamesValid ↔ body.name.validate = .ok () ∧
      ∀ message ∈ body.messages, message.NamesValid := by
  constructor
  · intro valid
    refine ⟨valid.name rfl, fun message member => ⟨?_, fun field isField => ?_⟩⟩
    · exact valid.simple _ (List.mem_flatMap.2 ⟨message, member, List.mem_cons_self⟩)
    · exact valid.simple _ (List.mem_flatMap.2
        ⟨message, member, List.mem_cons_of_mem _ (List.mem_map_of_mem isField)⟩)
  · rintro ⟨name, messages⟩
    refine ⟨fun _ => name, fun text member => ?_⟩
    obtain ⟨message, isMessage, among⟩ := List.mem_flatMap.1 member
    rcases List.mem_cons.1 among with rfl | isParameter
    · exact (messages message isMessage).name
    · obtain ⟨field, isField, rfl⟩ := List.mem_map.1 isParameter
      exact (messages message isMessage).request field isField

/-- An abstract base brings in no declared names. -/
theorem namesValid_of_isAbstractBase (isBase : entry.isAbstractBase = true) :
    entry.NamesValid := by
  cases entry with
  | abstractBase body => exact ⟨nofun, nofun⟩
  | _ => cases isBase

/-- An entry that grows brings in no other names. -/
theorem Grows.namesValid_iff {size : Nat} (grows : Grows size entry other) :
    other.NamesValid ↔ entry.NamesValid :=
  namesValid_congr grows.name_eq grows.isAbstractBase_eq (by cases grows <;> rfl)

end Entry

/-! ## Names of registries -/

namespace Registry

variable {registry registered filled before after : Registry} {size : Nat} {handle : Handle}

/-- The entries from a handle on bring in names that follow the grammar. -/
def ValidFrom (size : Nat) (registry : Registry) : Prop :=
  ∀ handle entry, size ≤ handle → registry.get? handle = some entry → entry.NamesValid

/-- There are no entries behind the last one. -/
theorem validFrom_size (registry : Registry) : registry.ValidFrom registry.size :=
  fun _ _ le found => absurd (lt_size_of_get? found) (Nat.not_lt.2 le)

/-- From the first handle on, that is every entry. -/
theorem validFrom_zero : registry.ValidFrom 0 ↔ registry.Every Entry.NamesValid :=
  ⟨fun valid handle entry => valid handle entry (Nat.zero_le handle),
    fun valid handle entry _ => valid handle entry⟩

/-- What grows is valid when it was so before and what is new in it is valid. -/
theorem Grows.validFrom_iff (grows : before.Grows after) (le : size ≤ before.size) :
    after.ValidFrom size ↔ before.ValidFrom size ∧ after.ValidFrom before.size := by
  constructor
  · intro valid
    refine ⟨fun handle entry above found => ?_,
      fun handle entry above => valid handle entry (Nat.le_trans le above)⟩
    obtain ⟨grown, isGrown, growth⟩ := grows.entry handle entry (lt_size_of_get? found) found
    exact growth.namesValid_iff.1 (valid handle grown above isGrown)
  · rintro ⟨valid, new⟩ handle entry above found
    by_cases old : handle < before.size
    · obtain ⟨early, isEarly⟩ := exists_get? old
      obtain ⟨grown, isGrown, growth⟩ := grows.entry handle early old isEarly
      obtain rfl := Option.some.inj (isGrown.symm.trans found)
      exact growth.namesValid_iff.2 (valid handle early above isEarly)
    · exact new handle entry (Nat.not_lt.1 old) found

/-- What is registered brings in the new names. -/
theorem validFrom_register {entry : Entry}
    (register : registry.register entry = .ok (handle, after)) :
    after.ValidFrom registry.size ↔ entry.NamesValid := by
  have place := handle_register register
  have isEntry := get?_registered register
  constructor
  · intro valid
    exact valid handle entry (Nat.le_of_eq place.symm) isEntry
  · intro valid other found above isFound
    have bound := lt_size_of_get? isFound
    rw [size_register register] at bound
    have last : other = handle :=
      (Nat.le_antisymm (Nat.le_of_lt_succ bound) above).trans place.symm
    obtain rfl := Option.some.inj (isEntry.symm.trans (last ▸ isFound))
    exact valid

/-- All that a slot adds is a base. -/
theorem validFrom_slot {options : Options} {owner : Name} {name : String} {declared : Schema}
    {slot : Slot} (filled : registry.slot options owner name declared = .ok (slot, after))
    (le : size ≤ registry.size) : after.ValidFrom size ↔ registry.ValidFrom size := by
  rw [(grows_slot filled).validFrom_iff le]
  refine and_iff_left fun handle entry above found => ?_
  exact Entry.namesValid_of_isAbstractBase (isAbstractBase_of_slot filled found above)

/-- What a message brings in is what its parameters, its response and its errors do. -/
theorem validFrom_message {options : Options} {owner : Name} {name : String} {declared : Schema}
    {slot : Slot} {asked typed answered : Registry} (asks : registry.Grows asked)
    (answers : asked.Grows typed)
    (filled : typed.slot options owner name declared = .ok (slot, answered))
    (fails : answered.Grows after) :
    after.ValidFrom registry.size ↔ asked.ValidFrom registry.size ∧ typed.ValidFrom asked.size ∧
      after.ValidFrom answered.size := by
  have typedLe := (asks.trans answers).size_le
  have answeredLe := Nat.le_trans typedLe (grows_slot filled).size_le
  rw [fails.validFrom_iff answeredLe, validFrom_slot filled typedLe,
    answers.validFrom_iff asks.size_le, and_assoc]

/-- What has to be valid once one entry is changed. -/
theorem validFrom_update {change : Entry → Entry} :
    (registry.update handle change).ValidFrom size ↔ ∀ other entry, size ≤ other →
      registry.get? other = some entry →
      (if handle = other then change entry else entry).NamesValid := by
  constructor
  · intro valid other entry above found
    refine valid other _ above ?_
    rw [get?_update, found]
    split <;> rfl
  · intro valid other entry above found
    rw [get?_update] at found
    split at found
    · next same =>
      obtain ⟨old, isOld, rfl⟩ := Option.map_eq_some_iff.1 found
      simpa only [if_pos same] using valid other old above isOld
    · next different => simpa only [if_neg different] using valid other entry above found

/-- A logical type brings in no names. -/
theorem validFrom_annotate {declaresFixed : Bool} {inner schema : Schema} {name : String}
    {overlay : Except Reason (Option LogicalType)}
    (annotated : registry.annotate declaresFixed inner name overlay = .ok (schema, after)) :
    after.ValidFrom size ↔ registry.ValidFrom size := by
  obtain rfl | ⟨changed, known, rfl⟩ := eq_or_setOverlay_of_annotate annotated
  · exact Iff.rfl
  · rw [setOverlay, validFrom_update]
    refine forall₄_congr fun other entry _ _ => ?_
    split
    · cases entry <;> exact Entry.namesValid_congr rfl rfl rfl
    · exact Iff.rfl

/-- An entry that is changed once others stand behind it. -/
theorem validFrom_update_first {change : Entry → Entry} {entry : Entry}
    (found : registry.get? handle = some entry) :
    (registry.update handle change).ValidFrom handle ↔
      (change entry).NamesValid ∧ registry.ValidFrom (handle + 1) := by
  rw [validFrom_update]
  constructor
  · intro valid
    refine ⟨by simpa using valid handle entry (Nat.le_refl _) found,
      fun other later above isLater => ?_⟩
    simpa only [if_neg (Nat.ne_of_lt above)] using valid other later (Nat.le_of_lt above) isLater
  · rintro ⟨here, later⟩ other old above isOld
    rcases Nat.eq_or_lt_of_le above with rfl | above
    · obtain rfl := Option.some.inj (found.symm.trans isOld)
      simpa using here
    · simpa only [if_neg (Nat.ne_of_lt above)] using later other old above isOld

/-- A record that is given its fields brings in its own name, theirs and those inside them. -/
theorem validFrom_setFields {declaration : Declaration} {isError : Bool} {done : List Field}
    (register : registry.register (declaration.recordEntry isError) = .ok (handle, registered))
    (grows : registered.Grows filled) :
    (filled.setFields handle done).ValidFrom registry.size ↔ declaration.name.validate = .ok () ∧
      (∀ field ∈ done, Name.validateSegment field.name = .ok ()) ∧
      filled.ValidFrom registered.size := by
  have isEntry := get?_registered register
  obtain ⟨entry, found, growth⟩ := grows.entry handle _ (lt_size_of_get? isEntry) isEntry
  have given : Entry.NamesValid (.record { declaration.record with fields := done }) ↔
      declaration.name.validate = .ok () ∧
        ∀ field ∈ done, Name.validateSegment field.name = .ok () := Entry.namesValid_record
  rw [setFields, ← handle_register register, validFrom_update_first found, size_register register,
    handle_register register, ← and_assoc, ← given]
  refine and_congr_left fun _ => ?_
  cases isError with
  | true =>
    obtain rfl := growth.eq_of_kind nofun
    exact Entry.namesValid_congr rfl rfl rfl
  | false =>
    obtain ⟨bases, rfl, -⟩ := growth.record
    exact Entry.namesValid_congr rfl rfl rfl

/-- A protocol that is given its parts brings in its own name, those of its messages and those
inside them. -/
theorem validFrom_setProtocol {body : Protocol} {types : List Schema} {messages : List Message}
    (register : registry.register (.protocol body) = .ok (handle, registered))
    (grows : registered.Grows filled) :
    (filled.setProtocol handle types messages).ValidFrom registry.size ↔
      body.name.validate = .ok () ∧ (∀ message ∈ messages, message.NamesValid) ∧
      filled.ValidFrom registered.size := by
  rw [setProtocol, ← handle_register register,
    validFrom_update_first (Grows.protocol register grows), size_register register,
    handle_register register, ← and_assoc, Entry.namesValid_protocol]

end Registry

/-! ## Checks -/

variable (options : Options)

/-- Options with strict names. -/
abbrev Options.strict : Options :=
  { options with strictNames := true }

/-- Options without strict names. -/
abbrev Options.lax : Options :=
  { options with strictNames := false }

variable {options} {around : Option String} {declaration : Declaration}

/-- Strict names ask of a heading that its name follows the grammar. -/
theorem Heading.resolve_strict {heading : Heading} :
    heading.resolve options.strict around = .ok declaration ↔
      heading.resolve options.lax around = .ok declaration ∧
        declaration.name.validate = .ok () := by
  simp only [resolve_eq_ok, Options.enforce_eq_ok]
  constructor
  · rintro ⟨named, valid, details⟩
    exact ⟨⟨named, nofun, details⟩, valid trivial⟩
  · rintro ⟨⟨named, -, details⟩, valid⟩
    exact ⟨named, fun _ => valid, details⟩

/-- Strict names ask of a simple name that it follows the grammar. -/
theorem Options.checkSimpleName_strict {text : String} :
    options.strict.checkSimpleName text = .ok () ↔
      options.lax.checkSimpleName text = .ok () ∧ Name.validateSegment text = .ok () := by
  simp [checkSimpleName_eq_ok]

/-- Symbols pass strict checks if they pass lax ones and follow the grammar. -/
theorem checkSymbols_strict {done symbols : List String} {nodes : List (Option String)}
    (valid : ∀ symbol ∈ done, Name.validateSegment symbol = .ok ()) :
    checkSymbols options.strict done nodes = .ok symbols ↔
      checkSymbols options.lax done nodes = .ok symbols ∧
        ∀ symbol ∈ symbols, Name.validateSegment symbol = .ok () := by
  induction nodes generalizing done with
  | nil =>
    constructor
    · rintro ⟨⟩
      exact ⟨rfl, valid⟩
    · exact And.left
  | cons node rest ih =>
    cases node with
    | none => exact ⟨nofun, nofun⟩
    | some symbol =>
      have later (isValid : Name.validateSegment symbol = .ok ()) :
          ∀ other ∈ done ++ [symbol], Name.validateSegment other = .ok () :=
        List.forall_mem_append.2 ⟨valid, List.forall_mem_singleton.2 isValid⟩
      rw [checkSymbols_cons_eq_ok, checkSymbols_cons_eq_ok, Options.checkSimpleName_strict]
      constructor
      · rintro ⟨⟨simple, isValid⟩, new, checked⟩
        obtain ⟨checked, allValid⟩ := (ih (later isValid)).1 checked
        exact ⟨⟨simple, new, checked⟩, allValid⟩
      · rintro ⟨⟨simple, new, checked⟩, allValid⟩
        obtain ⟨others, -, rfl⟩ := checkSymbols_eq_ok checked
        have isValid := allValid symbol (by simp)
        exact ⟨⟨simple, isValid⟩, new, (ih (later isValid)).2 ⟨checked, allValid⟩⟩

/-- Strict names ask of the symbols of an enum that they follow the grammar. -/
theorem Declaration.enumeration_strict {symbols : List (Option String)}
    {default : Except Reason (Option String)} {enumeration : Enumeration} :
    declaration.enumeration options.strict symbols default = .ok enumeration ↔
      declaration.enumeration options.lax symbols default = .ok enumeration ∧
        ∀ symbol ∈ enumeration.symbols, Name.validateSegment symbol = .ok () := by
  rw [enumeration_iff, enumeration_iff,
    checkSymbols_strict fun _ member => absurd member List.not_mem_nil]
  constructor
  · rintro ⟨⟨⟨isSymbols, valid⟩, some⟩, others⟩
    exact ⟨⟨⟨isSymbols, some⟩, others⟩, valid⟩
  · rintro ⟨⟨⟨isSymbols, some⟩, others⟩, valid⟩
    exact ⟨⟨⟨isSymbols, valid⟩, some⟩, others⟩

mutual

/-- The reduction of a schema depends on how nullability is encoded alone. -/
theorem Schema.reduction_congr {other : Options}
    (same : options.nullableReferences = other.nullableReferences) :
    (schema : Schema) → schema.reduction options = schema.reduction other
  | .union branches _ _ => by
    rw [Schema.reduction, Schema.reduction, reduceBranches_congr same branches]
  | .primitive _ | .named _ _ | .array _ | .map _ | .logical _ _ | .boxed => by
    simp [Schema.reduction]

/-- The reduction of branches depends on how nullability is encoded alone. -/
theorem reduceBranches_congr {other : Options}
    (same : options.nullableReferences = other.nullableReferences) :
    (branches : List Schema) → reduceBranches options branches = reduceBranches other branches
  | [] => by simp [reduceBranches, same]
  | [only] => by simp [reduceBranches, Schema.reduction_congr same only]
  | first :: second :: rest => by
    cases rest with
    | nil =>
      simp [reduceBranches, same, Schema.reduction_congr same first,
        Schema.reduction_congr same second]
    | cons => simp [reduceBranches, same]

end

/-- Strict names do not change unions. -/
theorem Schema.ofBranches_strict (branches : List Schema) :
    ofBranches options.strict branches = ofBranches options.lax branches := by
  have same : options.strict.nullableReferences = options.lax.nullableReferences := rfl
  rw [ofBranches, ofBranches, reduceBranches_congr same branches]

/-! ## Walks -/

section

variable (options)

/-- To be strict about names filters what a node resolves to: it is the same, where what the walk
registers brings in names that follow the grammar, and elsewhere the walk fails. -/
def Node.Filters (node : Node) : Prop :=
  ∀ ⦃registry after around schema⦄,
    (node.resolve options.strict around).Yields registry schema after ↔
      (node.resolve options.lax around).Yields registry schema after ∧
        after.ValidFrom registry.size

/-- To be strict about names filters what nodes in a row resolve to, whatever is asked of each
schema. -/
def NodesFilter (nodes : List Node) : Prop :=
  ∀ ⦃registry after around vet schemas⦄,
    (resolveEach options.strict around vet nodes).Yields registry schemas after ↔
      (resolveEach options.lax around vet nodes).Yields registry schemas after ∧
        after.ValidFrom registry.size

/-- To be strict about names filters what a field resolves to, whose own name has to follow the
grammar as well. -/
def FieldNode.Filters (node : FieldNode) : Prop :=
  ∀ ⦃registry after owner field⦄,
    (node.resolve options.strict owner).Yields registry field after ↔
      (node.resolve options.lax owner).Yields registry field after ∧
        Name.validateSegment field.name = .ok () ∧ after.ValidFrom registry.size

/-- To be strict about names filters what fields in a row resolve to, once the fields before them
are known to pass. -/
def FieldsFilter (nodes : List FieldNode) : Prop :=
  ∀ ⦃registry after owner done fields⦄,
    (∀ field ∈ done, Name.validateSegment field.name = .ok ()) →
      ((resolveFields options.strict owner done nodes).Yields registry fields after ↔
        (resolveFields options.lax owner done nodes).Yields registry fields after ∧
          (∀ field ∈ fields, Name.validateSegment field.name = .ok ()) ∧
          after.ValidFrom registry.size)

/-- To be strict about names filters what a message resolves to, whose own names have to follow the
grammar as well. -/
def MessageNode.Filters (node : MessageNode) : Prop :=
  ∀ ⦃registry after around message⦄,
    (node.resolve options.strict around).Yields registry message after ↔
      (node.resolve options.lax around).Yields registry message after ∧
        message.NamesValid ∧ after.ValidFrom registry.size

/-- To be strict about names filters what messages in a row resolve to. -/
def MessagesFilter (nodes : List MessageNode) : Prop :=
  ∀ ⦃registry after around messages⦄,
    (resolveMessages options.strict around nodes).Yields registry messages after ↔
      (resolveMessages options.lax around nodes).Yields registry messages after ∧
        (∀ message ∈ messages, message.NamesValid) ∧ after.ValidFrom registry.size

end

variable {registry after : Registry}

/-- Where a row of fields begins, there is nothing before it that has to pass. -/
theorem FieldsFilter.yields_iff {owner : Name} {nodes : List FieldNode} {fields : List Field}
    (each : FieldsFilter options nodes) :
    (resolveFields options.strict owner [] nodes).Yields registry fields after ↔
      (resolveFields options.lax owner [] nodes).Yields registry fields after ∧
        (∀ field ∈ fields, Name.validateSegment field.name = .ok ()) ∧
        after.ValidFrom registry.size :=
  each fun _ member => absurd member List.not_mem_nil

namespace Node.Filters

variable {node : Node}

/-- What is malformed fails either way. -/
theorem malformed (reason : Reason) (source : Json) :
    (Node.malformed reason source).Filters options :=
  fun _ _ _ _ => ⟨fun fails => absurd fails Node.yields_malformed,
    fun fails => absurd fails.1 Node.yields_malformed⟩

/-- A reference registers nothing. -/
theorem reference (text : String) : (Node.reference text).Filters options := by
  intro registry after around schema
  rw [Node.yields_reference, Node.yields_reference]
  refine ⟨fun refers => ⟨refers, ?_⟩, And.left⟩
  rw [refers.2]
  exact after.validFrom_size

/-- An object around a type brings in what the type does. -/
theorem nested (source : Json) (inner : node.Filters options) :
    (Node.nested source node).Filters options := by
  intro registry after around schema
  rw [Node.yields_nested, Node.yields_nested, inner]

/-- A union brings in what its branches do. -/
theorem union (source : Json) {branches : List Node} (each : NodesFilter options branches) :
    (Node.union source branches).Filters options := by
  intro registry after around schema
  rw [Node.yields_union, Node.yields_union, ← exists_and_right]
  refine exists_congr fun schemas => ?_
  rw [each, Schema.ofBranches_strict, and_right_comm]

/-- An array brings in what its items do. -/
theorem array (source : Json) (items : node.Filters options) :
    (Node.array source node).Filters options := by
  intro registry after around schema
  rw [Node.yields_array, Node.yields_array, ← exists_and_right]
  exact exists_congr fun inner => by rw [items, and_right_comm]

/-- A map brings in what its values do. -/
theorem map (source : Json) (values : node.Filters options) :
    (Node.map source node).Filters options := by
  intro registry after around schema
  rw [Node.yields_map, Node.yields_map, ← exists_and_right]
  exact exists_congr fun inner => by rw [values, and_right_comm]

/-- A record brings in its own name, those of its fields and what is inside them. -/
theorem record (source : Json) (isError : Bool) (heading : Heading) {fields : List FieldNode}
    (own : FieldsObey .ownOverlays fields) (each : FieldsFilter options fields) :
    (Node.record source isError heading fields).Filters options := by
  intro registry after around schema
  rw [Node.yields_record, Node.yields_record]
  constructor
  · rintro ⟨declaration, handle, registered, done, filled, resolved, register, walks, rfl, rfl⟩
    obtain ⟨resolved, name⟩ := Heading.resolve_strict.1 resolved
    obtain ⟨walks, names, inside⟩ := each.yields_iff.1 walks
    have grows := grows_resolveFields own walks
    exact ⟨⟨declaration, handle, registered, done, filled, resolved, register, walks, rfl, rfl⟩,
      (Registry.validFrom_setFields register grows).2 ⟨name, names, inside⟩⟩
  · rintro ⟨⟨declaration, handle, registered, done, filled, resolved, register, walks, rfl, rfl⟩,
      valid⟩
    have grows := grows_resolveFields own walks
    obtain ⟨name, names, inside⟩ := (Registry.validFrom_setFields register grows).1 valid
    exact ⟨declaration, handle, registered, done, filled,
      Heading.resolve_strict.2 ⟨resolved, name⟩, register,
      each.yields_iff.2 ⟨walks, names, inside⟩, rfl, rfl⟩

/-- An enum brings in its own name and its symbols. -/
theorem enum (source : Json) (heading : Heading) (symbols : List (Option String))
    (default : Except Reason (Option String)) :
    (Node.enum source heading symbols default).Filters options := by
  intro registry after around schema
  rw [Node.yields_enum, Node.yields_enum]
  constructor
  · rintro ⟨declaration, enumeration, handle, resolved, checked, register, rfl⟩
    obtain ⟨resolved, name⟩ := Heading.resolve_strict.1 resolved
    obtain ⟨checked, simple⟩ := Declaration.enumeration_strict.1 checked
    rw [← (Declaration.enumeration_eq_ok checked).1] at name
    exact ⟨⟨declaration, enumeration, handle, resolved, checked, register, rfl⟩,
      (Registry.validFrom_register register).2 ⟨fun _ => name, simple⟩⟩
  · rintro ⟨⟨declaration, enumeration, handle, resolved, checked, register, rfl⟩, valid⟩
    obtain ⟨name, simple⟩ := (Registry.validFrom_register register).1 valid
    have named : declaration.name.validate = .ok () := by
      rw [← (Declaration.enumeration_eq_ok checked).1]
      exact name rfl
    exact ⟨declaration, enumeration, handle, Heading.resolve_strict.2 ⟨resolved, named⟩,
      Declaration.enumeration_strict.2 ⟨checked, simple⟩, register, rfl⟩

/-- A fixed type brings in its own name. -/
theorem fixed (source : Json) (heading : Heading) (size : Option Nat) :
    (Node.fixed source heading size).Filters options := by
  intro registry after around schema
  rw [Node.yields_fixed, Node.yields_fixed]
  constructor
  · rintro ⟨declaration, fixedType, handle, resolved, sized, register, rfl⟩
    obtain ⟨resolved, name⟩ := Heading.resolve_strict.1 resolved
    rw [← (Declaration.fixedType_eq_ok.1 sized).2.1] at name
    exact ⟨⟨declaration, fixedType, handle, resolved, sized, register, rfl⟩,
      (Registry.validFrom_register register).2 ⟨fun _ => name, nofun⟩⟩
  · rintro ⟨⟨declaration, fixedType, handle, resolved, sized, register, rfl⟩, valid⟩
    have named : declaration.name.validate = .ok () := by
      rw [← (Declaration.fixedType_eq_ok.1 sized).2.1]
      exact ((Registry.validFrom_register register).1 valid).name rfl
    exact ⟨declaration, fixedType, handle, Heading.resolve_strict.2 ⟨resolved, named⟩, sized,
      register, rfl⟩

/-- A protocol brings in its own name, those of its messages and what is inside its types and
messages. -/
theorem protocol (source : Json) (heading : Heading) {types : List Node}
    {messages : List MessageNode} (ownTypes : NodesObey .ownOverlays types)
    (ownMessages : MessagesObey .ownOverlays messages) (eachType : NodesFilter options types)
    (eachMessage : MessagesFilter options messages) :
    (Node.protocol source heading types messages).Filters options := by
  intro registry after around schema
  rw [Node.yields_protocol, Node.yields_protocol]
  constructor
  · rintro ⟨declaration, handle, registered, schemas, typed, done, filled, resolved, register,
      typing, walks, rfl, rfl⟩
    obtain ⟨resolved, name⟩ := Heading.resolve_strict.1 resolved
    obtain ⟨typing, early⟩ := eachType.1 typing
    obtain ⟨walks, names, late⟩ := eachMessage.1 walks
    have typedGrows := grows_resolveEach ownTypes typing
    have filledGrows := grows_resolveMessages ownMessages walks
    have inside := (filledGrows.validFrom_iff typedGrows.size_le).2 ⟨early, late⟩
    exact ⟨⟨declaration, handle, registered, schemas, typed, done, filled, resolved, register,
      typing, walks, rfl, rfl⟩,
      (Registry.validFrom_setProtocol register (typedGrows.trans filledGrows)).2
        ⟨name, names, inside⟩⟩
  · rintro ⟨⟨declaration, handle, registered, schemas, typed, done, filled, resolved, register,
      typing, walks, rfl, rfl⟩, valid⟩
    have typedGrows := grows_resolveEach ownTypes typing
    have filledGrows := grows_resolveMessages ownMessages walks
    obtain ⟨name, names, inside⟩ :=
      (Registry.validFrom_setProtocol register (typedGrows.trans filledGrows)).1 valid
    obtain ⟨early, late⟩ := (filledGrows.validFrom_iff typedGrows.size_le).1 inside
    exact ⟨declaration, handle, registered, schemas, typed, done, filled,
      Heading.resolve_strict.2 ⟨resolved, name⟩, register, eachType.2 ⟨typing, early⟩,
      eachMessage.2 ⟨walks, names, late⟩, rfl, rfl⟩

/-- A logical type brings in no names besides those of the type below it. -/
theorem logical (source : Json) (name : String) (overlay : Except Reason (Option LogicalType))
    (declaresFixed : Bool) (inner : node.Filters options) :
    (Node.logical source name overlay declaresFixed node).Filters options := by
  intro registry after around schema
  rw [Node.yields_logical, Node.yields_logical]
  constructor
  · rintro ⟨underlying, between, walks, annotated⟩
    obtain ⟨walks, valid⟩ := inner.1 walks
    exact ⟨⟨underlying, between, walks, annotated⟩,
      (Registry.validFrom_annotate annotated).2 valid⟩
  · rintro ⟨⟨underlying, between, walks, annotated⟩, valid⟩
    have inside := (Registry.validFrom_annotate annotated).1 valid
    exact ⟨underlying, between, inner.2 ⟨walks, inside⟩, annotated⟩

end Node.Filters

/-- No nodes register nothing. -/
theorem NodesFilter.nil : NodesFilter options [] := by
  intro registry after around vet schemas
  rw [yields_resolveEach_nil, yields_resolveEach_nil]
  refine ⟨fun nothing => ⟨nothing, ?_⟩, And.left⟩
  rw [nothing.2]
  exact after.validFrom_size

/-- Nodes in a row bring in what the first one does and what the others do. -/
theorem NodesFilter.cons {node : Node} {rest : List Node} (ownHead : node.Obeys .ownOverlays)
    (own : NodesObey .ownOverlays rest) (head : node.Filters options)
    (tail : NodesFilter options rest) : NodesFilter options (node :: rest) := by
  intro registry after around vet schemas
  rw [yields_resolveEach_cons, yields_resolveEach_cons]
  constructor
  · rintro ⟨schema, between, others, walks, vetted, walksRest, rfl⟩
    obtain ⟨walks, early⟩ := head.1 walks
    obtain ⟨walksRest, late⟩ := tail.1 walksRest
    exact ⟨⟨schema, between, others, walks, vetted, walksRest, rfl⟩,
      ((grows_resolveEach own walksRest).validFrom_iff (node.grows ownHead walks).size_le).2
        ⟨early, late⟩⟩
  · rintro ⟨⟨schema, between, others, walks, vetted, walksRest, rfl⟩, valid⟩
    obtain ⟨early, late⟩ := ((grows_resolveEach own walksRest).validFrom_iff
      (node.grows ownHead walks).size_le).1 valid
    exact ⟨schema, between, others, head.2 ⟨walks, early⟩, vetted, tail.2 ⟨walksRest, late⟩, rfl⟩

/-- A field that is malformed fails either way. -/
theorem FieldNode.Filters.malformed (reason : Reason) (source : Json) :
    (FieldNode.malformed reason source).Filters options :=
  fun _ _ _ _ => ⟨fun fails => absurd fails FieldNode.yields_malformed,
    fun fails => absurd fails.1 FieldNode.yields_malformed⟩

/-- A field brings in its own name and what its type does; a base that it is given is not
declared. -/
theorem FieldNode.Filters.field (source : Json) (name : String) {node : Node} (typeSource : Json)
    (default : Option Json) (details : Except Reason FieldDetails)
    (own : node.Obeys .ownOverlays) (type : node.Filters options) :
    (FieldNode.field source name node typeSource default details).Filters options := by
  intro registry after owner field
  rw [FieldNode.yields_field, FieldNode.yields_field]
  constructor
  · rintro ⟨declared, typed, slot, literal, said, simple, typing, filled, fits, isSaid, rfl⟩
    obtain ⟨simple, valid⟩ := Options.checkSimpleName_strict.1 simple
    obtain ⟨typing, inside⟩ := type.1 typing
    have typedGrows := node.grows own typing
    exact ⟨⟨declared, typed, slot, literal, said, simple, typing, filled, fits, isSaid, rfl⟩,
      valid, (Registry.validFrom_slot filled typedGrows.size_le).2 inside⟩
  · rintro ⟨⟨declared, typed, slot, literal, said, simple, typing, filled, fits, isSaid, rfl⟩,
      valid, inside⟩
    have typedGrows := node.grows own typing
    have early := (Registry.validFrom_slot filled typedGrows.size_le).1 inside
    exact ⟨declared, typed, slot, literal, said,
      Options.checkSimpleName_strict.2 ⟨simple, valid⟩, type.2 ⟨typing, early⟩, filled, fits,
      isSaid, rfl⟩

/-- The fields before an empty row are those that are known to pass. -/
theorem FieldsFilter.nil : FieldsFilter options [] := by
  intro registry after owner done fields valid
  rw [yields_resolveFields_nil, yields_resolveFields_nil]
  constructor
  · rintro ⟨rfl, rfl⟩
    exact ⟨⟨rfl, rfl⟩, valid, registry.validFrom_size⟩
  · exact And.left

/-- Fields in a row bring in what the first one does and what the others do. -/
theorem FieldsFilter.cons {node : FieldNode} {rest : List FieldNode}
    (ownHead : node.Obeys .ownOverlays) (own : FieldsObey .ownOverlays rest)
    (head : node.Filters options) (tail : FieldsFilter options rest) :
    FieldsFilter options (node :: rest) := by
  intro registry after owner done fields valid
  have later {field : Field} (isValid : Name.validateSegment field.name = .ok ()) :
      ∀ other ∈ done ++ [field], Name.validateSegment other.name = .ok () :=
    List.forall_mem_append.2 ⟨valid, List.forall_mem_singleton.2 isValid⟩
  rw [yields_resolveFields_cons, yields_resolveFields_cons]
  constructor
  · rintro ⟨field, between, walks, new, walksRest⟩
    obtain ⟨walks, isValid, early⟩ := head.1 walks
    obtain ⟨walksRest, allValid, late⟩ := (tail (later isValid)).1 walksRest
    exact ⟨⟨field, between, walks, new, walksRest⟩, allValid,
      ((grows_resolveFields own walksRest).validFrom_iff (node.grows ownHead walks).size_le).2
        ⟨early, late⟩⟩
  · rintro ⟨⟨field, between, walks, new, walksRest⟩, allValid, inside⟩
    obtain ⟨others, rfl⟩ := exists_of_resolveFields walksRest
    have isValid := allValid field (by simp)
    obtain ⟨early, late⟩ := ((grows_resolveFields own walksRest).validFrom_iff
      (node.grows ownHead walks).size_le).1 inside
    exact ⟨field, between, head.2 ⟨walks, isValid, early⟩, new,
      (tail (later isValid)).2 ⟨walksRest, allValid, late⟩⟩

/-- A message that is malformed fails either way. -/
theorem MessageNode.Filters.malformed (reason : Reason) (source : Json) :
    (MessageNode.malformed reason source).Filters options :=
  fun _ _ _ _ => ⟨fun fails => absurd fails MessageNode.yields_malformed,
    fun fails => absurd fails.1 MessageNode.yields_malformed⟩

/-- A message brings in its own name and what its parameters, its response and its errors do. -/
theorem MessageNode.Filters.message {source responseSource : Json} {name : String}
    {request : List FieldNode} {response : Node} {errors : List Node}
    {oneWay : Except Reason Bool} {details : Except Reason Details}
    (ownRequest : FieldsObey .ownOverlays request) (ownResponse : response.Obeys .ownOverlays)
    (ownErrors : NodesObey .ownOverlays errors) (parameters : FieldsFilter options request)
    (answer : response.Filters options) (failures : NodesFilter options errors) :
    (MessageNode.message source name request response responseSource errors oneWay
      details).Filters options := by
  intro registry after around message
  rw [MessageNode.yields_message, MessageNode.yields_message]
  constructor
  · rintro ⟨fields, asked, declared, typed, slot, answered, failed, flag, said, simple,
      asking, answering, filled, failing, isFlag, fits, isSaid, rfl⟩
    obtain ⟨simple, valid⟩ := Options.checkSimpleName_strict.1 simple
    obtain ⟨asking, fieldsValid, first⟩ := parameters.yields_iff.1 asking
    obtain ⟨answering, second⟩ := answer.1 answering
    obtain ⟨failing, third⟩ := failures.1 failing
    have parts := Registry.validFrom_message (grows_resolveFields ownRequest asking)
      (response.grows ownResponse answering) filled (grows_resolveEach ownErrors failing)
    exact ⟨⟨fields, asked, declared, typed, slot, answered, failed, flag, said, simple,
        asking, answering, filled, failing, isFlag, fits, isSaid, rfl⟩,
      ⟨valid, fieldsValid⟩, parts.2 ⟨first, second, third⟩⟩
  · rintro ⟨⟨fields, asked, declared, typed, slot, answered, failed, flag, said, simple,
      asking, answering, filled, failing, isFlag, fits, isSaid, rfl⟩, valid, inside⟩
    have parts := Registry.validFrom_message (grows_resolveFields ownRequest asking)
      (response.grows ownResponse answering) filled (grows_resolveEach ownErrors failing)
    obtain ⟨first, second, third⟩ := parts.1 inside
    exact ⟨fields, asked, declared, typed, slot, answered, failed, flag, said,
      Options.checkSimpleName_strict.2 ⟨simple, valid.name⟩,
      parameters.yields_iff.2 ⟨asking, valid.request, first⟩, answer.2 ⟨answering, second⟩, filled,
      failures.2 ⟨failing, third⟩, isFlag, fits, isSaid, rfl⟩

/-- No messages register nothing. -/
theorem MessagesFilter.nil : MessagesFilter options [] := by
  intro registry after around messages
  rw [yields_resolveMessages_nil, yields_resolveMessages_nil]
  constructor
  · rintro ⟨rfl, rfl⟩
    exact ⟨⟨rfl, rfl⟩, fun _ member => absurd member List.not_mem_nil, registry.validFrom_size⟩
  · exact And.left

/-- Messages in a row bring in what the first one does and what the others do. -/
theorem MessagesFilter.cons {node : MessageNode} {rest : List MessageNode}
    (ownHead : node.Obeys .ownOverlays) (own : MessagesObey .ownOverlays rest)
    (head : node.Filters options) (tail : MessagesFilter options rest) :
    MessagesFilter options (node :: rest) := by
  intro registry after around messages
  rw [yields_resolveMessages_cons, yields_resolveMessages_cons]
  constructor
  · rintro ⟨message, between, others, walks, walksRest, rfl⟩
    obtain ⟨walks, valid, early⟩ := head.1 walks
    obtain ⟨walksRest, allValid, late⟩ := tail.1 walksRest
    exact ⟨⟨message, between, others, walks, walksRest, rfl⟩,
      List.forall_mem_cons.2 ⟨valid, allValid⟩,
      ((grows_resolveMessages own walksRest).validFrom_iff (node.grows ownHead walks).size_le).2
        ⟨early, late⟩⟩
  · rintro ⟨⟨message, between, others, walks, walksRest, rfl⟩, allValid, inside⟩
    obtain ⟨valid, allValid⟩ := List.forall_mem_cons.1 allValid
    obtain ⟨early, late⟩ := ((grows_resolveMessages own walksRest).validFrom_iff
      (node.grows ownHead walks).size_le).1 inside
    exact ⟨message, between, others, head.2 ⟨walks, valid, early⟩,
      tail.2 ⟨walksRest, allValid, late⟩, rfl⟩

mutual

/-- A strict walk is a lax one that brings in names that follow the grammar. -/
theorem Node.filters : (node : Node) → node.Obeys .ownOverlays → node.Filters options
  | .malformed reason source, _ => .malformed reason source
  | .reference text, _ => .reference text
  | .nested source inner, own => .nested source (inner.filters own.2)
  | .union source branches, own => .union source (nodes_filter branches own.2)
  | .array source items, own => .array source (items.filters own.2)
  | .map source values, own => .map source (values.filters own.2)
  | .record source isError heading fields, own =>
    .record source isError heading own.2 (fields_filter fields own.2)
  | .enum source heading symbols default, _ => .enum source heading symbols default
  | .fixed source heading size, _ => .fixed source heading size
  | .protocol source heading types messages, own =>
    .protocol source heading own.2.1 own.2.2 (nodes_filter types own.2.1)
      (messages_filter messages own.2.2)
  | .logical source name overlay declaresFixed inner, own =>
    .logical source name overlay declaresFixed (inner.filters own.2)

/-- A strict walk of nodes in a row is a lax one that brings in names that follow the grammar. -/
theorem nodes_filter : (nodes : List Node) → NodesObey .ownOverlays nodes →
    NodesFilter options nodes
  | [], _ => .nil
  | node :: rest, own => .cons own.1 own.2 (node.filters own.1) (nodes_filter rest own.2)

/-- A strict walk of a field is a lax one that brings in names that follow the grammar. -/
theorem FieldNode.filters : (node : FieldNode) → node.Obeys .ownOverlays → node.Filters options
  | .malformed reason source, _ => .malformed reason source
  | .field source name type typeSource default details, own =>
    .field source name typeSource default details own.2 (type.filters own.2)

/-- A strict walk of fields in a row is a lax one that brings in names that follow the grammar. -/
theorem fields_filter : (nodes : List FieldNode) → FieldsObey .ownOverlays nodes →
    FieldsFilter options nodes
  | [], _ => .nil
  | node :: rest, own => .cons own.1 own.2 (node.filters own.1) (fields_filter rest own.2)

/-- A strict walk of a message is a lax one that brings in names that follow the grammar. -/
theorem MessageNode.filters : (node : MessageNode) → node.Obeys .ownOverlays →
    node.Filters options
  | .malformed reason source, _ => .malformed reason source
  | .message _ _ request response _ errors _ _, own =>
    .message own.2.1 own.2.2.1 own.2.2.2 (fields_filter request own.2.1)
      (response.filters own.2.2.1) (nodes_filter errors own.2.2.2)

/-- A strict walk of messages in a row is a lax one that brings in names that follow the grammar. -/
theorem messages_filter : (nodes : List MessageNode) → MessagesObey .ownOverlays nodes →
    MessagesFilter options nodes
  | [], _ => .nil
  | node :: rest, own => .cons own.1 own.2 (node.filters own.1) (messages_filter rest own.2)

end

/-- To be strict about names is to filter: a document is accepted with strict names, and then to the
same result, exactly when it is accepted without them and every name that its declarations bring in
follows the grammar. -/
theorem Document.resolve_strict_iff (options : Options) (root : Json) (document : Document) :
    resolve { options with strictNames := true } root = .ok document ↔
      resolve { options with strictNames := false } root = .ok document ∧
        document.registry.Every Entry.NamesValid := by
  rw [resolve_eq_ok, resolve_eq_ok, ← Registry.validFrom_zero]
  have filters : (Node.ofJson root).Filters options :=
    (Node.ofJson root).filters (Node.obeys_ownOverlays root)
  exact @filters .empty document.registry none document.root

end AvroGraph
