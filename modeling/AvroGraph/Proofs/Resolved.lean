import AvroGraph.Proofs.Grounded
import AvroGraph.Proofs.NameText

/-!
# What resolution makes sure of

A name of a declaration is admitted by the options (`Name.Admitted`), and the fields and messages
that a walk resolves have passed its checks (`Field.Resolved`, `Message.Resolved`). These checks
would succeed again in every later registry, since entries stay what they were declared to be
(`Registry.Retains`).
-/

namespace AvroGraph

/-! ## Names -/

section

variable {options : Options} {checked : Except NameError Unit} {text : String}

/-- A check against the grammar counts under strict names alone. -/
theorem Options.enforce_eq_ok :
    options.enforce checked = .ok () ↔ (options.strictNames = true → checked = .ok ()) := by
  rcases checked with error | _
  · by_cases strict : options.strictNames = true <;> simp [enforce, strict]
  · simp [enforce]

/-- A simple name is not blank and has no dot. -/
theorem Name.checkSimple_eq_ok :
    checkSimple text = .ok () ↔ Text.isBlank text = false ∧ '.' ∉ text.toList := by
  rw [checkSimple]
  by_cases blank : Text.isBlank text = true
  · simp [blank]
  · by_cases dotted : '.' ∈ text.toList <;> simp [blank, dotted]

/-- With strict names, a simple name follows the grammar of identifiers as well. -/
theorem Options.checkSimpleName_eq_ok :
    options.checkSimpleName text = .ok () ↔
      (Text.isBlank text = false ∧ '.' ∉ text.toList) ∧
        (options.strictNames = true → Name.validateSegment text = .ok ()) := by
  simp only [checkSimpleName, bind_eq_ok, mapError_eq_ok, enforce_eq_ok,
    ← Name.checkSimple_eq_ok]
  constructor
  · rintro ⟨⟨⟩, simple, valid⟩
    exact ⟨simple, valid⟩
  · rintro ⟨simple, valid⟩
    exact ⟨(), simple, valid⟩

end

/-- A name that a declaration can have under some options. -/
structure Name.Admitted (options : Options) (name : Name) : Prop where
  wellFormed : name.WellFormed
  valid : options.enforce name.validate = .ok ()

/-- A heading is resolved if its name is, if that follows the rules and if its details can be read.
-/
theorem Heading.resolve_eq_ok {options : Options} {around : Option String} {heading : Heading}
    {declaration : Declaration} :
    heading.resolve options around = .ok declaration ↔
      Name.resolve heading.name heading.space around = .ok declaration.name ∧
        options.enforce declaration.name.validate = .ok () ∧
        heading.details = .ok declaration.details := by
  rw [resolve, bind_eq_ok]
  simp only [mapError_eq_ok, bind_eq_ok]
  constructor
  · rintro ⟨name, named, ⟨⟩, valid, details, isDetails, ⟨⟩⟩
    exact ⟨named, valid, isDetails⟩
  · rintro ⟨named, valid, isDetails⟩
    exact ⟨_, named, ⟨⟩, valid, _, isDetails, rfl⟩

namespace Name.Admitted

variable {options : Options} {name : Name} {text : String}

/-- The name of a heading that is resolved is admitted. -/
theorem of_heading {around : Option String} {heading : Heading} {declaration : Declaration}
    (resolved : heading.resolve options around = .ok declaration) :
    declaration.name.Admitted options := by
  obtain ⟨named, valid, -⟩ := Heading.resolve_eq_ok.1 resolved
  exact ⟨(wellFormed_of_resolve named).1, valid⟩

/-- A simple name is admitted in the namespace of an admitted one. -/
theorem beside (admitted : name.Admitted options) (simple : options.checkSimpleName text = .ok ()) :
    (Name.mk text name.space).Admitted options := by
  obtain ⟨⟨visible, undotted⟩, valid⟩ := Options.checkSimpleName_eq_ok.1 simple
  refine ⟨⟨undotted, visible, admitted.wellFormed.space⟩, Options.enforce_eq_ok.2 fun strict => ?_⟩
  obtain ⟨_, -, spaceValid⟩ := bind_eq_ok.1 (Options.enforce_eq_ok.1 admitted.valid strict)
  exact bind_eq_ok.2 ⟨(), valid strict, spaceValid⟩

end Name.Admitted

/-- The name that the response of a message has among its slots is a simple one. -/
theorem Options.checkSimpleName_response (options : Options) :
    options.checkSimpleName "response" = .ok () :=
  checkSimpleName_eq_ok.2 ⟨by decide, fun _ => if_pos (by decide)⟩

/-! ## Declarations -/

section

variable {options : Options} {declaration : Declaration}

/-- A symbol is checked by itself and against those before it, and then the others are. -/
theorem checkSymbols_cons_eq_ok {symbol : String} {done symbols : List String}
    {rest : List (Option String)} :
    checkSymbols options done (some symbol :: rest) = .ok symbols ↔
      options.checkSimpleName symbol = .ok () ∧ symbol ∉ done ∧
        checkSymbols options (done ++ [symbol]) rest = .ok symbols := by
  rw [checkSymbols, bind_eq_ok]
  by_cases taken : symbol ∈ done
  · simp [taken, bind, Except.bind]
  · simp [taken]

/-- The symbols of an enum are those of its node, in order. -/
theorem checkSymbols_eq_ok {done symbols : List String} {nodes : List (Option String)}
    (checked : checkSymbols options done nodes = .ok symbols) :
    ∃ new : List String, nodes = new.map some ∧ symbols = done ++ new := by
  induction nodes generalizing done with
  | nil =>
    cases checked
    exact ⟨[], rfl, by simp⟩
  | cons node rest ih =>
    cases node with
    | none => cases checked
    | some symbol =>
      obtain ⟨-, -, checked⟩ := checkSymbols_cons_eq_ok.1 checked
      obtain ⟨new, rfl, rfl⟩ := ih checked
      exact ⟨symbol :: new, rfl, by simp⟩

/-- Symbols are checked alike by options that are as strict about names. -/
theorem checkSymbols_congr {other : Options} (same : options.strictNames = other.strictNames)
    (done : List String) (symbols : List (Option String)) :
    checkSymbols options done symbols = checkSymbols other done symbols := by
  induction symbols generalizing done with
  | nil => rfl
  | cons symbol rest ih =>
    cases symbol with
    | none => rfl
    | some symbol => simp only [checkSymbols, Options.checkSimpleName, Options.enforce, same, ih]

/-- A default passes unchanged if it is a symbol or missing. -/
theorem checkEnumDefault_eq_ok {symbols : List String} {default chosen : Option String} :
    checkEnumDefault symbols default = .ok chosen ↔
      default = chosen ∧ ∀ symbol, chosen = some symbol → symbol ∈ symbols := by
  cases default with
  | none =>
    rw [checkEnumDefault]
    constructor
    · rintro ⟨⟩
      exact ⟨rfl, nofun⟩
    · rintro ⟨rfl, -⟩
      rfl
  | some symbol =>
    rw [checkEnumDefault]
    by_cases member : symbol ∈ symbols
    · rw [if_pos member]
      constructor
      · rintro ⟨⟩
        refine ⟨rfl, ?_⟩
        rintro other ⟨⟩
        exact member
      · rintro ⟨rfl, -⟩
        rfl
    · rw [if_neg member]
      refine ⟨nofun, ?_⟩
      rintro ⟨rfl, known⟩
      exact absurd (known symbol rfl) member

/-- An enum has symbols, a default among them, and the name and the details of its declaration. -/
theorem Declaration.enumeration_iff {symbols : List (Option String)}
    {default : Except Reason (Option String)} {enumeration : Enumeration} :
    declaration.enumeration options symbols default = .ok enumeration ↔
      (checkSymbols options [] symbols = .ok enumeration.symbols ∧ enumeration.symbols ≠ []) ∧
        (default = .ok enumeration.default ∧
          ∀ symbol, enumeration.default = some symbol → symbol ∈ enumeration.symbols) ∧
        enumeration.name = declaration.name ∧
        declaration.details = ⟨enumeration.doc, enumeration.aliases, enumeration.properties⟩ := by
  obtain ⟨name, texts, doc, aliases, chosen, properties⟩ := enumeration
  obtain ⟨_, _, _, _⟩ := declaration
  constructor
  · intro checked
    obtain ⟨found, isFound, enumerated⟩ := bind_eq_ok.1 checked
    dsimp only at enumerated
    split at enumerated
    · cases enumerated
    · next some =>
      obtain ⟨declared, isDeclared, enumerated⟩ := bind_eq_ok.1 enumerated
      obtain ⟨same, isDefault, enumerated⟩ := bind_eq_ok.1 enumerated
      obtain ⟨rfl, known⟩ := checkEnumDefault_eq_ok.1 isDefault
      cases enumerated
      exact ⟨⟨isFound, by simpa using some⟩, ⟨isDeclared, known⟩, rfl, rfl⟩
  · rintro ⟨⟨isSymbols, some⟩, ⟨rfl, known⟩, ⟨⟩, ⟨⟩⟩
    refine bind_eq_ok.2 ⟨texts, isSymbols, ?_⟩
    have filled : texts.isEmpty = false := by simpa using some
    have isDefault := checkEnumDefault_eq_ok.2 ⟨rfl, known⟩
    simp only [filled, Bool.false_eq_true, if_false]
    exact bind_eq_ok.2 ⟨chosen, rfl, bind_eq_ok.2 ⟨chosen, isDefault, rfl⟩⟩

/-- An enum has the name, the details and the parts of its declaration. -/
theorem Declaration.enumeration_eq_ok {symbols : List (Option String)}
    {default : Except Reason (Option String)} {enumeration : Enumeration}
    (checked : declaration.enumeration options symbols default = .ok enumeration) :
    enumeration.name = declaration.name ∧
      declaration.details =
        ⟨enumeration.doc, enumeration.aliases, enumeration.properties⟩ ∧
      symbols = enumeration.symbols.map some ∧ default = .ok enumeration.default := by
  obtain ⟨⟨isSymbols, -⟩, ⟨isDefault, -⟩, name, details⟩ := enumeration_iff.1 checked
  obtain ⟨new, isNew, same⟩ := checkSymbols_eq_ok isSymbols
  exact ⟨name, details, by rw [isNew, same, List.nil_append], isDefault⟩

/-- An enum is declared alike by options that are as strict about names. -/
theorem Declaration.enumeration_congr {other : Options}
    (same : options.strictNames = other.strictNames) (symbols : List (Option String))
    (default : Except Reason (Option String)) :
    declaration.enumeration options symbols default =
      declaration.enumeration other symbols default := by
  rw [enumeration, enumeration, checkSymbols_congr same]

/-- A fixed type has the name, the details and the size of its declaration. -/
theorem Declaration.fixedType_eq_ok {size : Option Nat} {fixedType : FixedType} :
    declaration.fixedType size = .ok fixedType ↔
      size = some fixedType.size ∧ fixedType.name = declaration.name ∧
      declaration.details = ⟨fixedType.doc, fixedType.aliases, fixedType.properties⟩ ∧
      fixedType.overlay = none := by
  obtain ⟨_, _, _, _, _, _⟩ := fixedType
  obtain ⟨_, _, _, _⟩ := declaration
  cases size with
  | none => simp [fixedType]
  | some size =>
    constructor
    · rintro ⟨⟩
      exact ⟨rfl, rfl, rfl, rfl⟩
    · rintro ⟨⟨⟩, ⟨⟩, ⟨⟩, ⟨⟩⟩
      rfl

end

/-! ## What entries keep -/

/-- An entry as it was declared, without what it is given later. -/
def Entry.stripped : Entry → Entry
  | .record body => .record { body with fields := [], bases := [] }
  | .error body => .error { body with fields := [] }
  | .fixed fixedType => .fixed { fixedType with overlay := none }
  | .protocol body => .protocol { body with types := [], messages := [] }
  | entry => entry

namespace Entry

/-- What is left of an entry keeps its name. -/
@[simp]
theorem name_stripped (entry : Entry) : entry.stripped.name = entry.name := by
  cases entry <;> rfl

/-- What is left of an entry keeps its kind. -/
@[simp]
theorem kind_stripped (entry : Entry) : entry.stripped.kind = entry.kind := by
  cases entry <;> rfl

/-- What is left of an entry is an abstract base if the entry is. -/
@[simp]
theorem isAbstractBase_stripped (entry : Entry) :
    entry.stripped.isAbstractBase = entry.isAbstractBase := by
  cases entry <;> rfl

/-- What is left of an entry is an enum if the entry is. -/
@[simp]
theorem enum?_stripped (entry : Entry) : entry.stripped.enum? = entry.enum? := by
  cases entry <;> rfl

/-- An entry that grows leaves the same behind. -/
theorem Grows.stripped_eq {size : Nat} {before after : Entry} (grows : Grows size before after) :
    after.stripped = before.stripped := by
  cases grows <;> rfl

end Entry

/-- What a node declares has nothing inside to be left out. -/
theorem Node.Declares.stripped_eq {options : Options} {node : Node} {entry : Entry}
    (declares : node.Declares options entry) : entry.stripped = entry := by
  cases declares with
  | record _ isError => cases isError <;> rfl
  | enum | protocol => rfl
  | fixed _ _ sized =>
    unfold Declaration.fixedType at sized
    split at sized
    · cases sized
      rfl
    · cases sized

namespace Registry

variable {before middle after registry : Registry} {handle : Handle}

/-- Entries stay where they are and what they were declared to be. -/
def Retains (before after : Registry) : Prop :=
  ∀ handle entry, before.get? handle = some entry →
    ∃ later, after.get? handle = some later ∧ later.stripped = entry.stripped

/-- A registry retains its own entries. -/
theorem Retains.refl (registry : Registry) : registry.Retains registry :=
  fun _ entry found => ⟨entry, found, rfl⟩

/-- What retains entries twice retains them. -/
theorem Retains.trans (first : before.Retains middle) (second : middle.Retains after) :
    before.Retains after := by
  intro handle entry found
  obtain ⟨later, isLater, same⟩ := first handle entry found
  obtain ⟨last, isLast, sameLast⟩ := second handle later isLater
  exact ⟨last, isLast, sameLast.trans same⟩

/-- A registry that grows retains its entries. -/
theorem Grows.retains (grows : before.Grows after) : before.Retains after := by
  intro handle entry found
  obtain ⟨grown, isGrown, growth⟩ := grows.entry handle entry (lt_size_of_get? found) found
  exact ⟨grown, isGrown, growth.stripped_eq⟩

/-- A change that leaves the same behind retains the entries. -/
theorem retains_update {change : Entry → Entry}
    (same : ∀ entry, (change entry).stripped = entry.stripped) :
    registry.Retains (registry.update handle change) := by
  intro other entry found
  rw [get?_update]
  split
  · exact ⟨change entry, by rw [found, Option.map_some], same entry⟩
  · exact ⟨entry, found, rfl⟩

/-- To give a record its fields retains the entries. -/
theorem retains_setFields (fields : List Field) :
    registry.Retains (registry.setFields handle fields) :=
  retains_update fun entry => by cases entry <;> rfl

/-- To give a protocol its types and messages retains them. -/
theorem retains_setProtocol (types : List Schema) (messages : List Message) :
    registry.Retains (registry.setProtocol handle types messages) :=
  retains_update fun entry => by cases entry <;> rfl

/-- What retains entries keeps their kinds. -/
theorem Retains.keepsKinds (retains : before.Retains after) : before.KeepsKinds after := by
  intro handle kind known
  obtain ⟨entry, found, rfl⟩ := kindAt?_eq_some.1 known
  obtain ⟨later, isLater, same⟩ := retains handle entry found
  refine kindAt?_eq_some.2 ⟨later, isLater, ?_⟩
  rw [← later.kind_stripped, same, entry.kind_stripped]

/-- An enum stays as it is. -/
theorem Retains.enum? (retains : before.Retains after) {enumeration : Enumeration}
    (found : (before.get? handle).bind Entry.enum? = some enumeration) :
    (after.get? handle).bind Entry.enum? = some enumeration := by
  obtain ⟨entry, isEntry, isEnum⟩ := Option.bind_eq_some_iff.1 found
  obtain ⟨later, isLater, same⟩ := retains handle entry isEntry
  rw [isLater, Option.bind_some, ← later.enum?_stripped, same, entry.enum?_stripped, isEnum]

end Registry

/-- A default that has been accepted would be accepted again. -/
theorem DefaultLiteral.synthesizeOption_retained {before after : Registry}
    (retains : before.Retains after) {declared : Schema} {default : Option Json}
    {literal : Option DefaultLiteral}
    (synthesized : synthesizeOption before declared default = .ok literal) :
    synthesizeOption after declared default = .ok literal := by
  cases default with
  | none => exact synthesized
  | some default =>
    cases declared with
    | named kind handle =>
      cases kind with
      | enum =>
        simp only [synthesizeOption, synthesize] at synthesized ⊢
        cases found : (before.get? handle).bind Entry.enum? with
        | none =>
          rw [found] at synthesized
          cases synthesized
        | some enumeration =>
          rw [found] at synthesized
          rwa [retains.enum? found]
      | _ => exact synthesized
    | _ => exact synthesized

/-! ## Slots -/

/-- The slot of a field. -/
def Field.slot (field : Field) : Slot :=
  ⟨field.declared, field.underlying, field.nullable⟩

/-- The slot of the response of a message. -/
def Message.slot (message : Message) : Slot :=
  ⟨message.response, message.responseUnderlying, message.responseNullable⟩

/-- A slot as it is filled: what represents its type is told by the type, and so is whether it
admits null, unless a base stands for a union. No union that calls for a base is left. -/
structure Slot.Filled (options : Options) (slot : Slot) : Prop where
  underlying : slot.underlying = slot.declared.underlying
  nullable : slot.nullable = slot.declared.isNullable ∨
    ∃ base, slot.declared = .named .abstractBase base
  unbased : (options.synthesizeBases && callsForBase slot.declared.branches) = false

/-- A slot is filled by its declared type alone, or with a base for it. -/
theorem Registry.filled_slot {registry after : Registry} {options : Options} {owner : Name}
    {name : String} {declared : Schema} {slot : Slot}
    (resolved : registry.slot options owner name declared = .ok (slot, after)) :
    slot.Filled options := by
  rw [slot_eq_ok] at resolved
  split at resolved
  · obtain ⟨base, -, rfl⟩ := resolved
    exact ⟨rfl, .inr ⟨base, rfl⟩, by simp [Schema.branches, callsForBase]⟩
  · next unwanted =>
    obtain ⟨-, rfl⟩ := resolved
    exact ⟨rfl, .inl rfl, Bool.eq_false_iff.2 unwanted⟩

/-! ## Fields and messages -/

variable {options : Options} {law : NodeLaw} {meets other : Registry → Schema → Prop}
  {before after registry : Registry}

/-- A field as a walk resolves it: its name is simple, its type meets a condition and fills a slot,
its default fits and shows in its literal and its remarks, and it comes of a node that obeys a
law. -/
structure Field.Resolved (options : Options) (law : NodeLaw) (meets : Registry → Schema → Prop)
    (registry : Registry) (field : Field) : Prop where
  simple : options.checkSimpleName field.name = .ok ()
  declared : meets registry field.declared
  filled : field.slot.Filled options
  default : ∃ literal,
    DefaultLiteral.synthesizeOption registry field.declared field.default = .ok literal ∧
      field.literal = literal.bind DefaultLiteral.literal? ∧
      field.remarks = literal.bind DefaultLiteral.remark?
  lawful : ∃ source type typeSource,
    law.field (.field source field.name type typeSource field.default
      (.ok ⟨field.order, field.doc, field.aliases, field.properties⟩))

/-- A message as a walk resolves it. -/
structure Message.Resolved (options : Options) (law : NodeLaw)
    (meets : Registry → Schema → Prop) (registry : Registry) (message : Message) : Prop where
  simple : options.checkSimpleName message.name = .ok ()
  request : ∀ field ∈ message.request, field.Resolved options law meets registry
  distinct : (message.request.map Field.name).Nodup
  response : meets registry message.response
  filled : message.slot.Filled options
  /-- The errors are the implicit string and error schemas. -/
  errors : ∃ handles : List Handle,
    message.errors = .string :: handles.map (.named .error) ∧
      ∀ handle ∈ handles, meets registry (.named .error handle)
  oneWay : checkOneWay message.name message.oneWay message.response (message.errors.drop 1) = .ok ()
  lawful : ∃ source request response responseSource errors aliases,
    law.message (.message source message.name request response responseSource errors
      (.ok message.oneWay) (.ok ⟨message.doc, aliases, message.properties⟩))

section

variable (lasts : ∀ schema, meets before schema → other after schema)
  (retains : before.Retains after)
include lasts retains

/-- A resolved field stays so where what its type meets does. -/
theorem Field.Resolved.mono {field : Field} (resolved : field.Resolved options law meets before) :
    field.Resolved options law other after where
  simple := resolved.simple
  declared := lasts _ resolved.declared
  filled := resolved.filled
  default :=
    have ⟨literal, synthesized, shows⟩ := resolved.default
    ⟨literal, DefaultLiteral.synthesizeOption_retained retains synthesized, shows⟩
  lawful := resolved.lawful

/-- A resolved message stays so where what its types meet does. -/
theorem Message.Resolved.mono {message : Message}
    (resolved : message.Resolved options law meets before) :
    message.Resolved options law other after where
  simple := resolved.simple
  request field member := (resolved.request field member).mono lasts retains
  distinct := resolved.distinct
  response := lasts _ resolved.response
  filled := resolved.filled
  errors :=
    have ⟨handles, same, errors⟩ := resolved.errors
    ⟨handles, same, fun handle member => lasts _ (errors handle member)⟩
  oneWay := resolved.oneWay
  lawful := resolved.lawful

end

/-- The types of a resolved message are grounded if the condition says so of schemas. -/
theorem Message.Resolved.grounded {message : Message}
    (resolved : message.Resolved options law (fun registry schema => schema.Grounded registry)
      registry) : message.Grounded registry where
  request field member := (resolved.request field member).declared
  response := resolved.response
  errors := by
    obtain ⟨handles, same, errors⟩ := resolved.errors
    rw [same, Schema.allGrounded_iff]
    intro schema member
    rcases List.mem_cons.1 member with rfl | later
    · trivial
    · obtain ⟨handle, isHandle, rfl⟩ := List.mem_map.1 later
      exact errors handle isHandle

/-- Only names bear on whether a field is new. -/
theorem checkNewField_congr {owner : Name} {done others : List Field} {field other : Field}
    (names : done.map Field.name = others.map Field.name) (same : field.name = other.name) :
    checkNewField owner done field = checkNewField owner others other := by
  have taken := congrArg (List.any · (· = other.name)) names
  simp only [List.any_map, Function.comp_def] at taken
  rw [checkNewField, checkNewField, same, taken]

/-- A field passes the check for new ones if it has a name of its own. -/
theorem checkNewField_eq_ok {owner : Name} {done : List Field} {field : Field} :
    checkNewField owner done field = .ok () ↔ field.name ∉ done.map Field.name := by
  rw [checkNewField]
  split
  · next taken => simpa using taken
  · next fresh => simpa using fresh

/-- Schemas that are vetted as errors of a message are error schemas. -/
theorem exists_of_messageError {name : String} {failures : List Schema}
    (vetted : ∀ failure ∈ failures, ∃ between, Vet.messageError name between failure = .ok ()) :
    ∃ handles : List Handle, failures = handles.map (.named .error) := by
  induction failures with
  | nil => exact ⟨[], rfl⟩
  | cons failure rest ih =>
    obtain ⟨handles, rfl⟩ := ih fun other member => vetted other (List.mem_cons_of_mem _ member)
    obtain ⟨between, isError⟩ := vetted failure List.mem_cons_self
    cases failure with
    | named kind handle => cases kind <;> first | exact ⟨handle :: handles, rfl⟩ | cases isError
    | _ => cases isError

/-- The types of a protocol as a walk resolves them. -/
def Schema.ResolvedTypes (meets : Registry → Schema → Prop) (registry : Registry)
    (types : List Schema) : Prop :=
  ∀ type ∈ types, meets registry type ∧ type.bare.isNamed = true

end AvroGraph
