import AvroGraph.Proofs.DistinctKeys

/-!
# Well-formed entries

Names of fields, parameters, messages and symbols are simple and distinct, the errors of a message
are error schemas, a one-way message promises no answer, and the types of a protocol are named
schemas. A resolver keeps all entries of its registry so (`Resolver.run_wellFormed`), also those
that a call has left half-built when it failed.
-/

namespace AvroGraph

variable {options : Options} {law : NodeLaw} {registry : Registry}

/-- Names without namespaces that can stand next to each other: each has something to see and no
dot, and no two are the same. -/
structure SimpleNames (names : List String) : Prop where
  distinct : names.Nodup
  simple : ∀ name ∈ names, Text.isBlank name = false ∧ '.' ∉ name.toList

/-- The symbols of an enum are not empty, and its default is one of them. -/
structure Enumeration.WellFormed (enumeration : Enumeration) : Prop where
  nonempty : enumeration.symbols ≠ []
  symbols : SimpleNames enumeration.symbols
  default : ∀ symbol, enumeration.default = some symbol → symbol ∈ enumeration.symbols

/-- The errors of a message are the implicit string and error schemas, of which a one-way message
has none. -/
structure Message.WellFormed (registry : Registry) (message : Message) : Prop where
  parameters : SimpleNames (message.request.map Field.name)
  errors : ∃ handles : List Handle, message.errors = .string :: handles.map (.named .error) ∧
    ∀ handle ∈ handles, ∃ body, registry.get? handle = some (.error body)
  oneWay : message.oneWay = true → message.response = .null ∧ message.responseUnderlying = .null ∧
    message.responseNullable = false ∧ message.errors = [.string]

/-- A handle, or a logical type over a handle. -/
def Schema.IsHandled (registry : Registry) (schema : Schema) : Prop :=
  ∃ kind handle, registry.kindAt? handle = some kind ∧
    (schema = .named kind handle ∨ ∃ overlay, schema = .logical (.named kind handle) overlay)

/-- The types of a protocol are named schemas, and its messages have names of their own. -/
structure Protocol.WellFormed (registry : Registry) (protocol : Protocol) : Prop where
  types : ∀ type ∈ protocol.types, type.IsHandled registry
  names : SimpleNames (protocol.messages.map Message.name)
  messages : ∀ message ∈ protocol.messages, message.WellFormed registry

/-- What an entry of each kind has to satisfy. -/
def Entry.WellFormed (registry : Registry) : Entry → Prop
  | .record body | .error body => SimpleNames (body.fields.map Field.name)
  | .enum enumeration => enumeration.WellFormed
  | .protocol body => body.WellFormed registry
  | .fixed _ | .abstractBase _ => True

/-! ## Names -/

namespace SimpleNames

variable {names : List String}

/-- Names that are checked and distinct can stand next to each other. -/
theorem of_checked (options : Options) (distinct : names.Nodup)
    (simple : ∀ name ∈ names, options.checkSimpleName name = .ok ()) : SimpleNames names where
  distinct := distinct
  simple name member := (Options.checkSimpleName_eq_ok.1 (simple name member)).1

/-- The names of fields that are resolved can stand next to each other. -/
theorem fields {meets : Registry → Schema → Prop} {fields : List Field}
    (distinct : (fields.map Field.name).Nodup)
    (resolved : ∀ field ∈ fields, field.Resolved options law meets registry) :
    SimpleNames (fields.map Field.name) := by
  refine of_checked options distinct fun name member => ?_
  obtain ⟨field, isField, rfl⟩ := List.mem_map.1 member
  exact (resolved field isField).simple

/-- The symbols of an enum are checked one after another, each against those before it. -/
theorem of_checkSymbols {done symbols : List String} {nodes : List (Option String)}
    (simple : SimpleNames done) (checked : checkSymbols options done nodes = .ok symbols) :
    SimpleNames symbols := by
  induction nodes generalizing done with
  | nil =>
    cases checked
    exact simple
  | cons node rest ih =>
    cases node with
    | none => cases checked
    | some symbol =>
      obtain ⟨isSimple, new, checked⟩ := checkSymbols_cons_eq_ok.1 checked
      refine ih ⟨?_, List.forall_mem_append.2 ⟨simple.simple, ?_⟩⟩ checked
      · rw [← List.concat_eq_append]
        exact simple.distinct.concat new
      · exact List.forall_mem_singleton.2 (Options.checkSimpleName_eq_ok.1 isSimple).1

end SimpleNames

/-! ## Entries -/

/-- The enum of a declaration is well-formed. -/
theorem Declaration.wellFormed_enumeration {declaration : Declaration}
    {symbols : List (Option String)} {default : Except Reason (Option String)}
    {enumeration : Enumeration}
    (checked : declaration.enumeration options symbols default = .ok enumeration) :
    enumeration.WellFormed := by
  obtain ⟨⟨isSymbols, some⟩, ⟨-, known⟩, -⟩ := enumeration_iff.1 checked
  exact ⟨some, .of_checkSymbols ⟨List.nodup_nil, by simp⟩ isSymbols, known⟩

/-- A one-way message passes its check if it has a null response and no errors. -/
theorem checkOneWay_eq_ok {name : String} {oneWay : Bool} {response : Schema}
    {errors : List Schema} :
    checkOneWay name oneWay response errors = .ok () ↔
      (oneWay = true → response = .null ∧ errors = []) := by
  cases oneWay <;> simp [checkOneWay, ← Schema.isNull_iff]

/-- A resolved message is well formed. -/
theorem Message.Resolved.wellFormed {message : Message}
    (resolved : message.Resolved options law (fun registry schema => schema.Grounded registry)
      registry) : message.WellFormed registry where
  parameters := .fields resolved.distinct resolved.request
  errors := by
    obtain ⟨handles, same, errors⟩ := resolved.errors
    refine ⟨handles, same, fun handle member => ?_⟩
    obtain ⟨entry, found, isError⟩ := Registry.kindAt?_eq_some.1 (errors handle member)
    cases entry with
    | error body => exact ⟨body, found⟩
    | _ => cases isError
  oneWay isOneWay := by
    obtain ⟨isNull, unanswered⟩ := checkOneWay_eq_ok.1 resolved.oneWay isOneWay
    have underlying : message.responseUnderlying = message.response.underlying :=
      resolved.filled.underlying
    have nullable : message.responseNullable = message.response.isNullable ∨
        ∃ base, message.response = .named .abstractBase base := resolved.filled.nullable
    rw [isNull] at underlying nullable
    refine ⟨isNull, underlying, ?_, ?_⟩
    · obtain notNullable | ⟨_, isBase⟩ := nullable
      · exact notNullable
      · cases isBase
    · obtain ⟨handles, same, -⟩ := resolved.errors
      rw [same] at unanswered ⊢
      rw [List.drop_one, List.tail_cons] at unanswered
      rw [unanswered]

/-- What is named beneath its logical type stands for an entry. -/
theorem Schema.isHandled_of_bare {schema : Schema} (grounded : schema.Grounded registry)
    (named : schema.bare.isNamed = true) : schema.IsHandled registry := by
  cases schema with
  | named kind handle => exact ⟨kind, handle, grounded, .inl rfl⟩
  | logical underlying overlay =>
    cases underlying with
    | named kind handle => exact ⟨kind, handle, grounded, .inr ⟨overlay, rfl⟩⟩
    | _ => cases named
  | _ => cases named

/-- Entries of resolved parts are well-formed, if the messages of a protocol come of distinct
keys. -/
theorem Registry.Keyed.wellFormed (keyed : registry.Keyed options) {handle : Handle} {entry : Entry}
    (found : registry.get? handle = some entry) : entry.WellFormed registry := by
  have parts := (keyed.resolved handle entry found).parts
  cases entry with
  | record body | error body => exact .fields parts.1 parts.2
  | enum enumeration =>
    obtain ⟨node, -, declares⟩ := keyed.declared found rfl
    exact Declaration.wellFormed_enumeration declares.enumeration
  | protocol body =>
    exact {
      types := fun type member =>
        Schema.isHandled_of_bare (parts.1 type member).1 (parts.1 type member).2
      names := .of_checked options (keyed.distinct_messages found) fun name member => by
        obtain ⟨message, isMessage, rfl⟩ := List.mem_map.1 member
        exact (parts.2.1 message isMessage).simple
      messages := fun message member => (parts.2.1 message member).wellFormed }
  | fixed | abstractBase => trivial

/-- Whatever calls a resolver is given and however they end, all entries of its registry are
well-formed, as long as the keys of the objects it is given are distinct. -/
theorem Resolver.run_wellFormed (options : Options) {calls : List (Json × Option String)}
    (distinct : ∀ call ∈ calls, call.1.EveryObject Members.DistinctKeys) {handle : Handle}
    {entry : Entry}
    (found : ((Resolver.new options).run calls).registry.get? handle = some entry) :
    entry.WellFormed ((Resolver.new options).run calls).registry :=
  (run_keyed options distinct).wellFormed found

/-- A protocol of an enum and an error, with a message that is answered and one that is not; after
it a letter in the same namespace whose second field has an unknown type. -/
def Resolver.mail : List (Json × Option String) :=
  let field (name type : String) : Json :=
    .object [("name", .string name), ("type", .string type)]
  let kind : Json := .object [("type", .string "enum"), ("name", .string "Kind"),
    ("symbols", .array [.string "PLAIN", .string "URGENT"]), ("default", .string "PLAIN")]
  let lost : Json := .object [("type", .string "error"), ("name", .string "Lost"),
    ("fields", .array [field "where" "string"])]
  let send : Json := .object [("request", .array [field "to" "string", field "kind" "Kind"]),
    ("response", .string "null"), ("one-way", .bool true)]
  let fetch : Json := .object [("request", .array [field "number" "long"]),
    ("response", .string "string"), ("errors", .array [.string "Lost"])]
  let letter : Json := .object [("type", .string "record"), ("name", .string "Letter"),
    ("fields", .array [field "text" "string", field "seal" "Seal"])]
  [(.object [("protocol", .string "post.Mail"), ("types", .array [kind, lost]),
      ("messages", .object [("send", send), ("fetch", fetch)])], none),
    (letter, some "post")]

/-- The protocol is well-formed in the registry that the failed call has left. -/
theorem Resolver.run_wellFormed_mail :
    (∀ call ∈ mail, call.1.EveryObject Members.DistinctKeys) ∧
      (((Resolver.new {}).run mail).registry.entries.map fun entry => entry.name.full) =
        ["post.Mail", "post.Kind", "post.Lost", "post.Letter"] ∧
      ∃ body, ((Resolver.new {}).run mail).registry.get? 0 = some (.protocol body) ∧
        body.messages.map Message.oneWay = [true, false] ∧
        (Entry.protocol body).WellFormed ((Resolver.new {}).run mail).registry := by
  have distinct : ∀ call ∈ mail, call.1.EveryObject Members.DistinctKeys := by decide +kernel
  have isProtocol : (((((Resolver.new {}).run mail).registry.get? 0).bind Entry.protocol?).any
      fun body => body.messages.map Message.oneWay = [true, false]) = true := by decide +kernel
  obtain ⟨body, said, oneWay⟩ := (Option.any_eq_true ..).1 isProtocol
  obtain ⟨entry, found, isBody⟩ := Option.bind_eq_some_iff.1 said
  have wellFormed := run_wellFormed {} distinct found
  cases entry with
  | protocol body =>
    cases isBody
    exact ⟨distinct, by decide +kernel, body, found, by simpa using oneWay, wellFormed⟩
  | _ => cases isBody

end AvroGraph
