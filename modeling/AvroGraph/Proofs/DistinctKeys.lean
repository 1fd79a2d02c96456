import AvroGraph.Proofs.AppendOnly
import AvroGraph.Proofs.ResolvedEntries
import AvroGraph.Proofs.Sound
import AvroGraph.Proofs.Tidy

/-!
# Documents of distinct keys

In a value that is read from text, the keys of every object are distinct. A resolver that is given
such documents alone, in any number of calls that may fail, reaches registries in which extension
properties stay clear of the keys with a meaning, and messages of a protocol have names of their own
(`Resolver.run_keyed`).
-/

namespace AvroGraph

/-- The keys of an object are distinct, as they are in every value that is read from text. -/
def Members.DistinctKeys (members : Members) : Prop :=
  (members.map Prod.fst).Nodup

instance (members : Members) : Decidable members.DistinctKeys :=
  inferInstanceAs (Decidable (members.map Prod.fst).Nodup)

/-! ## Nodes -/

/-- The law of tidy nodes, as far as it depends on distinct keys alone. -/
def NodeLaw.keyed : NodeLaw where
  node
    | .logical _ _ _ _ _ => True
    | node => tidy.node node
  field := tidy.field
  message := tidy.message

/-- A tidy node keeps its keys apart. -/
theorem NodeLaw.keyed_of_tidy {node : Node} (lawful : tidy.node node) : keyed.node node := by
  cases node with
  | logical => trivial
  | _ => exact lawful

/-- In objects with distinct keys, nodes keep their keys apart. -/
theorem NodeLaw.governs_keyed :
    keyed.Governs fun members => members.DistinctKeys ∧
      ∀ entries, members.get? "messages" = some (.object entries) →
        (entries.map Prod.fst).Nodup where
  malformed _ _ := trivial
  reference _ := trivial
  union _ _ := trivial
  object members condition := by
    have typed := keyed_of_tidy (Node.tidy_ofTyped condition.1)
    refine ⟨?_, typed⟩
    rw [Node.ofMembers]
    split
    · exact keyed_of_tidy (Node.tidy_ofProtocol condition.1 condition.2)
    · split
      · exact typed
      · trivial
      · trivial
  malformedField _ _ := trivial
  field _ condition := FieldNode.tidy_ofMembers condition.1 _
  malformedMessage _ _ := trivial
  messageOther := governs_tidy.messageOther
  message name members condition := MessageNode.tidy_ofMembers condition.1 name
    (fieldsAt "request" members) (nodeAt "response" members) (nodesAt "errors" members)

/-- In a document whose objects have distinct keys, all nodes keep their keys apart. -/
theorem Node.obeys_keyed (json : Json) (distinct : json.EveryObject Members.DistinctKeys) :
    (ofJson json).Obeys .keyed :=
  obeys_ofJson NodeLaw.governs_keyed json (distinct.mono (fun _ here inside =>
    ⟨here, fun _ found => (inside.get? found).1⟩) json)

/-! ## Entries -/

/-- The properties of a declaration whose heading is tidy. -/
theorem Heading.Tidy.properties {heading : Heading} {reserved : List String}
    (tidy : heading.Tidy reserved) {options : Options} {around : Option String}
    {declaration : Declaration} (resolved : heading.resolve options around = .ok declaration) :
    declaration.details.properties.Tidy reserved :=
  tidy _ (Heading.resolve_eq_ok.1 resolved).2.2

/-- The extension properties of an entry are tidy. -/
def Entry.Tidy : Entry → Prop
  | .record body | .error body => body.properties.Tidy Members.reserved
  | .enum enumeration => enumeration.properties.Tidy Members.reserved
  | .fixed fixedType => fixedType.properties.Tidy Members.reserved
  | .protocol body => body.properties.Tidy Members.reservedOfProtocols
  | .abstractBase _ => True

/-- What a keyed node declares is tidy. -/
theorem Node.Declares.tidy {options : Options} {node : Node} {entry : Entry}
    (declares : node.Declares options entry) (lawful : NodeLaw.keyed.node node) : entry.Tidy := by
  cases declares with
  | record _ isError _ resolved =>
    have properties := Heading.Tidy.properties lawful resolved
    cases isError <;> exact properties
  | enum _ resolved checked =>
    have properties := Heading.Tidy.properties lawful resolved
    rwa [(Declaration.enumeration_eq_ok checked).2.1] at properties
  | fixed _ resolved sized =>
    have properties := Heading.Tidy.properties lawful resolved
    rwa [(Declaration.fixedType_eq_ok.1 sized).2.2.1] at properties
  | protocol _ _ _ resolved => exact Heading.Tidy.properties lawful.1 resolved

/-- An enum is declared by what it consists of. -/
theorem Node.Declares.enumeration {options : Options} {node : Node} {enumeration : Enumeration}
    (declares : node.Declares options (.enum enumeration)) :
    Declaration.enumeration ⟨enumeration.name, enumeration.doc, enumeration.aliases,
      enumeration.properties⟩ options (enumeration.symbols.map some) (.ok enumeration.default) =
        .ok enumeration := by
  generalize isEnum : Entry.enum enumeration = entry at declares
  cases declares with
  | record _ isError => cases isError <;> cases isEnum
  | @enum _ _ declaration _ _ _ _ resolved checked =>
    cases isEnum
    obtain ⟨isName, details, isSymbols, isDefault⟩ := Declaration.enumeration_eq_ok checked
    have isDeclaration : declaration = ⟨enumeration.name, enumeration.doc, enumeration.aliases,
        enumeration.properties⟩ := by
      rw [isName, ← details]
    rw [← isDeclaration, ← isSymbols, ← isDefault, checked]
  | fixed | protocol => cases isEnum

/-! ## Registries -/

/-- What a resolver makes sure of that is given documents of distinct keys: the registry is sound,
and its entries are as such documents declare them. -/
structure Registry.Keyed (options : Options) (registry : Registry) : Prop where
  sound : registry.Sound
  resolved : registry.AllResolved options .keyed fun registry schema => schema.Grounded registry

namespace Registry.Keyed

variable {options : Options} {registry : Registry} {handle : Handle} {entry : Entry}

/-- An empty registry is keyed. -/
theorem empty : Registry.empty.Keyed options where
  sound := .empty
  resolved handle _ found := by simp [Registry.empty, get?] at found

/-- Every declaration comes of a node that obeys the law. -/
theorem declared (keyed : registry.Keyed options) (found : registry.get? handle = some entry)
    (isDeclared : entry.isAbstractBase = false) :
    ∃ node, NodeLaw.keyed.node node ∧ node.Declares options entry.stripped :=
  (keyed.resolved handle entry found).declared isDeclared

/-- The entries of a keyed registry are tidy. -/
theorem tidy (keyed : registry.Keyed options) (found : registry.get? handle = some entry) :
    entry.Tidy := by
  cases entry with
  | abstractBase _ => trivial
  | _ =>
    obtain ⟨node, lawful, declares⟩ := keyed.declared found rfl
    exact declares.tidy lawful

/-- The messages of a protocol have distinct names. -/
theorem distinct_messages (keyed : registry.Keyed options) {body : Protocol}
    (found : registry.get? handle = some (.protocol body)) :
    (body.messages.map Message.name).Nodup := by
  obtain ⟨-, -, _, _, _, _, lawful, sublist⟩ := (keyed.resolved handle _ found).parts
  exact lawful.2.sublist sublist

end Registry.Keyed

/-- Calls in a row keep every invariant of nodes that obey a law. -/
theorem Resolver.holds_run {options : Options} {law : NodeLaw} {good : Registry → Prop}
    {meets : Registry → Schema → Prop} (condition : Registry.Condition options law good meets)
    (invariant : Registry.Invariant options law good meets) {registry : Registry}
    (calls : List (Json × Option String))
    (lawful : ∀ call ∈ calls, (Node.ofJson call.1).Obeys law) (holds : good registry) :
    good ((Resolver.mk options registry).run calls).registry := by
  induction calls generalizing registry with
  | nil => exact holds
  | cons call rest ih =>
    have own := Node.obeys_ownOverlays call.1
    have here : Resolving.Ensures ((Node.ofJson call.1).resolve options call.2) registry good _ :=
      (Node.ofJson call.1).ensures condition invariant own (lawful call List.mem_cons_self) holds
    exact ih (fun other member => lawful other (List.mem_cons_of_mem _ member)) here.leaves

/-- A resolver that is given documents of distinct keys reaches registries that say so. -/
theorem Resolver.run_keyed (options : Options) {calls : List (Json × Option String)}
    (distinct : ∀ call ∈ calls, call.1.EveryObject Members.DistinctKeys) :
    ((Resolver.new options).run calls).registry.Keyed options := by
  have lawful (call : Json × Option String) (member : call ∈ calls) :
      (Node.ofJson call.1).Obeys .keyed := Node.obeys_keyed call.1 (distinct call member)
  have lasts {before after : Registry} (retains : before.Retains after) (schema : Schema)
      (grounded : schema.Grounded before) : schema.Grounded after :=
    grounded.mono retains.keepsKinds
  have condition : Registry.Condition options .keyed
      (fun registry => registry.Sound ∧ registry.AllResolved options .keyed
        fun registry schema => schema.Grounded registry)
      (fun registry schema => schema.Grounded registry) :=
    Registry.groundedCondition fun _ holds => holds.1.knowsBases
  have holds := holds_run condition
    (Registry.Sound.invariant.and (Registry.AllResolved.invariant lasts)) calls lawful
    ⟨.empty, Registry.Keyed.empty.resolved⟩
  exact ⟨holds.1, holds.2⟩

end AvroGraph
