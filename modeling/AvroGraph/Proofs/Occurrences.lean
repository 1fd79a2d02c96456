import AvroGraph.Proofs.Members
import AvroGraph.Proofs.Rewritten
import AvroGraph.Proofs.Visits

/-!
# Occurrences of named schemas

Reading JSON as what a schema is written as comes upon definitions of named schemas and references
to them, in the order of the document (`Registry.Reads`). What is read depends on the JSON alone
(`Registry.Reads.unique`): an object defines an entry if it has the members that make up its
definition, and the types in it are taken in the order in which the members stand. Nothing is left
out: whatever is inside a schema, or inside what is defined, occurs (`Registry.Reads.surveys`).
-/

namespace AvroGraph

/-- What is come upon of a named schema. -/
inductive Occurrence where
  | definition (handle : Handle)
  | reference (handle : Handle)
  deriving DecidableEq

/-- The handle of what occurs. -/
def Occurrence.handle : Occurrence → Handle
  | .definition handle | .reference handle => handle

/-! ## Types in an object -/

/-- What is read at the keys of an object, in the order of its members. -/
def Members.inOrder (read : String → Json → List Json) (members : Members) : List Json :=
  members.flatMap fun member => read member.1 member.2

namespace Json

/-- The value at a key of an object. -/
def get? (json : Json) (key : String) : Option Json :=
  json.object?.bind (Members.get? · key)

/-- The values in an array; others have none in them. -/
def elements (json : Json) : List Json :=
  json.array?.getD []

/-- The names of fields, where they have any. -/
def fieldNames (json : Json) : List (Option Json) :=
  json.elements.map (·.get? "name")

/-- The types of fields. -/
def fieldTypes (json : Json) : List Json :=
  json.elements.filterMap (·.get? "type")

/-- The types at a key of a message. -/
def messageTypesAt : String → Json → List Json
  | "request", parameters => parameters.fieldTypes
  | "response", response => [response]
  | "errors", errors => errors.elements
  | _, _ => []

/-- The types in a message. -/
def messageTypes (json : Json) : List Json :=
  Members.inOrder messageTypesAt (json.object?.getD [])

end Json

namespace NamedKind

/-- The types at a key of a definition. -/
def typesAt : NamedKind → String → Json → List Json
  | .record, "fields", fields | .error, "fields", fields => fields.fieldTypes
  | .protocol, "types", types => types.elements
  | .protocol, "messages", messages =>
    (messages.object?.getD []).flatMap fun message => message.2.messageTypes
  | _, _, _ => []

/-- The keys of a definition that say what is defined. -/
def definingKeys : NamedKind → List String
  | .record | .error => ["type", "name", "namespace", "fields"]
  | .enum => ["type", "name", "namespace", "symbols", "default"]
  | .fixed => ["type", "name", "namespace", "size"]
  | .protocol => ["protocol", "namespace", "types", "messages"]
  | .abstractBase => []

/-- Types are among what is defined. -/
theorem typesAt_eq_nil {kind : NamedKind} {key : String} (other : key ∉ kind.definingKeys)
    (json : Json) : kind.typesAt key json = [] := by
  unfold typesAt
  split <;> simp_all [definingKeys]

end NamedKind

/-- The kind, the name and the namespace of a definition within a namespace. -/
structure Members.Heads (members : Members) (kind : NamedKind) (name : Name)
    (around : Option String) : Prop where
  type : members.get? "type" = some (.string kind.keyword)
  named : members.get? "name" = some (.string name.localName)
  space : members.get? "namespace" = (name.spaceBeside around).map .string

/-- The names of fields as they are written. -/
def writtenNames (fields : List Field) : List (Option Json) :=
  fields.map fun field => some (.string field.name)

/-- Members that define an entry in full, whatever the types in it are written as. -/
def Entry.DefinedBy (around : Option String) (members : Members) : Entry → Prop
  | .record body => members.Heads .record body.name around ∧
      (members.get? "fields").map Json.fieldNames = some (writtenNames body.fields)
  | .error body => members.Heads .error body.name around ∧
      (members.get? "fields").map Json.fieldNames = some (writtenNames body.fields)
  | .enum enumeration => members.Heads .enum enumeration.name around ∧
      members.get? "symbols" = some (.ofStrings enumeration.symbols) ∧
      members.get? "default" = enumeration.default.map .string
  | .fixed fixedType => members.Heads .fixed fixedType.name around ∧
      members.get? "size" = some (.ofNat fixedType.size)
  | .protocol body => members.get? "protocol" = some (.string body.name.localName) ∧
      members.get? "namespace" = (body.name.spaceBeside around).map .string ∧
      (members.get? "types").map (fun types => types.elements.length) = some body.types.length ∧
      ((members.get? "messages").bind Json.object?).map (·.map fun message =>
        (message.1, (message.2.get? "request").map Json.fieldNames)) =
          some (body.messages.map fun message =>
            (message.name, some (writtenNames message.request)))
  | .abstractBase _ => False

/-- What defines an entry lies in the members that say so. -/
theorem Entry.DefinedBy.congr {around : Option String} {members others : Members} {entry : Entry}
    (defined : entry.DefinedBy around members)
    (same : ∀ key ∈ entry.kind.definingKeys, others.get? key = members.get? key) :
    entry.DefinedBy around others := by
  have heads {kind : NamedKind} {name : Name} (heads : members.Heads kind name around)
      (type : others.get? "type" = members.get? "type")
      (named : others.get? "name" = members.get? "name")
      (space : others.get? "namespace" = members.get? "namespace") :
      others.Heads kind name around :=
    ⟨type.trans heads.type, named.trans heads.named, space.trans heads.space⟩
  cases entry <;> simp only [Entry.kind, NamedKind.definingKeys, List.forall_mem_cons] at same
  case abstractBase => exact defined
  case protocol =>
    obtain ⟨isName, isSpace, isTypes, isMessages, -⟩ := same
    simpa only [DefinedBy, isName, isSpace, isTypes, isMessages] using defined
  all_goals
    obtain ⟨type, named, space, rest⟩ := same
    refine ⟨heads defined.1 type named space, ?_⟩
    simpa only [rest] using defined.2

/-- A definition has a name. -/
theorem Entry.DefinedBy.named {around : Option String} {members : Members} {entry : Entry}
    (defined : entry.DefinedBy around members) :
    members.get? "name" ≠ none ∨ members.get? "protocol" ≠ none := by
  cases entry with
  | protocol body =>
    have named : members.get? "protocol" = some (.string body.name.localName) := defined.1
    exact .inr (by simp [named])
  | abstractBase => exact defined.elim
  | _ => exact .inl (by simp [defined.1.named])

/-- What is defined is a declaration. -/
theorem Entry.DefinedBy.isAbstractBase {around : Option String} {members : Members} {entry : Entry}
    (defined : entry.DefinedBy around members) : entry.isAbstractBase = false := by
  cases entry with
  | abstractBase => exact defined.elim
  | _ => rfl

namespace Registry

/-- The entry at a handle is a declaration, and not a base. -/
def Declared (registry : Registry) (handle : Handle) : Prop :=
  ∃ entry, registry.get? handle = some entry ∧ entry.isAbstractBase = false

/-! ## Reading -/

mutual

/-- A value within a namespace reads as what a schema is written as, and these are the named schemas
that occur in it. A base has no name there: it reads as its branches. A logical type stands in an
object that its type is read from, or that has the type in it; the latter defines nothing. -/
inductive Reads (registry : Registry) :
    Option String → Schema → Json → List Occurrence → Prop where
  | primitive {around : Option String} {type : Primitive} :
      Reads registry around (.primitive type) (.string type.keyword) []
  | reference {around : Option String} {kind : NamedKind} {handle : Handle} {entry : Entry}
      {text : String} (found : registry.get? handle = some entry)
      (isDeclared : entry.isAbstractBase = false) (named : text = entry.name.reference around) :
      Reads registry around (.named kind handle) (.string text) [.reference handle]
  | definition {around : Option String} {kind : NamedKind} {handle : Handle} {entry : Entry}
      {members : Members} {occurrences : List Occurrence}
      (found : registry.get? handle = some entry) (defined : entry.DefinedBy around members)
      (inside : ReadsEach registry entry.name.space entry.schemas
        (members.inOrder entry.kind.typesAt) occurrences) :
      Reads registry around (.named kind handle) (.object members)
        (.definition handle :: occurrences)
  | base {around : Option String} {kind : NamedKind} {handle : Handle} {base : AbstractBase}
      {jsons : List Json} {occurrences : List Occurrence}
      (found : registry.get? handle = some (.abstractBase base))
      (inside : ReadsEach registry around base.derived jsons occurrences) :
      Reads registry around (.named kind handle) (.array jsons) occurrences
  | array {around : Option String} {items : Schema} {members : Members} {json : Json}
      {occurrences : List Occurrence} (typed : members.get? "type" = some (.string "array"))
      (present : members.get? "items" = some json)
      (inside : Reads registry around items json occurrences) :
      Reads registry around (.array items) (.object members) occurrences
  | map {around : Option String} {values : Schema} {members : Members} {json : Json}
      {occurrences : List Occurrence} (typed : members.get? "type" = some (.string "map"))
      (present : members.get? "values" = some json)
      (inside : Reads registry around values json occurrences) :
      Reads registry around (.map values) (.object members) occurrences
  | union {around : Option String} {branches : List Schema} {underlying : Schema}
      {nullable : Bool} {jsons : List Json} {occurrences : List Occurrence}
      (inside : ReadsEach registry around branches jsons occurrences) :
      Reads registry around (.union branches underlying nullable) (.array jsons) occurrences
  | laid {around : Option String} {underlying : Schema} {overlay : LogicalType} {json : Json}
      {occurrences : List Occurrence}
      (inside : Reads registry around underlying json occurrences) :
      Reads registry around (.logical underlying overlay) json occurrences
  | wrapped {around : Option String} {underlying : Schema} {overlay : LogicalType}
      {members : Members} {json : Json} {occurrences : List Occurrence}
      (typed : members.get? "type" = some json) (plain : json.object? = none)
      (unnamed : members.get? "name" = none ∧ members.get? "protocol" = none)
      (inside : Reads registry around underlying json occurrences) :
      Reads registry around (.logical underlying overlay) (.object members) occurrences

/-- Values read as what schemas are written as, one after the other. -/
inductive ReadsEach (registry : Registry) :
    Option String → List Schema → List Json → List Occurrence → Prop where
  | nil {around : Option String} : ReadsEach registry around [] [] []
  | cons {around : Option String} {schema : Schema} {rest : List Schema} {json : Json}
      {jsons : List Json} {occurrences others : List Occurrence}
      (first : Reads registry around schema json occurrences)
      (following : ReadsEach registry around rest jsons others) :
      ReadsEach registry around (schema :: rest) (json :: jsons) (occurrences ++ others)

end

variable {registry : Registry}

/-- An object that defines nothing and the type in it read alike where both read as the same schema:
then it is a logical type that stands in the object or is left out. -/
theorem Reads.exchange {around : Option String} {schema : Schema} {members : Members}
    {json : Json} {occurrences others : List Occurrence}
    (typed : members.get? "type" = some json) (plain : json.object? = none)
    (unnamed : members.get? "name" = none ∧ members.get? "protocol" = none) :
    Reads registry around schema (.object members) occurrences →
      Reads registry around schema json others →
      Reads registry around schema json occurrences ∧
        Reads registry around schema (.object members) others
  | .definition _ defined _, _ => by
    obtain named | named := defined.named
    · exact absurd unnamed.1 named
    · exact absurd unnamed.2 named
  | .array isArray _ _, second => by
    obtain rfl := Option.some.inj (typed.symm.trans isArray)
    cases second
  | .map isMap _ _, second => by
    obtain rfl := Option.some.inj (typed.symm.trans isMap)
    cases second
  | .laid inside, .laid insideAgain =>
    have ⟨type, object⟩ := inside.exchange typed plain unnamed insideAgain
    ⟨.laid type, .laid object⟩
  | .wrapped isType _ _ inside, .laid insideAgain => by
    obtain rfl := Option.some.inj (typed.symm.trans isType)
    exact ⟨.laid inside, .wrapped typed plain unnamed insideAgain⟩
  | _, .wrapped _ _ _ _ => by cases plain

mutual

/-- What occurs in a value is determined by the value. -/
theorem Reads.unique {around : Option String} {schema : Schema} {json : Json}
    {occurrences others : List Occurrence} : Reads registry around schema json occurrences →
      Reads registry around schema json others → occurrences = others
  | .primitive, .primitive => rfl
  | .reference _ _ _, .reference _ _ _ => rfl
  | .definition found _ inside, .definition foundAgain _ insideAgain => by
    obtain rfl := Option.some.inj (found.symm.trans foundAgain)
    rw [inside.unique insideAgain]
  | .base found inside, .base foundAgain insideAgain => by
    cases Option.some.inj (found.symm.trans foundAgain)
    exact inside.unique insideAgain
  | .array _ present inside, .array _ presentAgain insideAgain => by
    obtain rfl := Option.some.inj (present.symm.trans presentAgain)
    exact inside.unique insideAgain
  | .map _ present inside, .map _ presentAgain insideAgain => by
    obtain rfl := Option.some.inj (present.symm.trans presentAgain)
    exact inside.unique insideAgain
  | .union inside, .union insideAgain => inside.unique insideAgain
  | .laid inside, .laid insideAgain => inside.unique insideAgain
  | .laid inside, .wrapped typed plain unnamed insideAgain =>
    inside.unique (inside.exchange typed plain unnamed insideAgain).2
  | .wrapped typed plain unnamed inside, .laid insideAgain =>
    inside.unique (insideAgain.exchange typed plain unnamed inside).1
  | .wrapped typed _ _ inside, .wrapped typedAgain _ _ insideAgain => by
    obtain rfl := Option.some.inj (typed.symm.trans typedAgain)
    exact inside.unique insideAgain

/-- What occurs in values in a row is determined by the values. -/
theorem ReadsEach.unique {around : Option String} {schemas : List Schema} {jsons : List Json}
    {occurrences others : List Occurrence} :
    ReadsEach registry around schemas jsons occurrences →
      ReadsEach registry around schemas jsons others → occurrences = others
  | .nil, .nil => rfl
  | .cons first following, .cons firstAgain followingAgain => by
    rw [first.unique firstAgain, following.unique followingAgain]

end

/-! ## What occurs -/

/-- A named schema occurs, or is a base whose branches do. -/
inductive Covers (registry : Registry) (occurrences : List Occurrence) : Handle → Prop where
  | occurs {occurrence : Occurrence} (member : occurrence ∈ occurrences) :
      Covers registry occurrences occurrence.handle
  | base {handle : Handle} {base : AbstractBase}
      (found : registry.get? handle = some (.abstractBase base))
      (branches : ∀ target ∈ Schema.handlesOfEach base.derived,
        Covers registry occurrences target) : Covers registry occurrences handle

section

variable {starts more : List Handle} {handle target : Handle} {entry : Entry}
  {occurrences others : List Occurrence}

/-- What is covered by some occurrences is covered by more. -/
theorem Covers.mono (subset : occurrences ⊆ others) (covers : registry.Covers occurrences handle) :
    registry.Covers others handle := by
  induction covers with
  | occurs member => exact .occurs (subset member)
  | base found _ ih => exact .base found ih

/-- A declaration that is covered occurs itself. -/
theorem Covers.exists_of_declared (covers : registry.Covers occurrences handle)
    (declared : registry.Declared handle) :
    ∃ occurrence ∈ occurrences, occurrence.handle = handle := by
  cases covers with
  | occurs member => exact ⟨_, member, rfl⟩
  | base found _ =>
    obtain ⟨entry, isEntry, isDeclared⟩ := declared
    rw [Option.some.inj (isEntry.symm.trans found)] at isDeclared
    cases isDeclared

/-- Some entries occur with all that is inside, and nothing else does. -/
structure Surveys (registry : Registry) (starts : List Handle) (occurrences : List Occurrence) :
    Prop where
  begun : ∀ start ∈ starts, registry.Covers occurrences start
  closed : ∀ handle target, .definition handle ∈ occurrences → registry.Links handle target →
    registry.Covers occurrences target
  reached : ∀ occurrence ∈ occurrences, ∃ start ∈ starts, registry.Reaches start occurrence.handle
  declared : ∀ occurrence ∈ occurrences, registry.Declared occurrence.handle

namespace Surveys

/-- Nothing occurs from nowhere. -/
theorem nil (registry : Registry) : registry.Surveys [] [] where
  begun _ member := absurd member List.not_mem_nil
  closed _ _ member := absurd member List.not_mem_nil
  reached _ member := absurd member List.not_mem_nil
  declared _ member := absurd member List.not_mem_nil

/-- What occurs from some entries and from others occurs from all of them. -/
theorem append (first : registry.Surveys starts occurrences)
    (second : registry.Surveys more others) :
    registry.Surveys (starts ++ more) (occurrences ++ others) where
  begun start isStart := by
    rcases List.mem_append.1 isStart with early | late
    · exact (first.begun start early).mono (List.subset_append_left _ _)
    · exact (second.begun start late).mono (List.subset_append_right _ _)
  closed handle target member links := by
    rcases List.mem_append.1 member with early | late
    · exact (first.closed handle target early links).mono (List.subset_append_left _ _)
    · exact (second.closed handle target late links).mono (List.subset_append_right _ _)
  reached occurrence member := by
    rcases List.mem_append.1 member with early | late
    · obtain ⟨start, isStart, reaches⟩ := first.reached occurrence early
      exact ⟨start, List.mem_append_left _ isStart, reaches⟩
    · obtain ⟨start, isStart, reaches⟩ := second.reached occurrence late
      exact ⟨start, List.mem_append_right _ isStart, reaches⟩
  declared occurrence member :=
    (List.mem_append.1 member).elim (first.declared occurrence) (second.declared occurrence)

/-- A reference to a declaration occurs with nothing inside. -/
theorem of_reference (declared : registry.Declared handle) :
    registry.Surveys [handle] [.reference handle] where
  begun _ isStart := by
    rw [List.mem_singleton.1 isStart]
    exact .occurs (List.mem_singleton_self (Occurrence.reference handle))
  closed _ _ member := by simp at member
  reached occurrence member := by
    rw [List.mem_singleton.1 member]
    exact ⟨handle, List.mem_singleton_self _, .refl⟩
  declared occurrence member := by rwa [List.mem_singleton.1 member]

/-- A definition occurs with all that is inside the entry. -/
theorem of_definition (found : registry.get? handle = some entry)
    (isDeclared : entry.isAbstractBase = false)
    (inside : registry.Surveys (Schema.handlesOfEach entry.schemas) occurrences) :
    registry.Surveys [handle] (.definition handle :: occurrences) where
  begun _ isStart := by
    rw [List.mem_singleton.1 isStart]
    have isFirst : Occurrence.definition handle ∈ .definition handle :: occurrences :=
      List.mem_cons_self
    exact .occurs isFirst
  closed source target member links := by
    refine Covers.mono (List.subset_cons_self _ _) ?_
    rcases List.mem_cons.1 member with same | member
    · obtain rfl := Occurrence.definition.inj same
      obtain ⟨other, isOther, isTarget⟩ := links
      obtain rfl := Option.some.inj (found.symm.trans isOther)
      exact inside.begun target isTarget
    · exact inside.closed source target member links
  reached occurrence member := by
    refine ⟨handle, List.mem_singleton_self _, ?_⟩
    rcases List.mem_cons.1 member with rfl | member
    · exact .refl
    · obtain ⟨start, isStart, reaches⟩ := inside.reached occurrence member
      exact .head ⟨entry, found, isStart⟩ reaches
  declared occurrence member := by
    rcases List.mem_cons.1 member with rfl | member
    · exact ⟨entry, found, isDeclared⟩
    · exact inside.declared occurrence member

/-- A base does not occur itself, but all that is inside it does. -/
theorem of_base {base : AbstractBase} (found : registry.get? handle = some (.abstractBase base))
    (inside : registry.Surveys (Schema.handlesOfEach base.derived) occurrences) :
    registry.Surveys [handle] occurrences where
  begun _ isStart := by
    rw [List.mem_singleton.1 isStart]
    exact .base found inside.begun
  closed := inside.closed
  reached occurrence member := by
    obtain ⟨start, isStart, reaches⟩ := inside.reached occurrence member
    exact ⟨handle, List.mem_singleton_self _, .head ⟨_, found, isStart⟩ reaches⟩
  declared := inside.declared

end Surveys

end

mutual

/-- Reading a value comes upon the named schemas in its schema. -/
theorem Reads.surveys {around : Option String} {schema : Schema} {json : Json}
    {occurrences : List Occurrence} : Reads registry around schema json occurrences →
      registry.Surveys schema.handles occurrences
  | .primitive => .nil registry
  | .reference found isDeclared _ => .of_reference ⟨_, found, isDeclared⟩
  | .definition found defined inside => .of_definition found defined.isAbstractBase inside.surveys
  | .base found inside => .of_base found inside.surveys
  | .array _ _ inside => inside.surveys
  | .map _ _ inside => inside.surveys
  | .union inside => inside.surveys
  | .laid inside => inside.surveys
  | .wrapped _ _ _ inside => inside.surveys

/-- Reading values in a row comes upon the named schemas in their schemas. -/
theorem ReadsEach.surveys {around : Option String} {schemas : List Schema} {jsons : List Json}
    {occurrences : List Occurrence} : ReadsEach registry around schemas jsons occurrences →
      registry.Surveys (Schema.handlesOfEach schemas) occurrences
  | .nil => .nil registry
  | .cons first following => first.surveys.append following.surveys

end

end Registry

end AvroGraph
