import AvroGraph.Proofs.InStep
import AvroGraph.Proofs.Unadorned

/-!
# Counterparts of entries

When a part of a registry is written and read back, its entries stand at other handles.
`Registry.Follows` says which ones have been read: one for each that is written, in that order.
Each stands for the entry that it was written of (`Entry.StandsFor`), as far as other entries can
tell. Then schemas that refer to them are alike (`Schema.Alike`), and fit where they fitted.
-/

namespace AvroGraph

/-- An entry that other entries cannot tell from another one, except for what is inside records,
errors and protocols. -/
structure Entry.StandsFor (entry origin : Entry) : Prop where
  name_eq : entry.name = origin.name
  kind_eq : entry.kind = origin.kind
  enum?_eq : entry.enum? = origin.enum?
  unadorned : entry.Unadorned

namespace Registry

/-- The entries read back so far stand for those that are written, in the order in which they were
written, and the index leads to them. -/
structure Follows (source again : Registry) (written : List Handle) : Prop where
  entries : List.Forall₂ (fun entry handle => ∃ origin, source.get? handle = some origin ∧
    entry.StandsFor origin) again.entries written.reverse
  indexed : again.Indexed

variable {source again after : Registry} {written : List Handle} {handle place : Handle}
  {entry origin : Entry}

/-- Nothing has been read where nothing is written. -/
theorem follows_empty : source.Follows .empty [] := ⟨.nil, .empty⟩

namespace Follows

/-- As many entries have been registered again as have been written. -/
theorem size_eq (follows : source.Follows again written) : again.size = written.length := by
  rw [size, follows.entries.length_eq, List.length_reverse]

/-- What is read next after some entries are written stands where it was registered. -/
theorem get?_of_suffix (follows : source.Follows again written) {earlier : List Handle}
    (suffix : handle :: earlier <:+ written) (found : source.get? handle = some origin) :
    ∃ entry, again.get? earlier.length = some entry ∧ entry.StandsFor origin := by
  obtain ⟨later, rfl⟩ := suffix
  have here : (later ++ handle :: earlier).reverse[earlier.length]? = some handle := by simp
  obtain ⟨within, isHandle⟩ := List.getElem?_eq_some_iff.1 here
  have bound : earlier.length < again.entries.length := follows.entries.length_eq ▸ within
  obtain ⟨other, isOther, standsFor⟩ := follows.entries.get bound within
  refine ⟨again.entries[earlier.length], List.getElem?_eq_getElem bound, ?_⟩
  rw [List.get_eq_getElem, isHandle, found, Option.some.injEq] at isOther
  exact isOther ▸ standsFor

/-- What has been read stands for something that is written. -/
theorem exists_origin (follows : source.Follows again written)
    (found : again.get? place = some entry) :
    ∃ handle ∈ written, ∃ origin, source.get? handle = some origin ∧ entry.StandsFor origin := by
  obtain ⟨bound, same⟩ := List.getElem?_eq_some_iff.1 found
  have within : place < written.reverse.length := follows.entries.length_eq ▸ bound
  obtain ⟨origin, isOrigin, standsFor⟩ := follows.entries.get bound within
  refine ⟨_, List.mem_reverse.1 (List.getElem_mem within), origin, isOrigin, ?_⟩
  rw [← same]
  exact standsFor

/-- What is written has been read. -/
theorem exists_place (follows : source.Follows again written) (member : handle ∈ written)
    (found : source.get? handle = some origin) :
    ∃ place entry, again.get? place = some entry ∧ entry.StandsFor origin := by
  obtain ⟨place, within, same⟩ := List.mem_iff_getElem.1 (List.mem_reverse.2 member)
  have bound : place < again.entries.length := follows.entries.length_eq ▸ within
  obtain ⟨other, isOther, standsFor⟩ := follows.entries.get bound within
  refine ⟨place, again.entries[place], List.getElem?_eq_getElem bound, ?_⟩
  have isHandle : written.reverse.get ⟨place, within⟩ = handle := same
  rw [isHandle, found, Option.some.injEq] at isOther
  exact isOther ▸ standsFor

/-- What has been read has the names of what is written. -/
theorem mem_names (follows : source.Follows again written) {full : String} :
    full ∈ again.names ↔ ∃ handle ∈ written, ∃ origin, source.get? handle = some origin ∧
      origin.name.full = full := by
  rw [names, List.mem_map]
  constructor
  · rintro ⟨entry, member, rfl⟩
    obtain ⟨place, isEntry⟩ := List.mem_iff_getElem?.1 member
    obtain ⟨handle, isWritten, origin, isOrigin, standsFor⟩ := follows.exists_origin isEntry
    exact ⟨handle, isWritten, origin, isOrigin, by rw [standsFor.name_eq]⟩
  · rintro ⟨handle, isWritten, origin, isOrigin, rfl⟩
    obtain ⟨place, entry, isEntry, standsFor⟩ := follows.exists_place isWritten isOrigin
    exact ⟨entry, List.mem_of_getElem? isEntry, by rw [standsFor.name_eq]⟩

/-- The name of an entry that is written finds the one that stands for it. -/
theorem find? (follows : source.Follows again written) (member : handle ∈ written)
    (found : source.get? handle = some origin) :
    ∃ place entry, again.find? origin.name = some place ∧ again.get? place = some entry ∧
      entry.StandsFor origin := by
  obtain ⟨place, entry, isEntry, standsFor⟩ := follows.exists_place member found
  exact ⟨place, entry, (follows.indexed _ _).2 ⟨entry, isEntry, standsFor.name_eq⟩, isEntry,
    standsFor⟩

/-- A name that nothing written has is free. -/
theorem find?_eq_none (follows : source.Follows again written) {name : Name}
    (absent : ∀ other ∈ written, (source.get? other).map Entry.name ≠ some name) :
    again.find? name = none := by
  refine follows.indexed.find?_eq_none.2 fun member => ?_
  obtain ⟨entry, isMember, rfl⟩ := List.mem_map.1 member
  obtain ⟨place, isEntry⟩ := List.mem_iff_getElem?.1 isMember
  obtain ⟨other, isWritten, origin, isOrigin, standsFor⟩ := follows.exists_origin isEntry
  refine absent other isWritten ?_
  rw [isOrigin, Option.map_some, standsFor.name_eq]

/-- An entry that is written next is registered next. -/
theorem register (follows : source.Follows again written) (sound : source.Sound)
    (fresh : handle ∉ written) (found : source.get? handle = some origin)
    (standsFor : entry.StandsFor origin) :
    ∃ after, again.register entry = .ok (again.size, after) ∧
      source.Follows after (handle :: written) := by
  have free : again.find? entry.name = none := by
    refine follows.find?_eq_none fun other member same => fresh ?_
    obtain ⟨named, isNamed, sameName⟩ := Option.map_eq_some_iff.1 same
    have isHandle := sound.indexed.handle_unique isNamed found (sameName.trans standsFor.name_eq)
    exact isHandle ▸ member
  have registered := register_eq_ok.2 ⟨free, rfl, rfl⟩
  refine ⟨_, registered, ?_, follows.indexed.register registered⟩
  rw [List.reverse_cons]
  exact List.rel_append follows.entries (.cons ⟨origin, found, standsFor⟩ .nil)

/-- A change of an entry that others cannot tell makes no difference. -/
theorem update {change : Entry → Entry} (follows : source.Follows again written)
    (amended : again.Amended (again.update place change))
    (changed : ∀ entry origin : Entry, entry.StandsFor origin → (change entry).StandsFor origin) :
    source.Follows (again.update place change) written := by
  refine ⟨List.forall₂_iff_get.2 ⟨?_, fun index bound within => ?_⟩, follows.indexed.amended amended⟩
  · rw [Registry.update, List.length_modify, follows.entries.length_eq]
  · have before : index < again.entries.length := by
      rwa [Registry.update, List.length_modify] at bound
    obtain ⟨origin, isOrigin, standsFor⟩ := follows.entries.get before within
    refine ⟨origin, isOrigin, ?_⟩
    simp only [Registry.update, List.get_eq_getElem, List.getElem_modify]
    split
    · exact changed _ _ standsFor
    · exact standsFor

/-- A record that has been read is given its fields. -/
theorem setFields (follows : source.Follows again written) (place : Handle) (fields : List Field) :
    source.Follows (again.setFields place fields) written :=
  follows.update (amended_setFields place fields) fun entry origin standsFor => by
    cases entry with
    | record | error =>
      exact ⟨standsFor.name_eq, standsFor.kind_eq, standsFor.enum?_eq, rfl, fun _ => rfl⟩
    | _ => exact standsFor

/-- A protocol that has been read is given its types and its messages. -/
theorem setProtocol (follows : source.Follows again written) (place : Handle) (types : List Schema)
    (messages : List Message) : source.Follows (again.setProtocol place types messages) written :=
  follows.update (amended_setProtocol place types messages) fun entry origin standsFor => by
    cases entry with
    | protocol =>
      exact ⟨standsFor.name_eq, standsFor.kind_eq, standsFor.enum?_eq, rfl, fun _ => rfl⟩
    | _ => exact standsFor

end Follows

end Registry

/-! ## Schemas -/

/-- A schema in one registry is like a schema in another: a type of the same kind, and one whose
entry stands for the other's if it is named. -/
inductive Schema.Alike (source again : Registry) : Schema → Schema → Prop where
  | primitive (type : Primitive) : Alike source again (.primitive type) (.primitive type)
  | named {kind : NamedKind} {handle place : Handle} {origin entry : Entry}
      (isOrigin : source.get? handle = some origin) (isEntry : again.get? place = some entry)
      (standsFor : entry.StandsFor origin) :
      Alike source again (.named kind handle) (.named kind place)
  | array (items others : Schema) : Alike source again (.array items) (.array others)
  | map (values others : Schema) : Alike source again (.map values) (.map others)
  | union (branches others : List Schema) (underlying other : Schema) (nullable isNullable : Bool) :
      Alike source again (.union branches underlying nullable) (.union others other isNullable)

namespace Schema.Alike

variable {source again : Registry} {schema other : Schema}

/-- Null is alike to null alone. -/
theorem isNull_eq (alike : schema.Alike source again other) : other.isNull = schema.isNull := by
  cases alike with
  | primitive | named | array | map | union => rfl

/-- A type of a protocol is one again. -/
theorem protocolType (alike : schema.Alike source again other)
    (isNamed : schema.bare.isNamed = true) : Vet.protocolType again other = .ok () := by
  cases alike with
  | named => rfl
  | _ => cases isNamed

/-- An error of a message is one again. -/
theorem messageError {handle : Handle}
    (alike : Schema.Alike source again (.named .error handle) other) (message : String) :
    Vet.messageError message again other = .ok () := by
  cases alike with
  | named => rfl

/-- A default that fits a type fits one that is like it. -/
theorem synthesizeOption (alike : schema.Alike source again other) {default : Option Json}
    {literal : Option DefaultLiteral}
    (synthesized : DefaultLiteral.synthesizeOption source schema default = .ok literal) :
    ∃ literal, DefaultLiteral.synthesizeOption again other default = .ok literal := by
  cases default with
  | none => exact ⟨none, rfl⟩
  | some default =>
    cases alike with
    | primitive => exact ⟨literal, synthesized⟩
    | @named kind _ _ origin _ isOrigin isEntry standsFor =>
      cases kind with
      | enum =>
        simp only [DefaultLiteral.synthesizeOption, DefaultLiteral.synthesize, isOrigin, isEntry,
          Option.bind_some, standsFor.enum?_eq] at synthesized ⊢
        cases isEnum : origin.enum? with
        | none =>
          rw [isEnum] at synthesized
          cases synthesized
        | some enumeration =>
          rw [isEnum] at synthesized
          exact ⟨literal, synthesized⟩
      | _ => exact ⟨_, rfl⟩
    | array | map | union => exact ⟨_, rfl⟩

end Schema.Alike

end AvroGraph
