import AvroGraph.Proofs.StrictBases
import AvroGraph.Proofs.TypeGraph

/-!
# Names in the generated code

A name is escaped segment by segment, and its segments can be told from what comes of it
(`Text.segments_escapeDotted`). Under strict names no segment has an `@` of its own, those of
abstract bases included, so that no two entries of a registry and no two fields of an owner go by
one name in the generated code, and none of them by a keyword (`Registry.Reached.targetNames`).
-/

namespace AvroGraph

/-! ## Segments -/

namespace Text

variable {text : String}

/-- A text without dots is its only segment. -/
theorem segments_undotted (undotted : '.' ∉ text.toList) : segments text = [text] := by
  have single : pieces (· == '.') text.toList = [text.toList] := by
    refine pieces_eq_singleton fun character member => ?_
    rw [beq_eq_false_iff_ne]
    rintro rfl
    exact undotted member
  rw [segments, single, List.map_singleton, String.ofList_toList]

/-- What stands before a separator is cut off as it is if it holds no separator. -/
theorem segments_cons {first rest : String} (undotted : '.' ∉ first.toList) :
    segments (first ++ "." ++ rest) = first :: segments rest := by
  rw [segments, toList_dotted, pieces_append (by rfl), List.map_append]
  exact congrArg (· ++ segments rest) (segments_undotted undotted)

/-- Parts without dots are the segments of what they are joined to. -/
theorem segments_intercalate {parts : List String} (some : parts ≠ [])
    (undotted : ∀ part ∈ parts, '.' ∉ part.toList) : segments (".".intercalate parts) = parts := by
  induction parts with
  | nil => exact absurd rfl some
  | cons part rest ih =>
    obtain ⟨here, later⟩ := List.forall_mem_cons.1 undotted
    cases rest with
    | nil => rw [String.intercalate_singleton, segments_undotted here]
    | cons next others =>
      rw [String.intercalate_cons_cons, segments_cons here, ih (by simp) later]

/-- The pieces of a text, with dots between them, are the text. -/
theorem intercalate_pieces (characters : List Char) :
    ['.'].intercalate (pieces (· == '.') characters) = characters := by
  induction characters with
  | nil => simp [pieces]
  | cons character rest ih =>
    rw [pieces]
    cases cut : pieces (· == '.') rest with
    | nil => exact absurd cut (pieces_ne_nil _ rest)
    | cons piece others =>
      rw [cut] at ih
      split
      · next dot =>
        rw [List.intercalate_cons_cons, ih, eq_of_beq dot]
        rfl
      · cases others with
        | nil => simpa using ih
        | cons => simpa [List.intercalate_cons_cons] using ih

/-- A text is what its segments are joined to. -/
theorem intercalate_segments (text : String) : ".".intercalate (segments text) = text := by
  rw [← String.toList_inj, String.toList_intercalate, segments, List.map_map]
  have asLists : String.toList ∘ String.ofList = id := funext fun _ => String.toList_ofList
  rw [asLists, List.map_id]
  exact intercalate_pieces text.toList

/-- What separates pieces is in none of them. -/
theorem notMem_pieces {separates : Char → Bool} {characters piece : List Char} {separator : Char}
    (cuts : separates separator = true) (isPiece : piece ∈ pieces separates characters) :
    separator ∉ piece := by
  induction characters generalizing piece with
  | nil => simp_all [pieces]
  | cons character rest ih =>
    rw [pieces] at isPiece
    split at isPiece
    · rcases List.mem_cons.1 isPiece with rfl | later
      · exact List.not_mem_nil
      · exact ih later
    · next uncut =>
      have different : separator ≠ character := by
        rintro rfl
        exact uncut cuts
      cases cut : pieces separates rest with
      | nil => exact absurd cut (pieces_ne_nil separates rest)
      | cons head others =>
        rw [cut] at isPiece ih
        rcases List.mem_cons.1 isPiece with rfl | later
        · exact List.not_mem_cons_of_ne_of_not_mem different (ih List.mem_cons_self)
        · exact ih (List.mem_cons_of_mem _ later)

/-- There are no dots in a segment. -/
theorem dot_notMem_segments {segment : String} (member : segment ∈ segments text) :
    '.' ∉ segment.toList := by
  obtain ⟨piece, isPiece, rfl⟩ := List.mem_map.1 member
  rw [String.toList_ofList]
  exact notMem_pieces (by rfl) isPiece

/-- Even an empty text has a segment. -/
theorem segments_ne_nil (text : String) : segments text ≠ [] := by
  rw [segments, ne_eq, List.map_eq_nil_iff]
  exact pieces_ne_nil _ _

end Text

namespace Identifier

variable {text : String}

/-- To escape a text brings no dots in. -/
theorem dot_notMem_escape (undotted : '.' ∉ text.toList) : '.' ∉ (escape text).toList := by
  rw [escape]
  split
  · simpa using undotted
  · exact undotted

/-- The segments of what is escaped are those it is escaped of, each escaped on its own. -/
theorem segments_escapeDotted (dotted : String) :
    Text.segments (escapeDotted dotted) = (Text.segments dotted).map escape := by
  refine Text.segments_intercalate ?_ fun part member => ?_
  · rw [ne_eq, List.map_eq_nil_iff]
    exact Text.segments_ne_nil dotted
  · obtain ⟨segment, isSegment, rfl⟩ := List.mem_map.1 member
    exact dot_notMem_escape (Text.dot_notMem_segments isSegment)

/-- No segment of what is escaped is a keyword. -/
theorem isReserved_escapeDotted {dotted segment : String}
    (member : segment ∈ Text.segments (escapeDotted dotted)) : isReserved segment = false := by
  rw [segments_escapeDotted] at member
  obtain ⟨plain, -, rfl⟩ := List.mem_map.1 member
  exact isReserved_escape plain

/-- Identifiers that are escaped alike, each in its place, are the same. -/
theorem map_escape_inj {lefts rights : List String}
    (leftPlain : ∀ left ∈ lefts, '@' ∉ left.toList)
    (rightPlain : ∀ right ∈ rights, '@' ∉ right.toList)
    (same : lefts.map escape = rights.map escape) : lefts = rights := by
  induction lefts generalizing rights with
  | nil => exact (List.map_eq_nil_iff.1 same.symm).symm
  | cons left lefts ih =>
    obtain ⟨right, others, rfl, escaped, rest⟩ := List.map_eq_cons_iff.1 same.symm
    rw [List.forall_mem_cons] at leftPlain rightPlain
    rw [escape_inj leftPlain.1 rightPlain.1 escaped.symm, ih leftPlain.2 rightPlain.2 rest.symm]

/-- Escaping tells dotted names apart, as long as no segment brings in an `@` of its own. -/
theorem escapeDotted_inj {left right : String}
    (leftPlain : ∀ segment ∈ Text.segments left, '@' ∉ segment.toList)
    (rightPlain : ∀ segment ∈ Text.segments right, '@' ∉ segment.toList)
    (same : escapeDotted left = escapeDotted right) : left = right := by
  have segments := congrArg Text.segments same
  rw [segments_escapeDotted, segments_escapeDotted] at segments
  rw [← Text.intercalate_segments left, map_escape_inj leftPlain rightPlain segments,
    Text.intercalate_segments]

/-- What continues identifiers has no characters in it that break them. -/
theorem Continues.notMem {character : Char} (continues : Continues text)
    (breaks : continuesIdentifier character = false) : character ∉ text.toList := by
  intro member
  have isInside := continues character member
  rw [breaks] at isInside
  cases isInside

end Identifier

/-! ## Names under strict names -/

variable {options : Options}

/-- Under strict names, the local name of an entry and the segments of its namespace are made of
characters of identifiers. -/
theorem Entry.Named.parts_continue {entry : Entry} (named : entry.Named options)
    (strict : options.strictNames = true) : Identifier.Continues entry.name.localName ∧
      ∀ space ∈ entry.name.space, ∀ segment ∈ Text.segments space,
        Identifier.Continues segment := by
  have admitted {name : Name} (admitted : name.Admitted options) :
      Identifier.Continues name.localName ∧ ∀ space ∈ name.space,
        ∀ segment ∈ Text.segments space, Identifier.Continues segment :=
    ⟨Identifier.continues_of_isWellFormed (admitted.isWellFormed strict).1,
      fun space inSpace segment member => Identifier.continues_of_isWellFormed
        ((admitted.isWellFormed strict).2 space inSpace segment member)⟩
  cases entry with
  | abstractBase base =>
    refine ⟨(AbstractBase.MadeFor.isWellFormed_iff named strict).1, ?_⟩
    rw [Entry.name, AbstractBase.MadeFor.space_eq named]
    exact (admitted named.owner).2
  | _ => exact admitted named

/-- With strict names, every segment of a name continues identifiers. -/
theorem Entry.Named.continues {entry : Entry} (named : entry.Named options)
    (strict : options.strictNames = true) :
    ∀ segment ∈ Text.segments entry.name.full, Identifier.Continues segment := by
  obtain ⟨localName, spaces⟩ := named.parts_continue strict
  have undotted : '.' ∉ entry.name.localName.toList := localName.notMem (by decide)
  rw [Name.full]
  cases inSpace : entry.name.space with
  | none =>
    rw [Text.segments_undotted undotted]
    exact List.forall_mem_singleton.2 localName
  | some space =>
    rw [Text.segments_dotted undotted]
    exact List.forall_mem_append.2
      ⟨spaces space inSpace, List.forall_mem_singleton.2 localName⟩

/-- Under strict names, distinct names of fields are distinct in the generated code as well. -/
theorem Field.nodup_members {fields : List Field} (distinct : (fields.map Field.name).Nodup)
    (simple : ∀ field ∈ fields, options.checkSimpleName field.name = .ok ())
    (strict : options.strictNames = true) : (fields.map Field.member).Nodup := by
  have plain (field : Field) (member : field ∈ fields) : '@' ∉ field.name.toList :=
    (Identifier.continues_of_isWellFormed (Options.isWellFormed_of_checkSimpleName
      (simple field member) strict)).notMem (by decide)
  refine List.Nodup.map_on (fun field member other otherMember same => ?_) (.of_map _ distinct)
  refine List.inj_on_of_nodup_map distinct member otherMember ?_
  exact Identifier.escape_inj (plain field member) (plain other otherMember) same

namespace Registry

variable {registry : Registry}

/-- Under strict names, distinct full names are distinct in the generated code as well. -/
theorem Reached.nodup_escapedFull (reached : registry.Reached options)
    (strict : options.strictNames = true) :
    (registry.entries.map fun entry => entry.name.escapedFull).Nodup := by
  have distinct := reached.wellNamed.nodup_names reached.sound
  have plain (entry : Entry) (member : entry ∈ registry.entries) :
      ∀ segment ∈ Text.segments entry.name.full, '@' ∉ segment.toList := by
    obtain ⟨handle, found⟩ := List.mem_iff_getElem?.1 member
    have continues := (reached.named handle entry found).continues strict
    exact fun segment isSegment => (continues segment isSegment).notMem (by decide)
  refine List.Nodup.map_on (fun entry member other otherMember same => ?_) (.of_map _ distinct)
  refine List.inj_on_of_nodup_map distinct member otherMember ?_
  exact Identifier.escapeDotted_inj (plain entry member) (plain other otherMember) same

/-- In every registry that a resolver reaches under strict names, the names of entries in the
generated code are distinct, and so are those of the fields of a record or an error and of the
parameters of a message; none of these is a keyword, nor is any segment of the name of an entry. -/
theorem Reached.targetNames (reached : registry.Reached options)
    (strict : options.strictNames = true) :
    (registry.entries.map fun entry => entry.name.escapedFull).Nodup ∧
      ∀ entry ∈ registry.entries,
        (∀ segment ∈ Text.segments entry.name.escapedFull,
          Identifier.isReserved segment = false) ∧
        ∀ fields ∈ entry.fieldLists, (fields.map Field.member).Nodup ∧
          ∀ field ∈ fields, Identifier.isReserved field.member = false := by
  refine ⟨reached.nodup_escapedFull strict, fun entry isEntry => ⟨fun segment member => ?_,
    fun fields member => ⟨?_, fun field _ => Identifier.isReserved_escape field.name⟩⟩⟩
  · exact Identifier.isReserved_escapeDotted member
  · obtain ⟨handle, found⟩ := List.mem_iff_getElem?.1 isEntry
    obtain ⟨distinct, resolved⟩ := (reached.allResolved handle entry found).fields fields member
    exact Field.nodup_members distinct (fun field isField => (resolved field isField).simple) strict

/-- A protocol in a namespace of keywords, whose names are keywords but for that of a base. -/
def keywords : Json :=
  let declare (kind name : String) (rest : Members) : Json :=
    .object ([("type", .string kind), ("name", .string name)] ++ rest)
  let slot (name : String) (type : Json) : Json :=
    .object [("name", .string name), ("type", type)]
  let branches := Json.array [declare "record" "new" [("fields", .array [])],
    declare "error" "throw" [("fields", .array [])]]
  let request := Json.array [slot "in" (.string "int"), slot "out" branches]
  let record := declare "record" "object" [("fields", .array [slot "ref" (.array
    [declare "record" "base" [("fields", .array [])], .string "new"]), slot "int" (.string "int")])]
  .object [("protocol", .string "event.void"), ("types", .array []),
    ("messages", .object [("is", .object [("request", request), ("response", record)])])]

/-- What is registered for it under strict names. -/
def keywordsRegistered : Registry :=
  ((Resolver.mk { strictNames := true } .empty).resolve keywords none).2.registry

/-- All names of the protocol are told apart in the generated code, where no keyword is left. -/
theorem targetNames_keywords :
    (keywordsRegistered.entries.map fun entry => entry.name.escapedFull) =
        ["@event.@void", "@event.@new", "@event.@throw", "@event.@object", "@event.@base",
          "@event.ObjectRefBase"] ∧
      (keywordsRegistered.entries.flatMap Entry.fieldLists).map (·.map Field.member) =
        [["@in", "@out"], [], [], ["@ref", "@int"], []] ∧
      (keywordsRegistered.entries.map fun entry => entry.name.escapedFull).Nodup ∧
      ∀ entry ∈ keywordsRegistered.entries,
        (∀ segment ∈ Text.segments entry.name.escapedFull,
          Identifier.isReserved segment = false) ∧
        ∀ fields ∈ entry.fieldLists, (fields.map Field.member).Nodup ∧
          ∀ field ∈ fields, Identifier.isReserved field.member = false := by
  have reached : keywordsRegistered.Reached { strictNames := true } := by
    unfold keywordsRegistered
    exact .resolve keywords none .empty
  exact ⟨by decide +kernel, by decide +kernel, Reached.targetNames reached rfl⟩

end Registry

end AvroGraph
