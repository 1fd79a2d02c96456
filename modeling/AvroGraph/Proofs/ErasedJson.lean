import AvroGraph.Proofs.Adequacy
import AvroGraph.Proofs.ErasedRun

/-!
# Projection without abstract bases

A schema and its erasure are written as the same JSON, each in its own registry: a base is
written as the union of its branches, which is what erasure leaves of it. So the documents with
and without bases are projected alike (`Document.resolve_withoutBases`).
-/

namespace AvroGraph

open Projecting

namespace Registry

/-- The declarations written in full in a registry and in its erasure are the same. -/
def SameWritten (whole : Registry) (written erased : List Handle) : Prop :=
  ∀ handle entry, whole.get? handle = some entry → entry.isAbstractBase = false →
    (whole.rank handle ∈ erased ↔ handle ∈ written)

/-- What a rule for entries writes, another writes of their erasure. -/
def Erases (whole : Registry) (options : Options) (define other : Define) : Prop :=
  ∀ kind handle around written erased json after, whole.kindAt? handle = some kind →
    whole.SameWritten written erased → (define handle around).Yields written json after →
    ∃ last, whole.SameWritten after last ∧
      (((Schema.named kind handle).erase whole options).project (whole.erase whole options) other
        around).Yields erased json last

variable {whole : Registry} {options : Options}

/-- Only one declaration has a given rank. -/
theorem Sound.rank_inj (sound : whole.Sound) {handle other : Handle} {entry found : Entry}
    (isEntry : whole.get? handle = some entry) (isDeclared : entry.isAbstractBase = false)
    (isFound : whole.get? other = some found) (foundDeclared : found.isAbstractBase = false)
    (same : whole.rank handle = whole.rank other) : handle = other := by
  have here := get?_erase {} (.refl whole) isEntry isDeclared
  rw [same, get?_erase {} (.refl whole) isFound foundDeclared, Option.some.injEq] at here
  refine sound.indexed.handle_unique isEntry isFound ?_
  rw [← Entry.name_erase whole {}, ← here, Entry.name_erase]

/-- A declaration is written in a registry and in its erasure at once. -/
theorem Sound.sameWritten_cons (sound : whole.Sound) {written erased : List Handle}
    {handle : Handle} {entry : Entry} (same : whole.SameWritten written erased)
    (found : whole.get? handle = some entry) (isDeclared : entry.isAbstractBase = false) :
    whole.SameWritten (handle :: written) (whole.rank handle :: erased) := by
  intro other another isFound otherDeclared
  rw [List.mem_cons, List.mem_cons, same other another isFound otherDeclared]
  refine or_congr_left ⟨fun ranks => ?_, fun handles => by rw [handles]⟩
  exact sound.rank_inj isFound otherDeclared found isDeclared ranks

/-- A fixed type has the same logical type after erasure. -/
theorem isOwnOverlay_erase (underlying : Schema) {overlay : LogicalType}
    (grounded : underlying.Grounded whole) :
    Schema.isOwnOverlay (whole.erase whole options) (underlying.erase whole options) overlay =
      Schema.isOwnOverlay whole underlying overlay := by
  cases underlying with
  | named kind handle =>
    obtain ⟨entry, found, rfl⟩ := kindAt?_eq_some.1 grounded
    cases entry with
    | fixed fixedType =>
      have erased := get?_erase options (.refl whole) found rfl
      simp [Schema.erase, Entry.kind, Schema.isOwnOverlay, fixed?, found, erased, Entry.erase,
        Entry.fixed?]
    | abstractBase base =>
      rw [Entry.kind, Schema.erase]
      obtain ⟨_, _, _, same⟩ | same := Schema.eraseBase_cases whole options handle <;>
        rw [same] <;> rfl
    | _ => rfl
  | _ => simp [Schema.erase, Schema.isOwnOverlay]

end Registry

section

variable {whole : Registry} {options : Options} {define other : Define}

mutual

/-- A grounded schema is written alike after erasure. -/
theorem Schema.project_erased (erases : whole.Erases options define other)
    {around : Option String} {written erased after : List Handle} {json : Json} :
    (schema : Schema) → schema.Grounded whole → whole.SameWritten written erased →
      (schema.project whole define around).Yields written json after →
      ∃ last, whole.SameWritten after last ∧
        ((schema.erase whole options).project (whole.erase whole options) other around).Yields
          erased json last
  | .primitive _, _, same, writes => by
    obtain ⟨rfl, rfl⟩ := yields_primitive.1 writes
    exact ⟨erased, same, yields_primitive.2 ⟨rfl, rfl⟩⟩
  | .named kind handle, grounded, same, writes =>
    erases kind handle around written erased json after grounded same (yields_named.1 writes)
  | .array items, grounded, same, writes => by
    obtain ⟨inner, writesInner, rfl⟩ := yields_array.1 writes
    obtain ⟨last, lastSame, writesErased⟩ := items.project_erased erases grounded same writesInner
    exact ⟨last, lastSame, yields_array.2 ⟨inner, writesErased, rfl⟩⟩
  | .map values, grounded, same, writes => by
    obtain ⟨inner, writesInner, rfl⟩ := yields_map.1 writes
    obtain ⟨last, lastSame, writesErased⟩ := values.project_erased erases grounded same writesInner
    exact ⟨last, lastSame, yields_map.2 ⟨inner, writesErased, rfl⟩⟩
  | .union branches _ _, grounded, same, writes => by
    obtain ⟨jsons, writesEach, rfl⟩ := yields_union.1 writes
    obtain ⟨last, lastSame, writesErased⟩ :=
      projectEach_erased erases branches grounded same writesEach
    exact ⟨last, lastSame, yields_union.2 ⟨jsons, writesErased, rfl⟩⟩
  | .logical underlying overlay, grounded, same, writes => by
    obtain ⟨inner, writesInner, rfl⟩ := yields_logical.1 writes
    obtain ⟨last, lastSame, writesErased⟩ :=
      underlying.project_erased erases grounded same writesInner
    refine ⟨last, lastSame, yields_logical.2 ⟨inner, writesErased, ?_⟩⟩
    rw [Registry.isOwnOverlay_erase underlying grounded]
  | .boxed, grounded, _, _ => grounded.elim

/-- Schemas in a row are written alike after erasure. -/
theorem Schema.projectEach_erased (erases : whole.Erases options define other)
    {around : Option String} {written erased after : List Handle} {jsons : List Json} :
    (schemas : List Schema) → AllGrounded whole schemas → whole.SameWritten written erased →
      (projectEach whole define around schemas).Yields written jsons after →
      ∃ last, whole.SameWritten after last ∧
        (projectEach (whole.erase whole options) other around
          (eraseEach whole options schemas)).Yields erased jsons last
  | [], _, same, writes => by
    obtain ⟨rfl, rfl⟩ := yields_projectEach_nil.1 writes
    exact ⟨erased, same, yields_projectEach_nil.2 ⟨rfl, rfl⟩⟩
  | schema :: rest, grounded, same, writes => by
    obtain ⟨first, between, others, writesFirst, writesRest, rfl⟩ :=
      yields_projectEach_cons.1 writes
    obtain ⟨middle, middleSame, erasedFirst⟩ :=
      schema.project_erased erases grounded.1 same writesFirst
    obtain ⟨last, lastSame, erasedRest⟩ :=
      Schema.projectEach_erased erases rest grounded.2 middleSame writesRest
    exact ⟨last, lastSame,
      yields_projectEach_cons.2 ⟨first, middle, others, erasedFirst, erasedRest, rfl⟩⟩

end

/-- Fields are written alike after erasure, since their types are. -/
theorem projectFields_erased (erases : whole.Erases options define other) {around : Option String}
    {written erased after : List Handle} {fields : List Field} {jsons : List Json}
    (grounded : ∀ field ∈ fields, field.Grounded whole) (same : whole.SameWritten written erased)
    (writes : (projectFields whole define around fields).Yields written jsons after) :
    ∃ last, whole.SameWritten after last ∧
      (projectFields (whole.erase whole options) other around
        (fields.map (Field.erase whole options))).Yields erased jsons last := by
  induction fields generalizing written erased jsons with
  | nil =>
    obtain ⟨rfl, rfl⟩ := yields_projectFields_nil.1 writes
    exact ⟨erased, same, yields_projectFields_nil.2 ⟨rfl, rfl⟩⟩
  | cons field rest ih =>
    rw [List.forall_mem_cons] at grounded
    obtain ⟨type, between, others, writesType, writesRest, rfl⟩ :=
      yields_projectFields_cons.1 writes
    obtain ⟨middle, middleSame, erasedType⟩ :=
      field.declared.project_erased erases grounded.1 same writesType
    obtain ⟨last, lastSame, erasedRest⟩ := ih grounded.2 middleSame writesRest
    exact ⟨last, lastSame,
      yields_projectFields_cons.2 ⟨type, middle, others, erasedType, erasedRest, rfl⟩⟩

/-- Messages are written alike after erasure, since the types in them are. -/
theorem projectMessages_erased (erases : whole.Erases options define other)
    {around : Option String} {written erased after : List Handle} {messages : List Message}
    {members : Members} (grounded : ∀ message ∈ messages, message.Grounded whole)
    (same : whole.SameWritten written erased)
    (writes : (projectMessages whole define around messages).Yields written members after) :
    ∃ last, whole.SameWritten after last ∧
      (projectMessages (whole.erase whole options) other around
        (messages.map (Message.erase whole options))).Yields erased members last := by
  induction messages generalizing written erased members with
  | nil =>
    obtain ⟨rfl, rfl⟩ := yields_projectMessages_nil.1 writes
    exact ⟨erased, same, yields_projectMessages_nil.2 ⟨rfl, rfl⟩⟩
  | cons message rest ih =>
    rw [List.forall_mem_cons] at grounded
    obtain ⟨request, asked, response, answered, errors, failed, others, asks, answers, fails,
      writesRest, rfl⟩ := yields_projectMessages_cons.1 writes
    have groundedErrors : Schema.AllGrounded whole (message.errors.drop 1) :=
      Schema.allGrounded_iff.2 fun schema member =>
        Schema.allGrounded_iff.1 grounded.1.errors schema (List.mem_of_mem_drop member)
    obtain ⟨_, askedSame, erasedAsks⟩ := projectFields_erased erases grounded.1.request same asks
    obtain ⟨_, answeredSame, erasedAnswers⟩ :=
      message.response.project_erased erases grounded.1.response askedSame answers
    obtain ⟨_, failedSame, erasedFails⟩ :=
      Schema.projectEach_erased erases _ groundedErrors answeredSame fails
    obtain ⟨last, lastSame, erasedRest⟩ := ih grounded.2 failedSame writesRest
    have drops : (message.erase whole options).errors.drop 1 =
        eraseEach whole options (message.errors.drop 1) := by
      rw [Message.erase, Schema.eraseEach_eq_map, Schema.eraseEach_eq_map, List.map_drop]
    rw [← drops] at erasedFails
    exact ⟨last, lastSame, yields_projectMessages_cons.2 ⟨request, _, response, _, errors, _, others,
      erasedAsks, erasedAnswers, erasedFails, erasedRest, rfl⟩⟩

/-- A declaration is written alike after erasure. -/
theorem Entry.project_erased (erases : whole.Erases options define other)
    {around : Option String} {written erased after : List Handle} {json : Json} {entry : Entry}
    (isDeclared : entry.isAbstractBase = false) (grounded : entry.Grounded whole)
    (same : whole.SameWritten written erased)
    (writes : (entry.project whole define around).Yields written json after) :
    ∃ last, whole.SameWritten after last ∧
      ((entry.erase whole options).project (whole.erase whole options) other around).Yields erased
        json last := by
  cases entry with
  | record body =>
    obtain ⟨fields, writesFields, rfl⟩ := (yields_record false).1 writes
    obtain ⟨last, lastSame, erasedFields⟩ := projectFields_erased erases grounded same writesFields
    exact ⟨last, lastSame, (yields_record false).2 ⟨fields, erasedFields, rfl⟩⟩
  | error body =>
    obtain ⟨fields, writesFields, rfl⟩ := (yields_record true).1 writes
    obtain ⟨last, lastSame, erasedFields⟩ := projectFields_erased erases grounded same writesFields
    exact ⟨last, lastSame, (yields_record true).2 ⟨fields, erasedFields, rfl⟩⟩
  | enum enumeration =>
    obtain ⟨rfl, rfl⟩ := yields_enum.1 writes
    exact ⟨erased, same, yields_enum.2 ⟨rfl, rfl⟩⟩
  | fixed fixedType =>
    obtain ⟨rfl, rfl⟩ := yields_fixed.1 writes
    exact ⟨erased, same, yields_fixed.2 ⟨rfl, rfl⟩⟩
  | protocol body =>
    obtain ⟨types, typed, messages, writesTypes, writesMessages, rfl⟩ := yields_protocol.1 writes
    obtain ⟨_, typedSame, erasedTypes⟩ :=
      Schema.projectEach_erased erases _ grounded.1 same writesTypes
    obtain ⟨last, lastSame, erasedMessages⟩ :=
      projectMessages_erased erases grounded.2 typedSame writesMessages
    exact ⟨last, lastSame,
      yields_protocol.2 ⟨types, _, messages, erasedTypes, erasedMessages, rfl⟩⟩
  | abstractBase => cases isDeclared

end

namespace Registry

variable {whole : Registry} {options : Options}

/-- Entries are written alike after erasure, however deep they may nest. -/
theorem Sound.erases_define (sound : whole.Sound) (depth : Nat) :
    whole.Erases options (whole.define depth) ((whole.erase whole options).define depth) := by
  induction depth with
  | zero => exact fun _ _ _ _ _ _ _ _ _ writes => absurd writes yields_define_zero
  | succ depth ih =>
    intro kind handle around written erased json after known same writes
    obtain ⟨entry, found, rfl⟩ := kindAt?_eq_some.1 known
    have grounded := sound.closed handle entry found
    by_cases isBase : entry.isAbstractBase = true
    · cases entry with
      | abstractBase base =>
        obtain ⟨jsons, writesEach, rfl⟩ := (yields_define_base found).1 writes
        obtain ⟨last, lastSame, erasedEach⟩ :=
          Schema.projectEach_erased ih _ grounded.1 same writesEach
        -- What the base is erased to is the union that it is written as.
        refine ⟨last, lastSame, ?_⟩
        rw [Entry.kind, Schema.erase, eraseBase, found]
        simp only
        rw [Schema.map_rerank options grounded.2]
        exact Schema.yields_union.2 ⟨jsons, Schema.yields_projectEach_mono (.refl _)
          (define_extends_succ _ depth) _ erasedEach, rfl⟩
      | _ => cases isBase
    · have isDeclared : entry.isAbstractBase = false := by simpa using isBase
      have foundErased := get?_erase options (.refl whole) found isDeclared
      have erasedDeclared : (entry.erase whole options).isAbstractBase = false := by
        rw [Entry.isAbstractBase_erase, isDeclared]
      have kind : entry.kind ≠ .abstractBase := by
        cases entry <;> simp_all [Entry.kind, Entry.isAbstractBase]
      rw [Schema.erase_named kind]
      by_cases member : handle ∈ written
      · obtain ⟨rfl, rfl⟩ := (yields_define_written found isDeclared member).1 writes
        refine ⟨erased, same, Schema.yields_named.2 ((yields_define_written foundErased
          erasedDeclared ((same handle entry found isDeclared).2 member)).2 ⟨?_, rfl⟩)⟩
        rw [Entry.name_erase]
      · have fresh : whole.rank handle ∉ erased :=
          fun isWritten => member ((same handle entry found isDeclared).1 isWritten)
        obtain ⟨last, lastSame, erasedEntry⟩ := Entry.project_erased ih isDeclared grounded
          (sound.sameWritten_cons same found isDeclared)
          ((yields_define_fresh found isDeclared member).1 writes)
        exact ⟨last, lastSame, Schema.yields_named.2
          ((yields_define_fresh foundErased erasedDeclared fresh).2 erasedEntry)⟩

end Registry

namespace Document

variable {options : Options} {root json : Json} {document : Document}

/-- Slots that share neither owner nor name agree. -/
theorem candidatesAgree_of_nodup {events : List Event}
    (distinct : ((candidates events).map Prod.fst).Nodup) : CandidatesAgree events :=
  fun _ first _ second same => congrArg Prod.snd (List.inj_on_of_nodup_map distinct first second same)

/-- Documents with and without bases have the same declarations and the same JSON, unless a
reference is linked to a base or two slots of one owner and one name call for one. -/
theorem resolve_withoutBases (wanted : options.synthesizeBases = true)
    (accepted : Document.resolve options root = .ok document)
    (unlinked : ∀ event ∈ Document.events options root, event.linksBase = false)
    (distinct : ((candidates (Document.events options root)).map Prod.fst).Nodup) :
    ∃ plain json, Document.resolve { options with synthesizeBases := false } root = .ok plain ∧
      plain.registry.entries.map Entry.name =
        (document.registry.entries.filter (!·.isAbstractBase)).map Entry.name ∧
      document.toJson = .ok json ∧ plain.toJson = .ok json := by
  let whole := document.registry
  have sound : whole.Sound := (reached accepted).sound
  have own := hasOwnBase wanted accepted (candidatesAgree_of_nodup distinct)
  have undisturbed : ∀ event ∈ events options root, event.Undisturbed whole :=
    fun event member => ⟨unlinked event member, own event member⟩
  obtain ⟨-, walks⟩ := (Node.ofJson root).erased (Node.obeys_ownOverlays root)
    (resolve_eq_ok.1 accepted) (.refl whole) undisturbed
  let plain : Document := ⟨document.root.erase whole options, whole.erase whole options⟩
  have plainAccepted : Document.resolve options.withoutBases root = .ok plain :=
    resolve_eq_ok.2 walks
  obtain ⟨json, projected⟩ := exists_toJson accepted
  obtain ⟨other, otherProjected⟩ := exists_toJson plainAccepted
  refine ⟨plain, json, plainAccepted, ?_, projected, ?_⟩
  · simp only [plain, Registry.erase, List.map_map]
    exact List.map_congr_left fun entry _ => entry.name_erase whole options
  · -- Both projections go through when entries may nest deep enough for either.
    obtain ⟨after, writes⟩ := toJson_eq_ok.1 projected
    obtain ⟨otherAfter, otherWrites⟩ := toJson_eq_ok.1 otherProjected
    have nothing : whole.SameWritten [] [] := fun _ _ _ _ => by simp
    obtain ⟨last, -, erasedWrites⟩ := Schema.project_erased (sound.erases_define _) document.root
      (root_grounded accepted) nothing writes
    have deep := Schema.yields_mono (.refl _) (Registry.define_extends plain.registry
      (Nat.le_max_left whole.depthLimit plain.registry.depthLimit)) _ erasedWrites
    have deepOther := Schema.yields_mono (.refl _) (Registry.define_extends plain.registry
      (Nat.le_max_right whole.depthLimit plain.registry.depthLimit)) _ otherWrites
    rw [otherProjected, (deep.unique deepOther).1]

/-- What the protocol of letters resolves to without bases. -/
def plainLetters : Document :=
  let union (branches : List Schema) : Schema := .ofBranches { synthesizeBases := false } branches
  { root := .named .protocol 0
    registry :=
      { entries := declaredLetters (union [.named .record 1, .named .record 2])
          (union [.named .record 2, .named .record 1]) []
        index := [(.unqualified "B", 2), (.unqualified "A", 1), (.unqualified "P", 0)] } }

/-- With bases, the parameter and the response of a letter have one each; without, they are the
unions that they are declared as. Either way the protocol is projected to what it was resolved from.
-/
theorem resolve_withoutBases_messageOf :
    Document.resolve {} letters = .ok basedLetters ∧
      Document.resolve { synthesizeBases := false } letters = .ok plainLetters ∧
      plainLetters.registry.entries.map Entry.name =
        (basedLetters.registry.entries.filter (!·.isAbstractBase)).map Entry.name ∧
      basedLetters.toJson = .ok letters ∧ plainLetters.toJson = .ok letters := by
  have accepted : Document.resolve {} letters = .ok basedLetters := by decide +kernel
  have plainAccepted : Document.resolve { synthesizeBases := false } letters = .ok plainLetters := by
    decide +kernel
  have projected : basedLetters.toJson = .ok letters := by decide +kernel
  obtain ⟨_, json, isPlain, names, isJson, same⟩ :=
    resolve_withoutBases rfl accepted (by decide +kernel) (by decide +kernel)
  obtain rfl := Except.ok.inj (plainAccepted.symm.trans isPlain)
  obtain rfl := Except.ok.inj (projected.symm.trans isJson)
  exact ⟨accepted, plainAccepted, names, projected, same⟩

end Document

end AvroGraph
