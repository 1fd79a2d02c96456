import AvroGraph.Proofs.ErasedRun
import AvroGraph.Proofs.Reading
import AvroGraph.Proofs.Tidy
import AvroGraph.Proofs.Written

/-!
# Projections in step with a resolution

A projection of the registry that a resolution ends in visits the declarations in the order in
which the resolution registered them. `Registry.LeadsTo` says what a registry on the way has in
common with the last one, and `Registry.InStep` says that a projection has written in full just
what a walk has registered. Then a reference is written as one that means the same
(`Registry.InStep.reference`), and a slot as the type that was declared for it
(`Slot.project_declared`).
-/

namespace AvroGraph

open Projecting

/-- What an entry turns to: it keeps its name, and a fixed type is complete. -/
structure Entry.Turns (entry last : Entry) : Prop where
  name_eq : last.name = entry.name
  isAbstractBase_eq : last.isAbstractBase = entry.isAbstractBase
  fixed : ∀ fixedType, entry = .fixed fixedType → last = .fixed fixedType

namespace Entry

variable {entry middle last : Entry}

/-- An entry may stay as it is. -/
theorem Turns.refl (entry : Entry) : entry.Turns entry :=
  ⟨rfl, rfl, fun _ => id⟩

/-- What an entry turns to may turn to something else. -/
theorem Turns.trans (first : entry.Turns middle) (second : middle.Turns last) :
    entry.Turns last where
  name_eq := second.name_eq.trans first.name_eq
  isAbstractBase_eq := second.isAbstractBase_eq.trans first.isAbstractBase_eq
  fixed fixedType isFixed := second.fixed fixedType (first.fixed fixedType isFixed)

/-- To grow is a way to turn. -/
theorem Grows.turns {size : Nat} (grows : entry.Grows size last) : entry.Turns last where
  name_eq := grows.name_eq
  isAbstractBase_eq := grows.isAbstractBase_eq
  fixed fixedType isFixed := by
    subst isFixed
    exact grows.eq_of_kind (by simp [kind])

end Entry

namespace Registry

variable {start later : Handle} {registry before after final : Registry}

/-- Every entry is there in the end, and what is registered from a handle on is complete except
for bases that it comes to derive from. -/
def LeadsTo (start : Handle) (registry final : Registry) : Prop :=
  ∀ handle entry, registry.get? handle = some entry →
    ∃ last, final.get? handle = some last ∧ entry.Turns last ∧
      (start ≤ handle → entry.Grows 0 last)

namespace LeadsTo

/-- A registry leads to itself. -/
theorem refl (start : Handle) (registry : Registry) : registry.LeadsTo start registry :=
  fun _ entry found => ⟨entry, found, .refl entry, fun _ => .same entry⟩

/-- What leads to an end from a handle on leads there from any later one on. -/
theorem weaken (leads : registry.LeadsTo start final) (le : start ≤ later) :
    registry.LeadsTo later final := by
  intro handle entry found
  obtain ⟨last, isLast, turns, grows⟩ := leads handle entry found
  exact ⟨last, isLast, turns, fun bound => grows (Nat.le_trans le bound)⟩

/-- A registry leads where it leads once it has grown. -/
theorem of_grows (leads : after.LeadsTo start final) (grows : before.Grows after) :
    before.LeadsTo start final := by
  intro handle entry found
  obtain ⟨grown, isGrown, growth⟩ := grows.entry handle entry (lt_size_of_get? found) found
  obtain ⟨last, isLast, turns, growsOn⟩ := leads handle grown isGrown
  refine ⟨last, isLast, growth.turns.trans turns, fun bound => ?_⟩
  exact (growth.weaken (Nat.zero_le _)).trans (growsOn bound)

/-- Where a message leads, each registry on its way leads: after the parameters, after the response,
after the slot of the response and after the errors. -/
theorem message {asked typed answered : Registry} (leads : after.LeadsTo before.size final)
    (asks : before.Grows asked) (answers : asked.Grows typed) (fills : typed.Grows answered)
    (fails : answered.Grows after) :
    asked.LeadsTo before.size final ∧ typed.LeadsTo asked.size final ∧
      answered.LeadsTo before.size final ∧ after.LeadsTo answered.size final := by
  have filled := leads.of_grows fails
  have unfilled := filled.of_grows fills
  exact ⟨unfilled.of_grows answers, unfilled.weaken asks.size_le, filled,
    leads.weaken (asks.trans (answers.trans fills)).size_le⟩

section

variable {registered filled : Registry} {entry : Entry} {handle : Handle}
  (register : before.register entry = .ok (handle, registered))
include register

/-- A registry leads where it leads once an entry is completed, as far as what is registered behind
that entry is concerned. -/
theorem of_update {change : Entry → Entry}
    (leads : (filled.update handle change).LeadsTo before.size final)
    (turns : ∀ entry : Entry, entry.Turns (change entry)) : filled.LeadsTo registered.size final := by
  have bound : handle < registered.size := lt_size_of_get? (get?_registered register)
  have le : before.size ≤ registered.size := (keeps_register register).size_le
  intro other entry found
  by_cases same : handle = other
  · subst same
    have changed : (filled.update handle change).get? handle = some (change entry) := by
      rw [get?_update, if_pos rfl, found, Option.map_some]
    obtain ⟨last, isLast, turnsOn, -⟩ := leads handle _ changed
    exact ⟨last, isLast, (turns entry).trans turnsOn, fun above => absurd bound (Nat.not_lt.2 above)⟩
  · have kept : (filled.update handle change).get? other = some entry := by
      rw [get?_update, if_neg same, found]
    obtain ⟨last, isLast, turnsOn, grows⟩ := leads other entry kept
    exact ⟨last, isLast, turnsOn, fun above => grows (Nat.le_trans le above)⟩

/-- Before a record is given its fields, the walk leads to the same end behind the record. -/
theorem of_setFields {fields : List Field}
    (leads : (filled.setFields handle fields).LeadsTo before.size final) :
    filled.LeadsTo registered.size final := by
  refine of_update register leads fun entry => ?_
  cases entry with
  | fixed => exact .refl _
  | _ => exact ⟨rfl, rfl, fun _ isFixed => by cases isFixed⟩

/-- Before a protocol is given its parts, the walk leads to the same end behind the protocol. -/
theorem of_setProtocol {types : List Schema} {messages : List Message}
    (leads : (filled.setProtocol handle types messages).LeadsTo before.size final) :
    filled.LeadsTo registered.size final := by
  refine of_update register leads fun entry => ?_
  cases entry with
  | fixed => exact .refl _
  | _ => exact ⟨rfl, rfl, fun _ isFixed => by cases isFixed⟩

end

end LeadsTo

/-! ## Projections in step -/

/-- A projection of the last registry has written in full the declarations that a walk has
registered and indexed. -/
structure InStep (final registry : Registry) (written : List Handle) : Prop where
  written : ∀ handle entry, final.get? handle = some entry → entry.isAbstractBase = false →
    (handle ∈ written ↔ handle < registry.size)
  /-- The fixed types that are registered are coherent. -/
  coherent : ∀ handle fixedType, registry.get? handle = some (.fixed fixedType) →
    fixedType.Coherent
  indexed : registry.Indexed

namespace InStep

variable {written : List Handle} {handle : Handle}

/-- A declaration is registered by the walk and written in full at once. -/
theorem register {entry : Entry} (inStep : final.InStep registry written)
    (registered : registry.register entry = .ok (handle, after))
    (coherent : ∀ fixedType, entry = .fixed fixedType → fixedType.Coherent) :
    final.InStep after (handle :: written) where
  written other found isFound isDeclared := by
    rw [List.mem_cons, inStep.written other found isFound isDeclared, size_register registered,
      handle_register registered, Nat.lt_succ_iff_lt_or_eq, or_comm]
  coherent other fixedType isFixed := by
    rw [get?_register registered] at isFixed
    split at isFixed
    · exact coherent fixedType (Option.some.inj isFixed)
    · exact inStep.coherent other fixedType isFixed
  indexed := inStep.indexed.register registered

/-- Completing an entry leaves a projection in step. -/
theorem update {change : Entry → Entry} (inStep : final.InStep registry written)
    (amended : registry.Amended (registry.update handle change))
    (coherent : ∀ entry fixedType, registry.get? handle = some entry →
      change entry = .fixed fixedType → fixedType.Coherent) :
    final.InStep (registry.update handle change) written where
  written other found isFound isDeclared := by
    rw [size_update]
    exact inStep.written other found isFound isDeclared
  coherent other fixedType isFixed := by
    rw [get?_update] at isFixed
    split at isFixed
    · next same =>
      subst same
      obtain ⟨entry, isEntry, changed⟩ := Option.map_eq_some_iff.1 isFixed
      exact coherent entry fixedType isEntry changed
    · exact inStep.coherent other fixedType isFixed
  indexed := inStep.indexed.amended amended

/-- Giving a record its fields leaves a projection in step. -/
theorem setFields {fields : List Field} (inStep : final.InStep registry written) :
    final.InStep (registry.setFields handle fields) written := by
  refine inStep.update (amended_setFields handle fields) fun entry fixedType found changed => ?_
  cases entry with
  | fixed => exact inStep.coherent handle fixedType (by rw [found, ← changed])
  | _ => cases changed

/-- Giving a protocol its types and its messages leaves a projection in step. -/
theorem setProtocol {types : List Schema} {messages : List Message}
    (inStep : final.InStep registry written) :
    final.InStep (registry.setProtocol handle types messages) written := by
  refine inStep.update (amended_setProtocol handle types messages)
    fun entry fixedType found changed => ?_
  cases entry with
  | fixed => exact inStep.coherent handle fixedType (by rw [found, ← changed])
  | _ => cases changed

/-- Filling a slot leaves a projection in step: bases do not count as written. -/
theorem slot {options : Options} {owner : Name} {name : String} {declared : Schema} {slot : Slot}
    (inStep : final.InStep registry written) (leads : after.LeadsTo start final)
    (filled : registry.slot options owner name declared = .ok (slot, after)) :
    final.InStep after written where
  written other found isFound isDeclared := by
    rw [inStep.written other found isFound isDeclared]
    refine ⟨fun bound => Nat.lt_of_lt_of_le bound (grows_slot filled).size_le, fun bound => ?_⟩
    by_contra new
    obtain ⟨entry, isEntry⟩ := exists_get? bound
    obtain ⟨last, isLast, turns, -⟩ := leads other entry isEntry
    have isBase := isAbstractBase_of_slot filled isEntry (Nat.not_lt.1 new)
    rw [isLast, Option.some.injEq] at isFound
    rw [← isFound, turns.isAbstractBase_eq, isBase] at isDeclared
    cases isDeclared
  coherent other fixedType isFixed := by
    by_cases new : registry.size ≤ other
    · cases isAbstractBase_of_slot filled isFixed new
    · obtain ⟨entry, isEntry⟩ := exists_get? (Nat.not_le.1 new)
      obtain ⟨grown, isGrown, growth⟩ :=
        (grows_slot filled).entry other entry (Nat.not_le.1 new) isEntry
      rw [isFixed, Option.some.injEq] at isGrown
      subst isGrown
      cases growth with
      | same => exact inStep.coherent other fixedType isEntry
  indexed := inStep.indexed.slot filled

end InStep

end Registry

/-! ## References -/

/-- The words that mean a type of their own. -/
def typeKeywords : List String := Primitive.all.map Primitive.keyword ++ objectKeywords

/-- No declaration is named like a type of its own. -/
def Registry.AvoidsKeywords (registry : Registry) : Prop :=
  ∀ entry ∈ registry.entries, entry.isAbstractBase = false → entry.name.localName ∉ typeKeywords

instance (registry : Registry) : Decidable registry.AvoidsKeywords :=
  inferInstanceAs (Decidable (∀ entry ∈ registry.entries, entry.isAbstractBase = false →
    entry.name.localName ∉ typeKeywords))

/-- A reference to a name that is no keyword is none. -/
theorem Name.reference_notMem {name : Name} (free : name.localName ∉ typeKeywords)
    (around : Option String) : name.reference around ∉ typeKeywords := by
  have undotted : ∀ word ∈ typeKeywords, '.' ∉ word.toList := by decide
  rw [reference]
  split
  · exact free
  · cases space : name.space with
    | none => rwa [full, space]
    | some text =>
      intro isKeyword
      refine undotted _ isKeyword ?_
      simp [full, space, String.toList_append]

/-- A text that is no keyword for a type names no primitive type. -/
theorem Primitive.ofKeyword?_eq_none {text : String} (free : text ∉ typeKeywords) :
    ofKeyword? text = none := by
  rw [Option.eq_none_iff_forall_ne_some]
  intro primitive found
  refine free (List.mem_append_left _ (List.mem_map.2 ⟨primitive, ?_, ?_⟩))
  · cases primitive <;> decide
  · exact (ofKeyword?_eq_some.1 found).symm

namespace Registry

variable {start : Handle} {registry final : Registry} {around : Option String} {text : String}
  {schema : Schema} {written : List Handle}

/-- A schema is written as a text, wherever entries may nest, and nothing else is written. -/
def WritesText (final : Registry) (written : List Handle) (around : Option String)
    (schema : Schema) (text : String) : Prop :=
  ∀ depth json last, (schema.project final (final.define depth) around).Yields written json last →
    json = .string text ∧ last = written

/-- A declaration that is registered is written as a reference to its name. -/
theorem InStep.writesText_toSchema (inStep : final.InStep registry written)
    (leads : registry.LeadsTo start final) {handle : Handle} {entry : Entry}
    (found : registry.get? handle = some entry) (isDeclared : entry.isAbstractBase = false) :
    final.WritesText written around (entry.toSchema handle) (entry.name.reference around) ∧
      final.WritesText written around (entry.toSchema handle).bare (entry.name.reference around) := by
  obtain ⟨last, isLast, turns, -⟩ := leads handle entry found
  have lastDeclared : last.isAbstractBase = false := turns.isAbstractBase_eq.trans isDeclared
  have member : handle ∈ written :=
    (inStep.written handle last isLast lastDeclared).2 (lt_size_of_get? found)
  have named (kind : NamedKind) :
      final.WritesText written around (.named kind handle) (entry.name.reference around) := by
    intro depth json after writes
    cases depth with
    | zero => exact absurd (Schema.yields_named.1 writes) yields_define_zero
    | succ depth =>
      obtain ⟨rfl, rfl⟩ :=
        (yields_define_written isLast lastDeclared member).1 (Schema.yields_named.1 writes)
      rw [turns.name_eq]
      exact ⟨rfl, rfl⟩
  cases entry with
  | fixed fixedType =>
    cases isOverlay : fixedType.overlay with
    | none => simpa [Entry.toSchema, isOverlay, Schema.bare] using named .fixed
    | some overlay =>
      have own : Schema.isOwnOverlay final (.named .fixed handle) overlay = true := by
        simp [Schema.isOwnOverlay, fixed?, isLast, turns.fixed fixedType rfl, Entry.fixed?,
          isOverlay]
      simp only [Entry.toSchema, isOverlay]
      refine ⟨fun depth json after writes => ?_, named .fixed⟩
      obtain ⟨inner, writesInner, rfl⟩ := Schema.yields_logical.1 writes
      rw [own, if_pos rfl]
      exact named .fixed depth inner after writesInner
  | _ => exact ⟨named _, named _⟩

/-- A declaration that a text refers to is referred to by its own name. -/
theorem reference_reference {name : Name} {handle : Handle} {entry : Entry}
    (indexed : registry.Indexed)
    (linked : registry.reference around text = .ok (entry.toSchema handle))
    (named : Name.resolve text none around = .ok name)
    (finds : registry.findFrom around text name = some handle)
    (found : registry.get? handle = some entry)
    (noKeyword : Primitive.ofKeyword? (entry.name.reference around) = none) :
    registry.reference around (entry.name.reference around) = .ok (entry.toSchema handle) := by
  cases direct : registry.find? name with
  | some other =>
    -- Found where it stands: its own name leads there again.
    obtain rfl : other = handle := by simpa [findFrom, direct] using finds
    obtain ⟨_, isFound, isName⟩ := (indexed _ _).1 direct
    obtain rfl := Option.some.inj (isFound.symm.trans found)
    obtain ⟨wellFormed, enclosed⟩ := Name.wellFormed_of_resolve named
    rw [isName] at noKeyword ⊢
    refine reference_of_findFrom noKeyword (wellFormed.resolve_reference enclosed) ?_ found
    rw [findFrom, direct, Option.some_or]
  | none =>
    -- Found outside all namespaces, from within one: it is written as it was.
    rw [findFrom, direct, Option.none_or] at finds
    split at finds
    · next enclosed =>
      obtain ⟨_, isFound, isName⟩ := (indexed _ _).1 finds
      obtain rfl := Option.some.inj (isFound.symm.trans found)
      cases around with
      | none => simp at enclosed
      | some space =>
        rwa [isName, Name.reference, if_neg (by simp [Name.unqualified]), Name.full_unqualified]
    · cases finds

/-- A reference to a declaration is written as one that means the same. -/
theorem InStep.reference (inStep : final.InStep registry written)
    (leads : registry.LeadsTo start final) (avoids : final.AvoidsKeywords)
    (linked : registry.reference around text = .ok schema)
    (noBase : ∀ base, schema ≠ .named .abstractBase base) :
    ∃ again, again ∉ objectKeywords ∧ registry.reference around again = .ok schema ∧
      final.WritesText written around schema again ∧
      final.WritesText written around schema.bare again := by
  obtain ⟨primitive, isKeyword, rfl⟩ | ⟨-, name, handle, named, finds, schemaOf⟩ :=
    reference_eq_ok.1 linked
  · have writes : final.WritesText written around (.primitive primitive) text := by
      intro depth json last writes
      obtain ⟨rfl, rfl⟩ := Schema.yields_primitive.1 writes
      rw [Primitive.ofKeyword?_eq_some.1 isKeyword]
      exact ⟨rfl, rfl⟩
    refine ⟨text, ?_, linked, writes, writes⟩
    rw [Primitive.ofKeyword?_eq_some.1 isKeyword]
    cases primitive <;> decide
  · obtain ⟨entry, found, rfl⟩ := Option.map_eq_some_iff.1 schemaOf
    have isDeclared := Entry.isAbstractBase_of_toSchema noBase
    obtain ⟨last, isLast, turns, -⟩ := leads handle entry found
    have free : entry.name.localName ∉ typeKeywords := by
      rw [← turns.name_eq]
      exact avoids last (List.mem_of_getElem? isLast) (turns.isAbstractBase_eq.trans isDeclared)
    have freeReference := Name.reference_notMem free around
    exact ⟨entry.name.reference around,
      fun isKeyword => freeReference (List.mem_append_right _ isKeyword),
      reference_reference inStep.indexed linked named finds found
        (Primitive.ofKeyword?_eq_none freeReference),
      inStep.writesText_toSchema leads found isDeclared⟩

end Registry

/-- A slot is written as the type that was declared for it. -/
theorem Slot.project_declared {options : Options} {registry after final : Registry} {owner : Name}
    {name : String} {declared : Schema} {slot : Slot} {depth : Nat} {around : Option String}
    {written last : List Handle} {json : Json}
    (filled : registry.slot options owner name declared = .ok (slot, after))
    (own : options.synthesizeBases = true →
      (Event.slot owner name declared slot).HasOwnBase final)
    (writes : (slot.declared.project final (final.define depth) around).Yields written json last) :
    (declared.project final (final.define depth) around).Yields written json last := by
  rw [Registry.slot_eq_ok] at filled
  split at filled
  · next wanted =>
    rw [Bool.and_eq_true] at wanted
    obtain ⟨base, -, rfl⟩ := filled
    obtain ⟨other, body, isBase, found, derived, -⟩ := own wanted.1 wanted.2
    cases isBase
    cases declared with
    | union branches underlying nullable =>
      have writesBase := Schema.yields_named.1 writes
      cases depth with
      | zero => exact absurd writesBase Registry.yields_define_zero
      | succ depth =>
        obtain ⟨jsons, writesEach, rfl⟩ := (Registry.yields_define_base found).1 writesBase
        rw [derived] at writesEach
        exact Schema.yields_union.2 ⟨jsons, Schema.yields_projectEach_mono (.refl _)
          (Registry.define_extends_succ final depth) _ writesEach, rfl⟩
    | _ => simp [Schema.branches, callsForBase] at wanted
  · obtain ⟨-, rfl⟩ := filled
    exact writes

end AvroGraph
