import AvroGraph.Document
import AvroGraph.Proofs.Index
import AvroGraph.Proofs.Invariant

/-!
# Sound registries

In a sound registry the bases of slots are known, every entry is grounded, and the index of names is
coherent with the entries, so that no two of them have the same name. Every registry that a resolver
reaches is sound (`Registry.Reached.sound`).
-/

namespace AvroGraph

/-- What every registry of a resolver satisfies. -/
structure Registry.Sound (registry : Registry) : Prop where
  knowsBases : registry.KnowsBases
  closed : registry.Closed
  indexed : registry.Indexed

namespace Registry

variable {registry after : Registry}

/-- The bases of slots stay known while the registry grows and remembers no others. -/
theorem KnowsBases.mono (knows : registry.KnowsBases) (grows : registry.Grows after)
    (same : ∀ owner slot, after.baseOf? owner slot = registry.baseOf? owner slot) :
    after.KnowsBases := by
  intro owner slot base made
  obtain ⟨body, found, isOwner, isSlot⟩ := knows owner slot base (same owner slot ▸ made)
  obtain ⟨grown, foundAfter, growth⟩ := grows.entry base _ (lt_size_of_get? found) found
  have unchanged : grown = .abstractBase body := growth.eq_of_kind (by simp [Entry.kind])
  exact ⟨body, unchanged ▸ foundAfter, isOwner, isSlot⟩

namespace Sound

/-- There is nothing unsound in an empty registry. -/
theorem empty : Sound .empty where
  knowsBases _ _ _ made := by simp [baseOf?, Registry.empty] at made
  closed _ _ found := by simp [get?, Registry.empty] at found
  indexed := .empty

/-- A registry stays sound when an entry is registered that is grounded in it. -/
theorem register {entry : Entry} {handle : Handle} (sound : registry.Sound)
    (grounded : entry.Grounded registry)
    (registered : registry.register entry = .ok (handle, after)) : after.Sound where
  knowsBases := sound.knowsBases.mono (keeps_register registered) (baseOf?_register registered)
  closed := sound.closed.register grounded registered
  indexed := sound.indexed.register registered

/-- A registry stays sound when an entry is amended to a grounded one. -/
theorem update {change : Entry → Entry} (amends : Entry.Amends change) {handle : Handle}
    (sound : registry.Sound)
    (grounded : ∀ entry, entry.Grounded registry → (change entry).Grounded registry) :
    (registry.update handle change).Sound := by
  have amended : registry.Amended (registry.update handle change) := ⟨handle, change, amends, rfl⟩
  refine ⟨fun owner slot base made => ?_, sound.closed.update amends grounded,
    sound.indexed.amended amended⟩
  obtain ⟨body, found, known⟩ := sound.knowsBases owner slot base made
  exact ⟨body, amended.get?_base_iff.2 found, known⟩

/-- A registry stays sound when a record is given grounded fields. -/
theorem setFields {handle : Handle} {fields : List Field} (sound : registry.Sound)
    (grounded : ∀ field ∈ fields, field.Grounded registry) :
    (registry.setFields handle fields).Sound := by
  refine sound.update ⟨?_, ?_, fun _ => rfl⟩ ?_ <;> intro entry <;> cases entry
  case refine_3.record | refine_3.error => exact fun _ => grounded
  all_goals first | rfl | exact id

/-- A registry stays sound when a protocol is given grounded types and messages. -/
theorem setProtocol {handle : Handle} {types : List Schema} {messages : List Message}
    (sound : registry.Sound) (groundedTypes : Schema.AllGrounded registry types)
    (groundedMessages : ∀ message ∈ messages, message.Grounded registry) :
    (registry.setProtocol handle types messages).Sound := by
  refine sound.update ⟨?_, ?_, fun _ => rfl⟩ ?_ <;> intro entry <;> cases entry
  case refine_3.protocol => exact fun _ => ⟨groundedTypes, groundedMessages⟩
  all_goals first | rfl | exact id

/-- A registry stays sound when a fixed type is given a logical type. -/
theorem setOverlay {handle : Handle} {overlay : LogicalType} (sound : registry.Sound) :
    (registry.setOverlay handle overlay).Sound := by
  refine sound.update ⟨?_, ?_, fun _ => rfl⟩ ?_ <;> intro entry <;> cases entry
  all_goals first | rfl | exact id

/-- A registry stays sound when a record is linked to a base. -/
theorem addBase {handle base : Handle} (sound : registry.Sound) :
    (registry.addBase handle base).Sound := by
  refine sound.update ⟨?_, ?_, fun _ => rfl⟩ ?_ <;> intro entry <;> cases entry
  case refine_1.record | refine_2.record => dsimp only; split <;> rfl
  case refine_3.record => dsimp only; split <;> exact id
  all_goals first | rfl | exact id

/-- A registry stays sound when records in a row are linked to a base. -/
theorem addBases {handles : List Handle} {base : Handle} (sound : registry.Sound) :
    (handles.foldl (fun result record => result.addBase record base) registry).Sound := by
  induction handles generalizing registry with
  | nil => exact sound
  | cons handle rest ih => exact ih sound.addBase

/-- A base that is there may be remembered for the slot it was made for. -/
theorem rememberBase {base : Handle} {body : AbstractBase} (sound : registry.Sound)
    (found : registry.get? base = some (.abstractBase body)) :
    (registry.rememberBase body.owner body.slot base).Sound where
  knowsBases owner slot made isMade := by
    rw [baseOf?, Registry.rememberBase, List.lookup_cons] at isMade
    split at isMade
    · next same =>
      cases isMade
      cases eq_of_beq same
      exact ⟨body, found, rfl, rfl⟩
    · exact sound.knowsBases owner slot made isMade
  closed handle entry isEntry := by
    have kinds : registry.KeepsKinds (registry.rememberBase body.owner body.slot base) :=
      fun _ _ kept => kept
    exact (sound.closed handle entry isEntry).mono kinds
  indexed := sound.indexed

end Sound

end Registry

/-- The branches that call for a base are records or null. -/
theorem isRecord_or_isNull_of_callsForBase {branches : List Schema} (calls : callsForBase branches)
    (branch : Schema) (member : branch ∈ branches) :
    branch.isRecord = true ∨ branch.isNull = true := by
  simp only [callsForBase, Bool.and_eq_true, List.all_eq_true, Bool.or_eq_true] at calls
  exact calls.1.2 branch member

namespace Registry

variable {registry after : Registry} {options : Options}

/-- A registry stays sound when a base is made for branches that call for one. -/
theorem Sound.synthesizeBase {owner : Name} {slot : String} {branches : List Schema}
    {base : Handle} (sound : registry.Sound) (grounded : Schema.AllGrounded registry branches)
    (calls : callsForBase branches)
    (made : registry.synthesizeBase owner slot branches = .ok (base, after)) : after.Sound := by
  obtain ⟨-, rfl⟩ | ⟨-, registered, register, rfl⟩ := synthesizeBase_cases made
  · exact sound
  · have isBase := get?_register register base
    rw [if_pos (handle_register register)] at isBase
    have registering : registered.Sound := by
      refine sound.register ?_ register
      exact ⟨grounded, isRecord_or_isNull_of_callsForBase calls⟩
    exact (registering.rememberBase isBase).addBases

/-- A registry stays sound when a slot is filled. -/
theorem Sound.slot {owner : Name} {name : String} {declared : Schema} {slot : Slot}
    (sound : registry.Sound) (grounded : declared.Grounded registry)
    (resolved : registry.slot options owner name declared = .ok (slot, after)) : after.Sound := by
  rw [slot_eq_ok] at resolved
  split at resolved
  · next wanted =>
    obtain ⟨base, made, -⟩ := resolved
    cases declared with
    | union branches _ _ =>
      exact sound.synthesizeBase grounded (Bool.and_eq_true_iff.1 wanted).2 made
    | _ => simp [Schema.branches, callsForBase] at wanted
  · obtain ⟨rfl, -⟩ := resolved
    exact sound

/-- A registry stays sound whatever becomes of a logical type. -/
theorem Sound.annotate {declaresFixed : Bool} {inner schema : Schema} {name : String}
    {overlay : Except Reason (Option LogicalType)} (sound : registry.Sound)
    (annotated : registry.annotate declaresFixed inner name overlay = .ok (schema, after)) :
    after.Sound := by
  obtain rfl | ⟨handle, known, rfl⟩ := eq_or_setOverlay_of_annotate annotated
  · exact sound
  · exact sound.setOverlay

/-- Whatever a walk resolves is grounded, as long as the bases of slots are known. -/
theorem groundedCondition {law : NodeLaw} {good : Registry → Prop}
    (knows : ∀ registry, good registry → registry.KnowsBases) :
    Registry.Condition options law good fun registry schema => schema.Grounded registry where
  lasts retains _ grounded := grounded.mono retains.keepsKinds
  reference _ := Schema.grounded_reference
  array := id
  map := id
  union := Schema.allGrounded_iff.2
  declared _ found _ := kindAt?_eq_some.2 ⟨_, found, rfl⟩
  slot holds grounded := Schema.grounded_slot grounded (knows _ holds)
  annotate _ := Schema.grounded_annotate

/-- Whatever a walk does keeps a registry sound. -/
theorem Sound.invariant {law : NodeLaw} :
    Registry.Invariant options law Sound fun registry schema => schema.Grounded registry where
  register sound _ declares registered := sound.register (declares.grounded _) registered
  setFields sound _ resolved := sound.setFields fun field member => (resolved field member).declared
  setProtocol sound _ _ types messages :=
    sound.setProtocol (Schema.allGrounded_iff.2 fun type member => (types type member).1)
      fun message member => (messages message member).grounded
  slot sound _ _ := sound.slot
  annotate sound _ _ := sound.annotate

/-- Every registry that a resolver reaches is sound. -/
theorem Reached.sound (reached : registry.Reached options) : registry.Sound :=
  reached.holds (groundedCondition fun _ => Sound.knowsBases) Sound.invariant .empty

end Registry

/-! ## Documents -/

namespace Document

variable {options : Options} {root : Json} {document : Document}

/-- A document that is accepted is what the root resolves to from nothing. -/
theorem resolve_eq_ok :
    Document.resolve options root = .ok document ↔
      ((Node.ofJson root).resolve options none).Yields .empty document.root
        document.registry := by
  simp only [Document.resolve, Resolver.parse, Resolver.resolve, Resolver.new, Resolving.Yields]
  obtain ⟨schema, registry⟩ := document
  cases ((Node.ofJson root).resolve options none).outcome .empty with
  | mk result after => cases result <;> simp

/-- The registry of a document is one that resolution can reach. -/
theorem reached (accepted : Document.resolve options root = .ok document) :
    document.registry.Reached options := by
  have reached : Registry.Reached options _ := .resolve root none .empty
  rw [Resolver.resolve, (resolve_eq_ok.1 accepted).outcome] at reached
  exact reached

/-- The root of a document that is accepted is grounded in its registry. -/
theorem root_grounded (accepted : Document.resolve options root = .ok document) :
    document.root.Grounded document.registry :=
  have own := Node.obeys_ownOverlays root
  have condition := Registry.groundedCondition fun _ => Registry.Sound.knowsBases
  ((Node.ofJson root).ensures condition Registry.Sound.invariant own own .empty).yields _ _
    (resolve_eq_ok.1 accepted)

end Document

end AvroGraph
