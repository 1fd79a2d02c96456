import AvroGraph.Proofs.AppendOnly
import AvroGraph.Proofs.Linked

/-!
# Links between records and bases

A base knows the branches it was made for, and a record the bases it derives from. `Linked` leads
from bases to records; here is the way back (`Registry.Traced`), so that in every registry that a
resolver reaches the two say the same (`Registry.Reached.mem_bases_iff`), also after walks that
failed half-way.
-/

namespace AvroGraph

namespace Entry

/-- The bases that an entry derives from; only records and errors may have any. -/
def bases : Entry → List Handle
  | .record body | .error body => body.bases
  | _ => []

/-- To link a record to a base twice is to link it once. -/
@[simp]
theorem derive_derive (base : Handle) (entry : Entry) :
    (entry.derive base).derive base = entry.derive base := by
  cases entry with
  | record body => by_cases derives : base ∈ body.bases <;> simp [derive, derives]
  | _ => rfl

/-- What is made to derive from a base has no other new bases, and the new one comes last. -/
theorem bases_derive (base : Handle) (entry : Entry) :
    (entry.derive base).bases = entry.bases ∨ (entry.derive base).bases = entry.bases ++ [base] := by
  cases entry with
  | record body => by_cases derives : base ∈ body.bases <;> simp [derive, bases, derives]
  | _ => exact .inl rfl

end Entry

/-- What a node declares derives from nothing yet. -/
theorem Node.Declares.bases_eq_nil {options : Options} {node : Node} {entry : Entry}
    (declares : node.Declares options entry) : entry.bases = [] := by
  cases declares with
  | record _ isError => cases isError <;> rfl
  | _ => rfl

namespace Registry

variable {registry after : Registry} {options : Options} {handle base : Handle}

/-- Records that are made to derive from a base in a row do so, and all others stay as they are. -/
theorem get?_addBases (registry : Registry) (handles : List Handle) (base other : Handle) :
    (handles.foldl (fun result record => result.addBase record base) registry).get? other =
      (registry.get? other).map fun entry =>
        if other ∈ handles then entry.derive base else entry := by
  induction handles generalizing registry with
  | nil => simp
  | cons head rest ih =>
    rw [List.foldl_cons, ih, addBase_eq_update, get?_update]
    by_cases same : head = other
    · subst same
      cases registry.get? head <;> simp
    · simp [same, Ne.symm same]

/-- Every base of an entry is there, and was made for that entry. The bases of an entry come in the
order of registration. -/
structure Traced (registry : Registry) : Prop where
  made : ∀ handle entry, registry.get? handle = some entry → ∀ base ∈ entry.bases,
    ∃ body, registry.get? base = some (.abstractBase body) ∧
      .named .record handle ∈ body.derived
  ascending : ∀ handle entry, registry.get? handle = some entry → entry.bases.Pairwise (· < ·)
  candidates : ∀ base body, registry.get? base = some (.abstractBase body) →
    callsForBase body.derived = true

namespace Traced

/-- There are no links in an empty registry. -/
theorem empty : Registry.empty.Traced := by
  have nothing (handle : Handle) : Registry.empty.get? handle = none := rfl
  exact ⟨fun _ _ found => by simp [nothing] at found, fun _ _ found => by simp [nothing] at found,
    fun _ _ found => by simp [nothing] at found⟩

/-- Entries keep their bases, except that one may come to derive from one more, which was made for
it and comes after all it derives from. -/
theorem amend (traced : registry.Traced)
    (sameBases : ∀ {base body}, after.get? base = some (.abstractBase body) ↔
      registry.get? base = some (.abstractBase body))
    (origin : ∀ handle entry, after.get? handle = some entry →
      ∃ old, registry.get? handle = some old ∧ (entry.bases = old.bases ∨
        ∃ base body, registry.get? base = some (.abstractBase body) ∧
          .named .record handle ∈ body.derived ∧ (∀ early ∈ old.bases, early < base) ∧
          entry.bases = old.bases ++ [base])) : after.Traced := by
  refine ⟨fun handle entry found early member => ?_, fun handle entry found => ?_,
    fun base body found => traced.candidates base body (sameBases.1 found)⟩
  · obtain ⟨old, isOld, same | ⟨base, body, isBase, branch, -, added⟩⟩ := origin handle entry found
    · obtain ⟨made, isMade, derived⟩ := traced.made handle old isOld early (same ▸ member)
      exact ⟨made, sameBases.2 isMade, derived⟩
    · rw [added, List.mem_append, List.mem_singleton] at member
      rcases member with before | rfl
      · obtain ⟨made, isMade, derived⟩ := traced.made handle old isOld early before
        exact ⟨made, sameBases.2 isMade, derived⟩
      · exact ⟨body, sameBases.2 isBase, branch⟩
  · obtain ⟨old, isOld, same | ⟨base, -, -, -, last, added⟩⟩ := origin handle entry found
    · exact same ▸ traced.ascending handle old isOld
    · rw [added, List.pairwise_append]
      exact ⟨traced.ascending handle old isOld, List.pairwise_singleton _ _,
        fun early member new isNew => List.mem_singleton.1 isNew ▸ last early member⟩

/-- A change of an entry that leaves its bases alone. -/
theorem update {change : Entry → Entry} (traced : registry.Traced) (amends : Entry.Amends change)
    (same : ∀ entry, (change entry).bases = entry.bases) :
    (registry.update handle change).Traced := by
  have amended : registry.Amended (registry.update handle change) := ⟨handle, change, amends, rfl⟩
  refine traced.amend amended.get?_base_iff fun other entry found => ?_
  rw [get?_update] at found
  split at found
  · obtain ⟨old, isOld, rfl⟩ := Option.map_eq_some_iff.1 found
    exact ⟨old, isOld, .inl (same old)⟩
  · exact ⟨entry, found, .inl rfl⟩

/-- To give a record its fields leaves its bases alone. -/
theorem setFields {fields : List Field} (traced : registry.Traced) :
    (registry.setFields handle fields).Traced := by
  refine traced.update ⟨?_, ?_, fun _ => rfl⟩ ?_ <;> intro entry <;> cases entry <;> rfl

/-- A protocol has no bases. -/
theorem setProtocol {types : List Schema} {messages : List Message} (traced : registry.Traced) :
    (registry.setProtocol handle types messages).Traced := by
  refine traced.update ⟨?_, ?_, fun _ => rfl⟩ ?_ <;> intro entry <;> cases entry <;> rfl

/-- A logical type leaves bases alone. -/
theorem setOverlay {overlay : LogicalType} (traced : registry.Traced) :
    (registry.setOverlay handle overlay).Traced := by
  refine traced.update ⟨?_, ?_, fun _ => rfl⟩ ?_ <;> intro entry <;> cases entry <;> rfl

/-- What is registered derives from nothing yet. -/
theorem register {entry : Entry} (traced : registry.Traced) (plain : entry.bases = [])
    (calls : ∀ body, entry = .abstractBase body → callsForBase body.derived = true)
    (registered : registry.register entry = .ok (handle, after)) : after.Traced := by
  have grows := keeps_register registered
  refine ⟨fun other found isFound base member => ?_, fun other found isFound => ?_,
    fun base body isFound => ?_⟩ <;> rw [get?_register registered] at isFound <;> split at isFound
  · cases isFound
    simp [plain] at member
  · obtain ⟨body, isBase, derived⟩ := traced.made other found isFound base member
    obtain ⟨grown, isGrown, growth⟩ := grows.entry base _ (lt_size_of_get? isBase) isBase
    exact ⟨body, growth.eq_of_kind (by simp [Entry.kind]) ▸ isGrown, derived⟩
  · cases isFound
    simp [plain]
  · exact traced.ascending other found isFound
  · cases isFound
    exact calls body rfl
  · exact traced.candidates base body isFound

/-- Records are made to derive from a base that comes after all they derive from and was made for
them. -/
theorem addBases {handles : List Handle} {body : AbstractBase} (traced : registry.Traced)
    (isBase : registry.get? base = some (.abstractBase body))
    (derived : ∀ handle ∈ handles, .named .record handle ∈ body.derived)
    (last : ∀ handle entry, registry.get? handle = some entry →
      ∀ early ∈ entry.bases, early < base) :
    (handles.foldl (fun result record => result.addBase record base) registry).Traced := by
  refine traced.amend (get?_addBases_base registry) fun other entry found => ?_
  rw [get?_addBases] at found
  obtain ⟨old, isOld, rfl⟩ := Option.map_eq_some_iff.1 found
  refine ⟨old, isOld, ?_⟩
  split
  · next member =>
    obtain same | added := old.bases_derive base
    · exact .inl same
    · exact .inr ⟨base, body, isBase, derived other member, last other old isOld, added⟩
  · exact .inl rfl

/-- A slot links the records of its union to its base, and that base alone. -/
theorem slot {owner : Name} {name : String} {declared : Schema} {slot : Slot}
    (traced : registry.Traced)
    (filled : registry.slot options owner name declared = .ok (slot, after)) : after.Traced := by
  obtain rfl | ⟨calls, base, registered, register, rfl⟩ := slot_cases filled
  · exact traced
  · have registering : registered.Traced := by
      refine traced.register rfl (fun body same => ?_) register
      cases same
      exact calls
    have remembering : (registered.rememberBase owner name base).Traced :=
      ⟨registering.made, registering.ascending, registering.candidates⟩
    have isBase := get?_registered register
    refine remembering.addBases isBase (fun _ => mem_recordHandles.1)
      fun handle entry found early member => ?_
    -- The base is the last entry, and none derives from it yet.
    rw [handle_register register]
    change registered.get? handle = some entry at found
    rw [get?_register register] at found
    split at found
    · cases found
      cases member
    · obtain ⟨_, isBase, -⟩ := traced.made handle entry found early member
      exact lt_size_of_get? isBase

/-- Whatever becomes of a logical type, bases are left alone. -/
theorem annotate {declaresFixed : Bool} {inner schema : Schema} {name : String}
    {overlay : Except Reason (Option LogicalType)} (traced : registry.Traced)
    (annotated : registry.annotate declaresFixed inner name overlay = .ok (schema, after)) :
    after.Traced := by
  obtain rfl | ⟨handle, known, rfl⟩ := eq_or_setOverlay_of_annotate annotated
  · exact traced
  · exact traced.setOverlay

end Traced

/-- Whatever a walk does keeps the links as the slots made them. -/
theorem Traced.invariant {law : NodeLaw} {meets : Registry → Schema → Prop} :
    Registry.Invariant options law Traced meets where
  register traced _ declares registered := by
    refine traced.register declares.bases_eq_nil (fun body same => ?_) registered
    have isDeclared := declares.isAbstractBase
    rw [same] at isDeclared
    cases isDeclared
  setFields traced _ _ := traced.setFields
  setProtocol traced _ _ _ _ := traced.setProtocol
  slot traced _ _ _ := traced.slot
  annotate traced _ _ := traced.annotate

/-- In every registry that a resolver reaches, the bases of entries lead back to them. -/
theorem Reached.traced (reached : registry.Reached options) : registry.Traced :=
  (reached.holds (groundedCondition fun _ holds => holds.1.knowsBases)
    (Sound.invariant.and Traced.invariant) ⟨.empty, .empty⟩).2

/-- A base that an entry derives from was made for a record, so the entry is one. -/
theorem Traced.kind_of_mem (traced : registry.Traced) (sound : registry.Sound) {entry : Entry}
    (found : registry.get? handle = some entry) (member : base ∈ entry.bases) :
    entry.kind = .record := by
  obtain ⟨body, isBase, branch⟩ := traced.made handle entry found base member
  have grounded := Schema.allGrounded_iff.1 (sound.closed base _ isBase).1 _ branch
  obtain ⟨other, isOther, isRecord⟩ := kindAt?_eq_some.1 grounded
  rw [found] at isOther
  cases isOther
  exact isRecord

/-- In every registry that a resolver reaches, a record derives from exactly the bases that were
made for it, in the order in which they were made. Errors derive from none, and every base was made
for branches that call for one. -/
theorem Reached.mem_bases_iff (reached : registry.Reached options) :
    (∀ handle body, registry.get? handle = some (.record body) →
      (∀ base, base ∈ body.bases ↔ ∃ made, registry.get? base = some (.abstractBase made) ∧
        .named .record handle ∈ made.derived) ∧
      body.bases.Pairwise (· < ·) ∧ body.bases.Nodup) ∧
    (∀ handle body, registry.get? handle = some (.error body) → body.bases = []) ∧
    ∀ base made, registry.get? base = some (.abstractBase made) →
      callsForBase made.derived = true := by
  have traced := reached.traced
  refine ⟨fun handle body found => ⟨fun base => ⟨traced.made handle _ found base, ?_⟩, ?_⟩,
    fun handle body found => ?_, traced.candidates⟩
  · rintro ⟨made, isBase, branch⟩
    obtain ⟨record, isRecord, member⟩ :=
      reached.linked base made isBase handle (mem_recordHandles.2 branch)
    rw [found] at isRecord
    cases isRecord
    exact member
  · have ascending := traced.ascending handle _ found
    exact ⟨ascending, ascending.imp Nat.ne_of_lt⟩
  · refine List.eq_nil_iff_forall_not_mem.2 fun base member => ?_
    have kind := traced.kind_of_mem reached.sound found member
    cases kind

/-- A record with bases for two of its fields that is refused for the third one, and an error with a
field for which the same records are given a base again. -/
def sharing : List (Json × Option String) :=
  let declare (kind name : String) (fields : List Json) : Json :=
    .object [("type", .string kind), ("name", .string name), ("fields", .array fields)]
  let field (name : String) (type : Json) : Json :=
    .object [("name", .string name), ("type", type)]
  [(declare "record" "n.R"
      [field "a" (.array [declare "record" "A" [], .string "null", declare "record" "B" [],
          .string "A"]),
        field "b" (.array [.string "B", .string "R"]),
        field "c" (.string "Missing")], none),
    (declare "error" "E" [field "d" (.array [.string "A", .string "R"])], some "n")]

/-- What a resolver has registered after that. -/
def shared : Registry :=
  ((Resolver.new {}).run sharing).registry

/-- The links agree both for the record that was refused and for those in several unions. -/
theorem mem_bases_iff_shared :
    shared.Reached {} ∧
      shared.names = ["n.R", "n.A", "n.B", "n.RABase", "n.RBBase", "n.E", "n.EDBase"] ∧
      shared.entries.map Entry.bases = [[4, 6], [3, 6], [3, 4], [], [], [], []] ∧
      (∀ handle body, shared.get? handle = some (.record body) →
        (∀ base, base ∈ body.bases ↔ ∃ made, shared.get? base = some (.abstractBase made) ∧
          .named .record handle ∈ made.derived) ∧
        body.bases.Pairwise (· < ·) ∧ body.bases.Nodup) ∧
      (∀ handle body, shared.get? handle = some (.error body) → body.bases = []) ∧
      ∀ base made, shared.get? base = some (.abstractBase made) →
        callsForBase made.derived = true := by
  have reached : shared.Reached {} := Reached.empty.run sharing
  exact ⟨reached, by decide +kernel, by decide +kernel, reached.mem_bases_iff⟩

end Registry

end AvroGraph
