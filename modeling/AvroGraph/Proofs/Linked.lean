import AvroGraph.Proofs.Sound

/-!
# Records and their bases

A registry is linked when every record that an abstract base was made for derives from it.
Every registry that a resolver reaches is linked (`Registry.Reached.linked`).
-/

namespace AvroGraph

namespace Registry

variable {registry after : Registry} {options : Options}

/-- A record at a handle derives from a base. -/
def Derives (registry : Registry) (handle base : Handle) : Prop :=
  ∃ body, registry.get? handle = some (.record body) ∧ base ∈ body.bases

/-- Every record among the branches of an abstract base derives from it. -/
def Linked (registry : Registry) : Prop :=
  ∀ base body, registry.get? base = some (.abstractBase body) →
    ∀ handle ∈ recordHandles body.derived, registry.Derives handle base

/-- The records among branches are those that are named there. -/
theorem mem_recordHandles {branches : List Schema} {handle : Handle} :
    handle ∈ recordHandles branches ↔ .named .record handle ∈ branches := by
  rw [recordHandles, List.mem_filterMap]
  constructor
  · rintro ⟨branch, member, same⟩
    split at same
    · cases same
      exact member
    · cases same
  · exact fun member => ⟨_, member, rfl⟩

/-- A record goes on deriving from its bases while the registry grows. -/
theorem Derives.mono {size : Nat} {handle base : Handle} (derives : registry.Derives handle base)
    (below : handle < size) (keeps : registry.Keeps size after) : after.Derives handle base := by
  obtain ⟨body, found, member⟩ := derives
  obtain ⟨grown, foundAfter, growth⟩ := keeps.entry handle _ below found
  obtain ⟨bases, rfl, -⟩ := growth.record
  exact ⟨_, foundAfter, List.mem_append_left bases member⟩

/-- A record derives from its bases for good. -/
theorem Derives.grows {handle base : Handle} (derives : registry.Derives handle base)
    (grows : registry.Grows after) : after.Derives handle base := by
  obtain ⟨body, found, -⟩ := id derives
  exact derives.mono (lt_size_of_get? found) grows

/-- A registry stays linked when an entry is changed and a record keeps its bases. -/
theorem Linked.update {change : Entry → Entry} {changed : Handle} (linked : registry.Linked)
    (amends : Entry.Amends change)
    (record : ∀ body, ∃ other, change (.record body) = .record other ∧
      ∀ base ∈ body.bases, base ∈ other.bases) :
    (registry.update changed change).Linked := by
  have amended : registry.Amended (registry.update changed change) := ⟨changed, change, amends, rfl⟩
  intro base body found handle member
  obtain ⟨derived, isDerived, derives⟩ := linked base body (amended.get?_base_iff.1 found) handle member
  rw [Derives, get?_update, isDerived]
  split
  · obtain ⟨other, same, keeps⟩ := record derived
    exact ⟨other, by rw [Option.map_some, same], keeps base derives⟩
  · exact ⟨derived, rfl, derives⟩

/-- To give a record its fields leaves its links alone. -/
theorem Linked.setFields {handle : Handle} {fields : List Field} (linked : registry.Linked) :
    (registry.setFields handle fields).Linked := by
  refine linked.update ⟨?_, ?_, fun _ => rfl⟩ fun body => ⟨_, rfl, fun _ => id⟩ <;> intro entry <;>
    cases entry <;> rfl

/-- A protocol has no links. -/
theorem Linked.setProtocol {handle : Handle} {types : List Schema} {messages : List Message}
    (linked : registry.Linked) : (registry.setProtocol handle types messages).Linked := by
  refine linked.update ⟨?_, ?_, fun _ => rfl⟩ fun body => ⟨_, rfl, fun _ => id⟩ <;> intro entry <;>
    cases entry <;> rfl

/-- A logical type leaves links alone. -/
theorem Linked.setOverlay {handle : Handle} {overlay : LogicalType} (linked : registry.Linked) :
    (registry.setOverlay handle overlay).Linked := by
  refine linked.update ⟨?_, ?_, fun _ => rfl⟩ fun body => ⟨_, rfl, fun _ => id⟩ <;> intro entry <;>
    cases entry <;> rfl

/-- A declaration that is registered is no base for which links were missing. -/
theorem Linked.register {entry : Entry} {handle : Handle} (linked : registry.Linked)
    (isDeclared : entry.isAbstractBase = false)
    (registered : registry.register entry = .ok (handle, after)) : after.Linked := by
  intro base body found other member
  rw [get?_register registered] at found
  split at found
  · cases found
    cases isDeclared
  · exact (linked base body found other member).grows (keeps_register registered)

/-- A record that is made to derive from a base does. -/
theorem derives_addBase {handle base : Handle} {body : Record}
    (found : registry.get? handle = some (.record body)) :
    (registry.addBase handle base).Derives handle base := by
  rw [Derives, addBase, get?_update, if_pos rfl, found, Option.map_some]
  by_cases present : base ∈ body.bases
  · exact ⟨body, by simp [present], present⟩
  · exact ⟨{ body with bases := body.bases ++ [base] }, by simp [present], by simp⟩

/-- Records that are linked to a base derive from it, if the base stands behind them. -/
theorem derives_addBases {handles : List Handle} {handle base : Handle}
    (member : handle ∈ handles) (below : handle < base)
    (kind : registry.kindAt? handle = some .record) :
    (handles.foldl (fun result record => result.addBase record base) registry).Derives handle
      base := by
  induction handles generalizing registry with
  | nil => cases member
  | cons head rest ih =>
    rw [List.foldl_cons]
    have kept : (registry.addBase head base).kindAt? handle = some .record :=
      ((amended_addBase head base).kindAt?_eq handle).trans kind
    by_cases same : head = handle
    · subst same
      obtain ⟨entry, found, isRecord⟩ := kindAt?_eq_some.1 kind
      cases entry with
      | record body =>
        exact (derives_addBase found).mono below (keeps_addBases (Nat.le_refl base) rest)
      | _ => cases isRecord
    · exact ih ((List.mem_cons.1 member).resolve_left (Ne.symm same)) kept

/-- The records of a new base derive from it, and those of other bases go on doing so. -/
theorem Linked.synthesizeBase {owner : Name} {slot : String} {branches : List Schema}
    {base : Handle} (linked : registry.Linked) (grounded : Schema.AllGrounded registry branches)
    (made : registry.synthesizeBase owner slot branches = .ok (base, after)) : after.Linked := by
  have grows := grows_synthesizeBase made
  obtain ⟨-, rfl⟩ | ⟨-, registered, register, rfl⟩ := synthesizeBase_cases made
  · exact linked
  · intro other body found handle member
    have isBase : registered.get? other = some (.abstractBase body) :=
      (get?_addBases_base (registered.rememberBase owner slot base)).1 found
    rw [get?_register register] at isBase
    split at isBase
    · next isNew =>
      cases isBase
      have kind := Schema.allGrounded_iff.1 grounded _ (mem_recordHandles.1 member)
      obtain ⟨entry, isEntry, -⟩ := kindAt?_eq_some.1 kind
      have keeps : registry.KeepsKinds registered := Grows.keepsKinds (keeps_register register)
      have isHandle : base = other := (handle_register register).trans isNew.symm
      rw [← isHandle]
      refine derives_addBases member ?_ (keeps handle _ kind)
      rw [isHandle, isNew]
      exact lt_size_of_get? isEntry
    · exact (linked other body isBase handle member).grows grows

/-- A slot links every record of its union to the base that it makes. -/
theorem Linked.slot {owner : Name} {name : String} {declared : Schema} {slot : Slot}
    (linked : registry.Linked) (grounded : declared.Grounded registry)
    (filled : registry.slot options owner name declared = .ok (slot, after)) : after.Linked := by
  rw [slot_eq_ok] at filled
  split at filled
  · next wanted =>
    obtain ⟨base, made, -⟩ := filled
    cases declared with
    | union branches _ _ => exact linked.synthesizeBase grounded made
    | _ => simp [Schema.branches, callsForBase] at wanted
  · obtain ⟨rfl, -⟩ := filled
    exact linked

/-- Whatever becomes of a logical type, links are left alone. -/
theorem Linked.annotate {declaresFixed : Bool} {inner schema : Schema} {name : String}
    {overlay : Except Reason (Option LogicalType)} (linked : registry.Linked)
    (annotated : registry.annotate declaresFixed inner name overlay = .ok (schema, after)) :
    after.Linked := by
  obtain rfl | ⟨handle, known, rfl⟩ := eq_or_setOverlay_of_annotate annotated
  · exact linked
  · exact linked.setOverlay

/-- Whatever a walk does keeps a registry linked. -/
theorem Linked.invariant {law : NodeLaw} :
    Registry.Invariant options law Linked fun registry schema => schema.Grounded registry where
  register linked _ declares registered := linked.register declares.isAbstractBase registered
  setFields linked _ _ := linked.setFields
  setProtocol linked _ _ _ _ := linked.setProtocol
  slot linked _ _ := linked.slot
  annotate linked _ _ := linked.annotate

/-- Every registry that a resolver reaches is linked. -/
theorem Reached.linked (reached : registry.Reached options) : registry.Linked := by
  have empty : Registry.Linked .empty := fun _ _ found => by simp [get?, Registry.empty] at found
  exact (reached.holds (groundedCondition fun _ holds => holds.1.knowsBases)
    (Sound.invariant.and Linked.invariant) ⟨.empty, empty⟩).2

end Registry

end AvroGraph
