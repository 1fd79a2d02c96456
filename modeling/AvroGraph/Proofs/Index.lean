import AvroGraph.Proofs.Grounded
import Mathlib.Data.List.Nodup

/-!
# The index of names

The index is a table of its own beside the entries. The two are coherent if a name leads to a handle
exactly where the entry of that name stands (`Registry.Indexed`). To register an entry keeps them
so, since its name is free and is indexed together with it, and so does every other change, since
none of them renames an entry.
-/

namespace AvroGraph.Registry

variable {registry after : Registry} {options : Options} {name : Name} {handle : Handle}
  {entry : Entry}

/-- The index leads from a name to a handle exactly where the entry of that name stands. -/
def Indexed (registry : Registry) : Prop :=
  ∀ name handle, registry.find? name = some handle ↔
    ∃ entry, registry.get? handle = some entry ∧ entry.name = name

/-- Changes of entries leave the index alone. -/
theorem Amended.find?_eq (amended : registry.Amended after) (name : Name) :
    after.find? name = registry.find? name := by
  obtain ⟨_, _, _, rfl⟩ := amended
  rfl

namespace Indexed

/-- Nothing is indexed where nothing is registered. -/
theorem empty : Registry.empty.Indexed := by
  intro name handle
  constructor
  · rintro ⟨⟩
  · rintro ⟨entry, ⟨⟩, -⟩

/-- A name that the index does not have is the name of no entry. -/
theorem find?_eq_none (indexed : registry.Indexed) :
    registry.find? name = none ↔ name ∉ registry.entries.map Entry.name := by
  rw [Option.eq_none_iff_forall_ne_some, List.mem_map]
  constructor
  · rintro free ⟨entry, member, rfl⟩
    obtain ⟨handle, found⟩ := List.mem_iff_getElem?.1 member
    exact free handle ((indexed _ _).2 ⟨entry, found, rfl⟩)
  · rintro absent handle found
    obtain ⟨entry, isEntry, same⟩ := (indexed name handle).1 found
    exact absent ⟨entry, List.mem_of_getElem? isEntry, same⟩

/-- Two entries of one name are the same entry. -/
theorem handle_unique (indexed : registry.Indexed) {other : Handle} {found : Entry}
    (isEntry : registry.get? handle = some entry) (isFound : registry.get? other = some found)
    (same : entry.name = found.name) : handle = other := by
  have here := (indexed entry.name handle).2 ⟨entry, isEntry, rfl⟩
  have there := (indexed entry.name other).2 ⟨found, isFound, same.symm⟩
  exact Option.some.inj (here.symm.trans there)

/-- No two entries have one name. -/
theorem distinct (indexed : registry.Indexed) : (registry.entries.map Entry.name).Nodup := by
  refine List.nodup_iff_getElem?_ne_getElem?.2 fun first second before bound same => ?_
  rw [List.length_map] at bound
  obtain ⟨entry, isEntry⟩ := registry.exists_get? (Nat.lt_trans before bound)
  obtain ⟨other, isOther⟩ := registry.exists_get? bound
  have names : (registry.get? first).map Entry.name = (registry.get? second).map Entry.name := by
    simpa [get?] using same
  rw [isEntry, isOther, Option.map_some, Option.map_some, Option.some.injEq] at names
  exact Nat.ne_of_lt before (indexed.handle_unique isEntry isOther names)

/-- A new entry is indexed where it stands. Its name was free, so that no other entry has it. -/
theorem register (indexed : registry.Indexed)
    (registered : registry.register entry = .ok (handle, after)) : after.Indexed := by
  intro name other
  rw [find?_register registered, get?_register registered, ← handle_register registered]
  have free := indexed.find?_eq_none.1 (register_eq_ok.1 registered).1
  have vacant : registry.get? handle = none := by
    rw [handle_register registered]
    exact List.getElem?_eq_none (Nat.le_refl _)
  by_cases same : name = entry.name
  -- The new name leads to the new entry alone.
  · subst same
    rw [if_pos rfl]
    constructor
    · rintro ⟨⟩
      exact ⟨entry, if_pos rfl, rfl⟩
    · rintro ⟨found, isFound, named⟩
      split at isFound
      · next here => rw [here]
      · exact absurd (named ▸ List.mem_map_of_mem (List.mem_of_getElem? isFound)) free
  -- Every other name leads where it led, which is not to the new entry.
  · rw [if_neg same, indexed]
    constructor
    · rintro ⟨found, isFound, named⟩
      have elsewhere : other ≠ handle := by
        rintro rfl
        rw [vacant] at isFound
        cases isFound
      exact ⟨found, by rw [if_neg elsewhere, isFound], named⟩
    · rintro ⟨found, isFound, named⟩
      split at isFound
      · cases isFound
        exact absurd named.symm same
      · exact ⟨found, isFound, named⟩

/-- No change of an entry renames it. -/
theorem amended (indexed : registry.Indexed) (amended : registry.Amended after) :
    after.Indexed := by
  intro name handle
  rw [amended.find?_eq, indexed]
  have names : (after.get? handle).map Entry.name = (registry.get? handle).map Entry.name := by
    simpa [get?] using congrArg (·[handle]?) amended.names_eq
  simp only [← Option.map_eq_some_iff, names]

/-- Records that come to derive from a base keep their names. -/
theorem addBases {handles : List Handle} {base : Handle} (indexed : registry.Indexed) :
    (handles.foldl (fun result record => result.addBase record base) registry).Indexed :=
  keep_addBases Indexed Indexed.amended handles base indexed

/-- The base that is made for a slot is indexed like any other entry. -/
theorem synthesizeBase {owner : Name} {slot : String} {branches : List Schema} {base : Handle}
    (indexed : registry.Indexed)
    (made : registry.synthesizeBase owner slot branches = .ok (base, after)) : after.Indexed := by
  obtain ⟨-, rfl⟩ | ⟨-, registered, register, rfl⟩ := synthesizeBase_cases made
  · exact indexed
  · have registering : registered.Indexed := indexed.register register
    have remembering : (registered.rememberBase owner slot base).Indexed := registering
    exact remembering.addBases

/-- Whatever a slot is given, the index is coherent afterwards. -/
theorem slot {owner : Name} {name : String} {declared : Schema} {slot : Slot}
    (indexed : registry.Indexed)
    (filled : registry.slot options owner name declared = .ok (slot, after)) : after.Indexed := by
  rw [slot_eq_ok] at filled
  split at filled
  · obtain ⟨base, made, -⟩ := filled
    exact indexed.synthesizeBase made
  · exact filled.1 ▸ indexed

end Indexed

end AvroGraph.Registry
