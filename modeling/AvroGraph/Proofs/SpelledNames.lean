import AvroGraph.Proofs.Counterparts
import AvroGraph.Proofs.NameTable

/-!
# Names that have a spelling

A namespace around is inherited by what is declared in it, and no text means a name outside all
namespaces there, unless it is found in no other way. `Registry.Spells` says where the entry at a
handle has a spelling, and `Registry.SpellsNames` that every entry has one wherever a projection
comes upon it. Then a reference is resolved to what it was written for
(`Registry.Follows.reference`).
-/

namespace AvroGraph

open Projecting

namespace Registry

/-- The entry at a handle has a spelling within a namespace: if its name is outside all namespaces,
then there is none around, or it is written in full already and nothing that is written has its
local name in the namespace around. -/
def Spells (registry : Registry) (written : List Handle) (around : Option String)
    (handle : Handle) :
    Prop :=
  ∀ entry ∈ registry.get? handle, entry.name.space = none → ∀ space ∈ around, handle ∈ written ∧
    ∀ other ∈ written,
      (registry.get? other).map Entry.name ≠ some ⟨entry.name.localName, some space⟩

instance (registry : Registry) (written : List Handle) (around : Option String) (handle : Handle) :
    Decidable (registry.Spells written around handle) :=
  inferInstanceAs (Decidable (∀ entry ∈ registry.get? handle, entry.name.space = none →
    ∀ space ∈ around, handle ∈ written ∧ ∀ other ∈ written,
      (registry.get? other).map Entry.name ≠ some ⟨entry.name.localName, some space⟩))

/-- The entry at a handle, if it has a spelling where it stands and so has all that is in it. -/
def defineSpelled (registry : Registry) : Nat → Define
  | 0, handle, around => registry.define 0 handle around
  | depth + 1, handle, around => do
    let written ← get
    if registry.Spells written around handle then
      registry.defineWith (registry.defineSpelled depth) handle around
    else throw ⟨.foreignHandle handle, .null⟩

/-- Every entry that a projection of a schema comes upon has a spelling there. -/
def SpellsNames (registry : Registry) (schema : Schema) : Prop :=
  ((schema.project registry (registry.defineSpelled registry.depthLimit) none).outcome []).1.isOk =
    true

instance (registry : Registry) (schema : Schema) : Decidable (registry.SpellsNames schema) :=
  inferInstanceAs (Decidable (Except.isOk _ = true))

section

variable {registry : Registry} {depth : Nat} {handle : Handle} {around : Option String}
  {written last : List Handle} {json : Json} {schema : Schema}

/-- One level deeper, an entry is written where it has a spelling. -/
theorem yields_defineSpelled_succ :
    (registry.defineSpelled (depth + 1) handle around).Yields written json last ↔
      registry.Spells written around handle ∧
        (registry.defineWith (registry.defineSpelled depth) handle around).Yields written json
          last := by
  rw [defineSpelled, yields_bind]
  by_cases spells : registry.Spells written around handle <;> simp [spells]

/-- Entries that have a spelling are written as they are anyway. -/
theorem defineSpelled_extends (registry : Registry) (depth : Nat) :
    (registry.defineSpelled depth).Extends (registry.define depth) := by
  induction depth with
  | zero => exact fun _ _ _ _ _ => id
  | succ depth ih =>
    intro handle around written json last writes
    exact registry.defineWith_extends ih _ _ _ _ _ (yields_defineSpelled_succ.1 writes).2

/-- What a projection writes is what it writes with every entry spelled. -/
theorem SpellsNames.yields (spells : registry.SpellsNames schema)
    (writes : (registry.write schema none).Yields [] json last) :
    (schema.project registry (registry.defineSpelled registry.depthLimit) none).Yields [] json
      last := by
  unfold SpellsNames at spells
  rcases outcome : (schema.project registry (registry.defineSpelled registry.depthLimit)
    none).outcome [] with ⟨_ | other, after⟩
  · rw [outcome] at spells
    cases spells
  · have writesAgain := schema.yields_mono (.refl registry)
      (registry.defineSpelled_extends registry.depthLimit) outcome
    obtain ⟨rfl, rfl⟩ := writesAgain.unique writes
    exact outcome

end

variable {source again : Registry} {written : List Handle} {handle : Handle} {origin : Entry}
  {around : Option String}

/-- An entry that is written is resolved to what stands for it, where it has a spelling. -/
theorem Follows.reference (follows : source.Follows again written)
    (found : source.get? handle = some origin) (member : handle ∈ written)
    (wellFormed : origin.name.WellFormed) (free : origin.name.localName ∉ typeKeywords)
    (enclosing : ∀ space ∈ around, Name.checkSegments space = .ok ())
    (spells : source.Spells written around handle) :
    ∃ place entry, again.reference around (origin.name.reference around) =
        .ok (.named entry.kind place) ∧
      again.get? place = some entry ∧ entry.StandsFor origin := by
  obtain ⟨place, entry, finds, isEntry, standsFor⟩ := follows.find? member found
  have noKeyword := Primitive.ofKeyword?_eq_none (Name.reference_notMem free around)
  suffices resolves : ∃ name, Name.resolve (origin.name.reference around) none around = .ok name ∧
      again.findFrom around (origin.name.reference around) name = some place by
    obtain ⟨name, named, findsFrom⟩ := resolves
    refine ⟨place, entry, ?_, isEntry, standsFor⟩
    rw [← standsFor.unadorned.2 place]
    exact reference_of_findFrom noKeyword named findsFrom isEntry
  by_cases enclosed : origin.name.space = none → around = none
  · refine ⟨origin.name, wellFormed.resolve_reference enclosed, ?_⟩
    rw [findFrom, finds, Option.some_or]
  · -- Outside all namespaces, and not found in the one around.
    obtain ⟨outside, inside⟩ := Classical.not_imp.1 enclosed
    obtain ⟨space, rfl⟩ := Option.ne_none_iff_exists'.1 inside
    have absent := (spells origin found outside space rfl).2
    have isName : origin.name = .unqualified origin.name.localName := by
      rw [Name.unqualified, ← outside]
    have isLocal : origin.name.reference (some space) = origin.name.localName := by
      rw [Name.reference, if_neg (by simp [outside]), isName, Name.full_unqualified,
        Name.unqualified]
    refine ⟨⟨origin.name.localName, some space⟩, ?_, ?_⟩
    · rw [isLocal]
      refine (Name.resolve_undotted wellFormed.undotted).2
        ⟨wellFormed.visible, by simp, fun other isSpace => enclosing other ?_, rfl⟩
      simpa using isSpace
    · rw [findFrom, follows.find?_eq_none absent, Option.none_or, isLocal, ← isName, finds, if_pos]
      simpa using wellFormed.undotted

end Registry

end AvroGraph
