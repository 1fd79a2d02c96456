import AvroGraph.Proofs.Capture
import AvroGraph.Proofs.NameTable
import AvroGraph.Proofs.Written

/-!
# References as they are spelled

What has been written in full is written as a reference to its name from then on
(`Registry.write_written`). Where the registry is the one that is projected, such a reference to a
name in a namespace is resolved to what it was written for, unless the local name is a primitive
keyword and stands alone (`Registry.Reached.resolve_reference_iff`).
-/

namespace AvroGraph

open Projecting

/-- A primitive keyword has no dot. -/
theorem Primitive.dot_notMem_keyword (primitive : Primitive) :
    '.' ∉ primitive.keyword.toList := by
  cases primitive <;> decide

/-- A reference to a name in a namespace is a primitive keyword only where the local name is one
and stands alone. -/
theorem Name.ofKeyword?_reference {name : Name} {space : String} (inSpace : name.space = some space)
    (around : Option String) :
    Primitive.ofKeyword? (name.reference around) =
      if around = some space then Primitive.ofKeyword? name.localName else none := by
  rw [reference, inSpace]
  by_cases enclosed : around = some space
  · rw [if_pos enclosed.symm, if_pos enclosed]
  · rw [if_neg (Ne.symm enclosed), if_neg enclosed, Option.eq_none_iff_forall_ne_some]
    intro primitive isKeyword
    refine primitive.dot_notMem_keyword ?_
    rw [← Primitive.ofKeyword?_eq_some.1 isKeyword, full, inSpace]
    simp [String.toList_append]

namespace Registry

variable {options : Options} {registry : Registry} {handle : Handle} {entry : Entry}
  {written : List Handle} {around : Option String} {space : String}

/-- A declaration that has been written in full is written as a reference to its name. -/
theorem write_written (found : registry.get? handle = some entry)
    (isDeclared : entry.isAbstractBase = false) (member : handle ∈ written)
    (around : Option String) :
    (registry.write (entry.toSchema handle) around).Yields written
      (.string (entry.name.reference around)) written := by
  have named (kind : NamedKind) : (registry.write (.named kind handle) around).Yields written
      (.string (entry.name.reference around)) written := by
    have deep : registry.depthLimit = registry.depthLimit - 1 + 1 :=
      (Nat.sub_add_cancel (Nat.mul_pos (Nat.succ_pos _) (Nat.succ_pos _))).symm
    rw [write, deep]
    exact Schema.yields_named.2 ((yields_define_written found isDeclared member).2 ⟨rfl, rfl⟩)
  cases entry with
  | fixed fixedType =>
    cases isOverlay : fixedType.overlay with
    | none => simpa [Entry.toSchema, isOverlay] using named .fixed
    | some overlay =>
      -- The logical type of the declaration is not written beside a reference to it.
      have own : Schema.isOwnOverlay registry (.named .fixed handle) overlay = true := by
        simp [Schema.isOwnOverlay, fixed?, found, Entry.fixed?, isOverlay]
      simp only [Entry.toSchema, isOverlay]
      refine Schema.yields_logical.2 ⟨_, named .fixed, ?_⟩
      rw [if_pos own]
  | _ => exact named _

/-- What a reference to a declared name in a namespace resolves to. -/
theorem Sound.reference_iff (sound : registry.Sound) (found : registry.get? handle = some entry)
    (wellFormed : entry.name.WellFormed) (inSpace : entry.name.space = some space) :
    registry.reference around (entry.name.reference around) = .ok (entry.toSchema handle) ↔
      (around = some space → Primitive.ofKeyword? entry.name.localName = none) := by
  have keyword := Name.ofKeyword?_reference inSpace around
  constructor
  · intro resolved enclosed
    rw [if_pos enclosed] at keyword
    rw [← keyword, Option.eq_none_iff_forall_ne_some]
    intro primitive isKeyword
    rw [reference, isKeyword] at resolved
    cases entry with
    | fixed fixedType =>
      cases isOverlay : fixedType.overlay <;> simp [Entry.toSchema, isOverlay] at resolved
    | _ => cases resolved
  · intro free
    have noKeyword : Primitive.ofKeyword? (entry.name.reference around) = none := by
      rw [keyword]
      split
      · next enclosed => exact free enclosed
      · rfl
    have named : Name.resolve (entry.name.reference around) none around = .ok entry.name :=
      wellFormed.resolve_reference fun outside => by simp [inSpace] at outside
    refine reference_of_findFrom noKeyword named ?_ found
    rw [findFrom, (sound.indexed _ _).2 ⟨entry, found, rfl⟩, Option.some_or]

/-- A declaration in a namespace that has been written in full is written as a text, in every
namespace, and nothing more is written in full. The same registry resolves that text to the schema
of the declaration, and stays as it is, exactly if it is not a primitive keyword that is the
declaration's local name and stands in its own namespace. -/
theorem Reached.resolve_reference_iff (reached : registry.Reached options)
    (found : registry.get? handle = some entry) (isDeclared : entry.isAbstractBase = false)
    (inSpace : entry.name.space = some space) (around : Option String) (member : handle ∈ written) :
    ∃ text, (registry.write (entry.toSchema handle) around).outcome written =
        (.ok (.string text), written) ∧
      ((Resolver.mk options registry).resolve (.string text) around =
          (.ok (entry.toSchema handle), ⟨options, registry⟩) ↔
        (around = some space → Primitive.ofKeyword? entry.name.localName = none)) := by
  refine ⟨entry.name.reference around, write_written found isDeclared member around, ?_⟩
  rw [← reached.sound.reference_iff found (reached.wellNamed.wellFormed found) inSpace]
  have walks (schema : Schema) :
      (Resolver.mk options registry).resolve (.string (entry.name.reference around)) around =
          (.ok schema, ⟨options, registry⟩) ↔
        registry.reference around (entry.name.reference around) = .ok schema := by
    rw [Resolver.resolve, Node.ofJson, Node.resolve, Resolving.outcome_ask]
    simp [mapError_eq_ok]
  exact walks _

/-- A record in the namespace `n` whose local name is a primitive keyword. -/
def keyworded : Registry :=
  ((Resolver.mk {} .empty).resolve (.object [("type", .string "record"), ("name", .string "n.int"),
    ("fields", .array [])]) none).2.registry

/-- The registry with a keyword for a name is one that resolution can reach. -/
theorem keyworded_reached : keyworded.Reached {} := by
  unfold keyworded
  exact .resolve _ none .empty

/-- That record is written and read alike from outside its namespace. -/
theorem resolve_reference_iff_keyworded :
    ∃ entry, keyworded.get? 0 = some entry ∧ entry.isAbstractBase = false ∧
      entry.name.space = some "n" ∧
      ∀ around, ∃ text, (keyworded.write (entry.toSchema 0) around).outcome [0] =
          (.ok (.string text), [0]) ∧
        ((Resolver.mk {} keyworded).resolve (.string text) around =
            (.ok (entry.toSchema 0), ⟨{}, keyworded⟩) ↔
          (around = some "n" → Primitive.ofKeyword? entry.name.localName = none)) := by
  have found : keyworded.get? 0 =
      some (.record { name := ⟨"int", some "n"⟩, fields := [] }) := by decide +kernel
  exact ⟨_, found, rfl, rfl, fun around =>
    Reached.resolve_reference_iff keyworded_reached found rfl rfl around (by decide)⟩

/-- Within its namespace that record is written as the primitive type. -/
theorem reference_keyworded :
    ¬ ∀ (options : Options) (registry : Registry) (handle : Handle) (entry : Entry)
        (around : Option String) (written : List Handle),
      registry.Reached options → registry.get? handle = some entry →
      entry.isAbstractBase = false → entry.name.space.isSome = true →
      (∀ space ∈ around, (Text.segments space).any Text.isBlank = false) → handle ∈ written →
      ∃ text, ((registry.write (entry.toSchema handle) around).outcome written).1 =
          .ok (.string text) ∧
        ((Resolver.mk options registry).resolve (.string text) around).1 =
          .ok (entry.toSchema handle) := by
  intro claim
  have found : keyworded.get? 0 =
      some (.record { name := ⟨"int", some "n"⟩, fields := [] }) := by decide +kernel
  obtain ⟨text, writes, resolves⟩ := claim {} keyworded 0 _ (some "n") [0] keyworded_reached found
    rfl rfl (by decide +kernel) (by decide)
  have isKeyword : text = "int" := by
    have yields := write_written found rfl (List.mem_singleton_self 0) (some "n")
    rw [yields.outcome] at writes
    cases writes
    decide
  subst isKeyword
  have isPrimitive : ((Resolver.mk {} keyworded).resolve (.string "int") (some "n")).1.toOption =
      some (.primitive .int) := by decide +kernel
  rw [resolves] at isPrimitive
  cases isPrimitive

end Registry

end AvroGraph
