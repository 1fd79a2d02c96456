import AvroGraph.Proofs.BaseLinks
import AvroGraph.Proofs.Index

/-!
# New bases

A slot is given its base in several changes of the registry, one after another: the base is
registered, it is remembered for the slot, and the records among its branches come to derive from
it. Only the first of them can fail, so that whoever makes these changes one by one sees either all
of them or none (`Registry.outcome_makeBase`). What they come to is `Registry.GainsBase`.
-/

namespace AvroGraph

namespace Resolving

variable {registry : Registry}

/-- The registry as it is can be asked for. -/
@[simp]
theorem outcome_get : (get : Resolving Registry).outcome registry = (.ok registry, registry) := rfl

/-- Let a branch derive from a base, if it is a record. -/
def derive (base : Handle) : Schema → Resolving Unit
  | .named .record handle => modify (·.addBase handle base)
  | _ => pure ()

/-- The base of a slot, made in changes that take effect one by one and are never taken back. -/
def makeBase (node : Json) (owner : Name) (slot : String) (branches : List Schema) :
    Resolving Handle := do
  let registry ← get
  match registry.baseOf? owner slot with
  | some base => return base
  | none =>
    let name := registry.freeBaseName (AbstractBase.nameFor owner slot)
    let base ← change node (·.register (.abstractBase ⟨name, owner, slot, branches⟩))
    modify (·.rememberBase owner slot base)
    forM branches (derive base)
    return base

/-- A branch that is no record is passed over, and no branch makes the walk fail. -/
theorem outcome_derive (base : Handle) (branch : Schema) :
    (derive base branch).outcome registry =
      (.ok (), (Registry.recordHandles [branch]).foldl
        (fun result record => result.addBase record base) registry) := by
  cases branch with
  | named kind handle => cases kind <;> rfl
  | _ => rfl

/-- One after the other, the records among the branches are linked to the base. -/
theorem outcome_forM_derive (base : Handle) (branches : List Schema) :
    (forM branches (derive base)).outcome registry =
      (.ok (), (Registry.recordHandles branches).foldl
        (fun result record => result.addBase record base) registry) := by
  induction branches generalizing registry with
  | nil => rfl
  | cons branch rest ih =>
    have split : Registry.recordHandles (branch :: rest) =
        Registry.recordHandles [branch] ++ Registry.recordHandles rest :=
      List.filterMap_append (l := [branch])
    rw [List.forM_cons, outcome_bind, outcome_derive, split, List.foldl_append]
    exact ih

end Resolving

namespace Registry

variable {registry after : Registry} {owner : Name} {slot : String} {branches : List Schema}

/-- What a registry comes to by a new base. The base stands behind all entries, the index gains its
name and no other, and it is remembered for its slot. Each record among its branches comes to derive
from it, and nothing else changes. -/
structure GainsBase (registry : Registry) (base : AbstractBase) (after : Registry) : Prop where
  size : after.size = registry.size + 1
  entry : after.get? registry.size = some (.abstractBase base)
  others : ∀ handle, handle ≠ registry.size → after.get? handle =
    (registry.get? handle).map fun entry =>
      if .named .record handle ∈ base.derived then entry.derive registry.size else entry
  name : ∀ name, after.find? name =
    if name = base.name then some registry.size else registry.find? name
  slot : ∀ owner slot, after.baseOf? owner slot =
    if (owner, slot) = (base.owner, base.slot) then some registry.size
    else registry.baseOf? owner slot

/-- A name leads where it led once records come to derive from a base. -/
theorem find?_addBases (handles : List Handle) (base : Handle) (name : Name) :
    (handles.foldl (fun result record => result.addBase record base) registry).find? name =
      registry.find? name :=
  keep_addBases (fun result => result.find? name = registry.find? name)
    (fun same amended => (amended.find?_eq name).trans same)
    handles base rfl

/-- A base that is made new is gained. -/
theorem gainsBase_synthesizeBase {base : Handle} (fresh : registry.baseOf? owner slot = none)
    (made : registry.synthesizeBase owner slot branches = .ok (base, after)) :
    base = registry.size ∧ registry.GainsBase
      ⟨registry.freeBaseName (AbstractBase.nameFor owner slot), owner, slot, branches⟩ after := by
  have gained := get?_synthesizeBase fresh made
  obtain ⟨registered, register, rfl⟩ := (synthesizeBase_eq_ok fresh).1 made
  obtain rfl := handle_register register
  refine ⟨rfl, ?_, gained, fun handle other => ?_, fun name => ?_, fun other name => ?_⟩
  · rw [size_addBases, ← size_register register]
    rfl
  · rw [get?_addBases]
    change (registered.get? handle).map _ = _
    simp only [get?_register register, if_neg other, mem_recordHandles]
  · rw [find?_addBases]
    exact find?_register register name
  · rw [baseOf?_addBases, baseOf?_rememberBase, baseOf?_register register]

/-- Without a base for its slot, one is made exactly if its name is free. -/
theorem synthesizeBase_of_find? {handle : Handle} (fresh : registry.baseOf? owner slot = none)
    (taken : registry.find? (registry.freeBaseName (AbstractBase.nameFor owner slot)) = some handle) :
    registry.synthesizeBase owner slot branches =
      .error (.redeclaration (registry.freeBaseName (AbstractBase.nameFor owner slot))) := by
  simp only [synthesizeBase, fresh, register, Entry.name, taken]
  rfl

/-- Changes that are made one by one come to what is made all at once. -/
theorem outcome_makeBase_eq (node : Json) (owner : Name) (slot : String) (branches : List Schema) :
    (Resolving.makeBase node owner slot branches).outcome registry =
      (Resolving.change node (·.synthesizeBase owner slot branches)).outcome registry := by
  rw [Resolving.makeBase, Resolving.outcome_bind, Resolving.outcome_get,
    Resolving.outcome_change, synthesizeBase]
  dsimp only
  cases registry.baseOf? owner slot with
  | some base => rfl
  | none =>
    dsimp only
    rw [Resolving.outcome_bind, Resolving.outcome_change]
    cases registry.register _ with
    | error reason => rfl
    | ok registered =>
      simp only [Resolving.outcome_bind, Resolving.outcome_modify, Resolving.outcome_forM_derive]
      rfl

/-- The base of a slot is made in full or not at all, also where the registry is changed step by
step: a slot keeps the base it has, a new base is refused where its name is taken, and both leave
the registry as it is, its entries, its index and the bases it remembers; in all other cases the
registry gains the base and nothing besides. Where the index led from every name to the entry of
that name before, it does so in each case. -/
theorem outcome_makeBase (registry : Registry) (node : Json) (owner : Name) (slot : String)
    (branches : List Schema) :
    let name := registry.freeBaseName (AbstractBase.nameFor owner slot)
    let outcome := (Resolving.makeBase node owner slot branches).outcome registry
    outcome = (Resolving.change node (·.synthesizeBase owner slot branches)).outcome registry ∧
      (match registry.baseOf? owner slot, registry.find? name with
      | some base, _ => outcome = (.ok base, registry)
      | none, some _ => outcome = (.error ⟨.redeclaration name, node⟩, registry)
      | none, none => ∃ after, outcome = (.ok registry.size, after) ∧
          registry.GainsBase ⟨name, owner, slot, branches⟩ after) ∧
      (registry.Indexed → outcome.2.Indexed) := by
  intro name outcome
  have same : outcome =
      (Resolving.change node (·.synthesizeBase owner slot branches)).outcome registry :=
    outcome_makeBase_eq node owner slot branches
  refine ⟨same, ?_, fun indexed => ?_⟩
  case refine_2 =>
    rw [same, Resolving.outcome_change]
    cases result : registry.synthesizeBase owner slot branches with
    | error => exact indexed
    | ok made => exact indexed.synthesizeBase result
  -- What is remembered is asked for first, and only then whether the name is free.
  rw [Resolving.outcome_change] at same
  cases known : registry.baseOf? owner slot with
  | some base =>
    rw [synthesizeBase_of_baseOf? known] at same
    exact same
  | none =>
    cases found : registry.find? name with
    | some handle =>
      rw [synthesizeBase_of_find? known found] at same
      exact same
    | none =>
      obtain ⟨base, after, made⟩ : ∃ base after,
          registry.synthesizeBase owner slot branches = .ok (base, after) :=
        ⟨_, _, (synthesizeBase_eq_ok known).2 ⟨_, register_eq_ok.2 ⟨found, rfl, rfl⟩, rfl⟩⟩
      rw [made] at same
      obtain ⟨rfl, gains⟩ := gainsBase_synthesizeBase known made
      exact ⟨after, same, gains⟩

end Registry

end AvroGraph
