import AvroGraph.Registry
import AvroGraph.Schema.Reduction

/-!
# Abstract bases

A slot whose type is a union of records is given a base that these records derive from. The
base is named after the slot and its owner, with a counter where that name is taken by another
base, and it is made only once per slot.
-/

namespace AvroGraph

/-- The name of the base of a slot: owner and slot in Pascal case, in the owner's namespace. -/
def AbstractBase.nameFor (owner : Name) (slot : String) : Name :=
  ⟨Identifier.pascalCase owner.localName ++ Identifier.pascalCase slot ++ "Base", owner.space⟩

namespace Registry

/-- Whether a name belongs to an abstract base. -/
def holdsBase (registry : Registry) (name : Name) : Bool :=
  match (registry.find? name).bind registry.get? with
  | some entry => entry.isAbstractBase
  | none => false

/-- A name with a counter behind its local name. -/
def numbered (name : Name) (counter : Nat) : Name :=
  { name with localName := name.localName ++ toString counter }

/-- A name that belongs to no base yet: the name itself or the first one numbered from two on.
One of as many numbers as there are names in the index, and one more, is always free. A name
taken by a declaration is not avoided, so it is refused as a redeclaration. -/
def freeBaseName (registry : Registry) (name : Name) : Name :=
  if registry.holdsBase name then
    ((List.range (registry.index.length + 1)).map fun index => numbered name (index + 2)).find?
      (fun candidate => !registry.holdsBase candidate) |>.getD name
  else name

/-- The records among branches. -/
def recordHandles (branches : List Schema) : List Handle :=
  branches.filterMap fun
    | .named .record handle => some handle
    | _ => none

/-- The base of a slot: the one made before, or a new one that every record branch derives
from. -/
def synthesizeBase (registry : Registry) (owner : Name) (slot : String)
    (branches : List Schema) : Except Reason (Handle × Registry) :=
  match registry.baseOf? owner slot with
  | some base => .ok (base, registry)
  | none => do
    let name := registry.freeBaseName (AbstractBase.nameFor owner slot)
    let (base, registry) ← registry.register (.abstractBase ⟨name, owner, slot, branches⟩)
    let registry := registry.rememberBase owner slot base
    return (base, (recordHandles branches).foldl (fun result record => result.addBase record base)
      registry)

/-- A slot that has its base keeps it, and nothing changes. -/
theorem synthesizeBase_of_baseOf? {registry : Registry} {owner : Name} {slot : String}
    {base : Handle} (made : registry.baseOf? owner slot = some base) (branches : List Schema) :
    registry.synthesizeBase owner slot branches = .ok (base, registry) := by
  simp [synthesizeBase, made]

end Registry

end AvroGraph
