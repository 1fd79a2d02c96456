import AvroGraph.Registry

/-!
# References

What a name in a document refers to. An undotted name is looked up in the namespace around it
and then outside all namespaces; a primitive keyword is never looked up.
-/

namespace AvroGraph

namespace Registry

/-- The handle that a name finds: in the namespace around it first, and then, if it is not
dotted, outside all namespaces. -/
def findFrom (registry : Registry) (around : Option String) (text : String) (name : Name) :
    Option Handle :=
  (registry.find? name).or
    (if around.isSome && !text.toList.contains '.' then registry.find? (.unqualified text)
     else none)

/-- The schema that a reference means: a primitive keyword, or the name of an entry. -/
def reference (registry : Registry) (around : Option String) (text : String) :
    Except Reason Schema :=
  match Primitive.ofKeyword? text with
  | some primitive => .ok (.primitive primitive)
  | none => do
    let name ← (Name.resolve text none around).mapError Reason.badName
    match (registry.findFrom around text name).bind registry.schemaOf? with
    | some schema => return schema
    | none => .error (.unknownSchema name)

end Registry

end AvroGraph
