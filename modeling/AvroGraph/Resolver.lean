import AvroGraph.Node.OfJson
import AvroGraph.Node.Resolve

/-!
# Resolvers

A resolver resolves one JSON node after another into the same registry. A node that is refused
leaves behind what was registered on the way.
-/

namespace AvroGraph

/-- The state of a resolution: its options and what it has registered. -/
structure Resolver where
  options : Options
  registry : Registry

namespace Resolver

/-- A resolver that has registered nothing. -/
def new (options : Options) : Resolver :=
  ⟨options, .empty⟩

/-- Resolve a node within a namespace. The resolver goes on from what the walk registered, also
if it failed. -/
def resolve (resolver : Resolver) (node : Json) (around : Option String) :
    Except Violation Schema × Resolver :=
  let (result, registry) :=
    ((Node.ofJson node).resolve resolver.options around).outcome resolver.registry
  (result, { resolver with registry })

/-- Resolve the root of a document. -/
def parse (resolver : Resolver) (node : Json) : Except Violation Schema × Resolver :=
  resolver.resolve node none

end Resolver

end AvroGraph
