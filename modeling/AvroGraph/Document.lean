import AvroGraph.Json.Reader
import AvroGraph.Projection
import AvroGraph.Resolver

/-!
# Documents

A document is what a resolution comes to: the schema of the root node and the registry of all
named schemas. It can be projected back to JSON.
-/

namespace AvroGraph

/-- The root of a document and the named schemas it refers to. -/
structure Document where
  root : Schema
  registry : Registry
  deriving DecidableEq

/-- Why a text gives no document: it is no JSON, or the JSON is no schema. -/
inductive Refusal where
  | unreadable (error : SyntaxError)
  | invalid (violation : Violation)
  deriving DecidableEq

namespace Refusal

/-- The reason alone. -/
def reason : Refusal → String
  | .unreadable error => error.message
  | .invalid violation => violation.reason.message

/-- The node that is refused, if the text is JSON. -/
def node? : Refusal → Option Json
  | .unreadable _ => none
  | .invalid violation => some violation.node

/-- A refusal in full. -/
def message : Refusal → String
  | .unreadable error => "Parse error: " ++ error.message
  | .invalid violation => violation.message

end Refusal

namespace Document

/-- The document of a root node. -/
def resolve (options : Options) (root : Json) : Except Violation Document :=
  match (Resolver.new options).parse root with
  | (.ok schema, resolver) => .ok ⟨schema, resolver.registry⟩
  | (.error violation, _) => .error violation

/-- The document that a text spells. -/
def parse (options : Options) (text : String) : Except Refusal Document :=
  match Json.read text with
  | .ok root => (resolve options root).mapError Refusal.invalid
  | .error error => .error (.unreadable error)

/-- The JSON of a document's root, which holds every named schema it refers to. -/
def toJson (document : Document) : Except Violation Json :=
  ((document.registry.write document.root none).outcome []).1

end Document

end AvroGraph
