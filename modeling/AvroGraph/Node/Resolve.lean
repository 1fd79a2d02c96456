import AvroGraph.Node.Check
import AvroGraph.Registry.Default
import AvroGraph.Registry.Reference
import AvroGraph.Registry.Slot
import AvroGraph.Resolving

/-!
# Resolution

A walk over a classified document that registers every declaration and links every reference.
A declaration is registered before its parts are resolved, so that they may refer back to it.
-/

namespace AvroGraph

open Resolving

/-- A rule for the schemas of a list. -/
abbrev Vet := Registry → Schema → Except Reason Unit

/-- The rule for branches of unions: anything goes. -/
def Vet.branch : Vet := fun _ _ => .ok ()

/-- The rule for types of protocols: they are named, possibly under a logical type. -/
def Vet.protocolType : Vet := fun _ schema =>
  if schema.bare.isNamed then .ok () else .error (.unnamedType schema.kind)

/-- The rule for errors of a message: they are error schemas. -/
def Vet.messageError (message : String) : Vet := fun registry schema =>
  match schema with
  | .named .error _ => .ok ()
  | schema => .error (.notAnError message (registry.nameOf schema))

mutual

/-- The schema of a node within a namespace. -/
def Node.resolve (options : Options) (around : Option String) : Node → Resolving Schema
  | .malformed reason source => throw ⟨reason, source⟩
  | .reference text => ask (.string text) (·.reference around text)
  | .nested _ inner => inner.resolve options around
  | .union _ branches => do
    let branches ← resolveEach options around .branch branches
    return .ofBranches options branches
  | .array _ items => do
    let items ← items.resolve options around
    return .array items
  | .map _ values => do
    let values ← values.resolve options around
    return .map values
  | .record source isError heading fields => do
    let declaration ← check source (heading.resolve options around)
    let handle ← change source (·.register
      (if isError then .error declaration.record else .record declaration.record))
    let fields ← resolveFields options declaration.name [] fields
    modify (·.setFields handle fields)
    return .named (if isError then .error else .record) handle
  | .enum source heading symbols default => do
    let declaration ← check source (heading.resolve options around)
    let enumeration ← check source (declaration.enumeration options symbols default)
    let handle ← change source (·.register (.enum enumeration))
    return .named .enum handle
  | .fixed source heading size => do
    let declaration ← check source (heading.resolve options around)
    let fixedType ← check source (declaration.fixedType size)
    let handle ← change source (·.register (.fixed fixedType))
    return .named .fixed handle
  | .protocol source heading types messages => do
    let declaration ← check source (heading.resolve options around)
    let handle ← change source (·.register (.protocol declaration.protocol))
    let types ← resolveEach options declaration.name.space .protocolType types
    let messages ← resolveMessages options declaration.name.space messages
    modify (·.setProtocol handle types messages)
    return .named .protocol handle
  | .logical source name overlay declaresFixed inner => do
    let inner ← inner.resolve options around
    change source (·.annotate declaresFixed inner name overlay)

/-- The schemas of nodes in order, each held against a rule before the next is resolved. -/
def resolveEach (options : Options) (around : Option String) (vet : Vet) :
    List Node → Resolving (List Schema)
  | [] => return []
  | node :: rest => do
    let schema ← node.resolve options around
    ask node.source (vet · schema)
    let schemas ← resolveEach options around vet rest
    return schema :: schemas

/-- A field of an owner, whose namespace is the one around the field's type. -/
def FieldNode.resolve (options : Options) (owner : Name) : FieldNode → Resolving Field
  | .malformed reason source => throw ⟨reason, source⟩
  | .field source name type typeSource default details => do
    check source (options.checkSimpleName name)
    let declared ← type.resolve options owner.space
    let slot ← change typeSource (·.slot options owner name declared)
    let literal ← ask source (DefaultLiteral.synthesizeOption · slot.declared default)
    let details ← check source details
    return {
      name, default
      declared := slot.declared
      underlying := slot.underlying
      nullable := slot.nullable
      doc := details.doc
      aliases := details.aliases
      literal := literal.bind DefaultLiteral.literal?
      order := details.order
      properties := details.properties
      remarks := literal.bind DefaultLiteral.remark? }

/-- The fields of an owner in order, no two of one name; `done` holds those before. -/
def resolveFields (options : Options) (owner : Name) (done : List Field) :
    List FieldNode → Resolving (List Field)
  | [] => return done
  | node :: rest => do
    let field ← node.resolve options owner
    check node.source (checkNewField owner done field)
    resolveFields options owner (done ++ [field]) rest

/-- A message of a protocol in a namespace. The message is the owner of its parameters and of
its response. -/
def MessageNode.resolve (options : Options) (around : Option String) :
    MessageNode → Resolving Message
  | .malformed reason source => throw ⟨reason, source⟩
  | .message source name request response responseSource errors oneWay details => do
    check source (options.checkSimpleName name)
    let owner : Name := ⟨name, around⟩
    let request ← resolveFields options owner [] request
    let declared ← response.resolve options around
    let response ← change responseSource (·.slot options owner "response" declared)
    let errors ← resolveEach options around (.messageError name) errors
    let oneWay ← check source oneWay
    check source (checkOneWay name oneWay response.declared errors)
    let details ← check source details
    return {
      name, request, oneWay
      doc := details.doc
      properties := details.properties
      response := response.declared
      responseUnderlying := response.underlying
      responseNullable := response.nullable
      errors := .string :: errors }

/-- The messages of a protocol in order. -/
def resolveMessages (options : Options) (around : Option String) :
    List MessageNode → Resolving (List Message)
  | [] => return []
  | node :: rest => do
    let message ← node.resolve options around
    let messages ← resolveMessages options around rest
    return message :: messages

end

end AvroGraph
