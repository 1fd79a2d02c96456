import AvroGraph.Node
import AvroGraph.Options

/-!
# Checks of declarations

What a declaration has to satisfy by itself, before it meets the registry, and the named schema
that comes of it. The identifier grammar counts under strict names alone.
-/

namespace AvroGraph

namespace Options

/-- The outcome of a check against the identifier grammar, which counts under strict names
alone. -/
def enforce (options : Options) : Except NameError Unit → Except Reason Unit
  | .ok () => .ok ()
  | .error error => if options.strictNames then .error (.badName error) else .ok ()

/-- A check of the name of a field, symbol or message. -/
def checkSimpleName (options : Options) (name : String) : Except Reason Unit := do
  (Name.checkSimple name).mapError Reason.badName
  options.enforce (Name.validateSegment name)

end Options

/-- A declaration with the name it has where it stands. -/
structure Declaration where
  name : Name
  details : Details

/-- The declaration of a heading within a namespace. -/
def Heading.resolve (heading : Heading) (options : Options) (around : Option String) :
    Except Reason Declaration := do
  let name ← (Name.resolve heading.name heading.space around).mapError Reason.badName
  options.enforce name.validate
  let details ← heading.details
  return { name, details }

/-- The symbols of an enum, in order; `done` holds those before. -/
def checkSymbols (options : Options) (done : List String) :
    List (Option String) → Except Reason (List String)
  | [] => .ok done
  | none :: _ => .error .symbolNotAString
  | some symbol :: rest => do
    options.checkSimpleName symbol
    if symbol ∈ done then .error (.duplicateSymbol symbol)
    checkSymbols options (done ++ [symbol]) rest

/-- The default of an enum, which is one of its symbols if there is one. -/
def checkEnumDefault (symbols : List String) : Option String → Except Reason (Option String)
  | none => .ok none
  | some symbol => if symbol ∈ symbols then .ok (some symbol) else .error (.foreignDefault symbol)

namespace Declaration

/-- The record of a declaration, before its fields are known. -/
def record (declaration : Declaration) : Record where
  name := declaration.name
  fields := []
  doc := declaration.details.doc
  aliases := declaration.details.aliases
  properties := declaration.details.properties

/-- The enum of a declaration: it has symbols, and its default is one of them. -/
def enumeration (declaration : Declaration) (options : Options)
    (symbols : List (Option String)) (default : Except Reason (Option String)) :
    Except Reason Enumeration := do
  let symbols ← checkSymbols options [] symbols
  if symbols.isEmpty then .error .noSymbols
  let default ← checkEnumDefault symbols (← default)
  return {
    name := declaration.name
    symbols, default
    doc := declaration.details.doc
    aliases := declaration.details.aliases
    properties := declaration.details.properties }

/-- The fixed type of a declaration: it has a size. -/
def fixedType (declaration : Declaration) (size : Option Nat) : Except Reason FixedType :=
  match size with
  | some size => .ok {
      name := declaration.name
      size
      doc := declaration.details.doc
      aliases := declaration.details.aliases
      properties := declaration.details.properties }
  | none => .error .badSize

/-- The protocol of a declaration, before its types and messages are known. -/
def protocol (declaration : Declaration) : Protocol where
  name := declaration.name
  doc := declaration.details.doc
  properties := declaration.details.properties

end Declaration

/-- A field that comes after others of its owner has a name of its own. -/
def checkNewField (owner : Name) (done : List Field) (field : Field) : Except Reason Unit :=
  if done.any (·.name = field.name) then .error (.duplicateField field.name owner) else .ok ()

/-- A one-way message has a null response and no errors of its own. -/
def checkOneWay (message : String) (oneWay : Bool) (response : Schema) (errors : List Schema) :
    Except Reason Unit :=
  if oneWay && (!response.isNull || !errors.isEmpty) then .error (.answeredOneWay message)
  else .ok ()

end AvroGraph
