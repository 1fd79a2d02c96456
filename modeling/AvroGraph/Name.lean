import AvroGraph.Identifier
import AvroGraph.Text.Blank

/-!
# Qualified names

A schema is known by a local name and, most often, the namespace it lives in. `Name.resolve`
finds the name that a declaration or a reference means where it stands: a dotted name brings
its own namespace, any other takes the one given beside it or else the enclosing one.
-/

namespace AvroGraph

/-- A way in which text fails to be a name. -/
inductive NameError where
  /-- The name is empty or blank. -/
  | empty
  /-- A dotted text has an empty or blank segment. -/
  | emptySegment (dotted : String)
  /-- A namespace was given and is the empty text. -/
  | emptyNamespace
  /-- A segment lies outside the identifier grammar. -/
  | invalidCharacters (segment : String)
  /-- A name that has to be simple holds a dot. -/
  | dotted (name : String)
  deriving DecidableEq

/-- The wording of a name error. -/
def NameError.message : NameError → String
  | .empty => "name must not be empty"
  | .emptySegment text => s!"name '{text}' contains an empty segment"
  | .emptyNamespace => "namespace must not be the empty string"
  | .invalidCharacters segment =>
    s!"'{segment}' must start with a letter or underscore and contain only alphanumerics and underscores"
  | .dotted name => s!"'{name}' must not contain dots"

/-- A local name within an optional namespace. -/
structure Name where
  localName : String
  space : Option String
  deriving DecidableEq

namespace Name

/-- A local name outside every namespace. -/
def unqualified (localName : String) : Name :=
  ⟨localName, none⟩

/-- The namespace and the local name with a dot between them. -/
def full (name : Name) : String :=
  match name.space with
  | some space => space ++ "." ++ name.localName
  | none => name.localName

/-- The local name as the generated code spells it. -/
def escaped (name : Name) : String :=
  Identifier.escape name.localName

/-- The full name as the generated code spells it, segment by segment. -/
def escapedFull (name : Name) : String :=
  Identifier.escapeDotted name.full

/-- A dotted text whose segments are all visible. -/
def checkSegments (dotted : String) : Except NameError Unit :=
  if (Text.segments dotted).any Text.isBlank then .error (.emptySegment dotted) else .ok ()

/-- The name that `raw` means, given the namespace written beside it and the one around it.
A dotted name ignores both; otherwise the one beside it wins and must not be empty. -/
def resolve (raw : String) (beside around : Option String) : Except NameError Name :=
  if Text.isBlank raw then .error .empty
  else
    match Text.cutAtLastDot raw.toList with
    | some (space, localName) => do
      checkSegments raw
      return ⟨String.ofList localName, some (String.ofList space)⟩
    | none =>
      if beside = some "" then .error .emptyNamespace
      else
        match beside.or around with
        | some space => do
          checkSegments space
          return ⟨raw, some space⟩
        | none => .ok ⟨raw, none⟩

/-- The name that a full name stands for. -/
def parse (full : String) : Except NameError Name :=
  resolve full none none

/-- Membership of one segment in the identifier grammar. -/
def validateSegment (segment : String) : Except NameError Unit :=
  if Identifier.isWellFormed segment then .ok () else .error (.invalidCharacters segment)

/-- Membership of the local name, then of each namespace segment, in the identifier grammar. -/
def validate (name : Name) : Except NameError Unit := do
  validateSegment name.localName
  match name.space with
  | some space => (Text.segments space).forM validateSegment
  | none => return ()

/-- A name that has to be simple: visible and without a dot. -/
def checkSimple (name : String) : Except NameError Unit :=
  if Text.isBlank name then .error .empty
  else if name.toList.contains '.' then .error (.dotted name)
  else .ok ()

/-- Whether one name stands no later than another: by local name, then by namespace, and
without a namespace first. Texts are ordered by code points. -/
def precedes (left right : Name) : Bool :=
  if left.localName = right.localName then
    match left.space, right.space with
    | none, _ => true
    | some _, none => false
    | some leftSpace, some rightSpace => leftSpace ≤ rightSpace
  else left.localName < right.localName

/-- Names in order, each once. -/
def sorted (names : List Name) : List Name :=
  (names.mergeSort precedes).eraseReps

/-- A name without a namespace is its own full name. -/
@[simp]
theorem full_unqualified (localName : String) : (unqualified localName).full = localName := rfl

end Name

end AvroGraph
