import AvroGraph.Proofs.Resolved
import AvroGraph.Proofs.SameEntries

/-!
# Nodes that come to the same

Two nodes come to the same if, from registries of the same entries, both resolve to the same schema
or both fail, and the registries that they leave have the same entries again (`Node.Same`). A node
may be exchanged for such a one wherever it stands, and details for details that say the same: there
is one law a kind of node.
-/

namespace AvroGraph

open Resolving

/-! ## Outcomes -/

/-- Two outcomes tally: both succeed with related values, or both fail, for whatever reasons. -/
inductive Tally {ε α : Type} (same : α → α → Prop) : Except ε α → Except ε α → Prop where
  | ok {left right : α} (holds : same left right) : Tally same (.ok left) (.ok right)
  | error (left right : ε) : Tally same (.error left) (.error right)

namespace Tally

variable {ε α β : Type} {same : α → α → Prop} {other : β → β → Prop}

/-- A result tallies with itself. -/
theorem refl (reflexive : ∀ value, same value value) (result : Except ε α) :
    Tally same result result := by
  cases result with
  | ok value => exact .ok (reflexive value)
  | error failure => exact .error failure failure

/-- Results that tally go on to tally. -/
theorem bind {first second : Except ε α} {next following : α → Except ε β}
    (start : Tally same first second)
    (rest : ∀ left right, same left right → Tally other (next left) (following right)) :
    Tally other (first >>= next) (second >>= following) := by
  cases start with
  | ok holds => exact rest _ _ holds
  | error left right => exact .error left right

/-- Equal results are mapped to equal ones. -/
theorem map {first second : Except ε α} (tally : Tally Eq first second) (f : α → β) :
    Tally Eq (first.map f) (second.map f) := by
  cases tally with
  | ok holds => exact .ok (congrArg f holds)
  | error left right => exact .error left right

end Tally

namespace Resolving

variable {α β : Type} {same : α → α → Prop} {other : β → β → Prop}

/-- From registries of the same entries, two walks come to outcomes that tally, and leave registries
of the same entries. -/
def Matches (same : α → α → Prop) (first second : Resolving α) : Prop :=
  ∀ left right : Registry, left.Same right →
    Tally same (first.outcome left).1 (second.outcome right).1 ∧
      (first.outcome left).2.Same (second.outcome right).2

namespace Matches

/-- Results by themselves match if they are the same. -/
theorem pure {left right : α} (holds : same left right) :
    Matches same (pure left) (pure right) :=
  fun _ _ registries => ⟨.ok holds, registries⟩

/-- Violations match, whatever they say. -/
theorem throw (violation another : Violation) : Matches same (throw violation) (throw another) :=
  fun _ _ registries => ⟨.error violation another, registries⟩

/-- Walks that match go on to match. -/
theorem bind {first second : Resolving α} {next following : α → Resolving β}
    (start : Matches same first second)
    (rest : ∀ left right, same left right → Matches other (next left) (following right)) :
    Matches other (first >>= next) (second >>= following) := by
  intro left right registries
  obtain ⟨tally, after⟩ := start left right registries
  rw [outcome_bind, outcome_bind]
  generalize first.outcome left = leftOutcome at tally after ⊢
  generalize second.outcome right = rightOutcome at tally after ⊢
  obtain ⟨leftResult, leftAfter⟩ := leftOutcome
  obtain ⟨rightResult, rightAfter⟩ := rightOutcome
  cases tally with
  | ok holds => exact rest _ _ holds leftAfter rightAfter after
  | error violation another => exact ⟨.error violation another, after⟩

/-- Questions match if their answers tally. -/
theorem ask (node another : Json) {first second : Registry → Except Reason α}
    (tally : ∀ left right, left.Same right → Tally same (first left) (second right)) :
    Matches same (ask node first) (ask another second) := by
  intro left right registries
  have tallies := tally left right registries
  rw [outcome_ask, outcome_ask]
  generalize first left = leftResult at tallies ⊢
  generalize second right = rightResult at tallies ⊢
  cases tallies with
  | ok holds => exact ⟨.ok holds, registries⟩
  | error reason cause => exact ⟨.error _ _, registries⟩

/-- Checks match if their results tally. -/
theorem check (node another : Json) {first second : Except Reason α}
    (tally : Tally same first second) : Matches same (check node first) (check another second) := by
  intro left right registries
  rw [outcome_check, outcome_check]
  cases tally with
  | ok holds => exact ⟨.ok holds, registries⟩
  | error reason cause => exact ⟨.error _ _, registries⟩

/-- A question that finds the same in both registries matches itself. -/
theorem ask_eq (node another : Json) {first second : Registry → Except Reason α}
    (equal : ∀ left right : Registry, left.Same right → first left = second right) :
    Matches Eq (Resolving.ask node first) (Resolving.ask another second) :=
  .ask node another fun left right registries => equal left right registries ▸ .refl Eq.refl _

/-- A check of the same result matches itself. -/
theorem check_eq (node another : Json) {first second : Except Reason α} (equal : first = second) :
    Matches Eq (Resolving.check node first) (Resolving.check another second) :=
  .check node another (equal ▸ .refl Eq.refl _)

/-- Changes match if their results are related. -/
theorem change (node another : Json) {first second : Registry → Except Reason (α × Registry)}
    (agree : ∀ left right, left.Same right →
      Agree (Registry.PairedAfter Entry.Same same) (first left) (second right)) :
    Matches same (change node first) (change another second) := by
  intro left right registries
  have agrees := agree left right registries
  rw [outcome_change, outcome_change]
  generalize first left = leftResult at agrees ⊢
  generalize second right = rightResult at agrees ⊢
  cases agrees with
  | ok holds => exact ⟨.ok holds.result, holds.registry⟩
  | error reason => exact ⟨.error _ _, registries⟩

/-- Changes that cannot fail match if what they leave is the same. -/
theorem modify {first second : Registry → Registry}
    (keeps : ∀ left right : Registry, left.Same right → (first left).Same (second right)) :
    Matches (fun _ _ => True) (modify first) (modify second) :=
  fun left right registries => ⟨.ok trivial, keeps left right registries⟩

end Matches

end Resolving

/-! ## Details -/

/-- Details that say the same. -/
structure Details.Same (left right : Details) : Prop where
  doc : left.doc = right.doc
  aliases : left.aliases = right.aliases
  properties : Json.sameObject left.properties right.properties = true

/-- Details of fields that say the same. -/
structure FieldDetails.Same (left right : FieldDetails) : Prop where
  order : left.order = right.order
  doc : left.doc = right.doc
  aliases : left.aliases = right.aliases
  properties : Json.sameObject left.properties right.properties = true

/-- Headings of one name and of details that say the same. -/
structure Heading.Same (left right : Heading) : Prop where
  name : left.name = right.name
  space : left.space = right.space
  details : Tally Details.Same left.details right.details

/-- Declarations of one name and of details that say the same. -/
structure Declaration.Same (left right : Declaration) : Prop where
  name : left.name = right.name
  details : left.details.Same right.details

/-- Headings that are the same are resolved to the same declaration, or refused. -/
theorem Heading.Same.resolve {heading other : Heading} (headings : heading.Same other)
    (options : Options) (around : Option String) :
    Tally Declaration.Same (heading.resolve options around) (other.resolve options around) := by
  rw [Heading.resolve, Heading.resolve, headings.name, headings.space]
  refine .bind (.refl Eq.refl _) ?_
  rintro name _ rfl
  refine .bind (.refl Eq.refl _) fun _ _ _ => ?_
  exact .bind headings.details fun _ _ details => .ok ⟨rfl, details⟩

namespace Declaration.Same

variable {declaration other : Declaration} (declarations : declaration.Same other)
include declarations

/-- Declarations that are the same declare the same record. -/
theorem recordEntry (isError : Bool) :
    (declaration.recordEntry isError).Same (other.recordEntry isError) := by
  have record : declaration.record.same other.record = true := by
    refine Record.same_iff.2 ⟨?_, .nil, declarations.details.properties⟩
    simp only [Declaration.record, declarations.name, declarations.details.doc,
      declarations.details.aliases]
  cases isError <;> exact record

/-- Declarations that are the same declare the same enum, or its symbols are refused. -/
theorem enumeration (options : Options) (symbols : List (Option String))
    (default : Except Reason (Option String)) :
    Tally (fun left right => (Entry.enum left).Same (.enum right))
      (declaration.enumeration options symbols default)
      (other.enumeration options symbols default) := by
  rw [Declaration.enumeration, Declaration.enumeration]
  refine .bind (.refl Eq.refl _) ?_
  rintro texts _ rfl
  split
  · exact .error _ _
  refine .bind (.refl Eq.refl default) ?_
  rintro known _ rfl
  refine .bind (.refl Eq.refl _) ?_
  rintro chosen _ rfl
  refine .ok (Enumeration.same_iff.2 ⟨?_, declarations.details.properties⟩)
  simp only [declarations.name, declarations.details.doc, declarations.details.aliases]

/-- Declarations that are the same declare the same fixed type, or its size is refused. -/
theorem fixedType (size : Option Nat) :
    Tally (fun left right => (Entry.fixed left).Same (.fixed right))
      (declaration.fixedType size) (other.fixedType size) := by
  cases size with
  | none => exact .error _ _
  | some size =>
    refine .ok (FixedType.same_iff.2 ⟨?_, declarations.details.properties⟩)
    simp only [declarations.name, declarations.details.doc, declarations.details.aliases]

/-- Declarations that are the same declare the same protocol. -/
theorem protocol :
    (Entry.protocol declaration.protocol).Same (.protocol other.protocol) := by
  refine Protocol.same_iff.2 ⟨?_, .nil, declarations.details.properties⟩
  simp only [Declaration.protocol, declarations.name, declarations.details.doc]

end Declaration.Same

/-! ## Nodes -/

/-- Nodes that come to the same schema wherever they stand. -/
def Node.Same (left right : Node) : Prop :=
  ∀ options around, Matches Eq (left.resolve options around) (right.resolve options around)

/-- Nodes that come to the same field of whatever owner. -/
def FieldNode.Same (left right : FieldNode) : Prop :=
  ∀ options owner, Matches Field.Same (left.resolve options owner) (right.resolve options owner)

/-- Nodes that come to the same message wherever they stand. -/
def MessageNode.Same (left right : MessageNode) : Prop :=
  ∀ options around, Matches Message.Same (left.resolve options around) (right.resolve options around)

/-- A rule that registries of the same entries do not differ about. -/
def Vet.Blind (vet : Vet) : Prop :=
  ∀ left right : Registry, left.Same right → vet left = vet right

/-- Branches may be anything. -/
theorem Vet.blind_branch : Vet.branch.Blind := fun _ _ _ => rfl

/-- Whether a type is named does not depend on properties. -/
theorem Vet.blind_protocolType : Vet.protocolType.Blind := fun _ _ _ => rfl

/-- Whether a type is an error schema does not depend on properties. -/
theorem Vet.blind_messageError (message : String) : (Vet.messageError message).Blind := by
  intro left right registries
  funext schema
  cases schema with
  | named kind handle =>
    cases kind <;> simp only [messageError, registries.nameOf_eq Entry.indistinct_same]
  | _ => simp only [messageError, registries.nameOf_eq Entry.indistinct_same]

section

variable {options : Options} {around : Option String} {owner : Name}

/-- Nodes that come to the same, one by one, do so in a row. -/
theorem matches_resolveEach {vet : Vet} (blind : vet.Blind) {nodes others : List Node}
    (same : List.Forall₂ Node.Same nodes others) :
    Matches Eq (resolveEach options around vet nodes) (resolveEach options around vet others) := by
  induction same with
  | nil => exact .pure rfl
  | @cons node other _ _ head _ ih =>
    rw [resolveEach, resolveEach]
    refine .bind (head options around) ?_
    rintro schema _ rfl
    refine .bind (.ask_eq node.source other.source fun left right registries => ?_) fun _ _ _ => ?_
    · rw [blind left right registries]
    · refine .bind ih ?_
      rintro schemas _ rfl
      exact .pure rfl

/-- Fields in a row match after fields that are the same. -/
theorem matches_resolveFields {done reached : List Field} (before : List.Forall₂ Field.Same done reached)
    {nodes others : List FieldNode} (same : List.Forall₂ FieldNode.Same nodes others) :
    Matches (List.Forall₂ Field.Same) (resolveFields options owner done nodes)
      (resolveFields options owner reached others) := by
  induction same generalizing done reached with
  | nil => exact .pure before
  | @cons node other _ _ head _ ih =>
    rw [resolveFields, resolveFields]
    refine .bind (head options owner) fun field another fields => ?_
    have names : done.map Field.name = reached.map Field.name :=
      map_eq_of_forall₂ (fun _ _ same => Field.Same.name_eq same) before
    refine .bind (.check_eq node.source other.source (checkNewField_congr names fields.name_eq))
      fun _ _ _ => ?_
    exact ih (List.rel_append before (.cons fields .nil))

/-- Messages in a row match. -/
theorem matches_resolveMessages {nodes others : List MessageNode}
    (same : List.Forall₂ MessageNode.Same nodes others) :
    Matches (List.Forall₂ Message.Same) (resolveMessages options around nodes)
      (resolveMessages options around others) := by
  induction same with
  | nil => exact .pure .nil
  | cons head _ ih =>
    rw [resolveMessages, resolveMessages]
    exact .bind (head options around) fun _ _ message => .bind ih fun _ _ messages =>
      .pure (.cons message messages)

end

namespace Node.Same

/-- What is malformed matches whatever is. -/
theorem malformed (reason cause : Reason) (source another : Json) :
    (Node.malformed reason source).Same (.malformed cause another) :=
  fun _ _ => .throw _ _

/-- A reference matches itself. -/
theorem reference (text : String) : (Node.reference text).Same (.reference text) :=
  fun _ around => .ask _ _ fun left right registries => by
    rw [registries.reference_eq Entry.indistinct_same]
    exact .refl Eq.refl _

section

variable {node other : Node} (same : node.Same other) (source another : Json)
include same

/-- Objects around types match if the types do. -/
theorem nested : (Node.nested source node).Same (.nested another other) := same

/-- Arrays match if their items do. -/
theorem array : (Node.array source node).Same (.array another other) := by
  intro options around
  refine .bind (same options around) ?_
  rintro items _ rfl
  exact .pure rfl

/-- Maps match if their values do. -/
theorem map : (Node.map source node).Same (.map another other) := by
  intro options around
  refine .bind (same options around) ?_
  rintro values _ rfl
  exact .pure rfl

/-- A logical type matches itself over types that do. -/
theorem logical (name : String) (overlay : Except Reason (Option LogicalType))
    (declaresFixed : Bool) :
    (Node.logical source name overlay declaresFixed node).Same
      (.logical another name overlay declaresFixed other) := by
  intro options around
  refine .bind (same options around) ?_
  rintro inner _ rfl
  exact .change _ _ fun _ _ registries => registries.annotate declaresFixed inner name overlay

end

/-- Unions match if their branches do. -/
theorem union {branches others : List Node} (same : List.Forall₂ Node.Same branches others)
    (source another : Json) : (Node.union source branches).Same (.union another others) := by
  intro options around
  refine .bind (matches_resolveEach Vet.blind_branch same) ?_
  rintro schemas _ rfl
  exact .pure rfl

section

variable {heading other : Heading} (headings : heading.Same other) (source another : Json)
include headings

/-- Records match if their fields do. -/
theorem record {fields others : List FieldNode} (same : List.Forall₂ FieldNode.Same fields others)
    (isError : Bool) :
    (Node.record source isError heading fields).Same (.record another isError other others) := by
  intro options around
  refine .bind (.check _ _ (headings.resolve options around)) fun declaration twin declarations => ?_
  refine .bind (.change _ _ fun _ _ registries =>
    registries.register Entry.indistinct_same (declarations.recordEntry isError)) ?_
  rintro handle _ rfl
  rw [declarations.name]
  refine .bind (matches_resolveFields .nil same) fun _ _ filled => ?_
  exact .bind (.modify fun _ _ registries => Registry.Same.setFields registries handle filled)
    fun _ _ _ => .pure rfl

/-- Enums match if their headings are the same. -/
theorem enum (symbols : List (Option String)) (default : Except Reason (Option String)) :
    (Node.enum source heading symbols default).Same (.enum another other symbols default) := by
  intro options around
  refine .bind (.check _ _ (headings.resolve options around)) fun declaration twin declarations => ?_
  refine .bind (.check _ _ (declarations.enumeration options symbols default))
    fun _ _ enumerations => ?_
  refine .bind (.change _ _ fun _ _ registries =>
    registries.register Entry.indistinct_same enumerations) ?_
  rintro handle _ rfl
  exact .pure rfl

/-- Fixed types match if their headings are the same. -/
theorem fixed (size : Option Nat) :
    (Node.fixed source heading size).Same (.fixed another other size) := by
  intro options around
  refine .bind (.check _ _ (headings.resolve options around)) fun declaration twin declarations => ?_
  refine .bind (.check _ _ (declarations.fixedType size)) fun _ _ fixedTypes => ?_
  refine .bind (.change _ _ fun _ _ registries =>
    registries.register Entry.indistinct_same fixedTypes) ?_
  rintro handle _ rfl
  exact .pure rfl

/-- Protocols match if their types and messages do. -/
theorem protocol {types otherTypes : List Node} (sameTypes : List.Forall₂ Node.Same types otherTypes)
    {messages otherMessages : List MessageNode}
    (sameMessages : List.Forall₂ MessageNode.Same messages otherMessages) :
    (Node.protocol source heading types messages).Same
      (.protocol another other otherTypes otherMessages) := by
  intro options around
  refine .bind (.check _ _ (headings.resolve options around)) fun declaration twin declarations => ?_
  refine .bind (.change _ _ fun _ _ registries =>
    registries.register Entry.indistinct_same declarations.protocol) ?_
  rintro handle _ rfl
  rw [declarations.name]
  refine .bind (matches_resolveEach Vet.blind_protocolType sameTypes) ?_
  rintro schemas _ rfl
  refine .bind (matches_resolveMessages sameMessages) fun _ _ filled => ?_
  exact .bind (.modify fun _ _ registries =>
    Registry.Same.setProtocol registries handle schemas filled) fun _ _ _ => .pure rfl

end

end Node.Same

/-- A field that is malformed matches whatever is. -/
theorem FieldNode.Same.malformed (reason cause : Reason) (source another : Json) :
    (FieldNode.malformed reason source).Same (.malformed cause another) :=
  fun _ _ => .throw _ _

/-- A message that is malformed matches whatever is. -/
theorem MessageNode.Same.malformed (reason cause : Reason) (source another : Json) :
    (MessageNode.malformed reason source).Same (.malformed cause another) :=
  fun _ _ => .throw _ _

/-- Defaults that are the same, and of which the same becomes. -/
structure Json.SameDefault (left right : Option Json) : Prop where
  same : Json.sameOption left right = true
  literal : ∀ registry declared, Tally Eq
    (DefaultLiteral.synthesizeOption registry declared left)
    (DefaultLiteral.synthesizeOption registry declared right)

/-- Fields match if their types, their defaults and their details do. -/
theorem FieldNode.Same.field {type other : Node} (types : type.Same other)
    {default another : Option Json} (defaults : Json.SameDefault default another)
    {details twin : Except Reason FieldDetails} (said : Tally FieldDetails.Same details twin)
    (source source' typeSource typeSource' : Json) (name : String) :
    (FieldNode.field source name type typeSource default details).Same
      (.field source' name other typeSource' another twin) := by
  intro options owner
  refine .bind (.check_eq _ _ rfl) fun _ _ _ => ?_
  refine .bind (types options owner.space) ?_
  rintro declared _ rfl
  refine .bind (.change _ _ fun _ _ registries =>
    registries.slot Entry.indistinct_same Entry.same_abstractBase options owner name declared) ?_
  rintro slot _ rfl
  have becomes (left right : Registry) (registries : left.Same right) :
      Tally Eq (DefaultLiteral.synthesizeOption left slot.declared default)
        (DefaultLiteral.synthesizeOption right slot.declared another) := by
    rw [registries.synthesizeOption_eq Entry.indistinct_same]
    exact defaults.literal right slot.declared
  refine .bind (.ask _ _ becomes) ?_
  rintro literal _ rfl
  refine .bind (.check _ _ said) fun _ _ details => .pure (Field.same_iff.2 ?_)
  refine ⟨?_, defaults.same, details.properties⟩
  simp only [details.doc, details.aliases, details.order]

/-- A message: its parameters, its response and its errors. -/
theorem MessageNode.Same.message {request others : List FieldNode}
    (parameters : List.Forall₂ FieldNode.Same request others) {response other : Node}
    (responses : response.Same other) {errors failures : List Node}
    (sameErrors : List.Forall₂ Node.Same errors failures) {oneWay flag : Except Reason Bool}
    (flags : Tally Eq oneWay flag) {details twin : Except Reason Details}
    (said : Tally Details.Same details twin) (source source' responseSource responseSource' : Json)
    (name : String) :
    (MessageNode.message source name request response responseSource errors oneWay details).Same
      (.message source' name others other responseSource' failures flag twin) := by
  intro options around
  refine .bind (.check_eq _ _ rfl) fun _ _ _ => ?_
  refine .bind (matches_resolveFields .nil parameters) fun _ _ requested => ?_
  refine .bind (responses options around) ?_
  rintro declared _ rfl
  refine .bind (.change _ _ fun _ _ registries =>
    registries.slot Entry.indistinct_same Entry.same_abstractBase options ⟨name, around⟩ "response"
      declared) ?_
  rintro slot _ rfl
  refine .bind (matches_resolveEach (Vet.blind_messageError name) sameErrors) ?_
  rintro schemas _ rfl
  refine .bind (.check _ _ flags) ?_
  rintro answered _ rfl
  refine .bind (.check_eq _ _ rfl) fun _ _ _ => ?_
  refine .bind (.check _ _ said) fun _ _ details => .pure (Message.same_iff.2 ?_)
  refine ⟨?_, requested, details.properties⟩
  simp only [details.doc]

end AvroGraph
