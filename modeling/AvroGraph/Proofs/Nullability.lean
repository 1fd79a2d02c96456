import AvroGraph.Proofs.Marks
import AvroGraph.Proofs.Sound

/-!
# Nullable references

Whether references are nullable by themselves shows in marks of nullability and nowhere else. Two
walks over one document, with and without nullable references, go the same way and fail the same way
(`Node.agrees_marking`), and what they resolve is written the same way, so that the option decides
about marks alone (`Document.resolve_nullableReferences`).
-/

namespace AvroGraph

open Resolving

/-- Options without nullable references. -/
abbrev Options.plain (options : Options) : Options :=
  { options with nullableReferences := false }

/-- Options with nullable references. -/
abbrev Options.marking (options : Options) : Options :=
  { options with nullableReferences := true }

variable {options : Options}

/-! ## Reductions -/

/-- To make reductions nullable leaves marks below marks. -/
theorem Reduction.Below.orNull {left right : Reduction} (below : left.Below right) :
    left.orNull.Below right.orNull :=
  ⟨below.underlying, fun _ => rfl⟩

mutual

/-- Nullable references make reductions admit null and change nothing else. -/
theorem Schema.Below.reduction {left right : Schema} : left.Below right →
    (left.reduction options.plain).Below (right.reduction options.marking)
  | .union branches _ _ => branches.reduceBranches
  | .primitive type => ⟨.primitive type, nofun⟩
  | .named kind handle => ⟨.named kind handle, nofun⟩
  | .array items => ⟨.array items, nofun⟩
  | .map values => ⟨.map values, nofun⟩
  | .logical underlying overlay => ⟨.logical underlying overlay, nofun⟩
  | .boxed => ⟨.boxed, nofun⟩

/-- Branches are reduced to the same but for marks. -/
theorem EachBelow.reduceBranches {lefts rights : List Schema} : EachBelow lefts rights →
    (AvroGraph.reduceBranches options.plain lefts).Below
      (AvroGraph.reduceBranches options.marking rights)
  | .nil => ⟨.primitive .null, nofun⟩
  | .cons only .nil => only.reduction
  | .cons first (.cons second .nil) => by
    simp only [AvroGraph.reduceBranches, first.isNull_eq, second.isNull_eq]
    split
    · split
      · exact ⟨.primitive .null, nofun⟩
      · exact first.reduction.orNull
    · split
      · exact second.reduction.orNull
      · exact ⟨.boxed, nofun⟩
  | .cons _ (.cons _ (.cons _ _)) => by
    simp only [AvroGraph.reduceBranches, Bool.and_false]
    exact ⟨.boxed, nofun⟩

end

/-- Branches make unions that are the same but for marks. -/
theorem EachBelow.ofBranches {lefts rights : List Schema} (below : EachBelow lefts rights) :
    (Schema.ofBranches options.plain lefts).Below (Schema.ofBranches options.marking rights) :=
  .union below below.reduceBranches.underlying below.reduceBranches.nullable

/-! ## Walks -/

namespace Resolving

variable {α β : Type} {same : α → α → Prop} {other : β → β → Prop}

/-- From registries that are the same but for marks, two walks agree and leave such registries. -/
def Agrees (same : α → α → Prop) (first second : Resolving α) : Prop :=
  ∀ left right : Registry, left.Below right →
    Agree same (first.outcome left).1 (second.outcome right).1 ∧
      (first.outcome left).2.Below (second.outcome right).2

namespace Agrees

/-- Results by themselves agree if they are the same but for marks. -/
theorem pure {left right : α} (holds : same left right) :
    Agrees same (pure left) (pure right) :=
  fun _ _ below => ⟨.ok holds, below⟩

/-- A violation agrees with itself. -/
theorem throw (violation : Violation) : Agrees same (throw violation) (throw violation) :=
  fun _ _ below => ⟨.error violation, below⟩

/-- Walks that agree go on in agreement. -/
theorem bind {first second : Resolving α} {next following : α → Resolving β}
    (start : Agrees same first second)
    (rest : ∀ left right, same left right → Agrees other (next left) (following right)) :
    Agrees other (first >>= next) (second >>= following) := by
  intro left right below
  obtain ⟨agree, registries⟩ := start left right below
  rw [outcome_bind, outcome_bind]
  generalize first.outcome left = leftOutcome at agree registries ⊢
  generalize second.outcome right = rightOutcome at agree registries ⊢
  obtain ⟨leftResult, leftAfter⟩ := leftOutcome
  obtain ⟨rightResult, rightAfter⟩ := rightOutcome
  cases agree with
  | ok holds => exact rest _ _ holds leftAfter rightAfter registries
  | error violation => exact ⟨.error violation, registries⟩

/-- A check does not look at marks. -/
theorem check (node : Json) {first second : Except Reason α} (equal : first = second) :
    Agrees Eq (check node first) (check node second) := by
  subst equal
  cases first with
  | ok value => exact .pure rfl
  | error reason => exact .throw _

/-- A question agrees with one that has related answers. -/
theorem ask (node : Json) {first second : Registry → Except Reason α}
    (agree : ∀ left right, left.Below right → Agree same (first left) (second right)) :
    Agrees same (ask node first) (ask node second) := by
  intro left right below
  have agrees := agree left right below
  rw [outcome_ask, outcome_ask]
  generalize first left = leftResult at agrees ⊢
  generalize second right = rightResult at agrees ⊢
  cases agrees with
  | ok holds => exact ⟨.ok holds, below⟩
  | error reason => exact ⟨.error _, below⟩

/-- A question that does not look at marks has one answer. -/
theorem ask_eq (node : Json) {first second : Registry → Except Reason α}
    (equal : ∀ left right, left.Below right → first left = second right) :
    Agrees Eq (Resolving.ask node first) (Resolving.ask node second) :=
  .ask node fun left right below => equal left right below ▸ .refl Eq.refl _

/-- A change agrees with one that has related results. -/
theorem change (node : Json) {first second : Registry → Except Reason (α × Registry)}
    (agree : ∀ left right, left.Below right → Agree (Changed same) (first left) (second right)) :
    Agrees same (change node first) (change node second) := by
  intro left right below
  have agrees := agree left right below
  rw [outcome_change, outcome_change]
  generalize first left = leftResult at agrees ⊢
  generalize second right = rightResult at agrees ⊢
  cases agrees with
  | ok holds => exact ⟨.ok holds.1, holds.2⟩
  | error reason => exact ⟨.error _, below⟩

/-- Changes that cannot fail agree if what they leave is the same but for marks. -/
theorem modify {first second : Registry → Registry}
    (below : ∀ left right : Registry, left.Below right → (first left).Below (second right)) :
    Agrees (fun _ _ => True) (modify first) (modify second) :=
  fun left right registries => ⟨.ok trivial, below left right registries⟩

end Agrees

end Resolving

/-- A rule that does not look at marks. -/
def Vet.Unmarked (vet : Vet) : Prop :=
  ∀ {left right : Registry} {schema other : Schema}, left.Below right → schema.Below other →
    vet left schema = vet right other

/-- Branches may be anything, with marks or without. -/
theorem Vet.unmarked_branch : Vet.branch.Unmarked := fun _ _ => rfl

/-- Whether a type is named does not depend on marks. -/
theorem Vet.unmarked_protocolType : Vet.protocolType.Unmarked := by
  intro left right schema other _ below
  rw [protocolType, protocolType, below.bare.isNamed_eq, below.kind_eq]

/-- Whether a type is an error schema does not depend on marks. -/
theorem Vet.unmarked_messageError (message : String) : (Vet.messageError message).Unmarked := by
  intro left right schema other registries below
  have name := registries.nameOf_eq below
  cases below with
  | named kind handle => cases kind <;> simp only [messageError, name]
  | _ => simp only [messageError, name]

/-- Fields that are the same but for marks have one name. -/
theorem Field.Below.name_eq {left right : Field} (below : left.Below right) :
    left.name = right.name := by
  rw [below.rest]

/-- A field is new among fields, or it is not, whatever the marks. -/
theorem checkNewField_eq {owner : Name} {done others : List Field} {field other : Field}
    (below : List.Forall₂ Field.Below done others) (same : field.Below other) :
    checkNewField owner done field = checkNewField owner others other :=
  checkNewField_congr (map_eq_of_forall₂ (fun _ _ below => Field.Below.name_eq below) below)
    same.name_eq

/-- A message may be one-way with marks if it may be without them. -/
theorem checkOneWay_eq {name : String} {oneWay : Bool} {response other : Schema}
    {errors others : List Schema} (same : response.Below other) (below : EachBelow errors others) :
    checkOneWay name oneWay response errors = checkOneWay name oneWay other others := by
  have empty : errors.isEmpty = others.isEmpty := by cases below <;> rfl
  rw [checkOneWay, checkOneWay, same.isNull_eq, empty]

namespace Node

variable {around : Option String}

/-- A record is registered alike, and given fields that are the same but for marks. -/
theorem agrees_record (source : Json) (isError : Bool) (heading : Heading)
    {fields : List FieldNode}
    (each : ∀ owner, Agrees (List.Forall₂ Field.Below)
      (resolveFields options.plain owner [] fields)
      (resolveFields options.marking owner [] fields)) :
    Agrees Schema.Below ((record source isError heading fields).resolve options.plain around)
      ((record source isError heading fields).resolve options.marking around) := by
  refine .bind (.check source rfl) ?_
  rintro declaration _ rfl
  have entry : (declaration.recordEntry isError).Below (declaration.recordEntry isError) := by
    cases isError
    · exact .record declaration.record .nil
    · exact .error declaration.record .nil
  refine .bind (.change source fun _ _ below => below.register entry) ?_
  rintro handle _ rfl
  refine .bind (each declaration.name) fun done others same => ?_
  exact .bind (.modify fun _ _ below => below.setFields handle same) fun _ _ _ =>
    .pure (.named _ handle)

/-- An enum is registered alike. -/
theorem agrees_enum (source : Json) (heading : Heading) (symbols : List (Option String))
    (default : Except Reason (Option String)) :
    Agrees Schema.Below ((enum source heading symbols default).resolve options.plain around)
      ((enum source heading symbols default).resolve options.marking around) := by
  have strict : options.plain.strictNames = options.marking.strictNames := rfl
  refine .bind (.check source rfl) ?_
  rintro declaration _ rfl
  refine .bind (.check source (Declaration.enumeration_congr strict symbols default)) ?_
  rintro enumeration _ rfl
  refine .bind (.change source fun _ _ below => below.register (.enum enumeration)) ?_
  rintro handle _ rfl
  exact .pure (.named .enum handle)

/-- A fixed type is registered alike. -/
theorem agrees_fixed (source : Json) (heading : Heading) (size : Option Nat) :
    Agrees Schema.Below ((fixed source heading size).resolve options.plain around)
      ((fixed source heading size).resolve options.marking around) := by
  refine .bind (.check source rfl) ?_
  rintro declaration _ rfl
  refine .bind (.check source rfl) ?_
  rintro fixedType _ rfl
  refine .bind (.change source fun _ _ below => below.register (.fixed fixedType)) ?_
  rintro handle _ rfl
  exact .pure (.named .fixed handle)

/-- A protocol is registered alike, and given types and messages that are the same but for
marks. -/
theorem agrees_protocol (source : Json) (heading : Heading) {types : List Node}
    {messages : List MessageNode}
    (eachType : ∀ around, Agrees EachBelow
      (resolveEach options.plain around .protocolType types)
      (resolveEach options.marking around .protocolType types))
    (eachMessage : ∀ around, Agrees (List.Forall₂ Message.Below)
      (resolveMessages options.plain around messages)
      (resolveMessages options.marking around messages)) :
    Agrees Schema.Below ((protocol source heading types messages).resolve options.plain around)
      ((protocol source heading types messages).resolve options.marking around) := by
  refine .bind (.check source rfl) ?_
  rintro declaration _ rfl
  have entry : (Entry.protocol declaration.protocol).Below (.protocol declaration.protocol) :=
    .protocol declaration.protocol .nil .nil
  refine .bind (.change source fun _ _ below => below.register entry) ?_
  rintro handle _ rfl
  refine .bind (eachType _) fun _ _ sameTypes => ?_
  refine .bind (eachMessage _) fun _ _ sameMessages => ?_
  exact .bind (.modify fun _ _ below => below.setProtocol handle sameTypes sameMessages)
    fun _ _ _ => .pure (.named .protocol handle)

end Node

mutual

/-- With and without nullable references, a node resolves to the same schema but for marks. -/
theorem Node.agrees_marking {around : Option String} : (node : Node) →
    Agrees Schema.Below (node.resolve options.plain around) (node.resolve options.marking around)
  | .malformed reason source => .throw ⟨reason, source⟩
  | .reference text => .ask (.string text) fun _ _ below => by
    rw [below.paired.reference_eq Entry.indistinct_below]
    exact .refl .refl _
  | .nested _ inner => inner.agrees_marking
  | .union _ branches =>
    .bind (agrees_resolveEach Vet.unmarked_branch branches) fun _ _ below => .pure below.ofBranches
  | .array _ items => .bind items.agrees_marking fun _ _ below => .pure (.array below)
  | .map _ values => .bind values.agrees_marking fun _ _ below => .pure (.map below)
  | .record source isError heading fields =>
    Node.agrees_record source isError heading fun _ => agrees_resolveFields .nil fields
  | .enum source heading symbols default => Node.agrees_enum source heading symbols default
  | .fixed source heading size => Node.agrees_fixed source heading size
  | .protocol source heading types messages =>
    Node.agrees_protocol source heading (fun _ => agrees_resolveEach Vet.unmarked_protocolType types)
      fun _ => agrees_resolveMessages messages
  | .logical source name overlay declaresFixed inner =>
    .bind inner.agrees_marking fun _ _ same =>
      .change source fun _ _ below => below.annotate declaresFixed same name overlay

/-- With and without nullable references, nodes in a row resolve to the same schemas but for marks,
under a rule that does not look at these. -/
theorem agrees_resolveEach {around : Option String} {vet : Vet} (unmarked : vet.Unmarked) :
    (nodes : List Node) → Agrees EachBelow (resolveEach options.plain around vet nodes)
      (resolveEach options.marking around vet nodes)
  | [] => .pure .nil
  | node :: rest => by
    refine .bind node.agrees_marking fun schema other same => ?_
    refine .bind (.ask_eq node.source fun _ _ below => unmarked below same) fun _ _ _ => ?_
    exact .bind (agrees_resolveEach unmarked rest) fun _ _ others => .pure (.cons same others)

/-- With and without nullable references, a field is the same but for marks. -/
theorem FieldNode.agrees_marking {owner : Name} : (node : FieldNode) →
    Agrees Field.Below (node.resolve options.plain owner) (node.resolve options.marking owner)
  | .malformed reason source => .throw ⟨reason, source⟩
  | .field source name type typeSource default details => by
    refine .bind (.check source rfl) fun _ _ _ => ?_
    refine .bind type.agrees_marking fun declared another same => ?_
    refine .bind (.change typeSource fun _ _ below => below.slot rfl owner name same)
      fun slot other slots => ?_
    refine .bind (.ask_eq source fun _ _ below =>
      below.synthesizeOption_eq slots.declared default) ?_
    rintro literal _ rfl
    refine .bind (.check source rfl) ?_
    rintro said _ rfl
    exact .pure ⟨slots.declared, slots.underlying, slots.nullable, rfl⟩

/-- With and without nullable references, fields in a row are the same but for marks, after fields
that are. -/
theorem agrees_resolveFields {owner : Name} {done others : List Field}
    (below : List.Forall₂ Field.Below done others) : (nodes : List FieldNode) →
      Agrees (List.Forall₂ Field.Below) (resolveFields options.plain owner done nodes)
        (resolveFields options.marking owner others nodes)
  | [] => .pure below
  | node :: rest => by
    refine .bind node.agrees_marking fun field other same => ?_
    refine .bind (.check node.source (checkNewField_eq below same)) fun _ _ _ => ?_
    exact agrees_resolveFields (List.rel_append below (.cons same .nil)) rest

/-- With and without nullable references, a message is the same but for marks. -/
theorem MessageNode.agrees_marking {around : Option String} : (node : MessageNode) →
    Agrees Message.Below (node.resolve options.plain around) (node.resolve options.marking around)
  | .malformed reason source => .throw ⟨reason, source⟩
  | .message source name request response responseSource errors oneWay details => by
    refine .bind (.check source rfl) fun _ _ _ => ?_
    refine .bind (agrees_resolveFields .nil request) fun parameters others sameRequest => ?_
    refine .bind response.agrees_marking fun declared another sameResponse => ?_
    refine .bind (.change responseSource fun _ _ below =>
      below.slot rfl ⟨name, around⟩ "response" sameResponse) fun slot other slots => ?_
    refine .bind (agrees_resolveEach (Vet.unmarked_messageError name) errors)
      fun failures others sameErrors => ?_
    refine .bind (.check source rfl) ?_
    rintro flag _ rfl
    refine .bind (.check source (checkOneWay_eq slots.declared sameErrors)) fun _ _ _ => ?_
    refine .bind (.check source rfl) ?_
    rintro said _ rfl
    exact .pure {
      request := sameRequest
      response := slots.declared
      responseUnderlying := slots.underlying
      responseNullable := slots.nullable
      errors := .cons (.primitive .string) sameErrors
      rest := rfl }

/-- With and without nullable references, messages in a row are the same but for marks. -/
theorem agrees_resolveMessages {around : Option String} : (nodes : List MessageNode) →
    Agrees (List.Forall₂ Message.Below) (resolveMessages options.plain around nodes)
      (resolveMessages options.marking around nodes)
  | [] => .pure .nil
  | node :: rest =>
    .bind node.agrees_marking fun _ _ head => .bind (agrees_resolveMessages rest) fun _ _ tail =>
      .pure (.cons head tail)

end

/-! ## Projection -/

/-- A field is written without its marks around its type. -/
theorem Field.Below.writes_eq {left right : Field} (below : left.Below right) :
    left.project = right.project := by
  have default : left.default = right.default := by rw [below.rest]
  have doc : left.doc = right.doc := by rw [below.rest]
  have order : left.order = right.order := by rw [below.rest]
  have aliases : left.aliases = right.aliases := by rw [below.rest]
  have properties : left.properties = right.properties := by rw [below.rest]
  funext type
  simp only [Field.project, below.name_eq, default, doc, order, aliases, properties]

/-- A message is written without its marks around its types. -/
theorem Message.Below.writes_eq {left right : Message} (below : left.Below right) :
    left.project = right.project := by
  have doc : left.doc = right.doc := by rw [below.rest]
  have oneWay : left.oneWay = right.oneWay := by rw [below.rest]
  have properties : left.properties = right.properties := by rw [below.rest]
  funext request response errors
  simp only [Message.project, doc, oneWay, properties]

section

variable {left right : Registry}

/-- Whether a logical type is the own one of a fixed type does not depend on marks. -/
theorem isOwnOverlay_eq (registries : left.Below right) {schema other : Schema}
    (same : schema.Below other) (overlay : LogicalType) :
    schema.isOwnOverlay left overlay = other.isOwnOverlay right overlay := by
  cases same with
  | named kind handle =>
    cases kind with
    | fixed => rw [Schema.isOwnOverlay, Schema.isOwnOverlay, registries.fixed?_eq]
    | _ => rfl
  | _ => rfl

variable (define : Define) (around : Option String)

mutual

/-- Schemas are written without their marks. -/
theorem Schema.Below.project_eq (registries : left.Below right) {schema other : Schema} :
    schema.Below other →
      schema.project left define around = other.project right define around
  | .primitive _ | .named _ _ | .boxed => by simp only [Schema.project]
  | .array items => by simp only [Schema.project, items.project_eq registries]
  | .map values => by simp only [Schema.project, values.project_eq registries]
  | .union branches _ _ => by simp only [Schema.project, branches.projectEach_eq registries]
  | .logical underlying overlay => by
    simp only [Schema.project, underlying.project_eq registries,
      isOwnOverlay_eq registries underlying]

/-- Schemas in a row are written without their marks. -/
theorem EachBelow.projectEach_eq (registries : left.Below right) {schemas others : List Schema} :
    EachBelow schemas others →
      Schema.projectEach left define around schemas = Schema.projectEach right define around others
  | .nil => by simp only [Schema.projectEach]
  | .cons head tail => by
    simp only [Schema.projectEach, head.project_eq registries, tail.projectEach_eq registries]

end

/-- Fields are written without their marks. -/
theorem projectFields_eq (registries : left.Below right) {fields others : List Field}
    (same : List.Forall₂ Field.Below fields others) :
    projectFields left define around fields = projectFields right define around others := by
  refine mapM_eq_of_forall₂ (fun field other below => ?_) same
  rw [below.declared.project_eq define around registries, below.writes_eq]

/-- Messages are written without their marks. -/
theorem projectMessages_eq (registries : left.Below right) {messages others : List Message}
    (same : List.Forall₂ Message.Below messages others) :
    projectMessages left define around messages = projectMessages right define around others := by
  refine mapM_eq_of_forall₂ (fun message other below => ?_) same
  have name : message.name = other.name := by rw [below.rest]
  rw [projectFields_eq define around registries below.request,
    below.response.project_eq define around registries,
    (below.errors.drop 1).projectEach_eq define around registries, below.writes_eq, name]

/-- Entries are written without their marks, if what is inside them is. -/
theorem Entry.Below.project_eq (registries : left.Below right) {entry other : Entry}
    (same : entry.Below other) :
    entry.project left define around = other.project right define around := by
  cases same with
  | record body fields | error body fields =>
    simp only [Entry.project, projectFields_eq define _ registries fields]
    rfl
  | enum | fixed => rfl
  | protocol body types messages =>
    simp only [Entry.project, types.projectEach_eq define _ registries,
      projectMessages_eq define _ registries messages]
    rfl
  | abstractBase base derived => simp only [Entry.project, derived.projectEach_eq _ _ registries]

/-- Entries are written without their marks. -/
theorem Registry.Below.define_eq (registries : left.Below right) (depth : Nat) :
    left.define depth = right.define depth := by
  induction depth with
  | zero => rfl
  | succ depth ih =>
    funext handle around
    rw [Registry.define, Registry.define, ih]
    obtain ⟨none, other⟩ | ⟨entry, other, found, isOther, entries⟩ :=
      registries.paired.get?_cases handle
    · rw [none, other]
    · have isBase := Entry.indistinct_below.isAbstractBase_eq entry other entries
      have name := Entry.indistinct_below.name_eq entry other entries
      simp only [found, isOther, isBase, name, entries.project_eq _ _ registries]

/-- Schemas are written without their marks, with all that they refer to. -/
theorem Registry.Below.write_eq (registries : left.Below right) {schema other : Schema}
    (same : schema.Below other) : left.write schema around = right.write other around := by
  rw [Registry.write, Registry.write, Registry.depthLimit, Registry.depthLimit,
    registries.paired.size_eq, registries.define_eq, same.project_eq _ _ registries]

end

/-- Whether references are nullable decides about marks alone. Without nullable references a
document is refused as it is with them, or it is accepted as well: to what is the same but for
marks, has no mark that is not there with them, and is written the same way. -/
theorem Document.resolve_nullableReferences (options : Options) (root : Json) :
    Agree (fun plain marked => plain.unmarked = marked.unmarked ∧ plain.Below marked ∧
        plain.toJson = marked.toJson)
      (resolve { options with nullableReferences := false } root)
      (resolve { options with nullableReferences := true } root) := by
  have walks : Resolving.Agrees Schema.Below ((Node.ofJson root).resolve options.plain none)
      ((Node.ofJson root).resolve options.marking none) := (Node.ofJson root).agrees_marking
  have start : Registry.empty.Below Registry.empty := ⟨.nil, rfl, rfl⟩
  obtain ⟨agree, registries⟩ := walks _ _ start
  simp only [resolve, Resolver.parse, Resolver.resolve, Resolver.new]
  generalize ((Node.ofJson root).resolve options.plain none).outcome .empty = left
    at agree registries ⊢
  generalize ((Node.ofJson root).resolve options.marking none).outcome .empty = right
    at agree registries ⊢
  obtain ⟨leftResult, leftAfter⟩ := left
  obtain ⟨rightResult, rightAfter⟩ := right
  cases agree with
  | error violation => exact .error violation
  | @ok root other same =>
    have below : Document.Below ⟨root, leftAfter⟩ ⟨other, rightAfter⟩ := ⟨same, registries⟩
    refine .ok ⟨below.unmarked_eq, below, ?_⟩
    rw [toJson, toJson, registries.write_eq none same]

end AvroGraph
