import AvroGraph.Document
import AvroGraph.Proofs.Members
import AvroGraph.Proofs.NodeLaw
import AvroGraph.Proofs.Walk

/-!
# Where violations point

A walk that fails blames a node, and that node is the document or a value inside it
(`Resolver.blames_part`). Every part of a classified document keeps the JSON it was classified
from, which is the law `NodeLaw.within`; the walk then passes on what it finds there, so that one
rule for each of its operations is enough.
-/

namespace AvroGraph

/-! ## Values inside a value -/

/-- A value stands somewhere inside a value, or is that value. -/
inductive Json.Contains (whole : Json) : Json → Prop where
  | self : Contains whole whole
  | item {items : List Json} {item : Json} (inside : Contains whole (.array items))
      (member : item ∈ items) : Contains whole item
  | member {members : Members} {key : String} {value : Json}
      (inside : Contains whole (.object members)) (member : (key, value) ∈ members) :
      Contains whole value

variable {whole : Json}

/-! ## The JSON that a classified document keeps -/

/-- A value inside the document is the JSON of a type, unless there is no such type. -/
def Node.IsFrom (whole : Json) (type : Node) (source : Json) : Prop :=
  (∃ reason blamed, type = .malformed reason blamed) ∨ whole.Contains source

/-- The law that every part of a document keeps JSON of that document. Where a type is missing, the
JSON of that type stands for nothing. -/
def NodeLaw.within (whole : Json) : NodeLaw where
  node node := whole.Contains node.source
  field
    | .malformed _ source => whole.Contains source
    | .field source _ type typeSource _ _ =>
      whole.Contains source ∧ type.IsFrom whole typeSource
  message
    | .malformed _ source => whole.Contains source
    | .message source _ _ response responseSource _ _ _ =>
      whole.Contains source ∧ response.IsFrom whole responseSource

namespace Node

variable (members : Members) (children : Children)

/-- A node with a heading stands for its object, whether the heading can be read or not. -/
theorem source_ofHeading {source : Json} {heading : Except Reason Heading}
    {make : Heading → Node} (keeps : ∀ heading, (make heading).source = source) :
    (ofHeading source heading make).source = source := by
  cases heading with
  | ok heading => exact keeps heading
  | error reason => rfl

/-- The node of an object by its type stands for the object. -/
theorem source_ofTyped : (ofTyped members children).source = .object members := by
  rw [ofTyped]
  split
  case h_2 | h_3 | h_4 | h_5 => exact source_ofHeading fun _ => rfl
  all_goals rfl

/-- The node of an object stands for the object. -/
theorem source_ofMembers : (ofMembers members children).source = .object members := by
  rw [ofMembers]
  split
  · exact source_ofHeading fun _ => rfl
  · split
    · exact source_ofTyped members children
    · rfl
    · rfl

end Node

/-- The child at a key comes from the value at that key. -/
theorem Node.isFrom_nodeAt {members : Members} (key : String) (reason : Reason) (source : Json)
    (inside : whole.Contains (.object members)) :
    ((nodeAt key members).getD (.malformed reason source)).IsFrom whole
      ((members.get? key).getD .null) := by
  rw [nodeAt_eq]
  cases found : members.get? key with
  | none => exact .inl ⟨reason, source, rfl⟩
  | some value => exact .inr (inside.member (Members.mem_of_get? found))

/-- What is inside a part of a document is inside the document. -/
theorem NodeLaw.within_covers (whole : Json) : (within whole).Covers whole.Contains where
  item inside member := inside.item member
  member inside member := inside.member member
  malformed _ _ inside := inside
  reference inside := inside
  union inside := inside
  object {members} inside := by
    simp only [within, Node.source_ofMembers, Node.source_ofTyped]
    exact ⟨inside, inside⟩
  malformedField _ _ inside := inside
  field {members} inside := by
    simp only [within, FieldNode.ofMembers]
    cases (Members.get? members "name").bind Json.string? with
    | none => exact inside
    | some name => exact ⟨inside, Node.isFrom_nodeAt "type" _ _ inside⟩
  malformedMessage _ _ inside := inside
  messageOther _ _ inside := ⟨inside, .inr inside⟩
  message _ _ inside := ⟨inside, Node.isFrom_nodeAt "response" _ _ inside⟩

/-- A node that obeys the rule stands for a part of the document. -/
theorem Node.Obeys.within {node : Node} (obeys : node.Obeys (.within whole)) :
    whole.Contains node.source := by
  cases node with
  | malformed | reference | enum | fixed => exact obeys
  | _ => exact obeys.1

/-- A field that obeys the rule stands for a part of the document. -/
theorem FieldNode.Obeys.within {node : FieldNode} (obeys : node.Obeys (.within whole)) :
    whole.Contains node.source := by
  cases node with
  | malformed => exact obeys
  | field => exact obeys.1.1

/-! ## Walks that fail inside a document -/

namespace Resolving

variable {α β : Type}

/-- Whenever a walk fails, it blames a value inside the document. -/
def FailsInside (whole : Json) (walk : Resolving α) : Prop :=
  ∀ registry violation, (walk.outcome registry).1 = .error violation →
    whole.Contains violation.node

namespace FailsInside

/-- A result by itself does not fail. -/
theorem pure (value : α) : FailsInside whole (pure value) :=
  fun _ _ => nofun

/-- A change does not fail either. -/
theorem modify (change : Registry → Registry) : FailsInside whole (modify change) :=
  fun _ _ => nofun

/-- A violation that blames a part of the document. -/
theorem throw (reason : Reason) {node : Json} (inside : whole.Contains node) :
    FailsInside whole (throw ⟨reason, node⟩ : Resolving α) := by
  rintro _ _ ⟨⟩
  exact inside

/-- A question that is asked about a part of the document. -/
theorem ask {node : Json} (inside : whole.Contains node) (question : Registry → Except Reason α) :
    FailsInside whole (ask node question) := by
  intro registry violation fails
  rw [outcome_ask] at fails
  cases result : question registry with
  | ok value => simp [result, Except.mapError] at fails
  | error reason =>
    rw [result] at fails
    cases fails
    exact inside

/-- A check of a part of the document. -/
theorem check {node : Json} (inside : whole.Contains node) (result : Except Reason α) :
    FailsInside whole (check node result) := by
  cases result with
  | ok value => exact .pure value
  | error reason => exact .throw reason inside

/-- A change that is asked for by a part of the document. -/
theorem change {node : Json} (inside : whole.Contains node)
    (step : Registry → Except Reason (α × Registry)) : FailsInside whole (change node step) := by
  intro registry violation fails
  rw [outcome_change] at fails
  cases result : step registry with
  | ok value => simp [result] at fails
  | error reason =>
    rw [result] at fails
    cases fails
    exact inside

/-- A sequence fails in one of its parts, in the second one only after the first one succeeds. -/
theorem bind {first : Resolving α} {next : α → Resolving β} (begins : first.FailsInside whole)
    (goes : ∀ value registry after, first.Yields registry value after →
      (next value).FailsInside whole) : (first >>= next).FailsInside whole := by
  intro registry violation fails
  rw [outcome_bind] at fails
  cases outcome : first.outcome registry with
  | mk result after =>
    rw [outcome] at fails
    cases result with
    | ok value => exact goes value registry after outcome after violation fails
    | error blamed =>
      cases fails
      exact begins registry violation (by rw [outcome])

/-- After the walk over a type the JSON of that type may be blamed: had there been no type, the walk
would have failed. -/
theorem type {type : Node} {source : Json} {options : Options} {around : Option String}
    {next : Schema → Resolving β} (isFrom : type.IsFrom whole source)
    (begins : (type.resolve options around).FailsInside whole)
    (goes : whole.Contains source → ∀ schema, (next schema).FailsInside whole) :
    (type.resolve options around >>= next).FailsInside whole :=
  .bind begins fun schema _ _ succeeds => by
    rcases isFrom with ⟨_, _, rfl⟩ | inside
    · exact absurd succeeds Node.yields_malformed
    · exact goes inside schema

end FailsInside

end Resolving

open Resolving

variable {options : Options}

mutual

/-- The walk over a document that keeps JSON of a value fails inside that value. -/
theorem Node.failsInside {around : Option String} : (node : Node) →
    node.Obeys (.within whole) → (node.resolve options around).FailsInside whole
  | .malformed reason _, obeys => .throw reason obeys
  | .reference _, obeys => .ask obeys _
  | .nested _ inner, obeys => inner.failsInside obeys.2
  | .union _ branches, obeys =>
    .bind (failsInside_resolveEach branches obeys.2) fun _ _ _ _ => .pure _
  | .array _ items, obeys => .bind (items.failsInside obeys.2) fun _ _ _ _ => .pure _
  | .map _ values, obeys => .bind (values.failsInside obeys.2) fun _ _ _ _ => .pure _
  | .record _ _ _ fields, obeys =>
    .bind (.check obeys.1 _) fun _ _ _ _ => .bind (.change obeys.1 _) fun _ _ _ _ =>
      .bind (failsInside_resolveFields fields obeys.2) fun _ _ _ _ =>
        .bind (.modify _) fun _ _ _ _ => .pure _
  | .enum _ _ _ _, obeys =>
    .bind (.check obeys _) fun _ _ _ _ => .bind (.check obeys _) fun _ _ _ _ =>
      .bind (.change obeys _) fun _ _ _ _ => .pure _
  | .fixed _ _ _, obeys =>
    .bind (.check obeys _) fun _ _ _ _ => .bind (.check obeys _) fun _ _ _ _ =>
      .bind (.change obeys _) fun _ _ _ _ => .pure _
  | .protocol _ _ types messages, obeys =>
    .bind (.check obeys.1 _) fun _ _ _ _ => .bind (.change obeys.1 _) fun _ _ _ _ =>
      .bind (failsInside_resolveEach types obeys.2.1) fun _ _ _ _ =>
        .bind (failsInside_resolveMessages messages obeys.2.2) fun _ _ _ _ =>
          .bind (.modify _) fun _ _ _ _ => .pure _
  | .logical _ _ _ _ inner, obeys =>
    .bind (inner.failsInside obeys.2) fun _ _ _ _ => .change obeys.1 _

/-- Nodes in a row blame parts of the document. -/
theorem failsInside_resolveEach {around : Option String} {vet : Vet} : (nodes : List Node) →
    NodesObey (.within whole) nodes → (resolveEach options around vet nodes).FailsInside whole
  | [], _ => .pure _
  | node :: rest, obeys =>
    .bind (node.failsInside obeys.1) fun _ _ _ _ =>
      .bind (.ask obeys.1.within _) fun _ _ _ _ =>
        .bind (failsInside_resolveEach rest obeys.2) fun _ _ _ _ => .pure _

/-- A field blames a part of the document. -/
theorem FieldNode.failsInside {owner : Name} : (node : FieldNode) →
    node.Obeys (.within whole) → (node.resolve options owner).FailsInside whole
  | .malformed reason _, obeys => .throw reason obeys
  | .field _ _ type _ _ _, ⟨⟨inside, isFrom⟩, obeys⟩ =>
    -- The slot blames the JSON of the type, all else the JSON of the field.
    .bind (.check inside _) fun _ _ _ _ =>
      .type isFrom (type.failsInside obeys) fun typed _ =>
        .bind (.change typed _) fun _ _ _ _ => .bind (.ask inside _) fun _ _ _ _ =>
          .bind (.check inside _) fun _ _ _ _ => .pure _

/-- Fields in a row blame parts of the document. -/
theorem failsInside_resolveFields {owner : Name} {done : List Field} :
    (nodes : List FieldNode) → FieldsObey (.within whole) nodes →
      (resolveFields options owner done nodes).FailsInside whole
  | [], _ => .pure _
  | node :: rest, obeys =>
    .bind (node.failsInside obeys.1) fun _ _ _ _ =>
      .bind (.check obeys.1.within _) fun _ _ _ _ => failsInside_resolveFields rest obeys.2

/-- A message blames a part of the document. -/
theorem MessageNode.failsInside {around : Option String} : (node : MessageNode) →
    node.Obeys (.within whole) → (node.resolve options around).FailsInside whole
  | .malformed reason _, obeys => .throw reason obeys
  | .message _ _ request response _ errors _ _, ⟨⟨inside, isFrom⟩, asks, answers, errs⟩ =>
    .bind (.check inside _) fun _ _ _ _ =>
      .bind (failsInside_resolveFields request asks) fun _ _ _ _ =>
        .type isFrom (response.failsInside answers) fun typed _ =>
          .bind (.change typed _) fun _ _ _ _ =>
            .bind (failsInside_resolveEach errors errs) fun _ _ _ _ =>
              .bind (.check inside _) fun _ _ _ _ => .bind (.check inside _) fun _ _ _ _ =>
                .bind (.check inside _) fun _ _ _ _ => .pure _

/-- Messages in a row blame parts of the document. -/
theorem failsInside_resolveMessages {around : Option String} : (nodes : List MessageNode) →
    MessagesObey (.within whole) nodes →
      (resolveMessages options around nodes).FailsInside whole
  | [], _ => .pure _
  | node :: rest, obeys =>
    .bind (node.failsInside obeys.1) fun _ _ _ _ =>
      .bind (failsInside_resolveMessages rest obeys.2) fun _ _ _ _ => .pure _

end

/-- A resolver that refuses a node names the node or a value inside it, and shows the text of that
value. It may have registered anything before. -/
theorem Resolver.blames_part {resolver : Resolver} {node : Json} {around : Option String}
    {violation : Violation} (refused : (resolver.resolve node around).1 = .error violation) :
    ∃ part, node.Contains part ∧ (Refusal.invalid violation).node? = some part ∧
      (Refusal.invalid violation).message =
        "Invalid schema: " ++ violation.reason.message ++ " (at " ++ part.text ++ ")" := by
  have obeys : (Node.ofJson node).Obeys (.within node) :=
    (NodeLaw.within_covers node).obeys node .self
  have inside : node.Contains violation.node :=
    (Node.ofJson node).failsInside obeys resolver.registry violation refused
  exact ⟨violation.node, inside, rfl, rfl⟩

/-- Branches of a field `toy` of a record `Pet`. One of them has the name of the base that this
field is to have. -/
def Resolver.toys : Json :=
  let record (name : String) : Json :=
    .object [("type", .string "record"), ("name", .string name), ("fields", .array [])]
  .array [record "PetToyBase", record "Ball"]

/-- The record `Pet`. -/
def Resolver.pet : Json :=
  let toy := Json.object [("name", .string "toy"), ("type", toys)]
  .object [("type", .string "record"), ("name", .string "Pet"), ("fields", .array [toy])]

/-- The base of the field cannot be registered, which is blamed on the type of the field. -/
theorem Resolver.blames_part_toys :
    ((new {}).resolve pet none).1 = .error ⟨.redeclaration ⟨"PetToyBase", none⟩, toys⟩ ∧
      ∃ part, pet.Contains part ∧
        (Refusal.invalid ⟨.redeclaration ⟨"PetToyBase", none⟩, toys⟩).node? = some part ∧
        (Refusal.invalid ⟨.redeclaration ⟨"PetToyBase", none⟩, toys⟩).message =
          "Invalid schema: redeclaration of schema 'PetToyBase' (at " ++ part.text ++ ")" := by
  have refused : ((new {}).resolve pet none).1 =
      .error ⟨.redeclaration ⟨"PetToyBase", none⟩, toys⟩ := by decide +kernel
  exact ⟨refused, blames_part refused⟩

end AvroGraph
