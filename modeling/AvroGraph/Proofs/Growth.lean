import AvroGraph.Proofs.NodeLaw
import AvroGraph.Proofs.Registry
import AvroGraph.Proofs.Walk

/-!
# Growth of the registry

A walk, whether it succeeds or fails, only adds to its registry (`Node.keeps`). The one rule of
documents that this needs is that only an object that declares a fixed type lays a logical type
over an entry.
-/

namespace AvroGraph

open Resolving

/-- Whether a node declares a fixed type, if it declares anything. -/
def Node.DeclaresFixed : Node → Prop
  | .fixed _ _ _ | .malformed _ _ => True
  | _ => False

/-- The law that a fixed type is given its logical type by its own declaration. -/
def NodeLaw.ownOverlays : NodeLaw where
  node
    | .logical _ _ _ declaresFixed inner => declaresFixed = true → inner.DeclaresFixed
    | _ => True
  field _ := True
  message _ := True

/-- The rule on own logical types asks something of them alone. -/
theorem NodeLaw.asksLogical_ownOverlays : ownOverlays.AsksLogical where
  node node plain := by
    cases node with
    | logical => cases plain
    | _ => trivial
  field _ := trivial
  message _ := trivial

/-- An object of the type of fixed types declares one, if it declares anything. -/
theorem Node.ofTyped_declaresFixed {members : Members} (children : Children)
    (type : members.get? "type" = some (.string "fixed")) :
    (ofTyped members children).DeclaresFixed := by
  simp only [ofTyped, type, ofFixed, ofHeading]
  split <;> trivial

/-- Every object obeys the rule on own logical types. -/
theorem NodeLaw.governs_ownOverlays : ownOverlays.Governs fun _ => True :=
  asksLogical_ownOverlays.governs fun _ _ _ _ declares =>
    Node.ofTyped_declaresFixed _ (of_decide_eq_true declares)

namespace Json

mutual

/-- A condition that always holds holds of every object inside. -/
theorem everyObject_true : (json : Json) → json.EveryObject fun _ => True
  | .array items => everyObjectOfItems_true items
  | .object members => ⟨trivial, everyObjectOfMembers_true members⟩
  | .null | .bool _ | .number _ | .string _ => trivial

/-- A condition that always holds holds of every object inside items. -/
theorem everyObjectOfItems_true : (items : List Json) → EveryObjectOfItems (fun _ => True) items
  | [] => trivial
  | item :: rest => ⟨everyObject_true item, everyObjectOfItems_true rest⟩

/-- A condition that always holds holds of every object inside members. -/
theorem everyObjectOfMembers_true :
    (members : List (String × Json)) → EveryObjectOfMembers (fun _ => True) members
  | [] => trivial
  | (_, value) :: rest => ⟨everyObject_true value, everyObjectOfMembers_true rest⟩

end

end Json

/-- In a document, fixed types are given their logical types by their own declarations. -/
theorem Node.obeys_ownOverlays (json : Json) : (ofJson json).Obeys .ownOverlays :=
  obeys_ofJson NodeLaw.governs_ownOverlays json json.everyObject_true

namespace Registry.Keeps

variable {α β : Type} {size : Nat} {registry : Registry}

/-- A check keeps everything. -/
theorem check {node : Json} {result : Except Reason α} :
    registry.Keeps size ((Resolving.check node result).outcome registry).2 := by
  rw [outcome_check]
  exact .refl _ _

/-- A question keeps everything. -/
theorem ask {node : Json} {question : Registry → Except Reason α} :
    registry.Keeps size ((Resolving.ask node question).outcome registry).2 := by
  rw [outcome_ask]
  exact .refl _ _

/-- A change keeps what it keeps where it succeeds, and everything where it fails. -/
theorem change {node : Json} {step : Registry → Except Reason (α × Registry)}
    (keeps : ∀ value after, step registry = .ok (value, after) → registry.Keeps size after) :
    registry.Keeps size ((Resolving.change node step).outcome registry).2 := by
  rw [outcome_change]
  cases result : step registry with
  | ok pair => exact keeps pair.1 pair.2 result
  | error reason => exact .refl _ _

/-- A sequence keeps what its parts keep; the second part starts where the first one succeeds. -/
theorem bind {first : Resolving α} {next : α → Resolving β}
    (start : registry.Keeps size (first.outcome registry).2)
    (rest : ∀ value between, first.Yields registry value between →
      registry.Keeps size between → between.Keeps size ((next value).outcome between).2) :
    registry.Keeps size ((first >>= next).outcome registry).2 := by
  rw [outcome_bind]
  cases outcome : first.outcome registry with
  | mk result between =>
    rw [outcome] at start
    cases result with
    | ok value => exact start.trans (rest value between outcome start)
    | error violation => exact start

/-- A declaration is registered behind all that is there, so what goes on from it may change its
entry. -/
theorem declare {options : Options} {around : Option String} {heading : Heading} {source : Json}
    {entry : Declaration → Entry} {next : Declaration → Handle → Resolving α}
    (le : size ≤ registry.size)
    (rest : ∀ declaration handle registered, size ≤ handle → size ≤ registered.size →
      Registry.Keeps size registered ((next declaration handle).outcome registered).2) :
    registry.Keeps size ((do
      let declaration ← Resolving.check source (heading.resolve options around)
      let handle ← Resolving.change source (·.register (entry declaration))
      next declaration handle).outcome registry).2 := by
  refine .bind .check fun declaration _ checked _ => ?_
  obtain ⟨_, rfl⟩ := yields_check.1 checked
  refine .bind (.change fun _ _ register => (Registry.keeps_register register).weaken le)
    fun handle registered changed keeps => ?_
  have behind : handle = registry.size := Registry.handle_register (yields_change.1 changed)
  exact rest declaration handle registered (behind ▸ le) (Nat.le_trans le keeps.size_le)

end Registry.Keeps

namespace Registry

variable {size : Nat} {registry after : Registry} {declaresFixed : Bool}

/-- To keep a logical type keeps the entries below, if the fixed type that is given it is not among
them. -/
theorem keeps_keepOverlay {underlying : Schema} {overlay : LogicalType}
    (own : declaresFixed = true → ∀ handle, underlying = .named .fixed handle → size ≤ handle) :
    registry.Keeps size (registry.keepOverlay declaresFixed underlying overlay) := by
  unfold keepOverlay
  split
  · next handle =>
    split
    · next declares => exact keeps_update _ (own declares handle rfl)
    · exact .refl _ _
  · exact .refl _ _

/-- A logical type changes no entry but that of a fixed type declared in the same object. -/
theorem keeps_annotate {inner schema : Schema} {name : String}
    {overlay : Except Reason (Option LogicalType)}
    (own : declaresFixed = true → ∀ handle, inner.bare = .named .fixed handle → size ≤ handle)
    (annotated : registry.annotate declaresFixed inner name overlay = .ok (schema, after)) :
    registry.Keeps size after := by
  obtain ⟨_, _, rfl⟩ | ⟨known, _, _, _, rfl⟩ := annotate_eq_ok.1 annotated
  · exact .refl _ _
  · exact keeps_keepOverlay own

end Registry

variable {options : Options} {size : Nat} {registry : Registry}

/-- A fixed type that is declared comes after all entries there are. -/
theorem Node.DeclaresFixed.size_le {node : Node} {around : Option String} {schema : Schema}
    {after : Registry} {handle : Handle} (declares : node.DeclaresFixed)
    (succeeds : (node.resolve options around).Yields registry schema after)
    (equal : schema.bare = .named .fixed handle) : registry.size ≤ handle := by
  cases node with
  | fixed source heading fixedSize =>
    obtain ⟨_, _, registered, _, _, register, rfl⟩ := yields_fixed.1 succeeds
    cases equal
    exact Nat.le_of_eq (Registry.handle_register register).symm
  | malformed reason source => exact absurd succeeds yields_malformed
  | _ => exact declares.elim

mutual

/-- A walk keeps what is there before it, whether it succeeds or fails. -/
theorem Node.keeps {registry : Registry} {around : Option String} : (node : Node) →
    node.Obeys .ownOverlays → size ≤ registry.size →
      registry.Keeps size ((node.resolve options around).outcome registry).2
  | .malformed _ _, _, _ => .refl _ _
  | .reference _, _, _ => .ask
  | .nested _ inner, obeys, le => inner.keeps obeys.2 le
  | .union _ branches, obeys, le =>
    .bind (keeps_resolveEach branches obeys.2 le) fun _ _ _ _ => .refl _ _
  | .array _ items, obeys, le => .bind (items.keeps obeys.2 le) fun _ _ _ _ => .refl _ _
  | .map _ values, obeys, le => .bind (values.keeps obeys.2 le) fun _ _ _ _ => .refl _ _
  | .record _ _ _ fields, obeys, le => by
    refine .declare le fun declaration handle registered bound grown => ?_
    refine .bind (keeps_resolveFields fields obeys.2 grown) fun _ _ _ _ => ?_
    -- The record that is given its fields was registered by this node, behind all that is kept.
    exact .bind (Registry.keeps_update _ bound) fun _ _ _ _ => .refl _ _
  | .enum _ _ _ _, _, le =>
    .bind .check fun _ _ checked _ => .bind .check fun _ _ enumerated _ => by
      obtain ⟨_, rfl⟩ := yields_check.1 checked
      obtain ⟨_, rfl⟩ := yields_check.1 enumerated
      exact .bind (.change fun _ _ register => (Registry.keeps_register register).weaken le)
        fun _ _ _ _ => .refl _ _
  | .fixed _ _ _, _, le =>
    .bind .check fun _ _ checked _ => .bind .check fun _ _ sized _ => by
      obtain ⟨_, rfl⟩ := yields_check.1 checked
      obtain ⟨_, rfl⟩ := yields_check.1 sized
      exact .bind (.change fun _ _ register => (Registry.keeps_register register).weaken le)
        fun _ _ _ _ => .refl _ _
  | .protocol _ _ types messages, obeys, le => by
    refine .declare le fun declaration handle registered bound grown => ?_
    refine .bind (keeps_resolveEach types obeys.2.1 grown) fun _ _ _ typed => ?_
    refine .bind (keeps_resolveMessages messages obeys.2.2 (Nat.le_trans grown typed.size_le))
      fun _ _ _ _ => ?_
    exact .bind (Registry.keeps_update _ bound) fun _ _ _ _ => .refl _ _
  | .logical _ _ _ _ inner, obeys, le =>
    .bind (inner.keeps obeys.2 le) fun _ _ succeeds _ =>
      .change fun _ _ annotated => Registry.keeps_annotate
        (fun declares _ equal => Nat.le_trans le ((obeys.1 declares).size_le succeeds equal))
        annotated

/-- Nodes in a row keep the entries that were there before, however they end. -/
theorem keeps_resolveEach {registry : Registry} {around : Option String} {vet : Vet} :
    (nodes : List Node) → NodesObey .ownOverlays nodes → size ≤ registry.size →
      registry.Keeps size ((resolveEach options around vet nodes).outcome registry).2
  | [], _, _ => .refl _ _
  | node :: rest, obeys, le =>
    .bind (node.keeps obeys.1 le) fun _ _ _ keeps => .bind .ask fun _ _ asked _ => by
      obtain ⟨_, rfl⟩ := yields_ask.1 asked
      exact .bind (keeps_resolveEach rest obeys.2 (Nat.le_trans le keeps.size_le))
        fun _ _ _ _ => .refl _ _

/-- A field keeps the entries that were there before, however it ends. -/
theorem FieldNode.keeps {registry : Registry} {owner : Name} : (node : FieldNode) →
    node.Obeys .ownOverlays → size ≤ registry.size →
      registry.Keeps size ((node.resolve options owner).outcome registry).2
  | .malformed _ _, _, _ => .refl _ _
  | .field _ _ type _ _ _, obeys, le =>
    .bind .check fun _ _ checked _ => by
      obtain ⟨_, rfl⟩ := yields_check.1 checked
      refine .bind (type.keeps obeys.2 le) fun _ _ _ keeps => ?_
      refine .bind (.change fun _ _ slotted =>
        (Registry.grows_slot slotted).weaken (Nat.le_trans le keeps.size_le)) fun _ _ _ _ => ?_
      exact .bind .ask fun _ _ _ _ => .bind .check fun _ _ _ _ => .refl _ _

/-- Fields in a row keep the entries that were there before, however they end. -/
theorem keeps_resolveFields {registry : Registry} {owner : Name} {done : List Field} :
    (nodes : List FieldNode) → FieldsObey .ownOverlays nodes → size ≤ registry.size →
      registry.Keeps size ((resolveFields options owner done nodes).outcome registry).2
  | [], _, _ => .refl _ _
  | node :: rest, obeys, le =>
    .bind (node.keeps obeys.1 le) fun _ _ _ keeps => .bind .check fun _ _ checked _ => by
      obtain ⟨_, rfl⟩ := yields_check.1 checked
      exact keeps_resolveFields rest obeys.2 (Nat.le_trans le keeps.size_le)

/-- A message keeps the entries that were there before, however it ends. -/
theorem MessageNode.keeps {registry : Registry} {around : Option String} :
    (node : MessageNode) → node.Obeys .ownOverlays → size ≤ registry.size →
      registry.Keeps size ((node.resolve options around).outcome registry).2
  | .malformed _ _, _, _ => .refl _ _
  | .message _ _ request response _ errors _ _, obeys, le =>
    .bind .check fun _ _ checked _ => by
      obtain ⟨_, rfl⟩ := yields_check.1 checked
      refine .bind (keeps_resolveFields request obeys.2.1 le) fun _ _ _ asked => ?_
      have asking := Nat.le_trans le asked.size_le
      refine .bind (response.keeps obeys.2.2.1 asking) fun _ _ _ answered => ?_
      have answering := Nat.le_trans asking answered.size_le
      refine .bind (.change fun _ _ slotted => (Registry.grows_slot slotted).weaken answering)
        fun _ _ _ slotted => ?_
      refine .bind (keeps_resolveEach errors obeys.2.2.2
        (Nat.le_trans answering slotted.size_le)) fun _ _ _ _ => ?_
      exact .bind .check fun _ _ _ _ => .bind .check fun _ _ _ _ =>
        .bind .check fun _ _ _ _ => .refl _ _

/-- Messages in a row keep the entries that were there before, however they end. -/
theorem keeps_resolveMessages {registry : Registry} {around : Option String} :
    (nodes : List MessageNode) → MessagesObey .ownOverlays nodes → size ≤ registry.size →
      registry.Keeps size ((resolveMessages options around nodes).outcome registry).2
  | [], _, _ => .refl _ _
  | node :: rest, obeys, le =>
    .bind (node.keeps obeys.1 le) fun _ _ _ keeps =>
      .bind (keeps_resolveMessages rest obeys.2 (Nat.le_trans le keeps.size_le))
        fun _ _ _ _ => .refl _ _

end

/-! ## Walks that succeed -/

variable {registry after : Registry} {around : Option String} {owner : Name}

/-- A walk that keeps all entries before it makes the registry grow. -/
theorem Resolving.Yields.grows {α : Type} {walk : Resolving α} {value : α}
    (succeeds : walk.Yields registry value after)
    (keeps : registry.Keeps registry.size (walk.outcome registry).2) : registry.Grows after := by
  rwa [succeeds.outcome] at keeps

/-- The registry grows where a node succeeds. -/
theorem Node.grows {node : Node} {schema : Schema} (obeys : node.Obeys .ownOverlays)
    (succeeds : (node.resolve options around).Yields registry schema after) :
    registry.Grows after :=
  succeeds.grows (node.keeps obeys (Nat.le_refl _))

/-- The registry grows where nodes in a row succeed. -/
theorem grows_resolveEach {vet : Vet} {nodes : List Node} {schemas : List Schema}
    (obeys : NodesObey .ownOverlays nodes)
    (succeeds : (resolveEach options around vet nodes).Yields registry schemas after) :
    registry.Grows after :=
  succeeds.grows (keeps_resolveEach nodes obeys (Nat.le_refl _))

/-- The registry grows where a field succeeds. -/
theorem FieldNode.grows {node : FieldNode} {field : Field} (obeys : node.Obeys .ownOverlays)
    (succeeds : (node.resolve options owner).Yields registry field after) :
    registry.Grows after :=
  succeeds.grows (node.keeps obeys (Nat.le_refl _))

/-- The registry grows where fields in a row succeed. -/
theorem grows_resolveFields {nodes : List FieldNode} {done fields : List Field}
    (obeys : FieldsObey .ownOverlays nodes)
    (succeeds : (resolveFields options owner done nodes).Yields registry fields after) :
    registry.Grows after :=
  succeeds.grows (keeps_resolveFields nodes obeys (Nat.le_refl _))

/-- The registry grows where a message succeeds. -/
theorem MessageNode.grows {node : MessageNode} {message : Message}
    (obeys : node.Obeys .ownOverlays)
    (succeeds : (node.resolve options around).Yields registry message after) :
    registry.Grows after :=
  succeeds.grows (node.keeps obeys (Nat.le_refl _))

/-- The registry grows where messages in a row succeed. -/
theorem grows_resolveMessages {nodes : List MessageNode} {messages : List Message}
    (obeys : MessagesObey .ownOverlays nodes)
    (succeeds : (resolveMessages options around nodes).Yields registry messages after) :
    registry.Grows after :=
  succeeds.grows (keeps_resolveMessages nodes obeys (Nat.le_refl _))

/-- What stands where a record was registered is a record. -/
theorem Registry.Grows.record {declaration : Declaration} {isError : Bool} {handle : Handle}
    {before : Registry}
    (register : before.register (declaration.recordEntry isError) = .ok (handle, registry))
    (grows : registry.Grows after) :
    ∃ body : Record, after.get? handle = some (if isError then .error body else .record body) := by
  have here : registry.get? handle = some (declaration.recordEntry isError) :=
    Registry.get?_registered register
  obtain ⟨entry, found, growth⟩ := grows.entry handle _ (Registry.lt_size_of_get? here) here
  cases isError with
  | true =>
    exact ⟨_, found.trans (congrArg some
      (growth.eq_of_kind (by simp [Declaration.recordEntry, Entry.kind])))⟩
  | false =>
    obtain ⟨bases, rfl, -⟩ := growth.record
    exact ⟨_, found⟩

/-- A protocol is what it was registered as until it is given its parts. -/
theorem Registry.Grows.protocol {body : Protocol} {handle : Handle} {before : Registry}
    (register : before.register (.protocol body) = .ok (handle, registry))
    (grows : registry.Grows after) : after.get? handle = some (.protocol body) := by
  have here : registry.get? handle = some (.protocol body) :=
    Registry.get?_registered register
  obtain ⟨entry, found, growth⟩ := grows.entry handle _ (Registry.lt_size_of_get? here) here
  exact found.trans (congrArg some (growth.eq_of_kind (by simp [Entry.kind])))

end AvroGraph
