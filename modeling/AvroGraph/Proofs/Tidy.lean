import AvroGraph.Proofs.NodeLaw
import AvroGraph.Proofs.Rewritten
import AvroGraph.Proofs.Walk

/-!
# Tidy documents

Where the keys of objects are distinct and a logical type agrees with the fixed type that is
declared beneath it, the nodes of a document are tidy (`Node.obeys_tidy_of_orderly`): what a
declaration says besides its own members are extension properties, messages have distinct names, and
a logical type stands over a type or over what is declared in the same object. So they are where no
logical type is laid over an object (`Node.obeys_tidy`).
-/

namespace AvroGraph

namespace Json

variable {condition stronger : Members → Prop}

/-- A condition on every object holds of the value at a key. -/
theorem EveryObjectOfMembers.get? {members : Members} {key : String} {value : Json}
    (every : EveryObjectOfMembers condition members) (found : members.get? key = some value) :
    value.EveryObject condition :=
  every.member (Members.mem_of_get? found)

mutual

/-- A condition on every object can be used on the objects inside, too. -/
theorem EveryObject.mono (implies : ∀ members, condition members →
    EveryObjectOfMembers condition members → stronger members) :
    (json : Json) → json.EveryObject condition → json.EveryObject stronger
  | .array items, every => EveryObjectOfItems.mono implies items every
  | .object members, every =>
    ⟨implies members every.1 every.2, EveryObjectOfMembers.mono implies members every.2⟩
  | .null, _ | .bool _, _ | .number _, _ | .string _, _ => trivial

/-- A condition on every object inside items is weakened inside each of them. -/
theorem EveryObjectOfItems.mono (implies : ∀ members, condition members →
    EveryObjectOfMembers condition members → stronger members) :
    (items : List Json) → EveryObjectOfItems condition items → EveryObjectOfItems stronger items
  | [], _ => trivial
  | item :: rest, every =>
    ⟨EveryObject.mono implies item every.1, EveryObjectOfItems.mono implies rest every.2⟩

/-- A condition on every object inside members is weakened inside each of them. -/
theorem EveryObjectOfMembers.mono (implies : ∀ members, condition members →
    EveryObjectOfMembers condition members → stronger members) :
    (members : List (String × Json)) →
      EveryObjectOfMembers condition members → EveryObjectOfMembers stronger members
  | [], _ => trivial
  | (_, value) :: rest, every =>
    ⟨EveryObject.mono implies value every.1, EveryObjectOfMembers.mono implies rest every.2⟩

end

end Json

/-- The extension properties of a declaration are tidy. -/
def Heading.Tidy (reserved : List String) (heading : Heading) : Prop :=
  ∀ details, heading.details = .ok details → details.properties.Tidy reserved

/-- A node that a logical type is laid over: a type, or what is declared in the same object. A fixed
type has the parameters of its logical type among its properties. -/
def Node.Overlaid (name : String) (overlay : Except Reason (Option LogicalType))
    (declaresFixed : Bool) : Node → Prop
  | .nested _ _ => declaresFixed = false
  | .fixed _ heading _ => declaresFixed = true ∧
      ∀ details, heading.details = .ok details → overlay = LogicalType.read name details.properties
  | .malformed _ _ | .record _ _ _ _ | .enum _ _ _ _ | .array _ _ | .map _ _ => True
  | .reference _ | .union _ _ | .protocol _ _ _ _ | .logical _ _ _ _ _ => False

/-- The logical type that a fixed type is declared with, where a node declares one for a type. -/
def Node.declaredOverlay? : Node → Option (Option LogicalType)
  | .fixed _ _ _ => some none
  | .nested _ inner => inner.declaredOverlay?
  | .logical _ _ overlay declaresFixed inner =>
    inner.declaredOverlay?.map fun own => if declaresFixed then overlay.toOption.join else own
  | _ => none

/-- A fixed type by itself is declared without a logical type. -/
theorem Node.declaredOverlay?_fixed (source : Json) (heading : Heading) (size : Option Nat) :
    (Node.fixed source heading size).declaredOverlay? = some none := rfl

/-- A logical type of its own object is what a fixed type is declared with; one laid over it is not.
-/
theorem Node.declaredOverlay?_logical (source : Json) (name : String)
    (overlay : Except Reason (Option LogicalType)) (declaresFixed : Bool) (inner : Node) :
    (Node.logical source name overlay declaresFixed inner).declaredOverlay? =
      inner.declaredOverlay?.map fun own =>
        if declaresFixed then overlay.toOption.join else own := rfl

/-- A logical type that is known and stands over the declaration of a fixed type is the one that the
fixed type is declared with. -/
def Node.agrees : Node → Bool
  | .logical _ _ (.ok (some overlay)) false inner => inner.declaredOverlay?.all (· = some overlay)
  | _ => true

/-- Members of an object without a logical type that is laid over another object. -/
structure Members.Flat (members : Members) : Prop where
  /-- The keys are distinct, as they are in every value that is read from text. -/
  distinct : (members.map Prod.fst).Nodup
  overlay : members.has "logicalType" = true → (members.get? "type").bind Json.object? = none

/-- Members of an object whose logical type agrees with the fixed type that is declared beneath
it. -/
structure Members.Orderly (members : Members) : Prop where
  /-- The keys are distinct, as they are in every value that is read from text. -/
  distinct : (members.map Prod.fst).Nodup
  agrees : (Node.ofJson (.object members)).agrees = true

instance (members : Members) : Decidable members.Flat :=
  decidable_of_iff ((members.map Prod.fst).Nodup ∧
      (members.has "logicalType" = true → (members.get? "type").bind Json.object? = none))
    ⟨fun ⟨distinct, overlay⟩ => ⟨distinct, overlay⟩, fun flat => ⟨flat.distinct, flat.overlay⟩⟩

instance (members : Members) : Decidable members.Orderly :=
  decidable_of_iff ((members.map Prod.fst).Nodup ∧
      (Node.ofJson (.object members)).agrees = true)
    ⟨fun ⟨distinct, agrees⟩ => ⟨distinct, agrees⟩,
      fun orderly => ⟨orderly.distinct, orderly.agrees⟩⟩

/-- The law of tidy nodes. -/
def NodeLaw.tidy : NodeLaw where
  node
    | .record _ _ heading _ | .enum _ heading _ _ | .fixed _ heading _ =>
      heading.Tidy Members.reserved
    | .protocol _ heading _ messages =>
      heading.Tidy Members.reservedOfProtocols ∧ (messages.map MessageNode.name).Nodup
    | .logical source name overlay declaresFixed inner =>
      (∃ members, overlay = LogicalType.read name members) ∧
        inner.Overlaid name overlay declaresFixed ∧
        (Node.logical source name overlay declaresFixed inner).agrees = true
    | _ => True
  field
    | .field _ _ _ _ _ details =>
      ∀ said, details = .ok said → said.properties.Tidy Members.reserved
    | _ => True
  message
    | .message _ _ _ _ _ _ _ details =>
      ∀ said, details = .ok said → said.properties.Tidy Members.reservedOfMessages
    | _ => True

section

variable {members : Members}

/-- The properties of a declaration are its members at keys that are not reserved. -/
theorem Details.properties_ofMembers {details : Details}
    (read : Details.ofMembers members = .ok details) :
    details.properties = members.without Members.reserved := by
  obtain ⟨doc, -, read⟩ := bind_eq_ok.1 read
  obtain ⟨aliases, -, read⟩ := bind_eq_ok.1 read
  cases read
  rfl

/-- The properties of a declaration that needs a list besides are its members at keys that are not
reserved. -/
theorem Details.properties_beside {list : Option (List Json)} {missing : Reason} {details : Details}
    (read : (do
      let details ← Details.ofMembers members
      match list with
      | some _ => return details
      | none => .error missing) = .ok details) :
    details.properties = members.without Members.reserved := by
  obtain ⟨said, isSaid, read⟩ := bind_eq_ok.1 read
  cases list with
  | none => cases read
  | some values =>
    cases read
    exact Details.properties_ofMembers isSaid

/-- The properties of a declaration without aliases are its members at keys that are not reserved
there. -/
theorem Details.properties_withoutAliases {reserved : List String} {details : Details}
    (read : Details.withoutAliases reserved members = .ok details) :
    details.properties = members.without reserved := by
  obtain ⟨doc, -, read⟩ := bind_eq_ok.1 read
  cases read
  rfl

/-- The properties of a field are its members at keys that are not reserved. -/
theorem FieldDetails.properties_ofMembers {details : FieldDetails}
    (read : FieldDetails.ofMembers members = .ok details) :
    details.properties = members.without Members.reserved := by
  have finish (order : Option FieldOrder) (read : (members.optionalString "doc" >>= fun doc =>
      members.stringList "aliases" >>= fun aliases =>
        Except.ok (FieldDetails.mk order doc aliases (members.without Members.reserved))) =
          .ok details) : details.properties = members.without Members.reserved := by
    obtain ⟨doc, -, read⟩ := bind_eq_ok.1 read
    obtain ⟨aliases, -, read⟩ := bind_eq_ok.1 read
    cases read
    rfl
  rw [ofMembers] at read
  split at read
  · exact finish _ read
  · split at read
    · exact finish _ read
    · cases read

/-- A heading has the details it is given. -/
theorem Heading.details_ofMembers {key : String} {missing : Reason}
    {details : Except Reason Details} {heading : Heading}
    (read : Heading.ofMembers members key missing details = .ok heading) :
    heading.details = details := by
  rw [Heading.ofMembers] at read
  split at read
  · obtain ⟨space, -, read⟩ := bind_eq_ok.1 read
    cases read
    rfl
  · cases read

/-- What holds of every heading that is read holds of the node that is made of it, if it holds of
malformed nodes. -/
theorem Node.of_ofHeading {holds : Node → Prop} {source : Json} {heading : Except Reason Heading}
    {make : Heading → Node} (malformed : ∀ reason, holds (.malformed reason source))
    (made : ∀ read, heading = .ok read → holds (make read)) :
    holds (ofHeading source heading make) := by
  cases heading with
  | ok read => exact made read rfl
  | error reason => exact malformed reason

end

section

variable {members : Members}

section

variable (distinct : (members.map Prod.fst).Nodup)
include distinct

/-- The node of an object by its type is tidy. -/
theorem Node.tidy_ofTyped : NodeLaw.tidy.node (ofTyped members (.ofMembers members)) := by
  have declared {key : String} {missing : Reason} {said : Except Reason Details} {heading : Heading}
      (properties : ∀ details, said = .ok details →
        details.properties = members.without Members.reserved)
      (read : Heading.ofMembers members key missing said = .ok heading) :
      heading.Tidy Members.reserved := by
    intro details isDetails
    rw [Heading.details_ofMembers read] at isDetails
    rw [properties details isDetails]
    exact Members.tidy_without _ distinct
  have isRecord (isError : Bool) :
      NodeLaw.tidy.node (ofRecord members (.ofMembers members) isError) :=
    of_ofHeading (fun _ => trivial) fun heading read =>
      declared (fun _ => Details.properties_beside) read
  rw [ofTyped]
  split
  · trivial
  · exact isRecord false
  · exact isRecord true
  · exact of_ofHeading (fun _ => trivial) fun heading read =>
      declared (fun _ => Details.properties_beside) read
  · exact of_ofHeading (fun _ => trivial) fun heading read =>
      declared (fun _ => Details.properties_ofMembers) read
  all_goals trivial

end

/-- The node beneath a logical type is overlaid with what the object says. -/
theorem Node.overlaid_ofTyped (members : Members) (name : String) :
    (ofTyped members (.ofMembers members)).Overlaid name (LogicalType.read name members)
      (decide (members.get? "type" = some (.string "fixed"))) := by
  rw [ofTyped]
  split
  case h_5 isFixed =>
    refine of_ofHeading (fun _ => trivial) fun heading read => ⟨by simp [isFixed], ?_⟩
    intro details isDetails
    rw [Heading.details_ofMembers read] at isDetails
    rw [Details.properties_ofMembers isDetails]
    refine LogicalType.read_congr ?_ ?_ <;> rw [Members.get?_without, if_neg (by decide)]
  case h_8 text _ _ _ notFixed _ _ isText =>
    simpa [Overlaid, isText] using notFixed
  case h_9 inner isObject => simp [Overlaid, isObject]
  case h_10 items isArray => simp [Overlaid, isArray]
  case h_2 | h_3 | h_4 => exact of_ofHeading (fun _ => trivial) fun _ _ => trivial
  all_goals trivial

end

/-- Messages are named by the keys they are at. -/
theorem map_name_messageNodes (entries : Members) :
    (messageNodes entries).map MessageNode.name = entries.map Prod.fst := by
  induction entries with
  | nil => rfl
  | cons entry rest ih =>
    obtain ⟨name, value⟩ := entry
    rw [messageNodes, List.map_cons, List.map_cons, ih]
    cases value <;> rfl

/-- The node of a protocol is tidy if its keys and those of its messages are distinct. -/
theorem Node.tidy_ofProtocol {members : Members} (keys : (members.map Prod.fst).Nodup)
    (distinct : ∀ entries, members.get? "messages" = some (.object entries) →
      (entries.map Prod.fst).Nodup) :
    NodeLaw.tidy.node (ofProtocol members (.ofMembers members)) := by
  refine of_ofHeading (fun _ => trivial) fun heading read => ⟨?_, ?_⟩
  · intro details isDetails
    rw [Heading.details_ofMembers read] at isDetails
    rw [Details.properties_withoutAliases isDetails]
    exact Members.tidy_without _ keys
  · have messages := messagesAt_eq "messages" members
    split
    · next absent => simp [Children.ofMembers, messages, absent]
    · next isNull => simp [Children.ofMembers, messages, isNull, Json.object?]
    · next entries isObject =>
      simp only [Children.ofMembers, messages, isObject, Option.bind_some, Json.object?,
        Option.elim_some, map_name_messageNodes]
      exact distinct entries isObject
    · simp

/-- The field of an object with distinct keys is tidy. -/
theorem FieldNode.tidy_ofMembers {members : Members} (distinct : (members.map Prod.fst).Nodup)
    (type : Option Node) : NodeLaw.tidy.field (ofMembers members type) := by
  rw [ofMembers]
  split
  · trivial
  · intro said isSaid
    rw [FieldDetails.properties_ofMembers isSaid]
    exact Members.tidy_without _ distinct

/-- The message of an object with distinct keys is tidy. -/
theorem MessageNode.tidy_ofMembers {members : Members} (distinct : (members.map Prod.fst).Nodup)
    (name : String) (request : List FieldNode) (response : Option Node) (errors : List Node) :
    NodeLaw.tidy.message (ofMembers name members request response errors) := by
  intro said isSaid
  rw [Details.properties_withoutAliases isSaid]
  exact Members.tidy_without _ distinct

/-- Tidiness follows from orderly objects, messages included. -/
theorem NodeLaw.governs_tidy :
    tidy.Governs fun members => members.Orderly ∧
      ∀ entries, members.get? "messages" = some (.object entries) →
        (entries.map Prod.fst).Nodup where
  malformed _ _ := trivial
  reference _ := trivial
  union _ _ := trivial
  object members condition := by
    have typed := Node.tidy_ofTyped condition.1.distinct
    refine ⟨?_, typed⟩
    have agrees := condition.1.agrees
    rw [Node.ofJson_object, Node.ofMembers] at agrees
    revert agrees
    rw [Node.ofMembers]
    split
    · exact fun _ => Node.tidy_ofProtocol condition.1.distinct condition.2
    · split
      · exact fun _ => typed
      · exact fun agrees => ⟨⟨members, rfl⟩, Node.overlaid_ofTyped members _, agrees⟩
      · exact fun _ => trivial
  malformedField _ _ := trivial
  field _ condition := FieldNode.tidy_ofMembers condition.1.distinct _
  malformedMessage _ _ := trivial
  messageOther _ _ := by
    rintro said ⟨⟩
    exact ⟨List.nodup_nil, fun _ member => absurd member List.not_mem_nil⟩
  message name _ condition := MessageNode.tidy_ofMembers condition.1.distinct name _ _ _

/-- In a document of orderly objects, every node is tidy. -/
theorem Node.obeys_tidy_of_orderly (json : Json) (orderly : json.EveryObject Members.Orderly) :
    (ofJson json).Obeys .tidy := by
  refine obeys_ofJson NodeLaw.governs_tidy json (orderly.mono (fun members here inside => ?_) json)
  exact ⟨here, fun entries found => (inside.get? found).1.distinct⟩

/-- A logical type agrees with what is beneath it unless it says otherwise than a declaration there.
-/
theorem Node.agrees_logical {source : Json} {name : String}
    {overlay : Except Reason (Option LogicalType)} {declaresFixed : Bool} {inner : Node} :
    (logical source name overlay declaresFixed inner).agrees = true ↔
      ∀ known, overlay = .ok (some known) → declaresFixed = false →
        ∀ own, inner.declaredOverlay? = some own → own = some known := by
  rcases overlay with reason | _ | known
  · simp [agrees]
  · simp [agrees]
  · cases declaresFixed with
    | true => simp [agrees]
    | false => simp [agrees, Option.all_eq_true]

/-- What is no logical type agrees with what is beneath it. -/
theorem Node.agrees_of_not_isLogical {node : Node} (plain : node.isLogical = false) :
    node.agrees = true := by
  cases node with
  | logical => cases plain
  | _ => rfl

/-- A node with a heading declares no logical type if it declares none once the heading is read. -/
theorem Node.declaredOverlay?_ofHeading {source : Json} {heading : Except Reason Heading}
    {make : Heading → Node} (made : ∀ read, (make read).declaredOverlay? = none) :
    (ofHeading source heading make).declaredOverlay? = none := by
  cases heading with
  | ok read => exact made read
  | error => rfl

/-- Beneath a type that is no object, a fixed type is declared in the same object alone. -/
theorem Node.declaredOverlay?_ofTyped {members : Members}
    (noObject : (members.get? "type").bind Json.object? = none)
    (noFixed : members.get? "type" ≠ some (.string "fixed")) :
    (ofTyped members (.ofMembers members)).declaredOverlay? = none := by
  have type : (Children.ofMembers members).type = (members.get? "type").map ofJson :=
    nodeAt_eq "type" members
  rw [ofTyped]
  split
  case h_2 | h_3 | h_4 => exact declaredOverlay?_ofHeading fun _ => rfl
  case h_5 isFixed => exact absurd isFixed noFixed
  case h_8 isText => simp [type, isText, ofJson_string, declaredOverlay?]
  case h_9 isObject => simp [isObject, Json.object?] at noObject
  case h_10 isArray => simp [type, isArray, ofJson_union, declaredOverlay?]
  all_goals rfl

/-- A logical type agrees with what is declared beneath it if it is not laid over an object. -/
theorem Members.Flat.orderly {members : Members} (flat : members.Flat) : members.Orderly where
  distinct := flat.distinct
  agrees := by
    rw [Node.ofJson_object, Node.ofMembers]
    split
    · exact Node.agrees_of_not_isLogical (Node.isLogical_ofHeading fun _ => rfl)
    · split
      · exact Node.agrees_of_not_isLogical (Node.isLogical_ofTyped members _)
      · next name isLogical =>
        have logical : members.has "logicalType" = true := by
          rw [Members.has, isLogical, Option.isSome_some]
        refine Node.agrees_logical.2 fun _ _ isFixed own isOwn => ?_
        rw [Node.declaredOverlay?_ofTyped (flat.overlay logical) (of_decide_eq_false isFixed)]
          at isOwn
        cases isOwn
      · rfl

/-- In a document of flat objects, every node is tidy. -/
theorem Node.obeys_tidy (json : Json) (flat : json.EveryObject Members.Flat) :
    (ofJson json).Obeys .tidy :=
  obeys_tidy_of_orderly json (flat.mono (fun _ here _ => here.orderly) json)

end AvroGraph
