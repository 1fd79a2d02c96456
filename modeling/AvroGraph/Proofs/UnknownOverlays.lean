import AvroGraph.Proofs.Members
import AvroGraph.Proofs.Moments

/-!
# Logical types of unknown names

An object that names a logical type which is not known resolves as it does without that name, with
one exception: a fixed type beneath it comes without the logical type of its own
(`Resolver.verdict_unknown_iff`). The two walks differ in the nodes that they blame, so they are
compared by their verdicts, which leave the nodes out.
-/

namespace AvroGraph

/-! ## Verdicts -/

namespace Resolving

variable {α β : Type} (node : Json) (registry : Registry)

/-- The outcome of a walk, but for the node that it blames if it fails. -/
def verdict (walk : Resolving α) (registry : Registry) : Except Reason α × Registry :=
  let (result, after) := walk.outcome registry
  (result.mapError Violation.reason, after)

/-- The verdict of a check is its result. -/
@[simp]
theorem verdict_check (result : Except Reason α) :
    (check node result).verdict registry = (result, registry) := by
  cases result <;> rfl

/-- The verdict of a change is its result and what it leaves. -/
theorem verdict_change (step : Registry → Except Reason (α × Registry)) :
    (change node step).verdict registry =
      match step registry with
      | .ok (value, after) => (.ok value, after)
      | .error reason => (.error reason, registry) := by
  rw [verdict, outcome_change]
  cases step registry <;> rfl

/-- The verdict of a walk goes on from that of its beginning. -/
theorem verdict_bind (first : Resolving α) (next : α → Resolving β) :
    (first >>= next).verdict registry =
      match first.verdict registry with
      | (.ok value, after) => (next value).verdict after
      | (.error reason, after) => (.error reason, after) := by
  rw [verdict, verdict, outcome_bind]
  rcases first.outcome registry with ⟨_ | _, _⟩ <;> rfl

end Resolving

open Resolving

variable {options : Options} {around : Option String} {registry : Registry}

namespace Node

/-- Two nodes resolve alike, but for the nodes that are blamed if they do not resolve. -/
def Alike (first second : Node) : Prop :=
  ∀ options around registry, (first.resolve options around).verdict registry =
    (second.resolve options around).verdict registry

namespace Alike

variable (source other : Json)

/-- A node is alike to itself. -/
theorem refl (node : Node) : node.Alike node := fun _ _ _ => rfl

/-- What is malformed for one reason is alike wherever it stands. -/
theorem malformed (reason : Reason) : (malformed reason source).Alike (.malformed reason other) :=
  fun _ _ _ => rfl

/-- Objects around types are alike if the types are. -/
theorem nested {inner same : Node} (alike : inner.Alike same) :
    (nested source inner).Alike (.nested other same) := by
  intro options around registry
  simpa only [resolve] using alike options around registry

/-- Arrays are alike if their items are. -/
theorem array {items same : Node} (alike : items.Alike same) :
    (array source items).Alike (.array other same) := by
  intro options around registry
  simp only [resolve, verdict_bind, alike options around registry]

/-- Maps are alike if their values are. -/
theorem map {values same : Node} (alike : values.Alike same) :
    (map source values).Alike (.map other same) := by
  intro options around registry
  simp only [resolve, verdict_bind, alike options around registry]

/-- A record is alike wherever it stands. -/
theorem record (isError : Bool) (heading : Heading) (fields : List FieldNode) :
    (record source isError heading fields).Alike (.record other isError heading fields) := by
  intro options around registry
  simp only [resolve, verdict_bind, verdict_check, verdict_change]

/-- An enum is alike wherever it stands. -/
theorem enum (heading : Heading) (symbols : List (Option String))
    (default : Except Reason (Option String)) :
    (enum source heading symbols default).Alike (.enum other heading symbols default) := by
  intro options around registry
  simp only [resolve, verdict_bind, verdict_check, verdict_change]

/-- A fixed type is alike wherever it stands. -/
theorem fixed (heading : Heading) (size : Option Nat) :
    (fixed source heading size).Alike (.fixed other heading size) := by
  intro options around registry
  simp only [resolve, verdict_bind, verdict_check, verdict_change]

/-- Nodes with a heading are alike if they are once it is read. -/
theorem ofHeading {source other : Json} (heading : Except Reason Heading)
    {make remake : Heading → Node} (alike : ∀ heading, (make heading).Alike (remake heading)) :
    (ofHeading source heading make).Alike (ofHeading other heading remake) := by
  cases heading with
  | ok heading => exact alike heading
  | error reason => exact .malformed source other reason

/-- A child that may be missing. -/
theorem getD (child : Option Node) (reason : Reason) :
    (child.getD (.malformed reason source)).Alike (child.getD (.malformed reason other)) := by
  cases child with
  | some node => exact .refl node
  | none => exact .malformed source other reason

end Alike

end Node

/-! ## Objects that differ in their logical types -/

/-- A member that is left out is the only difference. -/
theorem Members.sameBesides_cons (before after : Members) (key : String) (value : Json) :
    SameBesides (before ++ (key, value) :: after) [key] (before ++ after) where
  get? other isOther := by
    rw [get?_append, get?_append, get?_cons,
      if_neg (Ne.symm (List.ne_of_not_mem_cons isOther))]
  without reserved within := by
    have isReserved : key ∈ reserved := within List.mem_cons_self
    simp [without, isReserved]

namespace Members.SameBesides

variable {first second : Members} (same : first.SameBesides ["logicalType"] second)

include same

/-- Children stand at keys of their own and are the same. -/
theorem children : Node.Children.ofMembers first = Node.Children.ofMembers second := by
  simp only [Node.Children.ofMembers, nodeAt_eq, nodesAt_eq, fieldsAt_eq, messagesAt_eq,
    same.get? "type" (by decide), same.get? "items" (by decide), same.get? "values" (by decide),
    same.get? "fields" (by decide), same.get? "types" (by decide),
    same.get? "messages" (by decide)]

/-- Headings do not depend on other members. -/
theorem heading (missing : Reason) (details : Except Reason Details) :
    Heading.ofMembers first "name" missing details =
      Heading.ofMembers second "name" missing details := by
  simp only [Heading.ofMembers, Members.optionalString, same.get? "name" (by decide),
    same.get? "namespace" (by decide)]

/-- Records of the same children are alike. -/
theorem alike_ofRecord (children : Node.Children) (isError : Bool) :
    (Node.ofRecord first children isError).Alike (.ofRecord second children isError) := by
  simp only [Node.ofRecord, same.details (by decide) (by decide) (by decide), same.heading,
    array?, same.get? "fields" (by decide)]
  exact .ofHeading _ fun heading => .record _ _ isError heading children.fields

/-- Enums of the same headings, symbols and defaults are alike. -/
theorem alike_ofEnum : (Node.ofEnum first).Alike (.ofEnum second) := by
  simp only [Node.ofEnum, same.details (by decide) (by decide) (by decide), same.heading, array?,
    same.optionalString "default" (by decide), same.get? "symbols" (by decide)]
  exact .ofHeading _ fun heading => .enum _ _ heading _ _

/-- Fixed types of the same headings and sizes are alike. -/
theorem alike_ofFixed : (Node.ofFixed first).Alike (.ofFixed second) := by
  simp only [Node.ofFixed, same.details (by decide) (by decide) (by decide), same.heading,
    same.get? "size" (by decide)]
  exact .ofHeading _ fun heading => .fixed _ _ heading _

/-- By their types alone the objects resolve alike. -/
theorem alike_ofTyped (children : Node.Children) :
    (Node.ofTyped first children).Alike (.ofTyped second children) := by
  simp only [Node.ofTyped, same.get? "type" (by decide)]
  split
  · exact .malformed _ _ _
  · exact same.alike_ofRecord children false
  · exact same.alike_ofRecord children true
  · exact same.alike_ofEnum
  · exact same.alike_ofFixed
  · exact .array _ _ (.getD _ _ _ _)
  · exact .map _ _ (.getD _ _ _ _)
  · exact .nested _ _ (.getD _ _ _ _)
  · exact .nested _ _ (.getD _ _ _ _)
  · exact .nested _ _ (.getD _ _ _ _)
  · exact .malformed _ _ _

end Members.SameBesides

/-! ## Logical types that are not known -/

/-- A name that no logical type has is that of none. -/
theorem LogicalType.read_unknown {name : String}
    (unknown : ∀ overlay : LogicalType, overlay.name ≠ name) (members : Members) :
    read name members = .ok none := by
  have notDecimal : name ≠ "decimal" := (unknown (.decimal 1 0)).symm
  have notPlain : plain.find? (·.name = name) = none := by
    rw [List.find?_eq_none]
    exact fun overlay _ => by simpa using unknown overlay
  rw [read, if_neg notDecimal, notPlain]

/-- No logical type is called so. -/
theorem LogicalType.name_ne_address (overlay : LogicalType) : overlay.name ≠ "ip-address" := by
  cases overlay <;> simp [name]

/-- A logical type that is not known takes the annotation of a named schema away. -/
theorem Node.verdict_unknown (source : Json) (name : String) (declaresFixed : Bool) (inner : Node) :
    ((logical source name (.ok none) declaresFixed inner).resolve options around).verdict registry =
      ((inner.resolve options around).verdict registry).map (Except.map Schema.bare) id := by
  have annotated (schema : Schema) (after : Registry) :
      after.annotate declaresFixed schema name (.ok none) = .ok (schema.bare, after) :=
    Registry.annotate_eq_ok.2 (.inl ⟨rfl, rfl, rfl⟩)
  simp only [resolve, verdict_bind, verdict_change, annotated]
  rcases (inner.resolve options around).verdict registry with ⟨_ | _, _⟩ <;> rfl

section

variable {before after : Members} {name : String}

/-- An object with an unknown logical type comes to what it does without, bare. -/
theorem Node.verdict_annotated (typed : (before ++ after).has "type" = true)
    (plain : (before ++ after).has "logicalType" = false)
    (unknown : ∀ overlay : LogicalType, overlay.name ≠ name) :
    ((ofJson (.object (before ++ ("logicalType", .string name) :: after))).resolve
        options around).verdict registry =
      (((ofJson (.object (before ++ after))).resolve options around).verdict registry).map
        (Except.map Schema.bare) id := by
  have same := Members.sameBesides_cons before after "logicalType" (.string name)
  obtain ⟨type, isType⟩ := Option.isSome_iff_exists.1 typed
  have absent : Members.get? (before ++ after) "logicalType" = none :=
    Option.not_isSome_iff_eq_none.1 (ne_true_of_eq_false plain)
  have present : Members.get? (before ++ ("logicalType", .string name) :: after) "logicalType" =
      some (.string name) := by
    rw [Members.get?_append, Option.or_eq_none_iff] at absent
    rw [Members.get?_append, absent.1, Members.get?_cons, if_pos rfl, Option.none_or]
  -- The one object is a logical type over what the other one is, but for the JSON that they keep.
  rw [ofJson_typed ((same.get? "type" (by decide)).trans isType), present, ofJson_typed isType,
    absent]
  simp only [LogicalType.read_unknown unknown, verdict_unknown, same.children]
  rw [same.alike_ofTyped]

namespace Resolver

/-- What a resolver makes of a node, but for the node that it blames if it fails. -/
def verdict (resolver : Resolver) (node : Json) (around : Option String) :
    Except Reason Schema × Resolver :=
  let (result, after) := resolver.resolve node around
  (result.mapError Violation.reason, after)

/-- The verdict on a document is that of the walk of its node. -/
theorem verdict_eq (resolver : Resolver) (node : Json) (around : Option String) :
    resolver.verdict node around =
      (((Node.ofJson node).resolve resolver.options around).verdict resolver.registry).map id
        fun registry => { resolver with registry } := rfl

/-- A verdict accepts what resolution accepts. -/
theorem verdict_eq_ok {resolver later : Resolver} {node : Json} {schema : Schema} :
    resolver.verdict node around = (.ok schema, later) ↔
      resolver.resolve node around = (.ok schema, later) := by
  rw [verdict, Prod.mk.injEq, mapError_eq_ok, Prod.ext_iff]

/-- A named schema that a resolver returns with a logical type is a fixed type. -/
theorem bare_eq_or_fixed {resolver later : Resolver} {node : Json} {schema : Schema}
    (returned : resolver.resolve node around = (.ok schema, later)) :
    schema.bare = schema ∨ ∃ handle overlay, schema = .logical (.named .fixed handle) overlay := by
  obtain ⟨isOk, -⟩ := Prod.ext_iff.1 returned
  exact (Node.ofJson node).bare_eq_or_fixed (Prod.ext isOk rfl)

/-- An unknown logical type on an object leads to the verdict on the object without it, and takes a
logical type away from what the object refers to. -/
theorem verdict_annotated (resolver : Resolver) (around : Option String)
    (typed : (before ++ after).has "type" = true)
    (plain : (before ++ after).has "logicalType" = false)
    (unknown : ∀ overlay : LogicalType, overlay.name ≠ name) :
    resolver.verdict (.object (before ++ ("logicalType", .string name) :: after)) around =
      (resolver.verdict (.object (before ++ after)) around).map (Except.map Schema.bare) id := by
  rw [verdict_eq, verdict_eq, Node.verdict_annotated typed plain unknown]
  rfl

/-- A logical type of an unknown name makes no difference to what an object resolves to, neither to
the schema and the registry nor to the reason of a failure, unless the object resolves to a fixed
type with a logical type of its own. That fixed type is then returned without its logical type. -/
theorem verdict_unknown_iff (resolver : Resolver) (around : Option String)
    (typed : (before ++ after).has "type" = true)
    (plain : (before ++ after).has "logicalType" = false)
    (unknown : ∀ overlay : LogicalType, overlay.name ≠ name) :
    let object := Json.object (before ++ after)
    let annotated := Json.object (before ++ ("logicalType", .string name) :: after)
    (resolver.verdict annotated around = resolver.verdict object around ↔
      ∀ handle overlay later, resolver.resolve object around ≠
        (.ok (.logical (.named .fixed handle) overlay), later)) ∧
    ∀ handle overlay later,
      resolver.resolve object around = (.ok (.logical (.named .fixed handle) overlay), later) →
      resolver.resolve annotated around = (.ok (.named .fixed handle), later) := by
  intro object annotated
  have stripped := resolver.verdict_annotated around typed plain unknown
  have loses (handle : Handle) (overlay : LogicalType) (later : Resolver)
      (returned : resolver.resolve object around =
        (.ok (.logical (.named .fixed handle) overlay), later)) :
      resolver.resolve annotated around = (.ok (.named .fixed handle), later) := by
    rw [← verdict_eq_ok] at returned ⊢
    rw [stripped, returned]
    rfl
  refine ⟨⟨fun same handle overlay later returned => ?_, fun others => ?_⟩, loses⟩
  · have lost := loses handle overlay later returned
    rw [← verdict_eq_ok] at lost returned
    simp [lost, returned] at same
  · rw [stripped]
    cases outcome : resolver.resolve object around with
    | mk result later =>
      cases result with
      | error violation =>
        rw [verdict, outcome]
        rfl
      | ok schema =>
        -- Only a fixed type can come with a logical type that is not its own object's.
        obtain same | ⟨handle, overlay, rfl⟩ := bare_eq_or_fixed outcome
        · rw [verdict_eq_ok.2 outcome, Prod.map, Except.map, same]
          rfl
        · exact absurd outcome (others handle overlay later)

/-- A resolver that has registered a fixed type with a logical type of its own. -/
def stamped : Resolver :=
  (new {}).run [(.object [("type", .string "fixed"), ("name", .string "Stamp"),
    ("size", .ofNat 16), ("logicalType", .string "uuid")], none)]

/-- A reference to that type, with a logical type of an unknown name and without. -/
theorem verdict_unknown_iff_stamped :
    (∀ overlay : LogicalType, overlay.name ≠ "ip-address") ∧
      (stamped.verdict (.object [("type", .string "Stamp"),
            ("logicalType", .string "ip-address")]) none =
          stamped.verdict (.object [("type", .string "Stamp")]) none ↔
        ∀ handle overlay later, stamped.resolve (.object [("type", .string "Stamp")]) none ≠
          (.ok (.logical (.named .fixed handle) overlay), later)) ∧
      ∀ handle overlay later,
        stamped.resolve (.object [("type", .string "Stamp")]) none =
          (.ok (.logical (.named .fixed handle) overlay), later) →
        stamped.resolve (.object [("type", .string "Stamp"),
            ("logicalType", .string "ip-address")]) none =
          (.ok (.named .fixed handle), later) := by
  have typed : Members.has ([("type", .string "Stamp")] ++ []) "type" = true := by decide
  have plain : Members.has ([("type", .string "Stamp")] ++ []) "logicalType" = false := by decide
  exact ⟨LogicalType.name_ne_address,
    verdict_unknown_iff stamped none typed plain LogicalType.name_ne_address⟩

/-- An unknown logical type over a reference to that type does make a difference. -/
theorem not_verdict_unknown_stamped :
    ¬ ∀ (options : Options) (calls : List (Json × Option String)) (around : Option String)
      (before after : Members) (name : String),
      ((before ++ after).map Prod.fst).Nodup → (before ++ after).has "type" = true →
      (before ++ after).has "logicalType" = false →
      (∀ overlay : LogicalType, overlay.name ≠ name) →
      ((new options).run calls).verdict
          (.object (before ++ ("logicalType", .string name) :: after)) around =
        ((new options).run calls).verdict (.object (before ++ after)) around := by
  intro claim
  have same : stamped.verdict _ none = stamped.verdict _ none :=
    claim {} _ none [("type", .string "Stamp")] [] "ip-address" (by decide) (by decide)
      (by decide) LogicalType.name_ne_address
  exact absurd (congrArg Prod.fst same) (by decide +kernel)

end Resolver

end

end AvroGraph
