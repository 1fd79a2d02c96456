import AvroGraph.Proofs.AppendOnly
import AvroGraph.Proofs.ResolvedEntries
import AvroGraph.Proofs.Sound

/-!
# The graph of types

Schemas refer to entries by handles, and entries hold schemas. In every registry that a resolver
reaches this graph is closed (`Registry.Reached.types_intact`): each handle leads to an entry of its
kind, each union carries its own reduction, and the box stands for unions alone. Whatever a call
returns stays intact through all later calls.
-/

namespace AvroGraph

/-! ## Intact schemas -/

/-- A union is represented by null, by the box or by what represents one of its branches. -/
theorem underlying_reduceBranches (options : Options) : (branches : List Schema) →
    (reduceBranches options branches).underlying = .null ∨
      (reduceBranches options branches).underlying = .boxed ∨
      ∃ branch ∈ branches,
        (reduceBranches options branches).underlying = (branch.reduction options).underlying
  | [] => .inl rfl
  | [only] => .inr (.inr ⟨only, List.mem_singleton_self only, rfl⟩)
  | [first, second] => by
    rw [reduceBranches]
    split
    · split
      · exact .inl rfl
      · exact .inr (.inr ⟨first, by simp, rfl⟩)
    · split
      · exact .inr (.inr ⟨second, by simp, rfl⟩)
      · exact .inr (.inl rfl)
  | _ :: _ :: _ :: _ => .inr (.inl rfl)

/-- Whether a schema is a union. -/
def Schema.isUnion : Schema → Bool
  | .union _ _ _ => true
  | _ => false

/-- What represents a schema is null, the box or, unless it is a union, the schema itself; a union
may also be represented by what represents one of its branches. -/
theorem Schema.reduction_induction (holds : Schema → Schema → Prop) (options : Options)
    (null : ∀ schema, holds schema .null) (boxed : ∀ schema, holds schema .boxed)
    (itself : ∀ schema : Schema, schema.isUnion = false → holds schema schema)
    (branch : ∀ {branches underlying nullable branch representative}, branch ∈ branches →
      holds branch representative → holds (.union branches underlying nullable) representative)
    (schema : Schema) : holds schema (schema.reduction options).underlying := by
  induction size : sizeOf schema using Nat.strongRecOn generalizing schema with
  | _ bound ih =>
    cases schema with
    | union branches _ _ =>
      rw [reduction]
      obtain isNull | isBoxed | ⟨inner, member, same⟩ := underlying_reduceBranches options branches
      · exact isNull ▸ null _
      · exact isBoxed ▸ boxed _
      · rw [same]
        refine branch member (ih (sizeOf inner) ?_ inner rfl)
        have smaller := List.sizeOf_lt_of_mem member
        simp only [← size, union.sizeOf_spec]
        omega
    | _ => exact itself _ rfl

/-- A schema is intact in a registry when every handle in it, at any depth, has an entry of its
kind, every union is the one that its branches make, and the box is nothing but the type that
represents a union. -/
inductive Schema.Intact (options : Options) (registry : Registry) : Schema → Prop where
  | primitive (type : Primitive) : Intact options registry (.primitive type)
  | named {handle : Handle} {entry : Entry} (found : registry.get? handle = some entry) :
      Intact options registry (.named entry.kind handle)
  | array {items : Schema} (inner : Intact options registry items) :
      Intact options registry (.array items)
  | map {values : Schema} (inner : Intact options registry values) :
      Intact options registry (.map values)
  | union {branches : List Schema} {underlying : Schema} {nullable : Bool}
      (each : ∀ branch ∈ branches, Intact options registry branch)
      (reduced : .union branches underlying nullable = Schema.ofBranches options branches)
      (inner : underlying ≠ .boxed → Intact options registry underlying) :
      Intact options registry (.union branches underlying nullable)
  | logical {underlying : Schema} {overlay : LogicalType}
      (inner : Intact options registry underlying) :
      Intact options registry (.logical underlying overlay)

namespace Schema.Intact

variable {options : Options} {registry before after : Registry} {schema : Schema}

/-- A handle with its kind is intact. -/
theorem of_kindAt? {kind : NamedKind} {handle : Handle}
    (known : registry.kindAt? handle = some kind) :
    (Schema.named kind handle).Intact options registry := by
  obtain ⟨entry, found, rfl⟩ := Registry.kindAt?_eq_some.1 known
  exact .named found

/-- A schema stays intact while entries keep their kinds. -/
theorem mono (keeps : before.KeepsKinds after) (intact : schema.Intact options before) :
    schema.Intact options after := by
  induction intact with
  | primitive type => exact .primitive type
  | named found => exact of_kindAt? (keeps _ _ (Registry.kindAt?_eq_some.2 ⟨_, found, rfl⟩))
  | array _ ih => exact .array ih
  | map _ ih => exact .map ih
  | union _ reduced _ each inner => exact .union each reduced inner
  | logical _ ih => exact .logical ih

/-- What is intact is grounded. -/
theorem grounded (intact : schema.Intact options registry) : schema.Grounded registry := by
  induction intact with
  | primitive => trivial
  | named found => exact Registry.kindAt?_eq_some.2 ⟨_, found, rfl⟩
  | array _ ih | map _ ih | logical _ ih => exact ih
  | union _ _ _ each _ => exact allGrounded_iff.2 each

/-- What represents an intact schema is the box or intact in turn. -/
theorem reduction (intact : schema.Intact options registry)
    (unboxed : (schema.reduction options).underlying ≠ .boxed) :
    (schema.reduction options).underlying.Intact options registry := by
  cases intact with
  | union each reduced inner =>
    cases reduced
    exact inner unboxed
  | _ => constructor <;> assumption

/-- A union of intact branches is intact. -/
theorem ofBranches {branches : List Schema}
    (each : ∀ branch ∈ branches, branch.Intact options registry) :
    (Schema.ofBranches options branches).Intact options registry := by
  refine .union each rfl fun unboxed => ?_
  obtain isNull | isBoxed | ⟨branch, member, same⟩ := underlying_reduceBranches options branches
  · exact isNull ▸ .primitive .null
  · exact absurd isBoxed unboxed
  · rw [same] at unboxed ⊢
    exact (each branch member).reduction unboxed

/-- What refers to an entry is intact. -/
theorem toSchema {handle : Handle} {entry : Entry} (found : registry.get? handle = some entry) :
    (entry.toSchema handle).Intact options registry := by
  have named : (Schema.named entry.kind handle).Intact options registry := .named found
  cases entry with
  | fixed fixedType =>
    simp only [Entry.toSchema]
    cases fixedType.overlay with
    | none => exact named
    | some overlay => exact .logical named
  | _ => exact named

/-- To take a logical type away leaves a schema intact. -/
theorem bare (intact : schema.Intact options registry) : schema.bare.Intact options registry := by
  cases intact with
  | logical inner =>
    rw [Schema.bare]
    split
    · exact inner
    · exact .logical inner
  | named found => exact .named found
  | union each reduced inner => exact .union each reduced inner
  | _ => constructor <;> assumption

end Schema.Intact

/-! ## Intact entries -/

section

variable {options : Options} {registry : Registry}

/-- The types of a slot are intact, except that the box may represent the union it is declared as.
-/
structure Slot.Intact (options : Options) (registry : Registry) (slot : Slot) : Prop where
  declared : slot.declared.Intact options registry
  underlying : slot.underlying.Intact options registry ∨
    slot.underlying = .boxed ∧ ∃ branches nullable, slot.declared = .union branches .boxed nullable

/-- The types of a message are intact. -/
structure Message.Intact (options : Options) (registry : Registry) (message : Message) : Prop where
  request : ∀ field ∈ message.request, field.slot.Intact options registry
  response : message.slot.Intact options registry
  errors : ∀ schema ∈ message.errors, schema.Intact options registry

/-- All types in an entry are intact. -/
def Entry.Intact (options : Options) (registry : Registry) : Entry → Prop
  | .record body | .error body => ∀ field ∈ body.fields, field.slot.Intact options registry
  | .protocol body =>
    (∀ type ∈ body.types, type.Intact options registry) ∧
      ∀ message ∈ body.messages, message.Intact options registry
  | .abstractBase base => ∀ branch ∈ base.derived, branch.Intact options registry
  | .enum _ | .fixed _ => True

/-- What represents the type of a slot is the type itself, unless that is a union. -/
theorem Slot.Filled.intact {slot : Slot} (filled : slot.Filled options)
    (declared : slot.declared.Intact options registry) : slot.Intact options registry := by
  refine ⟨declared, ?_⟩
  rw [filled.underlying]
  generalize slot.declared = type at declared
  cases declared with
  | @union branches underlying nullable each reduced inner =>
    by_cases isBoxed : underlying = .boxed
    · subst isBoxed
      exact .inr ⟨rfl, branches, nullable, rfl⟩
    · exact .inl (inner isBoxed)
  | named found => exact .inl (.named found)
  | _ => exact .inl (by constructor <;> assumption)

variable {law : NodeLaw}

/-- The slot of a resolved field is intact. -/
theorem Field.Resolved.intact {field : Field}
    (resolved : field.Resolved options law (fun registry schema => schema.Intact options registry)
      registry) : field.slot.Intact options registry :=
  resolved.filled.intact resolved.declared

/-- The types in a resolved message are intact. -/
theorem Message.Resolved.intact {message : Message}
    (resolved : message.Resolved options law
      (fun registry schema => schema.Intact options registry) registry) :
    message.Intact options registry where
  request field member := (resolved.request field member).intact
  response := resolved.filled.intact resolved.response
  errors schema member := by
    obtain ⟨handles, same, errors⟩ := resolved.errors
    rw [same] at member
    rcases List.mem_cons.1 member with rfl | later
    · exact .primitive .string
    · obtain ⟨handle, isHandle, rfl⟩ := List.mem_map.1 later
      exact errors handle isHandle

/-- The branches of a base are records and null, so it is enough that their handles are right. -/
theorem AbstractBase.intact_derived {base : AbstractBase}
    (grounded : (Entry.abstractBase base).Grounded registry) :
    (Entry.abstractBase base).Intact options registry := by
  intro branch member
  have here := Schema.allGrounded_iff.1 grounded.1 branch member
  cases branch with
  | primitive type => exact .primitive type
  | named kind handle => exact .of_kindAt? here
  | _ => exact absurd (grounded.2 _ member) (by simp [Schema.isRecord, Schema.isNull])

/-- The types in a resolved entry are intact. -/
theorem Entry.Resolved.intact {entry : Entry}
    (resolved : entry.Resolved options law (fun registry schema => schema.Intact options registry)
      registry) (grounded : entry.Grounded registry) : entry.Intact options registry := by
  have parts := resolved.parts
  cases entry with
  | record body | error body => exact fun field member => (parts.2 field member).intact
  | protocol body =>
    exact ⟨fun type member => (parts.1 type member).1,
      fun message member => (parts.2.1 message member).intact⟩
  | abstractBase base => exact AbstractBase.intact_derived grounded
  | enum | fixed => trivial

end

/-! ## Registries -/

namespace Registry

variable {registry after : Registry} {options : Options}

/-- Whatever a walk resolves is intact, as long as the bases of slots are known. -/
theorem intactCondition {law : NodeLaw} {good : Registry → Prop}
    (knows : ∀ registry, good registry → registry.KnowsBases) :
    Registry.Condition options law good fun registry schema => schema.Intact options registry where
  lasts retains _ intact := intact.mono retains.keepsKinds
  reference _ resolved := by
    obtain ⟨_, _, rfl⟩ | ⟨_, _, handle, _, _, schemaOf⟩ := reference_eq_ok.1 resolved
    · exact .primitive _
    · obtain ⟨entry, found, rfl⟩ := Option.map_eq_some_iff.1 schemaOf
      exact .toSchema found
  array := .array
  map := .map
  union := .ofBranches
  declared _ found _ := .named found
  slot holds intact resolved := by
    rw [slot_eq_ok] at resolved
    split at resolved
    · obtain ⟨base, made, rfl⟩ := resolved
      obtain ⟨body, found, -⟩ := knows _ holds _ _ base (baseOf?_synthesizeBase made)
      exact .named found
    · obtain ⟨rfl, rfl⟩ := resolved
      exact intact
  annotate _ intact annotated := by
    have kept := intact.bare.mono (keepsKinds_annotate annotated)
    obtain ⟨_, rfl, _⟩ | ⟨_, _, _, rfl, _⟩ := annotate_eq_ok.1 annotated
    · exact kept
    · exact .logical kept

/-- What is known of the entries while walks go on: they are grounded, and what has been resolved in
them is intact. -/
theorem intactInvariant {law : NodeLaw} :
    Registry.Invariant options law
      (fun registry => registry.Sound ∧
        registry.AllResolved options law fun registry schema => schema.Intact options registry)
      fun registry schema => schema.Intact options registry :=
  (Sound.invariant.strengthen fun _ _ => Schema.Intact.grounded).and
    (AllResolved.invariant fun retains _ intact => intact.mono retains.keepsKinds)

end Registry

/-- In every registry that a resolver reaches, what has been resolved has passed its checks. -/
theorem Registry.Reached.allResolved {options : Options} {registry : Registry}
    (reached : registry.Reached options) : registry.AllResolved options .ownOverlays
      fun registry schema => schema.Intact options registry := by
  have empty : Registry.empty.AllResolved options .ownOverlays fun registry schema =>
      schema.Intact options registry :=
    fun handle _ found => by simp [Registry.empty, Registry.get?] at found
  exact (reached.holds (intactCondition fun _ holds => holds.1.knowsBases) intactInvariant
    ⟨.empty, empty⟩).2

/-- In every registry that a resolver reaches, all types are intact, and so is what the resolver
returns, then and through whatever calls follow. -/
theorem Registry.Reached.types_intact {options : Options} {registry : Registry}
    (reached : registry.Reached options) :
    (∀ handle entry, registry.get? handle = some entry → entry.Intact options registry) ∧
    ∀ node around schema later, (Resolver.mk options registry).resolve node around =
      (.ok schema, later) → ∀ calls, schema.Intact options (later.run calls).registry := by
  have empty : Registry.empty.AllResolved options .ownOverlays fun registry schema =>
      schema.Intact options registry :=
    fun handle _ found => by simp [Registry.empty, Registry.get?] at found
  have known := reached.holds (intactCondition fun _ holds => holds.1.knowsBases) intactInvariant
    ⟨.empty, empty⟩
  refine ⟨fun handle entry found => (known.2 handle entry found).intact (known.1.closed _ _ found),
    fun node around schema later resolved calls => ?_⟩
  have intact : schema.Intact options later.registry :=
    reached.meets (intactCondition fun _ holds => holds.1.knowsBases) intactInvariant
      ⟨.empty, empty⟩ (Resolver.yields_of_resolve resolved)
  exact intact.mono (later.grows_run calls).keepsKinds

/-- A record that is refused for its last field, after types of many kinds have been declared
inside, and a protocol that goes on to use what is left of them. -/
def leftovers : List (Json × Option String) :=
  let declare (kind name : String) (rest : Members) : Json :=
    .object ([("type", .string kind), ("name", .string name)] ++ rest)
  let slot (name : String) (type : Json) : Json :=
    .object [("name", .string name), ("type", type)]
  let record (name : String) (fields : List Json) : Json :=
    declare "record" name [("fields", .array fields)]
  let suit := declare "enum" "K" [("symbols", .array [.string "x"])]
  let fixed := declare "fixed" "F" [("size", .number (.integer 16)), ("logicalType", .string "uuid")]
  [(record "n.R"
      [slot "a" (.object [("type", .string "array"),
          ("items", .array [.string "null", suit, fixed])]),
        slot "b" (.array [record "A" [slot "r" (.string "R")], record "B" []]),
        slot "c" (.string "Missing")], none),
    (.object [("protocol", .string "P"), ("types", .array [.string "F"]),
      ("messages", .object [("m", .object [
        ("request", .array [slot "p" (.array [.string "null", .array [.string "null", .string "K"]]),
          slot "q" (.array [.string "R", .string "F"])]),
        ("response", .array [.string "B", .string "R", .string "null"]),
        ("errors", .array [declare "error" "E" [("fields", .array [])]])])])], some "n")]

/-- What a resolver has registered after that. -/
def Registry.remaining : Registry :=
  ((Resolver.new {}).run leftovers).registry

/-- The record that was refused has no fields, and yet all types that refer to it or to what was
declared in it are intact. -/
theorem Registry.types_intact_remaining :
    let node := Json.array [.string "R", .array [.string "null", .string "F"]]
    let uuid := Schema.logical (.named .fixed 2) .uuid
    let schema := Schema.union [.named .record 0, .union [.null, uuid] uuid true] .boxed false
    let later := ((Resolver.mk {} remaining).resolve node (some "n")).2
    remaining.Reached {} ∧
      remaining.names =
        ["n.R", "n.K", "n.F", "n.A", "n.B", "n.RBBase", "n.P", "n.MResponseBase", "n.E"] ∧
      (∀ handle entry, remaining.get? handle = some entry → entry.Intact {} remaining) ∧
      (Resolver.mk {} remaining).resolve node (some "n") = (.ok schema, later) ∧
      ∀ calls, schema.Intact {} (later.run calls).registry := by
  intro node uuid schema later
  have reached : remaining.Reached {} := Registry.Reached.empty.run leftovers
  have resolved : (Resolver.mk {} remaining).resolve node (some "n") = (.ok schema, later) :=
    Resolver.resolve_of_toOption (by decide +kernel)
  exact ⟨reached, by decide +kernel, reached.types_intact.1, resolved,
    reached.types_intact.2 node (some "n") schema later resolved⟩

end AvroGraph
