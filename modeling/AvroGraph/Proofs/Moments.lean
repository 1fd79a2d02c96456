import AvroGraph.Proofs.AppendOnly
import AvroGraph.Proofs.Overlaid

/-!
# Moments of a run

A resolver resolves nodes within nodes, one call after another, and a call that fails has still
resolved what comes before the failure. `Resolver.moments` lists what is resolved in the order in
which it is, each node with the registry that is left then. A fixed type that has been resolved as a
whole does not change any more (`Resolver.passes`), so that everything that refers to it later on
finds it as it is (`Resolver.moments_agree`).
-/

namespace AvroGraph

open Resolving

/-- A node has just been resolved to a schema, and this is the registry it leaves. -/
structure Moment where
  node : Node
  schema : Schema
  registry : Registry

/-- The moments after a part of a walk, if that part succeeds. -/
def Resolving.continued {α : Type} (walk : Resolving α) (registry : Registry)
    (next : α → Registry → List Moment) : List Moment :=
  match walk.outcome registry with
  | (.ok value, after) => next value after
  | (.error _, _) => []

/-- The moment in which a node has been resolved, if that succeeds. -/
def Node.resolved (options : Options) (around : Option String) (node : Node)
    (registry : Registry) : List Moment :=
  (node.resolve options around).continued registry fun schema after => [⟨node, schema, after⟩]

mutual

/-- What is resolved on the way while a node is. A logical type is part of the object that it is
laid over, so that this object is not resolved before it. -/
def Node.within (options : Options) (around : Option String) : Node → Registry → List Moment
  | .malformed _ _, _ | .reference _, _ | .enum _ _ _ _, _ | .fixed _ _ _, _ => []
  | .nested _ inner, registry =>
    inner.within options around registry ++ inner.resolved options around registry
  | .union _ branches, registry => momentsOfEach options around .branch branches registry
  | .array _ items, registry =>
    items.within options around registry ++ items.resolved options around registry
  | .map _ values, registry =>
    values.within options around registry ++ values.resolved options around registry
  | .record source isError heading fields, registry =>
    (check source (heading.resolve options around)).continued registry fun declaration start =>
      (change source (·.register
        (if isError then .error declaration.record else .record declaration.record))).continued
        start fun _ registered => momentsOfFields options declaration.name [] fields registered
  | .protocol source heading types messages, registry =>
    (check source (heading.resolve options around)).continued registry fun declaration start =>
      (change source (·.register (.protocol declaration.protocol))).continued start
        fun _ registered =>
          momentsOfEach options declaration.name.space .protocolType types registered ++
            (resolveEach options declaration.name.space .protocolType types).continued registered
              fun _ typed => momentsOfMessages options declaration.name.space messages typed
  | .logical _ _ _ _ inner, registry => inner.within options around registry

/-- What is resolved while nodes are, each held against a rule before the next. -/
def momentsOfEach (options : Options) (around : Option String) (vet : Vet) :
    List Node → Registry → List Moment
  | [], _ => []
  | node :: rest, registry =>
    (node.within options around registry ++ node.resolved options around registry) ++
      (node.resolve options around).continued registry fun schema between =>
        (ask node.source (vet · schema)).continued between fun _ after =>
          momentsOfEach options around vet rest after

/-- What is resolved while a field is. -/
def FieldNode.within (options : Options) (owner : Name) : FieldNode → Registry → List Moment
  | .malformed _ _, _ => []
  | .field source name type _ _ _, registry =>
    (check source (options.checkSimpleName name)).continued registry fun _ start =>
      type.within options owner.space start ++ type.resolved options owner.space start

/-- What is resolved while fields are. -/
def momentsOfFields (options : Options) (owner : Name) (done : List Field) :
    List FieldNode → Registry → List Moment
  | [], _ => []
  | node :: rest, registry =>
    node.within options owner registry ++
      (node.resolve options owner).continued registry fun field between =>
        (check node.source (checkNewField owner done field)).continued between fun _ after =>
          momentsOfFields options owner (done ++ [field]) rest after

/-- What is resolved while a message is. -/
def MessageNode.within (options : Options) (around : Option String) :
    MessageNode → Registry → List Moment
  | .malformed _ _, _ => []
  | .message source name request response responseSource errors _ _, registry =>
    (check source (options.checkSimpleName name)).continued registry fun _ start =>
      momentsOfFields options ⟨name, around⟩ [] request start ++
        (resolveFields options ⟨name, around⟩ [] request).continued start fun _ asked =>
          (response.within options around asked ++ response.resolved options around asked) ++
            (response.resolve options around).continued asked fun declared typed =>
              (change responseSource (·.slot options ⟨name, around⟩ "response" declared)).continued
                typed fun _ answered =>
                  momentsOfEach options around (.messageError name) errors answered

/-- What is resolved while messages are. -/
def momentsOfMessages (options : Options) (around : Option String) :
    List MessageNode → Registry → List Moment
  | [], _ => []
  | node :: rest, registry =>
    node.within options around registry ++
      (node.resolve options around).continued registry fun _ between =>
        momentsOfMessages options around rest between

end

/-- What is resolved in calls in a row, whether they succeed or fail. -/
def Resolver.moments (resolver : Resolver) : List (Json × Option String) → List Moment
  | [] => []
  | (json, around) :: rest =>
    ((Node.ofJson json).within resolver.options around resolver.registry ++
        (Node.ofJson json).resolved resolver.options around resolver.registry) ++
      (resolver.resolve json around).2.moments rest

/-- What a call returns has been resolved in one of the moments, whatever calls come before and
after. -/
theorem Resolver.mem_moments_of_resolve {resolver later : Resolver} {json : Json}
    {around : Option String} {schema : Schema} (earlier rest : List (Json × Option String))
    (returned : (resolver.run earlier).resolve json around = (.ok schema, later)) :
    ⟨.ofJson json, schema, later.registry⟩ ∈
      resolver.moments (earlier ++ (json, around) :: rest) := by
  induction earlier generalizing resolver with
  | nil =>
    have walks : ((Node.ofJson json).resolve resolver.options around).Yields resolver.registry schema
        later.registry := yields_of_resolve returned
    have here : (Node.ofJson json).resolved resolver.options around resolver.registry =
        [⟨.ofJson json, schema, later.registry⟩] := by
      rw [Node.resolved, continued, walks.outcome]
    refine List.mem_append_left _ (List.mem_append_right _ ?_)
    rw [here]
    exact List.mem_singleton_self _
  | cons call earlier ih => exact List.mem_append_right _ (ih returned)

/-! ## What stays from one moment to the next -/

namespace Registry

variable {registry before middle after : Registry}

/-- Fixed types stay as they are. -/
def KeepsFixed (before after : Registry) : Prop :=
  ∀ handle fixedType, before.fixed? handle = some fixedType → after.fixed? handle = some fixedType

namespace KeepsFixed

/-- A registry keeps its own fixed types. -/
theorem refl (registry : Registry) : registry.KeepsFixed registry :=
  fun _ _ => id

/-- What keeps fixed types twice keeps them. -/
theorem trans (first : before.KeepsFixed middle) (second : middle.KeepsFixed after) :
    before.KeepsFixed after :=
  fun handle fixedType found => second handle fixedType (first handle fixedType found)

/-- A change that leaves fixed types alone keeps them. -/
theorem update {handle : Handle} {change : Entry → Entry}
    (same : ∀ entry, (change entry).fixed? = entry.fixed?) :
    registry.KeepsFixed (registry.update handle change) := by
  intro other fixedType found
  rw [fixed?] at found ⊢
  rw [get?_update]
  split
  · rw [Option.bind_map]
    simpa only [Function.comp_def, same] using found
  · exact found

/-- A registry that grows keeps its fixed types. -/
theorem of_grows (grows : before.Grows after) : before.KeepsFixed after :=
  fun _ _ => grows.fixed?

/-- To give a record its fields keeps fixed types. -/
theorem setFields (handle : Handle) (fields : List Field) :
    registry.KeepsFixed (registry.setFields handle fields) :=
  update fun entry => by cases entry <;> rfl

/-- To give a protocol its types and messages keeps them. -/
theorem setProtocol (handle : Handle) (types : List Schema) (messages : List Message) :
    registry.KeepsFixed (registry.setProtocol handle types messages) :=
  update fun entry => by cases entry <;> rfl

end KeepsFixed

/-- Moments between two registries: at each of them a node has been resolved, and fixed types stay
as they are from there on. -/
inductive Passes (options : Options) : Registry → List Moment → Registry → Prop where
  | done {registry after : Registry} (keeps : registry.KeepsFixed after) :
      Passes options registry [] after
  | next {registry after : Registry} {moment : Moment} {moments : List Moment}
      (keeps : registry.KeepsFixed moment.registry)
      (walked : ∃ around before,
        (moment.node.resolve options around).Yields before moment.schema moment.registry)
      (rest : Passes options moment.registry moments after) :
      Passes options registry (moment :: moments) after

namespace Passes

variable {options : Options} {moments more : List Moment}

/-- Moments may begin earlier, where fixed types are kept up to them. -/
theorem start (keeps : before.KeepsFixed registry)
    (passes : Passes options registry moments after) : Passes options before moments after := by
  cases passes with
  | done later => exact .done (keeps.trans later)
  | next later walked rest => exact .next (keeps.trans later) walked rest

/-- Moments between registries in a row come one after the other. -/
theorem append (first : Passes options registry moments middle)
    (second : Passes options middle more after) :
    Passes options registry (moments ++ more) after := by
  induction first with
  | done keeps => exact second.start keeps
  | next keeps walked _ ih => exact .next keeps walked (ih second)

/-- Moments may end later, where fixed types are kept behind them. -/
theorem stop (passes : Passes options registry moments middle) (keeps : middle.KeepsFixed after) :
    Passes options registry moments after := by
  have none : Passes options middle [] after := .done keeps
  simpa using passes.append none

/-- The moments of a sequence are those of its first part and, if that succeeds, those of the
other. -/
theorem bind {α β : Type} {first : Resolving α} {next : α → Resolving β}
    {continued : α → Registry → List Moment}
    (start : Passes options registry moments (first.outcome registry).2)
    (rest : ∀ value between, first.Yields registry value between →
      Passes options between (continued value between) ((next value).outcome between).2) :
    Passes options registry (moments ++ first.continued registry continued)
      ((first >>= next).outcome registry).2 := by
  rw [outcome_bind, Resolving.continued]
  cases outcome : first.outcome registry with
  | mk result between =>
    rw [outcome] at start
    cases result with
    | ok value => exact start.append (rest value between outcome)
    | error violation => simpa using start

/-- As `bind`, where nothing is resolved in the second part. -/
theorem bind_last {α β : Type} {first : Resolving α} {next : α → Resolving β}
    (start : Passes options registry moments (first.outcome registry).2)
    (rest : ∀ value between, first.Yields registry value between →
      between.KeepsFixed ((next value).outcome between).2) :
    Passes options registry moments ((first >>= next).outcome registry).2 := by
  rw [outcome_bind]
  cases outcome : first.outcome registry with
  | mk result between =>
    rw [outcome] at start
    cases result with
    | ok value => exact start.stop (rest value between outcome)
    | error violation => exact start

/-- As `bind`, where nothing is resolved in the first part. -/
theorem bind_first {α β : Type} {first : Resolving α} {next : α → Resolving β}
    {continued : α → Registry → List Moment}
    (keeps : registry.KeepsFixed (first.outcome registry).2)
    (rest : ∀ value between, first.Yields registry value between →
      Passes options between (continued value between) ((next value).outcome between).2) :
    Passes options registry (first.continued registry continued)
      ((first >>= next).outcome registry).2 :=
  bind (.done keeps) rest

/-- At each moment a node has been resolved, and fixed types are as they were at the beginning. -/
theorem of_mem (passes : Passes options registry moments after) :
    ∀ moment ∈ moments, registry.KeepsFixed moment.registry ∧ ∃ around before,
      (moment.node.resolve options around).Yields before moment.schema moment.registry := by
  induction passes with
  | done => exact fun _ member => absurd member List.not_mem_nil
  | next keeps walked _ ih =>
    exact List.forall_mem_cons.2
      ⟨⟨keeps, walked⟩, fun moment member => (ih moment member).imp_left keeps.trans⟩

/-- What is there of fixed types at one moment is there at every later one. -/
theorem pairwise (passes : Passes options registry moments after) :
    moments.Pairwise fun first second => first.registry.KeepsFixed second.registry := by
  induction passes with
  | done => exact .nil
  | next _ _ rest ih => exact .cons (fun second member => (rest.of_mem second member).1) ih

end Passes

end Registry

/-! ## Walks -/

section

variable {options : Options} {registry : Registry} {around : Option String}

/-- Whatever a node does, fixed types that were there before are kept. -/
theorem Node.keepsFixed {node : Node} (obeys : node.Obeys .ownOverlays) :
    registry.KeepsFixed ((node.resolve options around).outcome registry).2 :=
  .of_grows (node.keeps obeys (Nat.le_refl _))

/-- When a node has been resolved, that is the last moment of it. -/
theorem Node.passes_resolved {node : Node}
    (passes : Registry.Passes options registry (node.within options around registry)
      ((node.resolve options around).outcome registry).2) :
    Registry.Passes options registry
      (node.within options around registry ++ node.resolved options around registry)
      ((node.resolve options around).outcome registry).2 := by
  refine passes.append ?_
  rw [Node.resolved, Resolving.continued]
  cases outcome : (node.resolve options around).outcome registry with
  | mk result after =>
    cases result with
    | ok schema => exact .next (.refl after) ⟨around, registry, outcome⟩ (.done (.refl after))
    | error violation => exact .done (.refl after)

/-- Where a part of a walk does not resolve anything, fixed types stay as they are. -/
theorem Registry.KeepsFixed.check {α : Type} {node : Json} {result : Except Reason α} :
    registry.KeepsFixed ((Resolving.check node result).outcome registry).2 :=
  .of_grows .check

/-- A question keeps fixed types. -/
theorem Registry.KeepsFixed.ask {α : Type} {node : Json} {question : Registry → Except Reason α} :
    registry.KeepsFixed ((Resolving.ask node question).outcome registry).2 :=
  .of_grows .ask

/-- To register an entry keeps fixed types. -/
theorem Registry.KeepsFixed.register {node : Json} {entry : Entry} :
    registry.KeepsFixed ((Resolving.change node (·.register entry)).outcome registry).2 :=
  .of_grows (.change fun _ _ registered => keeps_register registered)

/-- To fill a slot keeps fixed types. -/
theorem Registry.KeepsFixed.slot {node : Json} {owner : Name} {name : String} {declared : Schema} :
    registry.KeepsFixed
      ((Resolving.change node (·.slot options owner name declared)).outcome registry).2 :=
  .of_grows (.change fun _ _ filled => grows_slot filled)

end

section

variable {options : Options}

open Registry (Passes)

mutual

/-- What is resolved while a node is comes between the registry before it and the one after it,
whether it succeeds or fails. -/
theorem Node.passes {registry : Registry} {around : Option String} : (node : Node) →
    node.Obeys .ownOverlays → Passes options registry (node.within options around registry)
      ((node.resolve options around).outcome registry).2
  | .malformed _ _, obeys | .reference _, obeys | .enum _ _ _ _, obeys | .fixed _ _ _, obeys =>
    .done (Node.keepsFixed obeys)
  | .nested _ inner, obeys => Node.passes_resolved (inner.passes obeys.2)
  | .union _ branches, obeys =>
    .bind_last (passes_resolveEach branches obeys.2) fun _ _ _ => .refl _
  | .array _ items, obeys =>
    .bind_last (Node.passes_resolved (items.passes obeys.2)) fun _ _ _ => .refl _
  | .map _ values, obeys =>
    .bind_last (Node.passes_resolved (values.passes obeys.2)) fun _ _ _ => .refl _
  | .record _ _ _ fields, obeys =>
    .bind_first .check fun _ _ _ => .bind_first .register fun _ _ _ =>
      .bind_last (passes_resolveFields fields obeys.2) fun _ _ _ => .setFields _ _
  | .protocol _ _ types messages, obeys =>
    .bind_first .check fun _ _ _ => .bind_first .register fun _ _ _ =>
      .bind (passes_resolveEach types obeys.2.1) fun _ _ _ =>
        .bind_last (passes_resolveMessages messages obeys.2.2) fun _ _ _ => .setProtocol _ _ _
  | .logical _ _ _ true inner, obeys => by
    -- What declares a fixed type has nothing inside, so no moment sees it without its logical type.
    have nothing {registry : Registry} : inner.within options around registry = [] := by
      have declares := obeys.1 rfl
      cases inner with
      | fixed | malformed => rfl
      | _ => exact declares.elim
    rw [Node.within, nothing]
    exact .done (Node.keepsFixed obeys)
  | .logical _ _ _ false inner, obeys =>
    .bind_last (inner.passes obeys.2) fun _ _ _ => .of_grows <| .change
      fun _ _ annotated => Registry.keeps_annotate (fun declares => by cases declares) annotated

/-- Nodes in a row pass through the moments of each. -/
theorem passes_resolveEach {registry : Registry} {around : Option String} {vet : Vet} :
    (nodes : List Node) → NodesObey .ownOverlays nodes →
      Passes options registry (momentsOfEach options around vet nodes registry)
        ((resolveEach options around vet nodes).outcome registry).2
  | [], _ => .done (.refl _)
  | node :: rest, obeys =>
    .bind (Node.passes_resolved (node.passes obeys.1)) fun _ _ _ => .bind_first .ask fun _ _ _ =>
      .bind_last (passes_resolveEach rest obeys.2) fun _ _ _ => .refl _

/-- A field passes through those of its type. -/
theorem FieldNode.passes {registry : Registry} {owner : Name} : (node : FieldNode) →
    node.Obeys .ownOverlays → Passes options registry (node.within options owner registry)
      ((node.resolve options owner).outcome registry).2
  | .malformed _ _, _ => .done (.refl _)
  | .field _ _ type _ _ _, obeys =>
    .bind_first .check fun _ _ _ =>
      .bind_last (Node.passes_resolved (type.passes obeys.2)) fun _ _ _ => .of_grows <|
        .bind (.change fun _ _ filled => Registry.grows_slot filled) fun _ _ _ _ =>
          .bind .ask fun _ _ _ _ => .bind .check fun _ _ _ _ => .refl _ _

/-- Fields in a row pass through the moments of each. -/
theorem passes_resolveFields {registry : Registry} {owner : Name} {done : List Field} :
    (nodes : List FieldNode) → FieldsObey .ownOverlays nodes →
      Passes options registry (momentsOfFields options owner done nodes registry)
        ((resolveFields options owner done nodes).outcome registry).2
  | [], _ => .done (.refl _)
  | node :: rest, obeys =>
    .bind (node.passes obeys.1) fun _ _ _ => .bind_first .check fun _ _ _ =>
      passes_resolveFields rest obeys.2

/-- A message passes through those of its parameters, its response and its errors. -/
theorem MessageNode.passes {registry : Registry} {around : Option String} :
    (node : MessageNode) → node.Obeys .ownOverlays →
      Passes options registry (node.within options around registry)
        ((node.resolve options around).outcome registry).2
  | .malformed _ _, _ => .done (.refl _)
  | .message _ _ request response _ errors _ _, obeys =>
    .bind_first .check fun _ _ _ => .bind (passes_resolveFields request obeys.2.1) fun _ _ _ =>
      .bind (Node.passes_resolved (response.passes obeys.2.2.1)) fun _ _ _ =>
        .bind_first .slot fun _ _ _ =>
          .bind_last (passes_resolveEach errors obeys.2.2.2) fun _ _ _ => .of_grows <|
            .bind .check fun _ _ _ _ => .bind .check fun _ _ _ _ => .bind .check fun _ _ _ _ =>
              .refl _ _

/-- Messages in a row pass through the moments of each. -/
theorem passes_resolveMessages {registry : Registry} {around : Option String} :
    (nodes : List MessageNode) → MessagesObey .ownOverlays nodes →
      Passes options registry (momentsOfMessages options around nodes registry)
        ((resolveMessages options around nodes).outcome registry).2
  | [], _ => .done (.refl _)
  | node :: rest, obeys =>
    .bind (node.passes obeys.1) fun _ _ _ =>
      .bind_last (passes_resolveMessages rest obeys.2) fun _ _ _ => .refl _

end

end

/-- What is resolved in calls in a row comes between the registry before them and the one after
them. -/
theorem Resolver.passes (resolver : Resolver) (calls : List (Json × Option String)) :
    Registry.Passes resolver.options resolver.registry (resolver.moments calls)
      (resolver.run calls).registry := by
  induction calls generalizing resolver with
  | nil => exact .done (.refl _)
  | cons call rest ih =>
    obtain ⟨json, around⟩ := call
    have within : Registry.Passes resolver.options resolver.registry
        ((Node.ofJson json).within resolver.options around resolver.registry)
        (resolver.resolve json around).2.registry :=
      (Node.ofJson json).passes (Node.obeys_ownOverlays json)
    exact (Node.passes_resolved within).append (ih (resolver.resolve json around).2)

/-! ## Fixed types and references to them -/

section

variable {options : Options} {registry after : Registry} {around : Option String}
  {members : Members} {schema : Schema} {handle : Handle} {fixedType : FixedType}

/-- An object with a type is what its type says, with its logical type laid over it. -/
theorem Node.ofJson_typed {type : Json} (typed : members.get? "type" = some type) :
    ofJson (.object members) =
      match members.get? "logicalType" with
      | none => ofTyped members (.ofMembers members)
      | some (.string name) =>
        .logical (.object members) name (LogicalType.read name members)
          (decide (members.get? "type" = some (.string "fixed")))
          (ofTyped members (.ofMembers members))
      | some _ => .malformed (.notAString "logicalType") (.object members) := by
  have noProtocol : (members.has "protocol" && !members.has "type") = false := by
    simp [Members.has, typed]
  rw [ofJson_object, ofMembers, noProtocol]
  rfl

/-- A fixed type is declared without a logical type. -/
theorem Node.DeclaresFixed.fixed? {node : Node} (declares : node.DeclaresFixed)
    (succeeds : (node.resolve options around).Yields registry schema after) :
    ∃ handle fixedType, after.fixed? handle = some fixedType ∧ fixedType.overlay = none ∧
      schema = .named .fixed handle := by
  cases node with
  | fixed =>
    obtain ⟨declaration, fixedType, handle, -, sized, register, rfl⟩ := yields_fixed.1 succeeds
    obtain ⟨-, -, -, plain⟩ := Declaration.fixedType_eq_ok.1 sized
    refine ⟨handle, fixedType, ?_, plain, rfl⟩
    rw [Registry.fixed?, Registry.get?_registered register]
    rfl
  | malformed => exact absurd succeeds yields_malformed
  | _ => exact declares.elim

/-- A fixed type is found with the logical type that it is given. -/
theorem Registry.fixed?_setOverlay (found : registry.fixed? handle = some fixedType)
    (overlay : LogicalType) : (registry.setOverlay handle overlay).fixed? handle =
      some { fixedType with overlay := some overlay } := by
  obtain ⟨entry, isEntry, isFixed⟩ := Option.bind_eq_some_iff.1 found
  cases entry with
  | fixed body =>
    cases isFixed
    rw [fixed?, get?_setOverlay isEntry]
    rfl
  | _ => cases isFixed

/-- Without a logical type, a fixed type is referred to by its handle alone. -/
theorem Entry.toSchema_plain (plain : fixedType.overlay = none) (handle : Handle) :
    (Entry.fixed fixedType).toSchema handle = .named .fixed handle := by
  simp only [toSchema, plain]

/-- Beneath its logical type, a fixed type is referred to by its handle. -/
theorem Entry.bare_toSchema_fixed (fixedType : FixedType) (handle : Handle) :
    ((Entry.fixed fixedType).toSchema handle).bare = .named .fixed handle := by
  cases overlaid : fixedType.overlay with
  | none =>
    rw [toSchema_plain overlaid]
    rfl
  | some overlay =>
    simp only [toSchema, overlaid]
    rfl

/-- An object that declares a fixed type resolves to the schema that the entry of this type has. -/
theorem Node.toSchema_of_declared (declares : members.get? "type" = some (.string "fixed"))
    (succeeds : ((ofJson (.object members)).resolve options around).Yields registry schema after) :
    ∃ handle fixedType, after.fixed? handle = some fixedType ∧
      schema = (Entry.fixed fixedType).toSchema handle := by
  have fixed := ofTyped_declaresFixed (.ofMembers members) declares
  rw [ofJson_typed declares] at succeeds
  split at succeeds
  · obtain ⟨handle, fixedType, found, plain, rfl⟩ := fixed.fixed? succeeds
    exact ⟨handle, fixedType, found, (Entry.toSchema_plain plain handle).symm⟩
  · obtain ⟨underlying, between, resolving, annotated⟩ := yields_logical.1 succeeds
    obtain ⟨handle, fixedType, found, plain, rfl⟩ := fixed.fixed? resolving
    rw [declares, decide_eq_true rfl] at annotated
    obtain ⟨-, rfl, rfl⟩ | ⟨known, -, -, rfl, rfl⟩ := Registry.annotate_eq_ok.1 annotated
    · exact ⟨handle, fixedType, found, (Entry.toSchema_plain plain handle).symm⟩
    · exact ⟨handle, { fixedType with overlay := some known },
        Registry.fixed?_setOverlay found known, rfl⟩
  · exact absurd succeeds yields_malformed

/-- A reference to a fixed type has the schema that the entry of this type has. -/
theorem Registry.toSchema_of_reference {text : String}
    (found : registry.fixed? handle = some fixedType)
    (linked : registry.reference around text = .ok schema)
    (binds : schema.bare = .named .fixed handle) :
    schema = (Entry.fixed fixedType).toSchema handle := by
  obtain ⟨_, _, rfl⟩ | ⟨_, _, other, _, _, schemaOf⟩ := reference_eq_ok.1 linked
  · cases binds
  · obtain ⟨entry, isEntry, rfl⟩ := Option.map_eq_some_iff.1 schemaOf
    cases entry with
    | fixed body =>
      rw [Entry.bare_toSchema_fixed] at binds
      cases binds
      rw [fixed?, isEntry] at found
      cases found
      rfl
    | _ => cases binds

/-- Whatever calls are made, a reference that is linked to a fixed type has the schema that the
object which declares this type has been resolved to. -/
theorem Resolver.moments_agree (resolver : Resolver) (calls : List (Json × Option String)) :
    (resolver.moments calls).Pairwise fun first second =>
      ∀ (members : Members) (text : String), first.node = .ofJson (.object members) →
        members.get? "type" = some (.string "fixed") → second.node = .reference text →
        second.schema.bare = first.schema.bare → second.schema = first.schema := by
  have passes := resolver.passes calls
  refine passes.pairwise.imp_of_mem fun {first second} isFirst isSecond keeps members text
    isObject declares isReference same => ?_
  obtain ⟨-, _, _, declared⟩ := passes.of_mem first isFirst
  obtain ⟨-, _, _, linked⟩ := passes.of_mem second isSecond
  rw [isObject] at declared
  rw [isReference] at linked
  obtain ⟨handle, fixedType, found, isSchema⟩ := Node.toSchema_of_declared declares declared
  obtain ⟨linked, rfl⟩ := Node.yields_reference.1 linked
  rw [isSchema, Entry.bare_toSchema_fixed] at same
  rw [isSchema]
  exact Registry.toSchema_of_reference (keeps handle fixedType found) linked same

end

end AvroGraph
