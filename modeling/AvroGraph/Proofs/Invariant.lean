import AvroGraph.Proofs.Resolved
import AvroGraph.Resolver

/-!
# Invariants of the registry

An invariant of registries is checked against single changes only: a declaration is registered,
a record or a protocol is given its parts, a slot its base, a fixed type its logical type. It
is then kept by every walk, and whatever a walk resolves is grounded (`Node.ensures`), so that it
holds of every registry that a resolver reaches (`Registry.Reached.holds`), also after walks that
failed half-way.
-/

namespace AvroGraph

open Resolving

namespace Resolving

variable {α β : Type} {good : Registry → Prop} {registry : Registry}

/-- A walk leaves a good registry, however it ends, and what it yields meets a condition. -/
structure Ensures (walk : Resolving α) (registry : Registry) (good : Registry → Prop)
    (meets : α → Registry → Prop) : Prop where
  leaves : good (walk.outcome registry).2
  yields : ∀ value after, walk.Yields registry value after → meets value after

namespace Ensures

variable {meets : α → Registry → Prop}

/-- A result by itself ensures what holds of it. -/
theorem pure {value : α} (holds : good registry) (met : meets value registry) :
    Ensures (pure value) registry good meets where
  leaves := holds
  yields _ _ succeeds := by
    obtain ⟨rfl, rfl⟩ := yields_pure.1 succeeds
    exact met

/-- A violation leaves the registry as good as it was. -/
theorem throw {violation : Violation} (holds : good registry) :
    Ensures (throw violation) registry good meets where
  leaves := holds
  yields _ _ succeeds := (yields_throw.1 succeeds).elim

/-- A question ensures what holds of every answer. -/
theorem ask {node : Json} {question : Registry → Except Reason α} (holds : good registry)
    (met : ∀ value, question registry = .ok value → meets value registry) :
    Ensures (ask node question) registry good meets where
  leaves := by rwa [outcome_ask]
  yields value _ succeeds := by
    obtain ⟨answered, rfl⟩ := yields_ask.1 succeeds
    exact met value answered

/-- A change ensures what holds wherever it succeeds. -/
theorem change {node : Json} {step : Registry → Except Reason (α × Registry)}
    (holds : good registry)
    (met : ∀ value after, step registry = .ok (value, after) → good after ∧ meets value after) :
    Ensures (change node step) registry good meets where
  leaves := by
    rw [outcome_change]
    cases result : step registry with
    | ok pair => exact (met pair.1 pair.2 result).1
    | error reason => exact holds
  yields value after succeeds := (met value after (yields_change.1 succeeds)).2

/-- A sequence ensures what its second part ensures from where the first one succeeds. -/
theorem bind {first : Resolving α} {next : α → Resolving β} {met : β → Registry → Prop}
    (start : Ensures first registry good meets)
    (rest : ∀ value between, first.Yields registry value between → good between →
      meets value between → Ensures (next value) between good met) :
    Ensures (first >>= next) registry good met where
  leaves := by
    rw [outcome_bind]
    cases outcome : first.outcome registry with
    | mk result between =>
      have holds : good between := by simpa [outcome] using start.leaves
      cases result with
      | ok value => exact (rest value between outcome holds (start.yields _ _ outcome)).leaves
      | error violation => exact holds
  yields result after succeeds := by
    obtain ⟨value, between, firstSucceeds, nextSucceeds⟩ := yields_bind.1 succeeds
    have holds : good between := by simpa [firstSucceeds.outcome] using start.leaves
    have met := start.yields value between firstSucceeds
    exact (rest value between firstSucceeds holds met).yields result after nextSucceeds

/-- After a part that leaves the registry alone, a walk goes on where it started. -/
theorem bind_still {first : Resolving α} {next : α → Resolving β} {met : β → Registry → Prop}
    (still : (first.outcome registry).2 = registry) (holds : good registry)
    (rest : ∀ value, first.Yields registry value registry →
      Ensures (next value) registry good met) :
    Ensures (first >>= next) registry good met := by
  have start : Ensures first registry good fun _ after => after = registry :=
    ⟨by rwa [still], fun value after succeeds => by rw [← still, succeeds.outcome]⟩
  refine .bind start ?_
  rintro value _ succeeds _ rfl
  exact rest value succeeds

/-- After a check, the rest has to be ensured for a result that was checked. -/
theorem bind_check {node : Json} {result : Except Reason α} {next : α → Resolving β}
    {met : β → Registry → Prop} (holds : good registry)
    (rest : ∀ value, result = .ok value → Ensures (next value) registry good met) :
    Ensures (check node result >>= next) registry good met :=
  bind_still (by rw [outcome_check]) holds fun value succeeds =>
    rest value (yields_check.1 succeeds).1

/-- After a question, the rest has to be ensured for an answer to it. -/
theorem bind_ask {node : Json} {question : Registry → Except Reason α} {next : α → Resolving β}
    {met : β → Registry → Prop} (holds : good registry)
    (rest : ∀ value, question registry = .ok value → Ensures (next value) registry good met) :
    Ensures (Resolving.ask node question >>= next) registry good met :=
  bind_still (by rw [outcome_ask]) holds fun value succeeds =>
    rest value (yields_ask.1 succeeds).1

/-- After a change, the rest has to be ensured from what was changed. -/
theorem bind_modify {step : Registry → Registry} {next : PUnit → Resolving β}
    {met : β → Registry → Prop} (rest : Ensures (next ⟨⟩) (step registry) good met) :
    Ensures (modify step >>= next) registry good met where
  leaves := by
    rw [outcome_bind, outcome_modify]
    exact rest.leaves
  yields value after succeeds := by
    obtain ⟨_, _, first, second⟩ := yields_bind.1 succeeds
    obtain rfl := yields_modify.1 first
    exact rest.yields value after second

end Ensures

end Resolving

/-- A condition that whatever a walk resolves meets: it holds of references and of what is declared,
each kind of schema passes it on from its parts, and it lasts. -/
structure Registry.Condition (options : Options) (law : NodeLaw) (good : Registry → Prop)
    (meets : Registry → Schema → Prop) : Prop where
  lasts : ∀ {before after}, before.Retains after → ∀ schema, meets before schema →
    meets after schema
  reference : ∀ {registry around text schema}, good registry →
    registry.reference around text = .ok schema → meets registry schema
  array : ∀ {registry items}, meets registry items → meets registry (.array items)
  map : ∀ {registry values}, meets registry values → meets registry (.map values)
  union : ∀ {registry branches}, (∀ branch ∈ branches, meets registry branch) →
    meets registry (.ofBranches options branches)
  declared : ∀ {registry handle entry}, good registry → registry.get? handle = some entry →
    entry.isAbstractBase = false → meets registry (.named entry.kind handle)
  slot : ∀ {registry after owner name declared slot}, good after → meets registry declared →
    registry.slot options owner name declared = .ok (slot, after) → meets after slot.declared
  annotate : ∀ {registry after source name overlay declaresFixed inner underlying schema},
    law.node (.logical source name overlay declaresFixed inner) → meets registry underlying →
    registry.annotate declaresFixed underlying name overlay = .ok (schema, after) →
    meets after schema

/-- What single changes keep, given that whatever they bring in meets a condition. -/
structure Registry.Invariant (options : Options) (law : NodeLaw) (good : Registry → Prop)
    (meets : Registry → Schema → Prop) : Prop where
  register : ∀ {registry after node entry handle}, good registry → law.node node →
    node.Declares options entry → registry.register entry = .ok (handle, after) → good after
  setFields : ∀ {registry handle fields}, good registry → (fields.map Field.name).Nodup →
    (∀ field ∈ fields, field.Resolved options law meets registry) →
    good (registry.setFields handle fields)
  setProtocol : ∀ {registry handle source heading nodes types messageNodes messages},
    good registry → law.node (.protocol source heading nodes messageNodes) →
    messages.map Message.name = messageNodes.map MessageNode.name →
    Schema.ResolvedTypes meets registry types →
    (∀ message ∈ messages, message.Resolved options law meets registry) →
    good (registry.setProtocol handle types messages)
  slot : ∀ {registry after owner name declared slot}, good registry →
    owner.Admitted options → options.checkSimpleName name = .ok () → meets registry declared →
    registry.slot options owner name declared = .ok (slot, after) → good after
  annotate : ∀ {registry after source name overlay declaresFixed inner underlying schema},
    good registry → law.node (.logical source name overlay declaresFixed inner) →
    meets registry underlying →
    registry.annotate declaresFixed underlying name overlay = .ok (schema, after) → good after

section

variable {options : Options} {law : NodeLaw} {good other : Registry → Prop}
  {meets : Registry → Schema → Prop}

/-- What holds of whatever is resolved still does so where more is known of registries. -/
theorem Registry.Condition.weaken (condition : Registry.Condition options law good meets)
    (implies : ∀ registry, other registry → good registry) :
    Registry.Condition options law other meets :=
  { condition with
    reference := fun holds => condition.reference (implies _ holds)
    declared := fun holds => condition.declared (implies _ holds)
    slot := fun holds => condition.slot (implies _ holds) }

/-- What is kept under a condition is kept under a stronger one. -/
theorem Registry.Invariant.strengthen {stronger : Registry → Schema → Prop}
    (invariant : Registry.Invariant options law good meets)
    (implies : ∀ registry schema, stronger registry schema → meets registry schema) :
    Registry.Invariant options law good stronger where
  register := invariant.register
  setFields holds distinct resolved :=
    invariant.setFields holds distinct fun field member =>
      (resolved field member).mono (implies _) (.refl _)
  setProtocol holds lawful names types messages :=
    invariant.setProtocol holds lawful names
      (fun type member => ⟨implies _ _ (types type member).1, (types type member).2⟩)
      fun message member => (messages message member).mono (implies _) (.refl _)
  slot holds owner simple met := invariant.slot holds owner simple (implies _ _ met)
  annotate holds lawful met := invariant.annotate holds lawful (implies _ _ met)

/-- Two invariants are kept together. -/
theorem Registry.Invariant.and (first : Registry.Invariant options law good meets)
    (second : Registry.Invariant options law other meets) :
    Registry.Invariant options law (fun registry => good registry ∧ other registry) meets where
  register holds lawful declares registered :=
    ⟨first.register holds.1 lawful declares registered,
      second.register holds.2 lawful declares registered⟩
  setFields holds distinct resolved :=
    ⟨first.setFields holds.1 distinct resolved, second.setFields holds.2 distinct resolved⟩
  setProtocol holds lawful names types messages :=
    ⟨first.setProtocol holds.1 lawful names types messages,
      second.setProtocol holds.2 lawful names types messages⟩
  slot holds owner simple met filled :=
    ⟨first.slot holds.1 owner simple met filled, second.slot holds.2 owner simple met filled⟩
  annotate holds lawful met annotated :=
    ⟨first.annotate holds.1 lawful met annotated, second.annotate holds.2 lawful met annotated⟩

/-- What changes of single entries keep is an invariant if it is also kept where a declaration is
registered and where a slot is given a base. -/
theorem Registry.Invariant.of_amended
    (amend : ∀ {before after : Registry}, good before → before.Amended after → good after)
    (register : ∀ {registry after node entry handle}, good registry → law.node node →
      node.Declares options entry → registry.register entry = .ok (handle, after) → good after)
    (slot : ∀ {registry after owner name declared slot}, good registry →
      owner.Admitted options → options.checkSimpleName name = .ok () →
      registry.slot options owner name declared = .ok (slot, after) → good after) :
    Registry.Invariant options law good meets where
  register := register
  setFields holds _ _ := amend holds (Registry.amended_setFields _ _)
  setProtocol holds _ _ _ _ := amend holds (Registry.amended_setProtocol _ _ _)
  slot holds owner simple _ := slot holds owner simple
  annotate holds _ _ annotated := by
    obtain rfl | amended := Registry.eq_or_amended_of_annotate annotated
    · exact holds
    · exact amend holds amended

end

section

variable {options : Options} {law : NodeLaw} {good : Registry → Prop}
  {meets : Registry → Schema → Prop} (condition : Registry.Condition options law good meets)
  (invariant : Registry.Invariant options law good meets) {registry : Registry}

include invariant in
/-- A registration leaves an entry as it was declared. -/
theorem ensures_register {source : Json} {node : Node} {entry : Entry} (holds : good registry)
    (lawful : law.node node) (declares : node.Declares options entry) :
    Ensures (change source (·.register entry)) registry good fun handle after =>
      after.get? handle = some entry :=
  .change holds fun _ _ registered =>
    ⟨invariant.register holds lawful declares registered, Registry.get?_registered registered⟩

include condition invariant in
/-- A slot leaves a good registry if its owner and its name were checked and its type is met. -/
theorem ensures_slot {source : Json} {owner : Name} {name : String} {declared : Schema}
    (holds : good registry) (admitted : owner.Admitted options)
    (simple : options.checkSimpleName name = .ok ()) (met : meets registry declared) :
    Ensures (change source (·.slot options owner name declared)) registry good fun slot after =>
      meets after slot.declared ∧ slot.Filled options :=
  .change holds fun _ _ resolved =>
    have goodAfter := invariant.slot holds admitted simple met resolved
    ⟨goodAfter, condition.slot goodAfter met resolved, Registry.filled_slot resolved⟩

include condition in
/-- The schema of a declaration that has been given its parts meets the condition. -/
theorem Registry.Condition.filled {filled after : Registry} {handle : Handle} {entry : Entry}
    (registered : registry.get? handle = some entry) (isDeclared : entry.isAbstractBase = false)
    (grows : registry.Grows filled) (retains : filled.Retains after) (holds : good after) :
    meets after (.named entry.kind handle) := by
  obtain ⟨last, isLast, same⟩ := (grows.retains.trans retains) handle entry registered
  have kind : last.kind = entry.kind := by rw [← last.kind_stripped, same, entry.kind_stripped]
  have lastDeclared : last.isAbstractBase = false := by
    rw [← last.isAbstractBase_stripped, same, entry.isAbstractBase_stripped, isDeclared]
  rw [← kind]
  exact condition.declared holds isLast lastDeclared

end

/-! ## Walks -/

section

variable (options : Options) (law : NodeLaw) (good : Registry → Prop)
  (meets : Registry → Schema → Prop)

/-- A walk of a node keeps an invariant, and what it resolves meets a condition. -/
def Node.Ensures (node : Node) : Prop :=
  ∀ ⦃registry around⦄, good registry →
    Resolving.Ensures (node.resolve options around) registry good fun schema after =>
      meets after schema

/-- Walks of nodes in a row keep an invariant, and their schemas meet a condition and have passed
the rule. -/
def NodesEnsure (nodes : List Node) : Prop :=
  ∀ ⦃registry around vet⦄, good registry →
    Resolving.Ensures (resolveEach options around vet nodes) registry good fun schemas after =>
      ∀ schema ∈ schemas, meets after schema ∧ ∃ between, vet between schema = .ok ()

/-- A field of an owner that is admitted is resolved as a declaration of it has to be. -/
def FieldNode.Ensures (node : FieldNode) : Prop :=
  ∀ ⦃registry owner⦄, owner.Admitted options → good registry →
    Resolving.Ensures (node.resolve options owner) registry good fun field after =>
      field.Resolved options law meets after

/-- Fields in a row are resolved as declarations of them have to be, behind those that have been.
Their names are distinct. -/
def FieldsEnsure (nodes : List FieldNode) : Prop :=
  ∀ ⦃registry owner done⦄, owner.Admitted options → good registry →
    (∀ field ∈ done, field.Resolved options law meets registry) → (done.map Field.name).Nodup →
    Resolving.Ensures (resolveFields options owner done nodes) registry good fun fields after =>
      (∀ field ∈ fields, field.Resolved options law meets after) ∧ (fields.map Field.name).Nodup

/-- A message of a protocol that is admitted is resolved as a declaration of it has to be. -/
def MessageNode.Ensures (node : MessageNode) : Prop :=
  ∀ ⦃registry⦄ ⦃name : Name⦄, name.Admitted options → good registry →
    Resolving.Ensures (node.resolve options name.space) registry good fun message after =>
      message.Resolved options law meets after

/-- Messages in a row are resolved as declarations of them have to be. -/
def MessagesEnsure (nodes : List MessageNode) : Prop :=
  ∀ ⦃registry⦄ ⦃name : Name⦄, name.Admitted options → good registry →
    Resolving.Ensures (resolveMessages options name.space nodes) registry good fun messages after =>
      ∀ message ∈ messages, message.Resolved options law meets after

end

section

variable {options : Options} {law : NodeLaw} {good : Registry → Prop}
  {meets : Registry → Schema → Prop} {node : Node} {heading : Heading}

namespace Node.Ensures

/-- What is malformed changes nothing. -/
theorem malformed (reason : Reason) (source : Json) :
    (Node.malformed reason source).Ensures options good meets :=
  fun _ _ holds => .throw holds

/-- A reference changes nothing, and what it is linked to meets the condition. -/
theorem reference (condition : Registry.Condition options law good meets) (text : String) :
    (Node.reference text).Ensures options good meets :=
  fun _ _ holds => .ask holds fun _ resolved => condition.reference holds resolved

/-- An object around a type is resolved like the type. -/
theorem nested (source : Json) (inner : node.Ensures options good meets) :
    (Node.nested source node).Ensures options good meets := inner

/-- The schemas of the branches are those of a union. -/
theorem union (condition : Registry.Condition options law good meets) (source : Json)
    {branches : List Node} (each : NodesEnsure options good meets branches) :
    (Node.union source branches).Ensures options good meets :=
  fun _ _ holds => .bind (each holds) fun _ _ _ holds met =>
    .pure holds (condition.union fun branch member => (met branch member).1)

/-- An array of items. -/
theorem array (condition : Registry.Condition options law good meets) (source : Json)
    (items : node.Ensures options good meets) :
    (Node.array source node).Ensures options good meets :=
  fun _ _ holds => .bind (items holds) fun _ _ _ holds met => .pure holds (condition.array met)

/-- A map of values. -/
theorem map (condition : Registry.Condition options law good meets) (source : Json)
    (values : node.Ensures options good meets) :
    (Node.map source node).Ensures options good meets :=
  fun _ _ holds => .bind (values holds) fun _ _ _ holds met => .pure holds (condition.map met)

/-- A record is registered, and given its fields once all of them are resolved. -/
theorem record (condition : Registry.Condition options law good meets)
    (invariant : Registry.Invariant options law good meets) {source : Json} {isError : Bool}
    {fields : List FieldNode} (obeys : law.node (.record source isError heading fields))
    (own : FieldsObey .ownOverlays fields) (each : FieldsEnsure options law good meets fields) :
    (Node.record source isError heading fields).Ensures options good meets := by
  intro registry around holds
  refine .bind_check holds fun declaration resolved => ?_
  have declares := Node.Declares.record source isError fields resolved
  refine .bind (ensures_register invariant holds obeys declares)
    fun handle registered _ holds isEntry => ?_
  refine .bind (each (.of_heading resolved) holds
    (fun _ member => absurd member List.not_mem_nil) List.nodup_nil)
    fun done filled succeeds holds met => ?_
  have holdsAfter : good (filled.setFields handle done) :=
    invariant.setFields holds met.2 met.1
  refine .bind_modify (.pure holdsAfter ?_)
  have named := condition.filled isEntry declares.isAbstractBase
    (grows_resolveFields own succeeds) (Registry.retains_setFields done) holdsAfter
  cases isError <;> exact named

/-- An enum is registered as a whole. -/
theorem enum (condition : Registry.Condition options law good meets)
    (invariant : Registry.Invariant options law good meets) {source : Json}
    {symbols : List (Option String)} {default : Except Reason (Option String)}
    (obeys : law.node (.enum source heading symbols default)) :
    (Node.enum source heading symbols default).Ensures options good meets := by
  intro registry around holds
  refine .bind_check holds fun declaration resolved => ?_
  refine .bind_check holds fun enumeration checked => ?_
  exact .bind (ensures_register invariant holds obeys (.enum source resolved checked))
    fun _ _ _ holds isEntry => .pure holds (condition.declared holds isEntry rfl)

/-- A fixed type is registered as a whole, without a logical type. -/
theorem fixed (condition : Registry.Condition options law good meets)
    (invariant : Registry.Invariant options law good meets) {source : Json} {size : Option Nat}
    (obeys : law.node (.fixed source heading size)) :
    (Node.fixed source heading size).Ensures options good meets := by
  intro registry around holds
  refine .bind_check holds fun declaration resolved => ?_
  refine .bind_check holds fun fixedType sized => ?_
  exact .bind (ensures_register invariant holds obeys (.fixed source resolved sized))
    fun _ _ _ holds isEntry => .pure holds (condition.declared holds isEntry rfl)

/-- A protocol is registered, and given its types and messages once all of them are resolved. -/
theorem protocol (condition : Registry.Condition options law good meets)
    (invariant : Registry.Invariant options law good meets) {source : Json} {types : List Node}
    {messages : List MessageNode} (obeys : law.node (.protocol source heading types messages))
    (ownTypes : NodesObey .ownOverlays types) (ownMessages : MessagesObey .ownOverlays messages)
    (eachType : NodesEnsure options good meets types)
    (eachMessage : MessagesEnsure options law good meets messages) :
    (Node.protocol source heading types messages).Ensures options good meets := by
  intro registry around holds
  refine .bind_check holds fun declaration resolved => ?_
  refine .bind (ensures_register invariant holds obeys
    (.protocol source types messages resolved)) fun handle registered _ holds isEntry => ?_
  refine .bind (eachType holds) fun schemas typed typing holds met => ?_
  refine .bind (eachMessage (.of_heading resolved) holds)
    fun done filled succeeds holds metMessages => ?_
  have typedGrows := grows_resolveEach ownTypes typing
  have filledGrows := grows_resolveMessages ownMessages succeeds
  have metTypes : Schema.ResolvedTypes meets filled schemas := by
    intro type member
    obtain ⟨metType, _, vetted⟩ := met type member
    refine ⟨condition.lasts filledGrows.retains _ metType, ?_⟩
    rw [Vet.protocolType] at vetted
    split at vetted
    · assumption
    · cases vetted
  have holdsAfter : good (filled.setProtocol handle schemas done) :=
    invariant.setProtocol holds obeys (names_resolveMessages succeeds) metTypes metMessages
  exact .bind_modify (.pure holdsAfter (condition.filled isEntry rfl
    (typedGrows.trans filledGrows) (Registry.retains_setProtocol schemas done) holdsAfter))

/-- A logical type is laid over what has been resolved. -/
theorem logical (condition : Registry.Condition options law good meets)
    (invariant : Registry.Invariant options law good meets) {source : Json} {name : String}
    {overlay : Except Reason (Option LogicalType)} {declaresFixed : Bool}
    (obeys : law.node (.logical source name overlay declaresFixed node))
    (inner : node.Ensures options good meets) :
    (Node.logical source name overlay declaresFixed node).Ensures options good meets :=
  fun _ _ holds => .bind (inner holds) fun _ _ _ holds met =>
    .change holds fun _ _ annotated =>
      ⟨invariant.annotate holds obeys met annotated, condition.annotate obeys met annotated⟩

end Node.Ensures

/-- No nodes, no schemas. -/
theorem NodesEnsure.nil : NodesEnsure options good meets [] :=
  fun _ _ _ holds => .pure holds fun _ member => absurd member List.not_mem_nil

/-- The schema of the first node still meets the condition when the others are resolved. -/
theorem NodesEnsure.cons (condition : Registry.Condition options law good meets)
    {rest : List Node} (own : NodesObey .ownOverlays rest) (head : node.Ensures options good meets)
    (tail : NodesEnsure options good meets rest) :
    NodesEnsure options good meets (node :: rest) := by
  intro registry around vet holds
  refine .bind (head holds) fun schema between _ holds met => ?_
  refine .bind_ask holds fun _ vetted => ?_
  refine .bind (tail holds) fun schemas after succeeds holds metRest => ?_
  have retains := (grows_resolveEach own succeeds).retains
  refine .pure holds fun other member => ?_
  rcases List.mem_cons.1 member with rfl | later
  · exact ⟨condition.lasts retains _ met, between, vetted⟩
  · exact metRest other later

/-- A field that is malformed changes nothing. -/
theorem FieldNode.Ensures.malformed (reason : Reason) (source : Json) :
    (FieldNode.malformed reason source).Ensures options law good meets :=
  fun _ _ _ holds => .throw holds

/-- A field is resolved, then its slot is filled, then its default is read. -/
theorem FieldNode.Ensures.field (condition : Registry.Condition options law good meets)
    (invariant : Registry.Invariant options law good meets) {source typeSource : Json}
    {name : String} {default : Option Json} {details : Except Reason FieldDetails}
    (obeys : law.field (.field source name node typeSource default details))
    (type : node.Ensures options good meets) :
    (FieldNode.field source name node typeSource default details).Ensures options law good
      meets := by
  intro registry owner admitted holds
  refine .bind_check holds fun _ simple => ?_
  refine .bind (type holds) fun declared typed _ holds met => ?_
  refine .bind (ensures_slot condition invariant holds admitted simple met)
    fun slot after _ holds met => ?_
  refine .bind_ask holds fun literal synthesized => .bind_check holds fun said isSaid =>
    .pure holds ⟨simple, met.1, met.2, ⟨literal, synthesized, rfl, rfl⟩, source, node, typeSource,
      ?_⟩
  rwa [isSaid] at obeys

/-- No fields besides those that have been resolved. -/
theorem FieldsEnsure.nil : FieldsEnsure options law good meets [] :=
  fun _ _ _ _ holds met distinct => .pure holds ⟨met, distinct⟩

/-- The fields that have been resolved are joined by the first of the others, if its name is new. -/
theorem FieldsEnsure.cons (condition : Registry.Condition options law good meets)
    {node : FieldNode} {rest : List FieldNode} (own : node.Obeys .ownOverlays)
    (head : node.Ensures options law good meets) (tail : FieldsEnsure options law good meets rest) :
    FieldsEnsure options law good meets (node :: rest) := by
  intro registry owner done admitted holds met distinct
  refine .bind (head admitted holds) fun field between succeeds holds here => ?_
  have retains := (node.grows own succeeds).retains
  refine .bind_check holds fun _ new => tail admitted holds (fun other member => ?_) ?_
  · rcases List.mem_append.1 member with early | last
    · exact (met other early).mono (condition.lasts retains) retains
    · rwa [List.mem_singleton.1 last]
  · rw [List.map_append, List.nodup_append]
    refine ⟨distinct, by simp, fun name early other last => ?_⟩
    rintro rfl
    obtain rfl := List.mem_singleton.1 last
    exact checkNewField_eq_ok.1 new early

/-- A message that is malformed changes nothing. -/
theorem MessageNode.Ensures.malformed (reason : Reason) (source : Json) :
    (MessageNode.malformed reason source).Ensures options law good meets :=
  fun _ _ _ holds => .throw holds

/-- The parameters of a message, its response and its errors are resolved one after another, and
each of them lasts while the others are. -/
theorem MessageNode.Ensures.message (condition : Registry.Condition options law good meets)
    (invariant : Registry.Invariant options law good meets) {source responseSource : Json}
    {name : String} {request : List FieldNode} {errors : List Node} {oneWay : Except Reason Bool}
    {details : Except Reason Details}
    (obeys : law.message (.message source name request node responseSource errors oneWay details))
    (ownResponse : node.Obeys .ownOverlays) (ownErrors : NodesObey .ownOverlays errors)
    (parameters : FieldsEnsure options law good meets request)
    (response : node.Ensures options good meets) (failures : NodesEnsure options good meets errors) :
    (MessageNode.message source name request node responseSource errors oneWay details).Ensures
      options law good meets := by
  intro registry protocol admitted holds
  refine .bind_check holds fun _ simple => ?_
  have owner := admitted.beside simple
  refine .bind (parameters owner holds (fun _ member => absurd member List.not_mem_nil)
    List.nodup_nil) fun fields asked _ holds requests => ?_
  refine .bind (response holds) fun declared typed answering holds met => ?_
  have typedGrows := node.grows ownResponse answering
  refine .bind (ensures_slot condition invariant holds owner options.checkSimpleName_response met)
    fun slot answered slotting holds answers => ?_
  have slotGrows := Registry.grows_slot (yields_change.1 slotting)
  refine .bind (failures holds) fun failed after failing holds fails => ?_
  have failGrows := grows_resolveEach ownErrors failing
  have lasting := ((typedGrows.trans slotGrows).trans failGrows).retains
  refine .bind_check holds fun flag isFlag => .bind_check holds fun _ oneWayFits =>
    .bind_check holds fun said isSaid => .pure holds ?_
  obtain ⟨handles, rfl⟩ := exists_of_messageError fun failure member => (fails failure member).2
  rw [isFlag, isSaid] at obeys
  exact {
    simple
    request := fun field member =>
      (requests.1 field member).mono (condition.lasts lasting) lasting
    distinct := requests.2
    response := condition.lasts failGrows.retains _ answers.1
    filled := answers.2
    errors := ⟨handles, rfl, fun handle member => (fails _ (List.mem_map_of_mem member)).1⟩
    oneWay := oneWayFits
    lawful := ⟨source, request, node, responseSource, errors, said.aliases, obeys⟩ }

/-- No messages. -/
theorem MessagesEnsure.nil : MessagesEnsure options law good meets [] :=
  fun _ _ _ holds => .pure holds fun _ member => absurd member List.not_mem_nil

/-- The first message still is resolved as it has to be when the others are. -/
theorem MessagesEnsure.cons (condition : Registry.Condition options law good meets)
    {node : MessageNode} {rest : List MessageNode} (own : MessagesObey .ownOverlays rest)
    (head : node.Ensures options law good meets)
    (tail : MessagesEnsure options law good meets rest) :
    MessagesEnsure options law good meets (node :: rest) := by
  intro registry name admitted holds
  refine .bind (head admitted holds) fun message _ _ holds met => ?_
  refine .bind (tail admitted holds) fun messages after succeeds holds metRest => ?_
  have retains := (grows_resolveMessages own succeeds).retains
  refine .pure holds fun other member => ?_
  rcases List.mem_cons.1 member with rfl | later
  · exact met.mono (condition.lasts retains) retains
  · exact metRest other later

mutual

/-- A walk keeps every invariant, and what it resolves meets the condition. -/
theorem Node.ensures (condition : Registry.Condition options law good meets)
    (invariant : Registry.Invariant options law good meets) : (node : Node) →
      node.Obeys .ownOverlays → node.Obeys law → node.Ensures options good meets
  | .malformed reason source, _, _ => .malformed reason source
  | .reference text, _, _ => .reference condition text
  | .nested source inner, own, obeys =>
    .nested source (inner.ensures condition invariant own.2 obeys.2)
  | .union source branches, own, obeys =>
    .union condition source (nodes_ensure condition invariant branches own.2 obeys.2)
  | .array source items, own, obeys =>
    .array condition source (items.ensures condition invariant own.2 obeys.2)
  | .map source values, own, obeys =>
    .map condition source (values.ensures condition invariant own.2 obeys.2)
  | .record _ _ _ fields, own, obeys =>
    .record condition invariant obeys.1 own.2
      (fields_ensure condition invariant fields own.2 obeys.2)
  | .enum _ _ _ _, _, obeys => .enum condition invariant obeys
  | .fixed _ _ _, _, obeys => .fixed condition invariant obeys
  | .protocol _ _ types messages, own, obeys =>
    .protocol condition invariant obeys.1 own.2.1 own.2.2
      (nodes_ensure condition invariant types own.2.1 obeys.2.1)
      (messages_ensure condition invariant messages own.2.2 obeys.2.2)
  | .logical _ _ _ _ inner, own, obeys =>
    .logical condition invariant obeys.1 (inner.ensures condition invariant own.2 obeys.2)

/-- Walks of nodes in a row keep every invariant, and what they resolve meets the condition. -/
theorem nodes_ensure (condition : Registry.Condition options law good meets)
    (invariant : Registry.Invariant options law good meets) : (nodes : List Node) →
      NodesObey .ownOverlays nodes → NodesObey law nodes → NodesEnsure options good meets nodes
  | [], _, _ => .nil
  | node :: rest, own, obeys =>
    .cons condition own.2 (node.ensures condition invariant own.1 obeys.1)
      (nodes_ensure condition invariant rest own.2 obeys.2)

/-- The walk of a field keeps every invariant, and the field is resolved as it has to be. -/
theorem FieldNode.ensures (condition : Registry.Condition options law good meets)
    (invariant : Registry.Invariant options law good meets) : (node : FieldNode) →
      node.Obeys .ownOverlays → node.Obeys law → node.Ensures options law good meets
  | .malformed reason source, _, _ => .malformed reason source
  | .field _ _ type _ _ _, own, obeys =>
    .field condition invariant obeys.1 (type.ensures condition invariant own.2 obeys.2)

/-- Walks of fields in a row keep every invariant, and the fields are resolved as they have to be.
-/
theorem fields_ensure (condition : Registry.Condition options law good meets)
    (invariant : Registry.Invariant options law good meets) : (nodes : List FieldNode) →
      FieldsObey .ownOverlays nodes → FieldsObey law nodes →
      FieldsEnsure options law good meets nodes
  | [], _, _ => .nil
  | node :: rest, own, obeys =>
    .cons condition own.1 (node.ensures condition invariant own.1 obeys.1)
      (fields_ensure condition invariant rest own.2 obeys.2)

/-- The walk of a message keeps every invariant, and the message is resolved as it has to be. -/
theorem MessageNode.ensures (condition : Registry.Condition options law good meets)
    (invariant : Registry.Invariant options law good meets) : (node : MessageNode) →
      node.Obeys .ownOverlays → node.Obeys law → node.Ensures options law good meets
  | .malformed reason source, _, _ => .malformed reason source
  | .message _ _ request response _ errors _ _, own, obeys =>
    .message condition invariant obeys.1 own.2.2.1 own.2.2.2
      (fields_ensure condition invariant request own.2.1 obeys.2.1)
      (response.ensures condition invariant own.2.2.1 obeys.2.2.1)
      (nodes_ensure condition invariant errors own.2.2.2 obeys.2.2.2)

/-- Walks of messages in a row keep every invariant, and the messages are resolved as they have to
be. -/
theorem messages_ensure (condition : Registry.Condition options law good meets)
    (invariant : Registry.Invariant options law good meets) : (nodes : List MessageNode) →
      MessagesObey .ownOverlays nodes → MessagesObey law nodes →
      MessagesEnsure options law good meets nodes
  | [], _, _ => .nil
  | node :: rest, own, obeys =>
    .cons condition own.2 (node.ensures condition invariant own.1 obeys.1)
      (messages_ensure condition invariant rest own.2 obeys.2)

end

end

/-- The registries of a resolver between its calls: of a new one, and after each call with any
node and any namespace, whether it succeeds or fails. -/
inductive Registry.Reached (options : Options) : Registry → Prop where
  | empty : Reached options .empty
  | resolve {registry : Registry} (node : Json) (around : Option String)
      (reached : Reached options registry) :
      Reached options ((Resolver.mk options registry).resolve node around).2.registry

/-- An invariant holds of every registry that a resolver reaches. -/
theorem Registry.Reached.holds {options : Options} {good : Registry → Prop}
    {meets : Registry → Schema → Prop} {registry : Registry}
    (condition : Registry.Condition options .ownOverlays good meets)
    (invariant : Registry.Invariant options .ownOverlays good meets) (empty : good .empty)
    (reached : registry.Reached options) : good registry := by
  induction reached with
  | empty => exact empty
  | resolve node around _ ih =>
    have own := Node.obeys_ownOverlays node
    exact ((Node.ofJson node).ensures condition invariant own own ih).leaves

/-- What is resolved from a registry that a resolver reaches meets the condition. -/
theorem Registry.Reached.meets {options : Options} {good : Registry → Prop}
    {meets : Registry → Schema → Prop} {registry after : Registry}
    (condition : Registry.Condition options .ownOverlays good meets)
    (invariant : Registry.Invariant options .ownOverlays good meets) (empty : good .empty)
    (reached : registry.Reached options) {node : Json} {around : Option String} {schema : Schema}
    (succeeds : ((Node.ofJson node).resolve options around).Yields registry schema after) :
    meets after schema :=
  have own := Node.obeys_ownOverlays node
  have holds := reached.holds condition invariant empty
  ((Node.ofJson node).ensures condition invariant own own holds).yields schema after succeeds

end AvroGraph
