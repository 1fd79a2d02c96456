import AvroGraph.Proofs.Invariant

/-!
# Resolved entries

What the walks make sure of in the entries of a registry (`Entry.Resolved`): each declaration comes
of a node, and the parts it has been given have passed their checks. Every walk leaves it so
(`Registry.AllResolved.invariant`), whatever condition the schemas in it meet.
-/

namespace AvroGraph

variable {options : Options} {law : NodeLaw} {meets : Registry → Schema → Prop}
  {registry after : Registry} {handle : Handle}

/-- What a walk makes sure of in the parts of an entry. A declaration that has not been given its
parts has none. -/
def Entry.PartsResolved (options : Options) (law : NodeLaw) (meets : Registry → Schema → Prop)
    (registry : Registry) : Entry → Prop
  | .record body | .error body =>
    (body.fields.map Field.name).Nodup ∧
      ∀ field ∈ body.fields, field.Resolved options law meets registry
  | .protocol body =>
    Schema.ResolvedTypes meets registry body.types ∧
      (∀ message ∈ body.messages, message.Resolved options law meets registry) ∧
      ∃ source heading types nodes, law.node (.protocol source heading types nodes) ∧
        (body.messages.map Message.name).Sublist (nodes.map MessageNode.name)
  | .enum _ | .fixed _ | .abstractBase _ => True

/-- An entry as walks leave it. -/
structure Entry.Resolved (options : Options) (law : NodeLaw) (meets : Registry → Schema → Prop)
    (registry : Registry) (entry : Entry) : Prop where
  declared : entry.isAbstractBase = false →
    ∃ node, law.node node ∧ node.Declares options entry.stripped
  parts : entry.PartsResolved options law meets registry

/-- The fields of a record, or the parameters of each message of a protocol. -/
def Entry.fieldLists : Entry → List (List Field)
  | .record body | .error body => [body.fields]
  | .protocol body => body.messages.map Message.request
  | .enum _ | .fixed _ | .abstractBase _ => []

/-- Every entry is as walks leave it. -/
def Registry.AllResolved (options : Options) (law : NodeLaw) (meets : Registry → Schema → Prop)
    (registry : Registry) : Prop :=
  ∀ handle entry, registry.get? handle = some entry → entry.Resolved options law meets registry

namespace Entry.Resolved

variable {entry grown : Entry}

/-- The fields of an entry have passed their checks, and their names are distinct. -/
theorem fields (resolved : entry.Resolved options law meets registry) :
    ∀ fields ∈ entry.fieldLists, (fields.map Field.name).Nodup ∧
      ∀ field ∈ fields, field.Resolved options law meets registry := by
  have parts := resolved.parts
  cases entry with
  | record body | error body => exact List.forall_mem_singleton.2 parts
  | protocol body =>
    intro fields member
    obtain ⟨message, isMessage, rfl⟩ := List.mem_map.1 member
    have resolvedMessage := parts.2.1 message isMessage
    exact ⟨resolvedMessage.distinct, resolvedMessage.request⟩
  | enum | fixed | abstractBase => exact List.forall_mem_nil _

/-- A resolved entry stays so where entries are retained and what schemas meet lasts. -/
theorem mono (lasts : ∀ schema, meets registry schema → meets after schema)
    (retains : registry.Retains after) (resolved : entry.Resolved options law meets registry) :
    entry.Resolved options law meets after where
  declared := resolved.declared
  parts := by
    have parts := resolved.parts
    cases entry with
    | record body | error body =>
      exact ⟨parts.1, fun field member => (parts.2 field member).mono lasts retains⟩
    | protocol body =>
      exact ⟨fun type member => ⟨lasts _ (parts.1 type member).1, (parts.1 type member).2⟩,
        fun message member => (parts.2.1 message member).mono lasts retains, parts.2.2⟩
    | enum | fixed | abstractBase => trivial

/-- The bases that a record derives from do not count among its parts. -/
theorem grows {size : Nat} (resolved : entry.Resolved options law meets registry)
    (growth : entry.Grows size grown) : grown.Resolved options law meets registry where
  declared isDeclared := by
    rw [growth.stripped_eq]
    exact resolved.declared (growth.isAbstractBase_eq ▸ isDeclared)
  parts := by
    have parts := resolved.parts
    cases growth with
    | same => exact parts
    | derives => exact parts

/-- What is registered for a declaration has no parts yet. -/
theorem of_declares {node : Node} (lawful : law.node node)
    (declares : node.Declares options entry) :
    entry.Resolved options law meets registry where
  declared _ := ⟨node, lawful, declares.stripped_eq.symm ▸ declares⟩
  parts := by
    cases declares with
    | record _ isError =>
      cases isError <;> exact ⟨List.nodup_nil, fun _ member => absurd member List.not_mem_nil⟩
    | protocol source types messages =>
      exact ⟨fun _ member => absurd member List.not_mem_nil,
        fun _ member => absurd member List.not_mem_nil,
        ⟨source, _, types, messages, lawful, List.nil_sublist _⟩⟩
    | enum | fixed => trivial

end Entry.Resolved

namespace Registry.AllResolved

variable (lasts : ∀ {before after : Registry}, before.Retains after →
  ∀ schema, meets before schema → meets after schema)
include lasts

/-- One entry is given its parts, and all others stay as they are. -/
theorem update {change : Entry → Entry} (resolved : registry.AllResolved options law meets)
    (same : ∀ entry : Entry, (change entry).stripped = entry.stripped)
    (parts : ∀ entry : Entry, entry.PartsResolved options law meets registry →
      (change entry).PartsResolved options law meets registry) :
    (registry.update handle change).AllResolved options law meets := by
  have retains : registry.Retains (registry.update handle change) := retains_update same
  intro other entry found
  rw [get?_update] at found
  split at found
  · obtain ⟨old, isOld, rfl⟩ := Option.map_eq_some_iff.1 found
    have before := resolved other old isOld
    have changed : (change old).Resolved options law meets registry := by
      refine ⟨fun isDeclared => ?_, parts old before.parts⟩
      rw [same]
      refine before.declared ?_
      rw [← old.isAbstractBase_stripped, ← same, (change old).isAbstractBase_stripped, isDeclared]
    exact changed.mono (lasts retains) retains
  · exact (resolved other entry found).mono (lasts retains) retains

/-- A registry that has grown is as it was but for its new entries. -/
theorem of_grows (resolved : registry.AllResolved options law meets) (grows : registry.Grows after)
    (new : ∀ handle entry, registry.size ≤ handle → after.get? handle = some entry →
      entry.Resolved options law meets after) : after.AllResolved options law meets := by
  intro handle entry found
  by_cases old : handle < registry.size
  · obtain ⟨before, isBefore⟩ := exists_get? old
    obtain ⟨grown, isGrown, growth⟩ := grows.entry handle before old isBefore
    obtain rfl := Option.some.inj (isGrown.symm.trans found)
    exact ((resolved handle before isBefore).mono (lasts grows.retains) grows.retains).grows growth
  · exact new handle entry (Nat.not_lt.1 old) found

/-- Walks leave every entry resolved. -/
theorem invariant :
    Registry.Invariant options law (Registry.AllResolved options law meets) meets where
  register resolved lawful declares registered := by
    refine resolved.of_grows lasts (keeps_register registered) fun other entry new found => ?_
    rw [get?_register registered] at found
    split at found
    · cases found
      exact .of_declares lawful declares
    · exact absurd (lt_size_of_get? found) (Nat.not_lt.2 new)
  setFields resolved distinct fields := by
    refine resolved.update lasts (fun entry => ?_) fun entry parts => ?_ <;> cases entry
    case refine_2.record | refine_2.error => exact ⟨distinct, fields⟩
    all_goals first | rfl | exact parts
  setProtocol resolved lawful names types messages := by
    refine resolved.update lasts (fun entry => ?_) fun entry parts => ?_ <;> cases entry
    case refine_2.protocol =>
      exact ⟨types, messages, _, _, _, _, lawful, names ▸ List.Sublist.refl _⟩
    all_goals first | rfl | exact parts
  slot resolved _ _ _ filled := by
    refine resolved.of_grows lasts (grows_slot filled) fun other entry new found => ?_
    have isBase := isAbstractBase_of_slot filled found new
    refine ⟨fun isDeclared => by simp [isBase] at isDeclared, ?_⟩
    cases entry <;> trivial
  annotate resolved _ _ annotated := by
    obtain rfl | ⟨changed, known, rfl⟩ := eq_or_setOverlay_of_annotate annotated
    · exact resolved
    · refine resolved.update lasts (fun entry => ?_) fun entry parts => ?_ <;> cases entry
      all_goals first | rfl | exact parts

end Registry.AllResolved

end AvroGraph
