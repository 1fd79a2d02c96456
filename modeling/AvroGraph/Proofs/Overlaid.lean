import AvroGraph.Proofs.InStep

/-!
# What logical types are laid over

Objects can be nested in each other as types before a declaration or a reference is reached. What
bears a logical type is linked there by a reference, or it is a fixed type that is declared there
(`Node.linked_or_declared`).
-/

namespace AvroGraph

namespace Schema

/-- Whether a logical type can be laid over a schema, as far as its kind goes. -/
def isBearer : Schema → Bool
  | .primitive _ | .named .fixed _ => true
  | _ => false

/-- There is no second logical type beneath the first. -/
theorem bare_bare (schema : Schema) : schema.bare.bare = schema.bare := by
  cases schema with
  | logical underlying overlay =>
    cases underlying <;> rfl
  | _ => rfl

end Schema

/-- What a logical type accepts can bear one. -/
theorem LogicalType.isBearer_of_accepts {registry : Registry} {overlay : LogicalType}
    {schema : Schema} (accepted : overlay.accepts registry schema = true) :
    schema.isBearer = true := by
  obtain ⟨type, rfl⟩ | ⟨handle, fixedType, rfl, -⟩ := LogicalType.cases_of_accepts accepted <;> rfl

/-- The logical type over an entry's schema is the one of a fixed type that is declared with it. -/
theorem Entry.bare_toSchema (entry : Entry) (handle : Handle) :
    (entry.toSchema handle).bare = entry.toSchema handle ∨
      ∃ fixedType overlay, entry = .fixed fixedType ∧ fixedType.overlay = some overlay ∧
        entry.toSchema handle = .logical (.named .fixed handle) overlay := by
  cases entry with
  | fixed fixedType =>
    cases isOverlay : fixedType.overlay with
    | none => exact .inl (by simp [toSchema, isOverlay, Schema.bare])
    | some overlay => exact .inr ⟨fixedType, overlay, rfl, isOverlay, by simp [toSchema, isOverlay]⟩
  | _ => exact .inl rfl

namespace Node

variable {options : Options} {around : Option String} {registry after final : Registry}
  {schema : Schema} {start : Handle}

/-- A named schema that a logical type is laid over is a fixed type. -/
theorem bare_eq_or_fixed : (node : Node) →
    (node.resolve options around).Yields registry schema after →
    schema.bare = schema ∨ ∃ handle overlay, schema = .logical (.named .fixed handle) overlay
  | .malformed _ _, succeeds => absurd succeeds yields_malformed
  | .reference _, succeeds => by
    obtain ⟨_, _, rfl⟩ | ⟨_, _, handle, _, _, schemaOf⟩ :=
      Registry.reference_eq_ok.1 (yields_reference.1 succeeds).1
    · exact .inl rfl
    · obtain ⟨entry, -, rfl⟩ := Option.map_eq_some_iff.1 schemaOf
      exact (entry.bare_toSchema handle).imp_right
        fun ⟨_, overlay, _, _, same⟩ => ⟨_, overlay, same⟩
  | .nested _ inner, succeeds => inner.bare_eq_or_fixed (yields_nested.1 succeeds)
  | .union _ _, succeeds => by
    obtain ⟨_, -, rfl⟩ := yields_union.1 succeeds
    exact .inl rfl
  | .array _ _, succeeds => by
    obtain ⟨_, -, rfl⟩ := yields_array.1 succeeds
    exact .inl rfl
  | .map _ _, succeeds => by
    obtain ⟨_, -, rfl⟩ := yields_map.1 succeeds
    exact .inl rfl
  | .record _ _ _ _, succeeds => by
    obtain ⟨_, _, _, _, _, _, _, _, _, rfl⟩ := yields_record.1 succeeds
    exact .inl rfl
  | .enum _ _ _ _, succeeds => by
    obtain ⟨_, _, _, _, _, _, rfl⟩ := yields_enum.1 succeeds
    exact .inl rfl
  | .fixed _ _ _, succeeds => by
    obtain ⟨_, _, _, _, _, _, rfl⟩ := yields_fixed.1 succeeds
    exact .inl rfl
  | .protocol _ _ _ _, succeeds => by
    obtain ⟨_, _, _, _, _, _, _, _, _, _, _, _, rfl⟩ := yields_protocol.1 succeeds
    exact .inl rfl
  | .logical _ _ _ _ inner, succeeds => by
    obtain ⟨underlying, between, -, annotated⟩ := yields_logical.1 succeeds
    obtain ⟨-, rfl, -⟩ | ⟨known, -, accepted, rfl, -⟩ := Registry.annotate_eq_ok.1 annotated
    · exact .inl underlying.bare_bare
    · obtain ⟨type, same⟩ | ⟨handle, fixedType, same, -⟩ := LogicalType.cases_of_accepts accepted
      · exact .inl (by rw [same]; rfl)
      · exact .inr ⟨handle, known, by rw [same]⟩

/-- What bears a logical type from its own object is the declaration of a fixed type. -/
theorem Overlaid.eq_fixed {inner : Node} {name : String}
    {overlay : Except Reason (Option LogicalType)}
    (overlaid : inner.Overlaid name overlay true)
    (succeeds : (inner.resolve options around).Yields registry schema after)
    (bears : schema.bare.isBearer = true) :
    ∃ source heading size, inner = .fixed source heading size ∧
      ∀ details, heading.details = .ok details →
        overlay = LogicalType.read name details.properties := by
  cases inner with
  | malformed => exact absurd succeeds yields_malformed
  | nested => cases overlaid
  | fixed source heading size => exact ⟨source, heading, size, rfl, overlaid.2⟩
  | record _ isError =>
    obtain ⟨_, _, _, _, _, _, _, _, _, rfl⟩ := yields_record.1 succeeds
    cases isError <;> cases bears
  | enum =>
    obtain ⟨_, _, _, _, _, _, rfl⟩ := yields_enum.1 succeeds
    cases bears
  | array =>
    obtain ⟨_, _, rfl⟩ := yields_array.1 succeeds
    cases bears
  | map =>
    obtain ⟨_, _, rfl⟩ := yields_map.1 succeeds
    cases bears
  | _ => exact overlaid.elim

/-- A logical type over something else leaves the registry alone, and what is beneath both of them
is the same. -/
theorem yields_logical_over {source : Json} {name : String}
    {overlay : Except Reason (Option LogicalType)} {inner : Node}
    (succeeds : ((logical source name overlay false inner).resolve options around).Yields registry
      schema after) (bears : schema.bare.isBearer = true) :
    ∃ underlying, (inner.resolve options around).Yields registry underlying after ∧
      underlying.bare = schema.bare := by
  obtain ⟨underlying, between, resolving, annotated⟩ := yields_logical.1 succeeds
  refine ⟨underlying, ?_⟩
  obtain ⟨-, rfl, rfl⟩ | ⟨known, -, accepted, rfl, same⟩ := Registry.annotate_eq_ok.1 annotated
  · exact ⟨resolving, underlying.bare_bare.symm⟩
  · rw [Registry.keepOverlay_false] at same
    subst same
    refine ⟨resolving, ?_⟩
    obtain ⟨type, isBare⟩ | ⟨handle, _, isBare, -⟩ := LogicalType.cases_of_accepts accepted
    · rw [isBare] at bears
      cases bears
    · rw [isBare]
      rfl

/-- A fixed type that is declared by itself is declared without a logical type. -/
theorem declared_of_fixed {source : Json} {heading : Heading} {size : Option Nat}
    (succeeds : ((fixed source heading size).resolve options around).Yields registry schema after) :
    ∃ handle fixedType, fixedType.overlay = none ∧
      after.get? handle = some (.fixed fixedType) ∧ schema = .named .fixed handle := by
  obtain ⟨declaration, fixedType, handle, -, sized, register, rfl⟩ := yields_fixed.1 succeeds
  obtain ⟨-, -, -, plain⟩ := Declaration.fixedType_eq_ok.1 sized
  exact ⟨handle, fixedType, plain, Registry.get?_registered register, rfl⟩

/-- A logical type of its own object is the one that the fixed type there is declared with. -/
theorem declared_of_own {source : Json} {name : String}
    {overlay : Except Reason (Option LogicalType)} {inner : Node}
    (overlaid : inner.Overlaid name overlay true)
    (succeeds : ((logical source name overlay true inner).resolve options around).Yields registry
      schema after) (bears : schema.bare.isBearer = true) :
    ∃ handle fixedType,
      (logical source name overlay true inner).declaredOverlay? = some fixedType.overlay ∧
      after.get? handle = some (.fixed fixedType) ∧ schema.bare = .named .fixed handle := by
  obtain ⟨underlying, between, resolving, annotated⟩ := yields_logical.1 succeeds
  obtain ⟨rfl, rfl, rfl⟩ | ⟨known, rfl, accepted, rfl, rfl⟩ := Registry.annotate_eq_ok.1 annotated
  · rw [underlying.bare_bare] at bears
    obtain ⟨_, _, _, rfl, -⟩ := overlaid.eq_fixed resolving bears
    obtain ⟨handle, fixedType, plain, found, rfl⟩ := declared_of_fixed resolving
    refine ⟨handle, fixedType, ?_, found, rfl⟩
    rw [declaredOverlay?_logical, declaredOverlay?_fixed, plain]
    rfl
  · obtain ⟨_, _, _, rfl, -⟩ :=
      overlaid.eq_fixed resolving (LogicalType.isBearer_of_accepts accepted)
    obtain ⟨handle, fixedType, -, found, rfl⟩ := declared_of_fixed resolving
    refine ⟨handle, { fixedType with overlay := some known }, ?_,
      Registry.get?_setOverlay found known, rfl⟩
    rw [declaredOverlay?_logical, declaredOverlay?_fixed]
    rfl

/-- Whatever objects are nested in each other, what bears a logical type there is linked by a
reference, or it is a fixed type that is declared there with a logical type or without one. -/
theorem linked_or_declared {registry after : Registry} {schema : Schema} : (node : Node) →
    node.Obeys .tidy → (node.resolve options around).Yields registry schema after →
      schema.bare.isBearer = true →
      (∃ text linked, registry.reference around text = .ok linked ∧ linked.bare = schema.bare ∧
          after = registry) ∨
        ∃ handle fixedType, node.declaredOverlay? = some fixedType.overlay ∧
          after.get? handle = some (.fixed fixedType) ∧ schema.bare = .named .fixed handle
  | .malformed _ _, _, succeeds, _ => absurd succeeds yields_malformed
  | .reference text, _, succeeds, _ => by
    obtain ⟨linked, rfl⟩ := yields_reference.1 succeeds
    exact .inl ⟨text, _, linked, rfl, rfl⟩
  | .nested _ inner, tidy, succeeds, bears =>
    inner.linked_or_declared tidy.2 (yields_nested.1 succeeds) bears
  | .union _ _, _, succeeds, bears => by
    obtain ⟨_, -, rfl⟩ := yields_union.1 succeeds
    cases bears
  | .array _ _, _, succeeds, bears => by
    obtain ⟨_, -, rfl⟩ := yields_array.1 succeeds
    cases bears
  | .map _ _, _, succeeds, bears => by
    obtain ⟨_, -, rfl⟩ := yields_map.1 succeeds
    cases bears
  | .record _ isError _ _, _, succeeds, bears => by
    obtain ⟨_, _, _, _, _, _, _, _, _, rfl⟩ := yields_record.1 succeeds
    cases isError <;> cases bears
  | .enum _ _ _ _, _, succeeds, bears => by
    obtain ⟨_, _, _, _, _, _, rfl⟩ := yields_enum.1 succeeds
    cases bears
  | .protocol _ _ _ _, _, succeeds, bears => by
    obtain ⟨_, _, _, _, _, _, _, _, _, _, _, _, rfl⟩ := yields_protocol.1 succeeds
    cases bears
  | .fixed _ _ _, _, succeeds, _ => by
    obtain ⟨handle, fixedType, plain, found, rfl⟩ := declared_of_fixed succeeds
    exact .inr ⟨handle, fixedType, by rw [declaredOverlay?_fixed, plain], found, rfl⟩
  | .logical _ _ _ true _, tidy, succeeds, bears =>
    .inr (declared_of_own tidy.1.2.1 succeeds bears)
  | .logical _ _ _ false inner, tidy, succeeds, bears => by
    obtain ⟨underlying, resolving, same⟩ := yields_logical_over succeeds bears
    rw [← same] at bears ⊢
    refine (inner.linked_or_declared tidy.2 resolving bears).imp_right
      fun ⟨handle, fixedType, declares, found⟩ => ?_
    refine ⟨handle, fixedType, ?_, found⟩
    rw [declaredOverlay?_logical, declares]
    rfl

end Node

end AvroGraph
