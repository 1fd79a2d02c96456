import AvroGraph.Proofs.DistinctKeys
import AvroGraph.Proofs.Whole

/-!
# Declarations and overlays that are read back

What a declaration is written as is resolved to the same declaration (`Heading.resolve_written`), a
fixed type with the logical type it is declared with (`Node.rereads_declared`), and what a logical
type is laid over to the same schema under it (`Node.rereads_known`). None of this needs to know
what is inside a record or a protocol.
-/

namespace AvroGraph

open Resolving

variable {options : Options} {around : Option String} {registry middle after final : Registry}
  {written last : List Handle} {depth : Nat} {json : Json} {schema : Schema}

section

variable {declaration : Declaration}

/-- The heading that is written of an admitted name is read back, unless the name is outside all
namespaces and there is one around. -/
theorem Name.Admitted.resolve_written {name : Name} (admitted : name.Admitted options)
    (enclosed : name.space = none → around = none) (details : Details) :
    (Heading.written name around details).resolve options around = .ok { name, details } :=
  Heading.resolve_eq_ok.2 ⟨admitted.wellFormed.resolve_beside enclosed, admitted.valid, rfl⟩

/-- A declaration is read back from the heading that is written of it. -/
theorem Heading.resolve_written {heading : Heading}
    (resolved : heading.resolve options around = .ok declaration) (details : Details) :
    (Heading.written declaration.name around details).resolve options around =
      .ok { declaration with details } := by
  obtain ⟨named, -⟩ := resolve_eq_ok.1 resolved
  exact (Name.Admitted.of_heading resolved).resolve_written (Name.wellFormed_of_resolve named).2
    details

end

/-- What is registered next is written in full. -/
theorem Registry.InStep.yields_fresh (inStep : final.InStep registry written) {entry complete : Entry}
    {kind : NamedKind} {handle : Handle} {after : List Handle}
    (registered : registry.register entry = .ok (handle, middle))
    (isComplete : final.get? handle = some complete)
    (isDeclared : complete.isAbstractBase = false)
    (writes : ((Schema.named kind handle).project final (final.define depth) around).Yields written
      json after) :
    ∃ inner, (complete.project final (final.define inner) around).Yields (handle :: written) json
      after := by
  have writesNamed := Schema.yields_named.1 writes
  have fresh : handle ∉ written := by
    rw [inStep.written handle complete isComplete isDeclared, handle_register registered]
    exact Nat.lt_irrefl _
  cases depth with
  | zero => exact absurd writesNamed yields_define_zero
  | succ inner => exact ⟨inner, (yields_define_fresh isComplete isDeclared fresh).1 writesNamed⟩

/-- A fixed type that is registered and given its logical type stands behind all entries and is
indexed there. -/
theorem Registry.setOverlay_registered {fixedType : FixedType} {handle : Handle}
    (registered : registry.register (.fixed fixedType) = .ok (handle, after))
    (overlay : LogicalType) :
    after.setOverlay handle overlay = { registry with
      entries := registry.entries ++ [.fixed { fixedType with overlay := some overlay }]
      index := (fixedType.name, registry.size) :: registry.index } := by
  obtain ⟨-, rfl, rfl⟩ := register_eq_ok.1 registered
  rw [setOverlay, update, size]
  simp only [modify_length_append]
  rfl

namespace Node

/-- An enum is read back. -/
theorem rereads_enum {source : Json} {heading : Heading} {symbols : List (Option String)}
    {default : Except Reason (Option String)} (tidy : heading.Tidy Members.reserved)
    (succeeds : ((enum source heading symbols default).resolve options around).Yields registry
      schema after)
    (leads : after.LeadsTo registry.size final) (inStep : final.InStep registry written)
    (writes : (schema.project final (final.define depth) around).Yields written json last) :
    final.InStep after last ∧
      ((ofJson json).resolve options around).Yields registry.rewritten schema after.rewritten := by
  obtain ⟨declaration, enumeration, handle, resolved, checked, register, rfl⟩ :=
    yields_enum.1 succeeds
  obtain ⟨isName, details, isSymbols, isDefault⟩ := Declaration.enumeration_eq_ok checked
  obtain ⟨_, isComplete, -, grows⟩ := leads handle _ (Registry.get?_registered register)
  obtain rfl := (grows (Nat.le_of_eq (Registry.handle_register register).symm)).eq_of_kind
    (by simp [Entry.kind])
  obtain ⟨inner, writesEntry⟩ := inStep.yields_fresh register isComplete rfl writes
  obtain ⟨rfl, rfl⟩ := Entry.yields_enum.1 writesEntry
  have properties : enumeration.properties.Tidy Members.reserved := by
    simpa [details] using tidy.properties resolved
  refine ⟨inStep.register register (fun _ isFixed => by cases isFixed), ?_⟩
  rw [ofJson_enum around properties, isName, ← details]
  refine yields_enum.2 ⟨declaration, enumeration, handle, Heading.resolve_written resolved _, ?_,
    Registry.register_rewritten register, rfl⟩
  rw [← isSymbols, ← isDefault, checked]

/-- A fixed type is read back where it has no logical type. -/
theorem rereads_fixed {source : Json} {heading : Heading} {size : Option Nat}
    (tidy : heading.Tidy Members.reserved)
    (succeeds : ((fixed source heading size).resolve options around).Yields registry schema after)
    (leads : after.LeadsTo registry.size final) (inStep : final.InStep registry written)
    (writes : (schema.project final (final.define depth) around).Yields written json last) :
    final.InStep after last ∧
      ((ofJson json).resolve options around).Yields registry.rewritten schema after.rewritten := by
  obtain ⟨declaration, fixedType, handle, resolved, sized, register, rfl⟩ :=
    yields_fixed.1 succeeds
  obtain ⟨isSize, isName, details, plain⟩ := Declaration.fixedType_eq_ok.1 sized
  obtain ⟨_, isComplete, turns, -⟩ := leads handle _ (Registry.get?_registered register)
  obtain rfl := turns.fixed fixedType rfl
  obtain ⟨inner, writesEntry⟩ := inStep.yields_fresh register isComplete rfl writes
  obtain ⟨rfl, rfl⟩ := Entry.yields_fixed.1 writesEntry
  have coherent : fixedType.Coherent :=
    ⟨by simpa [details] using tidy.properties resolved, by simp [plain]⟩
  have unchanged := FixedType.rewritten_eq_self plain
  refine ⟨inStep.register register (fun _ isFixed => ?_), ?_⟩
  · cases isFixed
    exact coherent
  · rw [ofJson_fixed around coherent plain, isName, unchanged, ← isSize, ← details]
    have registers := Registry.register_rewritten register
    rw [Entry.rewritten, unchanged] at registers
    exact yields_fixed.2 ⟨declaration, fixedType, handle, Heading.resolve_written resolved _,
      sized, registers, rfl⟩

/-- A fixed type that is read with its logical type stands where it stood, as it is read back. -/
theorem yields_overlaid {source inner : Json} {heading : Heading} {declaration : Declaration}
    {size : Option Nat} {fixedType : FixedType} {handle : Handle} {overlay : LogicalType}
    (resolved : heading.resolve options around = .ok declaration)
    (sized : declaration.fixedType size = .ok fixedType)
    (register : registry.register (.fixed fixedType) = .ok (handle, middle))
    (accepted : overlay.accepts middle (.named .fixed handle) = true) :
    let overlaid : FixedType := { fixedType with overlay := some overlay }
    ((logical source overlay.name (.ok (some overlay)) true
        (.fixed inner (.written declaration.name around
          ⟨fixedType.doc, fixedType.aliases, overlaid.rewritten.properties⟩)
          (some fixedType.size))).resolve options around).Yields registry.rewritten
      (.logical (.named .fixed handle) overlay) (middle.setOverlay handle overlay).rewritten := by
  intro overlaid
  let again : FixedType := { fixedType with properties := overlaid.rewritten.properties }
  obtain ⟨-, isName, -, plain⟩ := Declaration.fixedType_eq_ok.1 sized
  have sizedAgain : Declaration.fixedType ⟨declaration.name,
      fixedType.doc, fixedType.aliases, overlaid.rewritten.properties⟩ (some fixedType.size) =
      .ok again :=
    Declaration.fixedType_eq_ok.2 ⟨rfl, isName, rfl, plain⟩
  obtain ⟨free, rfl, rfl⟩ := Registry.register_eq_ok.1 register
  have registers : registry.rewritten.register (.fixed again) = .ok (registry.size,
      { registry.rewritten with
        entries := registry.rewritten.entries ++ [.fixed again]
        index := (again.name, registry.size) :: registry.index }) :=
    Registry.register_eq_ok.2
      ⟨by simpa [again, Entry.name] using free, (Registry.size_rewritten registry).symm,
        by rw [Registry.size_rewritten]; rfl⟩
  refine yields_logical.2 ⟨_, _, yields_fixed.2 ⟨_, again, registry.size,
    Heading.resolve_written resolved _, sizedAgain, registers, rfl⟩,
    Registry.annotate_eq_ok.2 (.inr ⟨overlay, rfl, ?_, rfl, ?_⟩)⟩
  · rw [← accepted]
    refine LogicalType.accepts_congr ?_ overlay
    simp [LogicalType.fixedSize?, Registry.fixed?, Registry.get?_registered register,
      Registry.get?_registered registers, Entry.fixed?, again, Schema.bare]
  · rw [Registry.setOverlay_registered register]
    refine Eq.trans ?_ (Registry.setOverlay_registered registers overlay).symm
    rw [Registry.size_rewritten]
    simp only [Registry.rewritten, List.map_append]
    rfl

/-- A fixed type is read back with the logical type that it is declared with. -/
theorem rereads_overlaid {source inner : Json} {heading : Heading} {size : Option Nat}
    {name : String} {overlay : LogicalType} (tidy : heading.Tidy Members.reserved)
    (reads : ∀ details, heading.details = .ok details →
      LogicalType.read name details.properties = .ok (some overlay))
    (succeeds : ((logical source name (.ok (some overlay)) true
      (.fixed inner heading size)).resolve options around).Yields registry schema after)
    (leads : after.LeadsTo registry.size final) (inStep : final.InStep registry written)
    (writes : (schema.project final (final.define depth) around).Yields written json last) :
    final.InStep after last ∧
      ((ofJson json).resolve options around).Yields registry.rewritten schema after.rewritten := by
  obtain ⟨_, between, declares, annotated⟩ := yields_logical.1 succeeds
  obtain ⟨declaration, fixedType, handle, resolved, sized, register, rfl⟩ :=
    yields_fixed.1 declares
  obtain ⟨-, isName, details, plain⟩ := Declaration.fixedType_eq_ok.1 sized
  obtain ⟨unknown, -⟩ | ⟨_, ⟨⟩, accepted, rfl, isAfter⟩ := Registry.annotate_eq_ok.1 annotated
  · cases unknown
  obtain rfl : after = between.setOverlay handle overlay := isAfter
  let overlaid : FixedType := { fixedType with overlay := some overlay }
  have properties : fixedType.properties.Tidy Members.reserved := by
    simpa [details] using tidy.properties resolved
  have coherent : overlaid.Coherent := by
    refine ⟨properties, ?_⟩
    rintro _ ⟨⟩
    have isRead := reads _ (Heading.resolve_eq_ok.1 resolved).2.2
    rw [LogicalType.name_of_read isRead]
    simpa [details] using isRead
  have kept : (between.setOverlay handle overlay).get? handle = some (.fixed overlaid) :=
    Registry.get?_setOverlay (Registry.get?_registered register) overlay
  obtain ⟨_, isComplete, turns, -⟩ := leads handle _ kept
  obtain rfl := turns.fixed overlaid rfl
  have own : Schema.isOwnOverlay final (Schema.named .fixed handle).bare overlay = true := by
    simp [Schema.isOwnOverlay, Registry.fixed?, isComplete, Entry.fixed?, overlaid, Schema.bare]
  obtain ⟨_, writesNamed, rfl⟩ := Schema.yields_logical.1 writes
  obtain ⟨_, writesEntry⟩ := inStep.yields_fresh register isComplete rfl writesNamed
  obtain ⟨rfl, rfl⟩ := Entry.yields_fixed.1 writesEntry
  constructor
  · refine Registry.InStep.update (inStep.register register (fun _ isFixed => ?_))
      (Registry.amended_setOverlay handle overlay) ?_
    · cases isFixed
      exact ⟨properties, by simp [plain]⟩
    · intro entry changed isEntry isChanged
      rw [Registry.get?_registered register, Option.some.injEq] at isEntry
      subst isEntry
      cases isChanged
      exact coherent
  · rw [if_pos own, ofJson_overlaid around coherent rfl]
    simp only [overlaid, isName]
    exact yields_overlaid resolved sized register accepted

/-- A fixed type without a logical type of its own is read back as it is referred to. -/
theorem rereads_plain {source : Json} {heading : Heading} {size : Option Nat} {handle : Handle}
    {fixedType : FixedType} (tidy : (fixed source heading size).Obeys .tidy)
    (succeeds : ((fixed source heading size).resolve options around).Yields registry schema after)
    (leads : after.LeadsTo registry.size final) (inStep : final.InStep registry written)
    (same : schema.bare = .named .fixed handle)
    (found : after.get? handle = some (.fixed fixedType))
    (writes : (((Entry.fixed fixedType).toSchema handle).project final (final.define depth)
      around).Yields written json last) :
    final.InStep after last ∧
      ((ofJson json).resolve options around).Yields registry.rewritten
        ((Entry.fixed fixedType).toSchema handle) after.rewritten := by
  obtain ⟨_, own, other, _, sized, register, rfl⟩ := yields_fixed.1 succeeds
  obtain ⟨-, -, -, plain⟩ := Declaration.fixedType_eq_ok.1 sized
  cases same
  have isOwn := found.symm.trans (Registry.get?_registered register)
  cases isOwn
  have isNamed : (Entry.fixed fixedType).toSchema handle = .named .fixed handle := by
    simp [Entry.toSchema, plain]
  rw [isNamed] at writes ⊢
  exact rereads_fixed tidy succeeds leads inStep writes

/-- A fixed type with the logical type of its own object is read back as it is referred to. -/
theorem rereads_own {source : Json} {name : String} {overlay : Except Reason (Option LogicalType)}
    {inner : Node} {handle : Handle} {fixedType : FixedType}
    (overlaid : inner.Overlaid name overlay true) (tidy : inner.Obeys .tidy)
    (succeeds : ((logical source name overlay true inner).resolve options around).Yields registry
      schema after)
    (leads : after.LeadsTo registry.size final) (inStep : final.InStep registry written)
    (same : schema.bare = .named .fixed handle)
    (found : after.get? handle = some (.fixed fixedType))
    (writes : (((Entry.fixed fixedType).toSchema handle).project final (final.define depth)
      around).Yields written json last) :
    final.InStep after last ∧
      ((ofJson json).resolve options around).Yields registry.rewritten
        ((Entry.fixed fixedType).toSchema handle) after.rewritten := by
  have bears : schema.bare.isBearer = true := by rw [same]; rfl
  obtain ⟨underlying, between, resolving, annotated⟩ := yields_logical.1 succeeds
  obtain ⟨rfl, rfl, rfl⟩ | ⟨known, rfl, accepted, rfl, rfl⟩ := Registry.annotate_eq_ok.1 annotated
  · rw [underlying.bare_bare] at same bears
    obtain ⟨_, _, _, rfl, -⟩ := overlaid.eq_fixed resolving bears
    exact rereads_plain tidy resolving leads inStep same found writes
  · obtain ⟨_, heading, _, rfl, reads⟩ :=
      overlaid.eq_fixed resolving (LogicalType.isBearer_of_accepts accepted)
    obtain ⟨_, own, other, _, _, register, rfl⟩ := yields_fixed.1 resolving
    cases same
    have given := Registry.get?_setOverlay (Registry.get?_registered register) known
    have isOwn : fixedType = { own with overlay := some known } := by
      simpa using found.symm.trans given
    have isLogical : (Entry.fixed fixedType).toSchema handle =
        .logical (.named .fixed handle) known := by
      simp [Entry.toSchema, isOwn]
    rw [isLogical] at writes ⊢
    exact rereads_overlaid tidy (fun details isDetails => (reads details isDetails).symm)
      succeeds leads inStep writes

/-- A fixed type is read back with the logical type that it is declared with, whatever objects its
declaration is nested in and whatever logical types are laid over it there. -/
theorem rereads_declared {registry after : Registry} {schema : Schema} {written last : List Handle}
    {handle : Handle} {fixedType : FixedType} : (node : Node) → node.Obeys .tidy →
      (node.resolve options around).Yields registry schema after →
      after.LeadsTo registry.size final → final.InStep registry written →
      node.declaredOverlay?.isSome = true → schema.bare = .named .fixed handle →
      after.get? handle = some (.fixed fixedType) →
      (((Entry.fixed fixedType).toSchema handle).project final (final.define depth) around).Yields
        written json last →
      final.InStep after last ∧
        ((ofJson json).resolve options around).Yields registry.rewritten
          ((Entry.fixed fixedType).toSchema handle) after.rewritten
  | .malformed _ _, _, _, _, _, declares, _, _, _ | .reference _, _, _, _, _, declares, _, _, _
  | .union _ _, _, _, _, _, declares, _, _, _ | .array _ _, _, _, _, _, declares, _, _, _
  | .map _ _, _, _, _, _, declares, _, _, _ | .record _ _ _ _, _, _, _, _, declares, _, _, _
  | .enum _ _ _ _, _, _, _, _, declares, _, _, _
  | .protocol _ _ _ _, _, _, _, _, declares, _, _, _ => by cases declares
  | .nested _ inner, tidy, succeeds, leads, inStep, declares, same, found, writes =>
    inner.rereads_declared tidy.2 (yields_nested.1 succeeds) leads inStep declares same found writes
  | .fixed _ _ _, tidy, succeeds, leads, inStep, _, same, found, writes =>
    rereads_plain tidy succeeds leads inStep same found writes
  | .logical _ _ _ true inner, tidy, succeeds, leads, inStep, _, same, found, writes =>
    rereads_own tidy.1.2.1 tidy.2 succeeds leads inStep same found writes
  | .logical _ _ _ false inner, tidy, succeeds, leads, inStep, declares, same, found, writes => by
    have bears : schema.bare.isBearer = true := by rw [same]; rfl
    obtain ⟨underlying, resolving, beneath⟩ := yields_logical_over succeeds bears
    rw [declaredOverlay?, Option.isSome_map] at declares
    exact inner.rereads_declared tidy.2 resolving leads inStep declares (beneath.trans same) found
      writes

/-- What a reference means that is written with its own logical type. -/
theorem eq_of_isOwnOverlay {start : Handle} {text : String} {overlay : LogicalType}
    (leads : registry.LeadsTo start final) (linked : registry.reference around text = .ok schema)
    (own : Schema.isOwnOverlay final schema.bare overlay = true) :
    schema = .logical schema.bare overlay := by
  obtain ⟨_, _, rfl⟩ | ⟨_, _, handle, _, _, schemaOf⟩ := Registry.reference_eq_ok.1 linked
  · cases own
  · obtain ⟨entry, found, rfl⟩ := Option.map_eq_some_iff.1 schemaOf
    obtain ⟨complete, isComplete, turns, -⟩ := leads handle entry found
    cases entry with
    | fixed fixedType =>
      obtain rfl := turns.fixed fixedType rfl
      have bare : ((Entry.fixed fixedType).toSchema handle).bare = .named .fixed handle := by
        simp only [Entry.toSchema]
        cases fixedType.overlay <;> rfl
      rw [bare] at own ⊢
      have isOverlay : fixedType.overlay = some overlay := by
        simpa [Schema.isOwnOverlay, Registry.fixed?, isComplete, Entry.fixed?] using own
      simp [Entry.toSchema, isOverlay]
    | _ => cases own

/-- A reference that is not linked to a base is read back. -/
theorem rereads_reference {start : Handle} {text : String}
    (links : registry.reference around text = .ok schema)
    (noBase : ∀ base, schema ≠ .named .abstractBase base)
    (leads : registry.LeadsTo start final) (avoids : final.AvoidsKeywords)
    (inStep : final.InStep registry written)
    (writes : (schema.project final (final.define depth) around).Yields written json last) :
    final.InStep registry last ∧
      ((ofJson json).resolve options around).Yields registry.rewritten schema
        registry.rewritten := by
  obtain ⟨again, -, linkedAgain, writesText, -⟩ := inStep.reference leads avoids links noBase
  obtain ⟨rfl, rfl⟩ := writesText _ _ _ writes
  rw [← Registry.reference_rewritten] at linkedAgain
  refine ⟨inStep, ?_⟩
  rw [ofJson_string]
  exact yields_reference.2 ⟨linkedAgain, rfl⟩

/-- A logical type over a reference is read back. -/
theorem rereads_annotated {start : Handle} {name text : String} {overlay : LogicalType}
    {members : Members} {linked : Schema}
    (read : LogicalType.read name members = .ok (some overlay))
    (links : registry.reference around text = .ok linked)
    (accepted : overlay.accepts registry linked.bare = true)
    (leads : registry.LeadsTo start final) (avoids : final.AvoidsKeywords)
    (inStep : final.InStep registry written)
    (writes : ((Schema.logical linked.bare overlay).project final (final.define depth)
      around).Yields written json last) :
    final.InStep registry last ∧
      ((ofJson json).resolve options around).Yields registry.rewritten
        (.logical linked.bare overlay) registry.rewritten := by
  have noBase (base : Handle) : linked ≠ .named .abstractBase base := by
    rintro rfl
    cases LogicalType.isBearer_of_accepts accepted
  obtain ⟨again, free, linkedAgain, -, writesBare⟩ := inStep.reference leads avoids links noBase
  obtain ⟨_, writesInner, rfl⟩ := Schema.yields_logical.1 writes
  obtain ⟨rfl, rfl⟩ := writesBare _ _ _ writesInner
  rw [← Registry.reference_rewritten] at linkedAgain
  refine ⟨inStep, ?_⟩
  split
  · next own =>
    rw [← eq_of_isOwnOverlay leads links own, ofJson_string]
    exact yields_reference.2 ⟨linkedAgain, rfl⟩
  · rw [ofJson_project_string read free]
    refine yields_logical.2 ⟨linked, _, yields_nested.2 (yields_reference.2 ⟨linkedAgain, rfl⟩),
      Registry.annotate_eq_ok.2 (.inr ⟨overlay, rfl, ?_, rfl, ?_⟩)⟩
    · rw [LogicalType.accepts_rewritten, accepted]
    · rw [Registry.keepOverlay_false]

/-- A fixed type that comes without the logical type beneath is read back, if it is declared without
one. -/
theorem rereads_stripped {inner : Node} {handle : Handle} (tidy : inner.Obeys .tidy)
    (resolving : (inner.resolve options around).Yields registry schema after)
    (beneath : schema.bare = .named .fixed handle)
    (whole : (Schema.named .fixed handle).isWhole final = true)
    (leads : after.LeadsTo registry.size final) (avoids : final.AvoidsKeywords)
    (inStep : final.InStep registry written)
    (writes : ((Schema.named .fixed handle).project final (final.define depth) around).Yields written
      json last) :
    final.InStep after last ∧
      ((ofJson json).resolve options around).Yields registry.rewritten (.named .fixed handle)
        after.rewritten := by
  have bears : schema.bare.isBearer = true := by rw [beneath]; rfl
  obtain ⟨text, linked, links, same, rfl⟩ | ⟨_, fixedType, declares, found, same⟩ :=
    inner.linked_or_declared tidy resolving bears
  · have isWhole : linked.bare.isWhole final = true := by rw [same, beneath, whole]
    obtain rfl : linked = .named .fixed handle :=
      (Registry.bare_eq_of_isWhole leads links isWhole).symm.trans (same.trans beneath)
    exact rereads_reference links nofun leads avoids inStep writes
  · cases same.symm.trans beneath
    rw [← Registry.toSchema_of_isWhole leads found whole] at writes ⊢
    exact inner.rereads_declared tidy resolving leads inStep (by rw [declares]; rfl) beneath found
      writes

/-- A logical type that is known is read back with what it is laid over. -/
theorem rereads_known {source : Json} {name : String} {known : LogicalType} {declaresFixed : Bool}
    {inner : Node} (tidy : (logical source name (.ok (some known)) declaresFixed inner).Obeys .tidy)
    (succeeds : ((logical source name (.ok (some known)) declaresFixed inner).resolve options
      around).Yields registry schema after)
    (leads : after.LeadsTo registry.size final) (avoids : final.AvoidsKeywords)
    (inStep : final.InStep registry written)
    (writes : (schema.project final (final.define depth) around).Yields written json last) :
    final.InStep after last ∧
      ((ofJson json).resolve options around).Yields registry.rewritten schema after.rewritten := by
  obtain ⟨underlying, between, resolving, annotated⟩ := yields_logical.1 succeeds
  obtain ⟨⟨⟨members, isRead⟩, overlaid, agrees⟩, tidyInner⟩ := tidy
  obtain ⟨⟨⟩, -⟩ | ⟨_, ⟨⟩, accepted, rfl, isAfter⟩ := Registry.annotate_eq_ok.1 annotated
  have bears := LogicalType.isBearer_of_accepts accepted
  cases declaresFixed with
  | true =>
    obtain ⟨_, heading, _, rfl, reads⟩ := overlaid.eq_fixed resolving bears
    exact rereads_overlaid tidyInner (fun details isDetails => (reads details isDetails).symm)
      succeeds leads inStep writes
  | false =>
    rw [Registry.keepOverlay_false] at isAfter
    subst isAfter
    obtain ⟨text, linked, links, same, rfl⟩ | ⟨handle, fixedType, declares, found, same⟩ :=
      inner.linked_or_declared tidyInner resolving bears
    · rw [← same] at accepted writes ⊢
      exact rereads_annotated isRead.symm links accepted leads avoids inStep writes
    · -- The fixed type is declared beneath with this very logical type.
      have isOverlay := agrees_logical.1 agrees known rfl rfl _ declares
      have isOwn : Schema.logical underlying.bare known =
          (Entry.fixed fixedType).toSchema handle := by
        simp [same, Entry.toSchema, isOverlay]
      rw [isOwn] at writes ⊢
      exact inner.rereads_declared tidyInner resolving leads inStep (by rw [declares]; rfl) same
        found writes

end Node

end AvroGraph
