import AvroGraph.Proofs.Invariant

/-!
# The registry is append-only

Whatever calls a resolver is given, in any state and whether they succeed or fail, its registry
keeps what it holds and adds behind it (`Resolver.run_appends`). The one thing that may change about
an entry is that a record comes to derive from bases made since.
-/

namespace AvroGraph

/-- The resolver after calls in a row: each resolves a node within a namespace, and may fail. -/
def Resolver.run (resolver : Resolver) (calls : List (Json × Option String)) : Resolver :=
  calls.foldl (fun current call => (current.resolve call.1 call.2).2) resolver

namespace Registry

variable {before after : Registry}

/-- What is there before stays there, and all that is new stands behind it. -/
structure Appends (before after : Registry) : Prop where
  /-- Entries keep their handles and stay as they are, except for new bases of a record. -/
  entry : ∀ handle entry, before.get? handle = some entry →
    after.get? handle = some entry ∨
      ∃ body bases, entry = .record body ∧
        after.get? handle = some (.record { body with bases := body.bases ++ bases }) ∧
        ∀ base ∈ bases, before.size ≤ base
  /-- Names find what they found. -/
  name : ∀ name handle, before.find? name = some handle → after.find? name = some handle
  lookup : ∀ full handle, before.lookup full = some handle → after.lookup full = some handle
  /-- Fixed types keep their logical types. -/
  fixedType : ∀ handle fixedType, before.fixed? handle = some fixedType →
    after.fixed? handle = some fixedType
  /-- Records and errors keep their fields, also those that were never given any. -/
  fields : ∀ handle body, before.record? handle = some body →
    ∃ later, after.record? handle = some later ∧ later.fields = body.fields
  /-- Abstract bases keep the branches they were made for. -/
  base : ∀ handle body, before.get? handle = some (.abstractBase body) →
    after.get? handle = some (.abstractBase body)

/-- A full name leads where it led. -/
theorem Grows.lookup (grows : before.Grows after) {full : String} {handle : Handle}
    (found : before.lookup full = some handle) : after.lookup full = some handle := by
  unfold Registry.lookup at found ⊢
  split at found
  · exact grows.name _ _ found
  · cases found

/-- Entries that are no records do not change. -/
theorem Grows.get? (grows : before.Grows after) {handle : Handle} {entry : Entry}
    (found : before.get? handle = some entry) (kind : entry.kind ≠ .record) :
    after.get? handle = some entry := by
  obtain ⟨grown, isGrown, growth⟩ := grows.entry handle entry (lt_size_of_get? found) found
  rwa [growth.eq_of_kind kind] at isGrown

/-- A fixed type stays as it is while a registry grows. -/
theorem Grows.fixed? (grows : before.Grows after) {handle : Handle} {fixedType : FixedType}
    (found : before.fixed? handle = some fixedType) : after.fixed? handle = some fixedType := by
  obtain ⟨entry, isEntry, isFixed⟩ := Option.bind_eq_some_iff.1 found
  have kind : entry.kind ≠ .record := by
    intro isRecord
    cases entry <;> simp [Entry.kind, Entry.fixed?] at isRecord isFixed
  rw [Registry.fixed?, grows.get? isEntry kind, Option.bind_some, isFixed]

/-- Records and errors keep all but their bases, which only become more. -/
theorem Grows.record? (grows : before.Grows after) {handle : Handle} {body : Record}
    (found : before.record? handle = some body) :
    ∃ bases, after.record? handle = some { body with bases := body.bases ++ bases } := by
  obtain ⟨entry, isEntry, isRecord⟩ := Option.bind_eq_some_iff.1 found
  obtain ⟨grown, isGrown, growth⟩ := grows.entry handle entry (lt_size_of_get? isEntry) isEntry
  cases growth with
  | same => exact ⟨[], by rw [Registry.record?, isGrown, Option.bind_some, isRecord, List.append_nil]⟩
  | derives _ bases =>
    cases isRecord
    exact ⟨bases, by rw [Registry.record?, isGrown]; rfl⟩

/-- What has grown has only been appended to. -/
theorem Grows.appends (grows : before.Grows after) : before.Appends after where
  entry handle entry found := by
    obtain ⟨grown, isGrown, growth⟩ := grows.entry handle entry (lt_size_of_get? found) found
    cases growth with
    | same => exact .inl isGrown
    | derives body bases made => exact .inr ⟨body, bases, rfl, isGrown, made⟩
  name := grows.name
  lookup _ _ := grows.lookup
  fixedType _ _ := grows.fixed?
  fields _ body found :=
    have ⟨bases, later⟩ := grows.record? found
    ⟨{ body with bases := body.bases ++ bases }, later, rfl⟩
  base _ _ found := grows.get? found (by simp [Entry.kind])

end Registry

namespace Resolver

/-- A call that succeeds is a walk that does. -/
theorem yields_of_resolve {resolver later : Resolver} {node : Json}
    {around : Option String} {schema : Schema}
    (resolved : resolver.resolve node around = (.ok schema, later)) :
    ((Node.ofJson node).resolve resolver.options around).Yields resolver.registry schema
      later.registry := by
  simp only [resolve, Prod.mk.injEq] at resolved
  obtain ⟨isOk, rfl⟩ := resolved
  exact Prod.ext isOk rfl

/-- A call succeeds with the schema that it has for a result. -/
theorem resolve_of_toOption {resolver : Resolver} {node : Json} {around : Option String}
    {schema : Schema} (returned : (resolver.resolve node around).1.toOption = some schema) :
    resolver.resolve node around = (.ok schema, (resolver.resolve node around).2) := by
  generalize resolver.resolve node around = result at returned
  obtain ⟨_ | found, later⟩ := result
  · cases returned
  · cases returned
    rfl

/-- A resolver keeps its policies. -/
theorem options_run (resolver : Resolver) (calls : List (Json × Option String)) :
    (resolver.run calls).options = resolver.options := by
  induction calls generalizing resolver with
  | nil => rfl
  | cons call rest ih => exact ih _

/-- A call lets the registry grow, however it ends. -/
theorem grows_resolve (resolver : Resolver) (node : Json) (around : Option String) :
    resolver.registry.Grows (resolver.resolve node around).2.registry :=
  (Node.ofJson node).keeps (Node.obeys_ownOverlays node) (Nat.le_refl _)

/-- Calls in a row let the registry grow, however they end. -/
theorem grows_run (resolver : Resolver) (calls : List (Json × Option String)) :
    resolver.registry.Grows (resolver.run calls).registry := by
  induction calls generalizing resolver with
  | nil => exact .refl _ _
  | cons call rest ih => exact (resolver.grows_resolve call.1 call.2).trans (ih _)

/-- Calls of a resolver only append to its registry, whatever it holds and however they end. -/
theorem run_appends (resolver : Resolver) (calls : List (Json × Option String)) :
    resolver.registry.Appends (resolver.run calls).registry :=
  (resolver.grows_run calls).appends

end Resolver

/-- What a resolver reaches from a registry that can be reached can be reached. -/
theorem Registry.Reached.run {options : Options} {registry : Registry}
    (reached : registry.Reached options) (calls : List (Json × Option String)) :
    ((Resolver.mk options registry).run calls).registry.Reached options := by
  induction calls generalizing registry with
  | nil => exact reached
  | cons call rest ih => exact ih (.resolve call.1 call.2 reached)

end AvroGraph
