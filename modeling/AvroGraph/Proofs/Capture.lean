import AvroGraph.Proofs.Sound

/-!
# References and abstract bases

Abstract bases stand in the same registry as declarations, so a reference may find either. Over
all registries that a resolver reaches, a reference finds the declaration that it would find if
there were no bases, unless a base has the very name that the reference has where it stands.
-/

namespace AvroGraph

namespace Registry

/-- The handle of the declaration of a name. -/
def declared? (registry : Registry) (name : Name) : Option Handle :=
  registry.entries.findIdx? fun entry => entry.name = name && !entry.isAbstractBase

/-- The handle of the declaration that a reference finds among declarations alone: under its
name in the namespace around it first, and then, if it is not dotted, outside all namespaces. -/
def lookupDeclared (registry : Registry) (around : Option String) (text : String) :
    Option Handle :=
  match Name.resolve text none around with
  | .ok name =>
    (registry.declared? name).or
      (if around.isSome && !text.toList.contains '.' then registry.declared? (.unqualified text)
       else none)
  | .error _ => none

variable {registry : Registry} {options : Options}

/-- A declaration of a name is an entry of that name that is no base. -/
theorem get?_of_declared? {name : Name} {handle : Handle}
    (found : registry.declared? name = some handle) :
    ∃ entry, registry.get? handle = some entry ∧ entry.name = name ∧
      entry.isAbstractBase = false := by
  rw [declared?, List.findIdx?_eq_some_iff_getElem] at found
  obtain ⟨bound, same, -⟩ := found
  exact ⟨registry.entries[handle], List.getElem?_eq_getElem bound, by simpa using same⟩

/-- A name finds its declaration, if it has one. -/
theorem Sound.find?_of_declared? (sound : registry.Sound) {name : Name} {handle : Handle}
    (found : registry.declared? name = some handle) : registry.find? name = some handle := by
  obtain ⟨entry, isEntry, same, -⟩ := get?_of_declared? found
  exact (sound.indexed _ _).2 ⟨entry, isEntry, same⟩

/-- A name without a declaration finds a base or nothing. -/
theorem Sound.holdsBase_of_find? (sound : registry.Sound) {name : Name} {handle : Handle}
    (undeclared : registry.declared? name = none) (found : registry.find? name = some handle) :
    registry.holdsBase name = true := by
  obtain ⟨entry, isEntry, same⟩ := (sound.indexed _ _).1 found
  rw [declared?, List.findIdx?_eq_none_iff] at undeclared
  have isBase := undeclared entry (List.mem_of_getElem? isEntry)
  simpa [holdsBase, found, isEntry, same] using isBase

/-- What a declared name finds is no base. -/
theorem Sound.holdsBase_of_declared? (sound : registry.Sound) {name : Name} {handle : Handle}
    (found : registry.declared? name = some handle) : registry.holdsBase name = false := by
  obtain ⟨entry, isEntry, -, isDeclared⟩ := get?_of_declared? found
  simp [holdsBase, sound.find?_of_declared? found, isEntry, isDeclared]

/-- A name is held by a base if it leads to a handle where a base stands. -/
theorem holdsBase_eq_true {name : Name} :
    registry.holdsBase name = true ↔
      ∃ base body, registry.find? name = some base ∧
        registry.get? base = some (.abstractBase body) := by
  rw [holdsBase]
  cases found : registry.find? name with
  | none => simp
  | some base =>
    cases isEntry : registry.get? base with
    | none => simp [isEntry]
    | some entry => cases entry <;> simp [isEntry, Entry.isAbstractBase]

/-- A text resolves to the entry that it finds, and nothing changes. -/
theorem resolve_text {around : Option String} {text : String} {name : Name} {handle : Handle}
    {entry : Entry} (noKeyword : Primitive.ofKeyword? text = none)
    (named : Name.resolve text none around = .ok name)
    (finds : registry.findFrom around text name = some handle)
    (found : registry.get? handle = some entry) :
    (Resolver.mk options registry).resolve (.string text) around =
      (.ok (entry.toSchema handle), ⟨options, registry⟩) := by
  have walks : ((Node.ofJson (.string text)).resolve options around).Yields registry
      (entry.toSchema handle) registry := by
    rw [Node.ofJson_string]
    exact Node.yields_reference.2 ⟨reference_of_findFrom noKeyword named finds found, rfl⟩
  rw [Resolver.resolve, walks.outcome]

/-- A reference resolves to the declaration that it finds among declarations alone, unless a base
has the name that the reference has where it stands. Then it resolves to that base, and the
declaration is one outside all namespaces. -/
theorem Reached.resolve_declared (reached : registry.Reached options) {around : Option String}
    {text : String} {handle : Handle} (noKeyword : Primitive.ofKeyword? text = none)
    (finds : registry.lookupDeclared around text = some handle) :
    ∃ name entry, Name.resolve text none around = .ok name ∧
      registry.get? handle = some entry ∧ entry.isAbstractBase = false ∧
      (registry.holdsBase name = false →
        (Resolver.mk options registry).resolve (.string text) around =
          (.ok (entry.toSchema handle), ⟨options, registry⟩)) ∧
      ∀ base body, registry.find? name = some base →
        registry.get? base = some (.abstractBase body) →
        entry.name = .unqualified text ∧
        (Resolver.mk options registry).resolve (.string text) around =
          (.ok (.named .abstractBase base), ⟨options, registry⟩) := by
  have sound := reached.sound
  rw [lookupDeclared] at finds
  split at finds
  case h_2 => cases finds
  case h_1 name named =>
  cases declared : registry.declared? name with
  | some direct =>
    -- Found in the namespace around it: names are unique, so no base has this name.
    rw [declared, Option.some_or, Option.some.injEq] at finds
    subst finds
    obtain ⟨entry, isEntry, _, isDeclared⟩ := get?_of_declared? declared
    have found := sound.find?_of_declared? declared
    refine ⟨name, entry, named, isEntry, isDeclared, fun _ => ?_, fun base body isBase body? => ?_⟩
    · exact resolve_text noKeyword named (by rw [findFrom, found, Option.some_or]) isEntry
    · have holds := holdsBase_eq_true.2 ⟨base, body, isBase, body?⟩
      rw [sound.holdsBase_of_declared? declared] at holds
      cases holds
  | none =>
    rw [declared, Option.none_or] at finds
    split at finds
    case isFalse => cases finds
    case isTrue undotted =>
    obtain ⟨entry, isEntry, same, isDeclared⟩ := get?_of_declared? finds
    refine ⟨name, entry, named, isEntry, isDeclared, fun free => ?_, fun base body isBase body? => ?_⟩
    · refine resolve_text noKeyword named ?_ isEntry
      have absent : registry.find? name = none := by
        cases found : registry.find? name with
        | none => rfl
        | some other =>
          rw [sound.holdsBase_of_find? declared found] at free
          cases free
      rw [findFrom, absent, Option.none_or, if_pos undotted, sound.find?_of_declared? finds]
    · refine ⟨same, resolve_text noKeyword named ?_ body?⟩
      rw [findFrom, isBase, Option.some_or]

/-- A document in which the base of the field `f` takes the name `n.RFBase`, while the field `g`
means the record `RFBase`. -/
def capturing : Json :=
  let record (name : String) (fields : List Json) : Json :=
    .object [("type", .string "record"), ("name", .string name), ("fields", .array fields)]
  let field (name : String) (type : Json) : Json :=
    .object [("name", .string name), ("type", type)]
  .array [record "RFBase" [],
    record "n.R" [field "f" (.array [record "A" [], record "B" []]), field "g" (.string "RFBase")]]

/-- What is registered for that document. -/
def captured : Registry :=
  ((Resolver.mk {} .empty).resolve capturing none).2.registry

/-- The registry with the captured reference is one that resolution can reach. -/
theorem captured_reached : captured.Reached {} := by
  unfold captured
  exact .resolve capturing none .empty

/-- A base does capture a reference: in the namespace `n`, `RFBase` finds the base `n.RFBase` in
place of the one declaration of that name. -/
theorem reference_captured :
    ¬ ∀ (options : Options) (registry : Registry) (around : Option String) (text : String)
        (handle : Handle) (entry : Entry),
      registry.Reached options → Primitive.ofKeyword? text = none →
      (∀ space ∈ around, (Text.segments space).any Text.isBlank = false) →
      registry.lookupDeclared around text = some handle → registry.get? handle = some entry →
      ((Resolver.mk options registry).resolve (.string text) around).1 =
        .ok (entry.toSchema handle) := by
  intro claim
  have direct := claim {} captured (some "n") "RFBase" 0
    (.record { name := .unqualified "RFBase", fields := [] }) captured_reached (by decide)
    (by decide +kernel) (by decide +kernel) (by decide +kernel)
  have isBase : ((Resolver.mk {} captured).resolve (.string "RFBase") (some "n")).1.toOption =
      some (.named .abstractBase 4) := by decide +kernel
  rw [direct] at isBase
  cases isBase

/-- In the namespace `n`, the base `n.RFBase` comes before the record `RFBase`. -/
theorem resolve_declared_captured :
    Primitive.ofKeyword? "RFBase" = none ∧
      captured.lookupDeclared (some "n") "RFBase" = some 0 ∧
      ∃ name entry, Name.resolve "RFBase" none (some "n") = .ok name ∧
        captured.get? 0 = some entry ∧ entry.isAbstractBase = false ∧
        (captured.holdsBase name = false →
          (Resolver.mk {} captured).resolve (.string "RFBase") (some "n") =
            (.ok (entry.toSchema 0), ⟨{}, captured⟩)) ∧
        ∀ base body, captured.find? name = some base →
          captured.get? base = some (.abstractBase body) →
          entry.name = .unqualified "RFBase" ∧
          (Resolver.mk {} captured).resolve (.string "RFBase") (some "n") =
            (.ok (.named .abstractBase base), ⟨{}, captured⟩) :=
  ⟨by decide, by decide +kernel,
    Reached.resolve_declared captured_reached (by decide) (by decide +kernel)⟩

end Registry

end AvroGraph
