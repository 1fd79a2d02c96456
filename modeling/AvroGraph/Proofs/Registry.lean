import AvroGraph.Registry.Reference
import AvroGraph.Registry.Slot

/-!
# Changes of the registry

What each change of a registry succeeds on and what it leaves, and the frame that all of them
keep: an entry stays at its handle and stays what it is, except that a record may come to derive
from bases made since (`Registry.Keeps`).
-/

namespace AvroGraph

/-- Checks in a row succeed exactly when each of them does. -/
theorem bind_eq_ok {ε α β : Type} {first : Except ε α} {next : α → Except ε β} {result : β} :
    first >>= next = .ok result ↔ ∃ value, first = .ok value ∧ next value = .ok result := by
  cases first <;> simp [bind, Except.bind]

/-- To name an error in another way does not make a check succeed. -/
theorem mapError_eq_ok {ε ε' α : Type} {checked : Except ε α} {change : ε → ε'} {value : α} :
    checked.mapError change = .ok value ↔ checked = .ok value := by
  cases checked with
  | ok found =>
    constructor <;> rintro ⟨⟩ <;> rfl
  | error error => exact ⟨nofun, nofun⟩

/-- An entry as it stands later on: only a record changes, and only by deriving from bases that
come after a given number of entries. -/
inductive Entry.Grows (size : Nat) : Entry → Entry → Prop where
  | same (entry : Entry) : Grows size entry entry
  | derives (body : Record) (bases : List Handle) (made : ∀ base ∈ bases, size ≤ base) :
      Grows size (.record body) (.record { body with bases := body.bases ++ bases })

namespace Entry.Grows

variable {size : Nat} {before after : Entry}

/-- What has grown may grow further. -/
theorem trans {middle : Entry} (first : Grows size before middle)
    (second : Grows size middle after) : Grows size before after := by
  cases first with
  | same => exact second
  | derives body bases made =>
    generalize equal : Entry.record { body with bases := body.bases ++ bases } = middle at second
    cases second with
    | same => exact equal ▸ .derives body bases made
    | derives _ more later =>
      cases equal
      rw [List.append_assoc]
      refine .derives body (bases ++ more) fun base member => ?_
      rcases List.mem_append.1 member with early | late
      · exact made base early
      · exact later base late

/-- What grows by bases from a handle on grows by bases from a lower one on. -/
theorem weaken {smaller : Nat} (grows : Grows size before after) (le : smaller ≤ size) :
    Grows smaller before after := by
  cases grows with
  | same => exact .same _
  | derives body bases made =>
    exact .derives body bases fun base member => Nat.le_trans le (made base member)

/-- An entry that grows keeps its name. -/
@[simp]
theorem name_eq (grows : Grows size before after) : after.name = before.name := by
  cases grows <;> rfl

/-- An entry that grows keeps its kind. -/
@[simp]
theorem kind_eq (grows : Grows size before after) : after.kind = before.kind := by
  cases grows <;> rfl

/-- An entry that grows is an abstract base or not as before. -/
@[simp]
theorem isAbstractBase_eq (grows : Grows size before after) :
    after.isAbstractBase = before.isAbstractBase := by
  cases grows <;> rfl

/-- An entry that grows is referred to by the same schema. -/
@[simp]
theorem toSchema_eq (grows : Grows size before after) (handle : Handle) :
    after.toSchema handle = before.toSchema handle := by
  cases grows <;> rfl

/-- Only a record can change at all. -/
theorem eq_of_kind (grows : Grows size before after) (kind : before.kind ≠ .record) :
    after = before := by
  cases grows with
  | same => rfl
  | derives => exact absurd rfl kind

/-- The bases of a record are kept, in order and before all others. -/
theorem record {body : Record} (grows : Grows size (.record body) after) :
    ∃ bases, after = .record { body with bases := body.bases ++ bases } ∧
      ∀ base ∈ bases, size ≤ base := by
  cases grows with
  | same => exact ⟨[], by simp, by simp⟩
  | derives _ bases made => exact ⟨bases, rfl, made⟩

end Entry.Grows

/-- An entry that is made to derive from a base: a record does so, once. -/
def Entry.derive (base : Handle) : Entry → Entry
  | .record body =>
    if base ∈ body.bases then .record body else .record { body with bases := body.bases ++ [base] }
  | entry => entry

namespace Registry

variable {size : Nat} {before middle after registry : Registry}

/-- To link a record to a base is to change one entry. -/
theorem addBase_eq_update (registry : Registry) (handle base : Handle) :
    registry.addBase handle base = registry.update handle (Entry.derive base) := rfl

/-- An entry is found below the size of its registry. -/
theorem lt_size_of_get? {handle : Handle} {entry : Entry} (found : registry.get? handle = some entry) :
    handle < registry.size :=
  (List.getElem?_eq_some_iff.1 found).1

/-- Below the size of a registry there are entries. -/
theorem exists_get? {handle : Handle} (bound : handle < registry.size) :
    ∃ entry, registry.get? handle = some entry :=
  ⟨_, List.getElem?_eq_getElem bound⟩

/-- The entries below a handle are kept, and so are the names in the index and the bases made for
slots. -/
structure Keeps (size : Nat) (before after : Registry) : Prop where
  size_le : before.size ≤ after.size
  entry : ∀ handle entry, handle < size → before.get? handle = some entry →
    ∃ grown, after.get? handle = some grown ∧ entry.Grows size grown
  name : ∀ name handle, before.find? name = some handle → after.find? name = some handle
  base : ∀ owner slot base, before.baseOf? owner slot = some base →
    after.baseOf? owner slot = some base

namespace Keeps

/-- A registry keeps its own entries. -/
theorem refl (size : Nat) (registry : Registry) : Keeps size registry registry where
  size_le := Nat.le_refl _
  entry _ entry _ found := ⟨entry, found, .same entry⟩
  name _ _ found := found
  base _ _ _ found := found

/-- What keeps entries twice keeps them. -/
theorem trans (first : Keeps size before middle) (second : Keeps size middle after) :
    Keeps size before after where
  size_le := Nat.le_trans first.size_le second.size_le
  entry handle entry bound found := by
    obtain ⟨grown, foundMiddle, grows⟩ := first.entry handle entry bound found
    obtain ⟨last, foundLast, growsOn⟩ := second.entry handle grown bound foundMiddle
    exact ⟨last, foundLast, grows.trans growsOn⟩
  name name handle found := second.name _ _ (first.name _ _ found)
  base owner slot base found := second.base _ _ _ (first.base _ _ _ found)

/-- What keeps entries below a handle keeps those below a lower one. -/
theorem weaken {smaller : Nat} (keeps : Keeps size before after) (le : smaller ≤ size) :
    Keeps smaller before after where
  size_le := keeps.size_le
  entry handle entry bound found := by
    obtain ⟨grown, foundLast, grows⟩ := keeps.entry handle entry (Nat.lt_of_lt_of_le bound le) found
    exact ⟨grown, foundLast, grows.weaken le⟩
  name := keeps.name
  base := keeps.base

end Keeps

/-- A registry that grew: all its entries are kept. -/
abbrev Grows (before after : Registry) : Prop :=
  Keeps before.size before after

/-- A registry that has grown may grow further. -/
theorem Grows.trans (first : Grows before middle) (second : Grows middle after) :
    Grows before after :=
  Keeps.trans first (second.weaken first.size_le)

section

variable {entry : Entry} {handle : Handle}

/-- A registered entry stands behind all others, which stay where they are. -/
theorem get?_register (registered : registry.register entry = .ok (handle, after))
    (other : Handle) :
    after.get? other = if other = registry.size then some entry else registry.get? other := by
  obtain ⟨-, -, rfl⟩ := register_eq_ok.1 registered
  simp only [get?, size, List.getElem?_append]
  split
  · next bound => simp [Nat.ne_of_lt bound]
  · next bound =>
    by_cases equal : other = registry.entries.length
    · simp [equal]
    · have beyond : registry.entries.length < other :=
        Nat.lt_of_le_of_ne (Nat.not_lt.1 bound) (Ne.symm equal)
      simp [equal, Nat.sub_ne_zero_of_lt beyond, Nat.le_of_lt beyond]

/-- An entry that is registered makes the registry larger by one. -/
theorem size_register (registered : registry.register entry = .ok (handle, after)) :
    after.size = registry.size + 1 := by
  obtain ⟨-, -, rfl⟩ := register_eq_ok.1 registered
  simp [size]

/-- An entry is registered behind the others. -/
theorem handle_register (registered : registry.register entry = .ok (handle, after)) :
    handle = registry.size :=
  (register_eq_ok.1 registered).2.1

/-- What is registered is found where it is registered. -/
theorem get?_registered (registered : registry.register entry = .ok (handle, after)) :
    after.get? handle = some entry := by
  rw [get?_register registered, if_pos (handle_register registered)]

/-- A registered name leads to its handle, and all others lead where they led. -/
theorem find?_register (registered : registry.register entry = .ok (handle, after)) (name : Name) :
    after.find? name = if name = entry.name then some handle else registry.find? name := by
  obtain ⟨-, rfl, rfl⟩ := register_eq_ok.1 registered
  rw [find?, List.lookup_cons]
  by_cases same : name = entry.name
  · rw [if_pos same, beq_iff_eq.2 same]
  · rw [if_neg same, beq_eq_false_iff_ne.2 same]
    rfl

/-- A fixed type is found with the logical type that it has been given. -/
theorem get?_setOverlay {fixedType : FixedType}
    (found : registry.get? handle = some (.fixed fixedType)) (overlay : LogicalType) :
    (registry.setOverlay handle overlay).get? handle =
      some (.fixed { fixedType with overlay := some overlay }) := by
  rw [setOverlay, get?_update, if_pos rfl, found]
  rfl

/-- Which base was made for a slot stays as it is when an entry is registered. -/
theorem baseOf?_register (registered : registry.register entry = .ok (handle, after))
    (owner : Name) (slot : String) : after.baseOf? owner slot = registry.baseOf? owner slot := by
  obtain ⟨-, -, rfl⟩ := register_eq_ok.1 registered
  rfl

/-- An entry that is registered keeps the others. -/
theorem keeps_register (registered : registry.register entry = .ok (handle, after)) :
    Keeps registry.size registry after where
  size_le := by rw [size_register registered]; omega
  entry other found bound exists_ := by
    refine ⟨found, ?_, .same found⟩
    rw [get?_register registered, if_neg (Nat.ne_of_lt bound), exists_]
  name name other found := by
    have different : name ≠ entry.name := by
      rintro rfl
      rw [(register_eq_ok.1 registered).1] at found
      cases found
    rw [find?_register registered, if_neg different, found]
  base owner slot base found := by rw [baseOf?_register registered, found]

/-- A change at a handle leaves all entries below it alone. -/
theorem keeps_update (change : Entry → Entry) (bound : size ≤ handle) :
    Keeps size registry (registry.update handle change) where
  size_le := by simp
  entry other entry below found := by
    have different : handle ≠ other := by
      rintro rfl
      exact absurd below (Nat.not_lt.2 bound)
    exact ⟨entry, by rw [get?_update, if_neg different, found], .same entry⟩
  name _ _ found := found
  base _ _ _ found := found

/-- A link to a base behind the others keeps them. -/
theorem keeps_addBase {base : Handle} (made : size ≤ base) :
    Keeps size registry (registry.addBase handle base) where
  size_le := by simp [addBase]
  entry other entry below found := by
    rw [addBase, get?_update]
    split
    · rw [found, Option.map_some]
      refine ⟨_, rfl, ?_⟩
      cases entry with
      | record body =>
        simp only
        split
        · exact .same _
        · exact .derives body [base] (by simpa using made)
      | _ => exact .same _
    · exact ⟨entry, found, .same entry⟩
  name _ _ found := found
  base _ _ _ found := found

/-- Links in a row to a base behind the others keep them. -/
theorem keeps_addBases {base : Handle} (made : size ≤ base) (handles : List Handle) :
    Keeps size registry
      (handles.foldl (fun result record => result.addBase record base) registry) := by
  induction handles generalizing registry with
  | nil => exact .refl _ _
  | cons handle rest ih => exact (keeps_addBase made).trans ih

/-- To remember a base keeps those that are remembered, if there is none for its slot. -/
theorem keeps_rememberBase {owner : Name} {slot : String} {base : Handle}
    (fresh : registry.baseOf? owner slot = none) :
    Keeps size registry (registry.rememberBase owner slot base) where
  size_le := Nat.le_refl _
  entry _ entry _ found := ⟨entry, found, .same entry⟩
  name _ _ found := found
  base other name made found := by
    have different : (other, name) ≠ (owner, slot) := by
      rintro ⟨⟩
      rw [fresh] at found
      cases found
    rw [baseOf?, rememberBase, List.lookup_cons, beq_eq_false_iff_ne.2 different]
    exact found

end

/-- What it takes to make a base: it is registered under a free name, remembered for its slot,
and every record branch is made to derive from it. -/
theorem synthesizeBase_eq_ok {owner : Name} {slot : String} {branches : List Schema}
    {base : Handle} (fresh : registry.baseOf? owner slot = none) :
    registry.synthesizeBase owner slot branches = .ok (base, after) ↔
      ∃ registered,
        registry.register (.abstractBase
          ⟨registry.freeBaseName (AbstractBase.nameFor owner slot), owner, slot, branches⟩) =
            .ok (base, registered) ∧
        after = (recordHandles branches).foldl (fun result record => result.addBase record base)
          (registered.rememberBase owner slot base) := by
  simp only [synthesizeBase, fresh, bind_eq_ok]
  constructor
  · rintro ⟨⟨handle, registered⟩, register, ⟨⟩⟩
    exact ⟨registered, register, rfl⟩
  · rintro ⟨registered, register, rfl⟩
    exact ⟨(base, registered), register, rfl⟩

/-- A slot has its base and nothing changes, or it is given a new one. -/
theorem synthesizeBase_cases {owner : Name} {slot : String} {branches : List Schema}
    {base : Handle} (made : registry.synthesizeBase owner slot branches = .ok (base, after)) :
    registry.baseOf? owner slot = some base ∧ after = registry ∨
      registry.baseOf? owner slot = none ∧ ∃ registered,
        registry.register (.abstractBase
          ⟨registry.freeBaseName (AbstractBase.nameFor owner slot), owner, slot, branches⟩) =
            .ok (base, registered) ∧
        after = (recordHandles branches).foldl (fun result record => result.addBase record base)
          (registered.rememberBase owner slot base) := by
  cases known : registry.baseOf? owner slot with
  | some old =>
    rw [synthesizeBase_of_baseOf? known] at made
    cases made
    exact .inl ⟨rfl, rfl⟩
  | none => exact .inr ⟨rfl, (synthesizeBase_eq_ok known).1 made⟩

/-- The registry grows by a base that is made. -/
theorem grows_synthesizeBase {owner : Name} {slot : String} {branches : List Schema}
    {base : Handle} (made : registry.synthesizeBase owner slot branches = .ok (base, after)) :
    registry.Grows after := by
  obtain ⟨-, rfl⟩ | ⟨new, registered, register, rfl⟩ := synthesizeBase_cases made
  · exact .refl _ _
  · have fresh : registered.baseOf? owner slot = none := by
      rw [baseOf?_register register, new]
    have remembered : Keeps registry.size registered (registered.rememberBase owner slot base) :=
      keeps_rememberBase fresh
    have made : registry.size ≤ base := Nat.le_of_eq (handle_register register).symm
    exact (keeps_register register).trans (remembered.trans (keeps_addBases made _))

/-! ## Conditions on every entry -/

/-- A condition holds of every entry. -/
def Every (registry : Registry) (holds : Entry → Prop) : Prop :=
  ∀ handle entry, registry.get? handle = some entry → holds entry

section

variable {holds : Entry → Prop}

instance [DecidablePred holds] : Decidable (registry.Every holds) :=
  decidable_of_iff (∀ entry ∈ registry.entries, holds entry) (by
    simp only [Every, get?, List.mem_iff_getElem?]
    exact ⟨fun all handle entry found => all entry ⟨handle, found⟩,
      fun all entry ⟨handle, found⟩ => all handle entry found⟩)

/-- Anything holds of every entry of an empty registry. -/
theorem every_empty : Registry.empty.Every holds :=
  fun _ _ found => by simp [Registry.empty, get?] at found

/-- What holds of every entry is kept by a change that keeps it of each. -/
theorem Every.update {handle : Handle} {change : Entry → Entry} (every : registry.Every holds)
    (changed : ∀ entry, holds entry → holds (change entry)) :
    (registry.update handle change).Every holds := by
  intro other entry found
  rw [get?_update] at found
  split at found
  · obtain ⟨old, isOld, rfl⟩ := Option.map_eq_some_iff.1 found
    exact changed old (every other old isOld)
  · exact every other entry found

/-- What holds of every entry and of a new one holds of all once that is registered. -/
theorem Every.register (every : registry.Every holds) (new : holds entry)
    (registered : registry.register entry = .ok (handle, after)) : after.Every holds := by
  intro other found isFound
  rw [get?_register registered] at isFound
  split at isFound
  · cases isFound
    exact new
  · exact every other found isFound

end

/-! ## Declarations -/

/-- The entries that the document declares: all but the abstract bases. -/
def declarations (registry : Registry) : List Entry :=
  registry.entries.filter (!·.isAbstractBase)

/-- A change of one entry does not show in a view of the declarations that it does not change. -/
theorem map_declarations_update {α : Type} {view : Entry → α} {change : Entry → Entry}
    (stays : ∀ entry, (change entry).isAbstractBase = entry.isAbstractBase)
    (same : ∀ entry, view (change entry) = view entry) (registry : Registry) (handle : Handle) :
    (registry.update handle change).declarations.map view = registry.declarations.map view := by
  simp only [declarations, update]
  induction registry.entries generalizing handle with
  | nil => rw [List.modify_nil]
  | cons entry rest ih =>
    cases handle with
    | zero =>
      simp only [List.modify_zero_cons, List.filter_cons, stays]
      split <;> simp [same]
    | succ handle =>
      simp only [List.modify_succ_cons, List.filter_cons]
      split <;> simp [ih]

end Registry

/-- The branches of a union; other schemas have none. -/
def Schema.branches : Schema → List Schema
  | .union branches _ _ => branches
  | _ => []

/-- Null is the only schema that is null. -/
theorem Schema.isNull_iff {schema : Schema} : schema.isNull = true ↔ schema = .null := by
  cases schema with
  | primitive type => cases type <;> simp [isNull]
  | _ => simp [isNull]

/-- What is left of an annotated named schema is not annotated. -/
theorem Schema.bare_ne_logical (schema : Schema) {underlying : Schema} {overlay : LogicalType}
    (named : underlying.isNamed = true) : schema.bare ≠ .logical underlying overlay := by
  cases schema with
  | logical inner kept =>
    rw [bare]
    split
    · next innerNamed =>
      rintro rfl
      simp [isNamed, handle?] at innerNamed
    · next unnamed =>
      rintro ⟨⟩
      exact unnamed named
  | _ => simp [bare]

namespace Registry

variable {size : Nat} {registry after : Registry} {options : Options} {owner : Name}
  {name : String} {declared : Schema} {slot : Slot}

/-- A slot is given a base exactly if bases are wanted and its branches call for one; otherwise
it keeps its type and nothing changes. -/
theorem slot_eq_ok :
    registry.slot options owner name declared = .ok (slot, after) ↔
      if options.synthesizeBases && callsForBase declared.branches then
        ∃ base, registry.synthesizeBase owner name declared.branches = .ok (base, after) ∧
          slot = ⟨.named .abstractBase base, .named .abstractBase base, declared.isNullable⟩
      else after = registry ∧ slot = ⟨declared, declared.underlying, declared.isNullable⟩ := by
  cases declared with
  | union branches underlying nullable =>
    simp only [Registry.slot, Schema.branches, Schema.isNullable, Schema.underlying]
    by_cases wanted : (options.synthesizeBases && callsForBase branches) = true
    · rcases made : registry.synthesizeBase owner name branches with _ | ⟨base, synthesized⟩
      · simp [wanted, bind, Except.bind]
      · simp only [wanted, ↓reduceIte, bind, Except.bind, pure, Except.pure]
        grind
    · simp only [wanted, Bool.false_eq_true, ↓reduceIte]
      grind
  | _ =>
    simp only [Registry.slot, Schema.branches, callsForBase, Schema.isNullable, Schema.underlying,
      List.length_nil, Bool.false_and, Bool.and_false, Bool.false_eq_true, ↓reduceIte]
    grind

/-- To fill a slot changes nothing but to give it a new base. -/
theorem slot_cases (filled : registry.slot options owner name declared = .ok (slot, after)) :
    after = registry ∨ callsForBase declared.branches = true ∧ ∃ base registered,
      registry.register (.abstractBase ⟨registry.freeBaseName (AbstractBase.nameFor owner name),
        owner, name, declared.branches⟩) = .ok (base, registered) ∧
      after = (recordHandles declared.branches).foldl
        (fun result record => result.addBase record base)
        (registered.rememberBase owner name base) := by
  rw [slot_eq_ok] at filled
  split at filled
  · next wanted =>
    obtain ⟨base, made, -⟩ := filled
    obtain ⟨-, same⟩ | ⟨-, registered, new⟩ := synthesizeBase_cases made
    · exact .inl same
    · exact .inr ⟨(Bool.and_eq_true_iff.1 wanted).2, base, registered, new⟩
  · exact .inl filled.1

/-- The registry grows where a slot is filled. -/
theorem grows_slot (resolved : registry.slot options owner name declared = .ok (slot, after)) :
    registry.Grows after := by
  rw [slot_eq_ok] at resolved
  split at resolved
  · obtain ⟨base, made, _⟩ := resolved
    exact grows_synthesizeBase made
  · obtain ⟨rfl, _⟩ := resolved
    exact .refl _ _

/-- The registry in which the fixed type that an object declares keeps its logical type. -/
def keepOverlay (registry : Registry) (declaresFixed : Bool) (underlying : Schema)
    (overlay : LogicalType) : Registry :=
  match underlying with
  | .named .fixed handle =>
    if declaresFixed then registry.setOverlay handle overlay else registry
  | _ => registry

/-- A type that does not declare a fixed type there is not given the logical type. -/
theorem keepOverlay_false (registry : Registry) (underlying : Schema) (overlay : LogicalType) :
    registry.keepOverlay false underlying overlay = registry := by
  unfold keepOverlay
  split <;> rfl

/-- A logical type that is not known leaves the bare schema; a known one has to fit it, and is
kept by a fixed type declared in the same object. -/
theorem annotate_eq_ok {declaresFixed : Bool} {inner schema : Schema} {text : String}
    {overlay : Except Reason (Option LogicalType)} :
    registry.annotate declaresFixed inner text overlay = .ok (schema, after) ↔
      (overlay = .ok none ∧ schema = inner.bare ∧ after = registry) ∨
      ∃ known, overlay = .ok (some known) ∧ known.accepts registry inner.bare = true ∧
        schema = .logical inner.bare known ∧
        after = registry.keepOverlay declaresFixed inner.bare known := by
  rcases overlay with reason | _ | known
  · simp [annotate, bind, Except.bind]
  · have unannotated : ∀ handle kept, inner.bare ≠ .logical (.named .fixed handle) kept :=
      fun handle kept => inner.bare_ne_logical rfl
    simp only [annotate, Schema.annotate, bind, Except.bind, pure, Except.pure]
    grind
  · simp only [annotate, Schema.annotate, bind, Except.bind, pure, Except.pure]
    generalize inner.bare = underlying
    by_cases accepted : known.accepts registry underlying = true
    · simp only [accepted, ↓reduceIte]
      cases underlying with
      | named kind handle => cases kind <;> simp only [keepOverlay] <;> grind
      | _ => simp only [keepOverlay]; grind
    · simp [accepted]

/-- A reference is a primitive keyword or finds an entry under the name it resolves to. -/
theorem reference_eq_ok {around : Option String} {text : String} {schema : Schema} :
    registry.reference around text = .ok schema ↔
      (∃ primitive, Primitive.ofKeyword? text = some primitive ∧ schema = .primitive primitive) ∨
      Primitive.ofKeyword? text = none ∧ ∃ name handle,
        Name.resolve text none around = .ok name ∧
        registry.findFrom around text name = some handle ∧
        registry.schemaOf? handle = some schema := by
  rw [reference]
  cases Primitive.ofKeyword? text with
  | some primitive => simp [eq_comm]
  | none =>
    simp only [bind_eq_ok, mapError_eq_ok, reduceCtorEq, false_and, exists_false, false_or,
      true_and]
    refine exists_congr fun name => ?_
    cases found : registry.findFrom around text name with
    | none => simp
    | some handle =>
      cases entry : registry.schemaOf? handle <;> simp [entry, pure, Except.pure]

/-- A reference to an entry means the schema of that entry. -/
theorem reference_of_findFrom {around : Option String} {text : String} {name : Name}
    {handle : Handle} {entry : Entry} (noKeyword : Primitive.ofKeyword? text = none)
    (named : Name.resolve text none around = .ok name)
    (finds : registry.findFrom around text name = some handle)
    (found : registry.get? handle = some entry) :
    registry.reference around text = .ok (entry.toSchema handle) := by
  refine reference_eq_ok.2 (.inr ⟨noKeyword, name, handle, named, finds, ?_⟩)
  rw [schemaOf?, found, Option.map_some]

end Registry

end AvroGraph
