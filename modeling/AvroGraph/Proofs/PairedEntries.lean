import AvroGraph.Proofs.Registry
import AvroGraph.Registry.Default
import Mathlib.Data.List.Forall2

/-!
# Registries whose entries pair up

Of the entries that it holds, a registry is asked for their names, for the schemas that refer to
them, for the sizes of fixed types and for the symbols of enums. Entries that agree in all of this
may differ in anything else (`Entry.Indistinct`). Registries of such entries, pair by pair
(`Registry.Paired`), answer every question alike, and a change has the same result in both and
leaves registries that pair up again.
-/

namespace AvroGraph

/-! ## Lists and outcomes -/

/-- What agrees on items that are related agrees on lists of them. -/
theorem map_eq_of_forall₂ {α β : Type} {related : α → α → Prop} {f : α → β}
    (same : ∀ left right, related left right → f left = f right) {lefts rights : List α}
    (relates : List.Forall₂ related lefts rights) : lefts.map f = rights.map f := by
  induction relates with
  | nil => rfl
  | cons head _ ih => rw [List.map_cons, List.map_cons, same _ _ head, ih]

/-- Steps that agree on items that are related agree on lists of them. -/
theorem mapM_eq_of_forall₂ {m : Type → Type} [Monad m] [LawfulMonad m] {α β : Type}
    {related : α → α → Prop} {f g : α → m β}
    (same : ∀ left right, related left right → f left = g right) {lefts rights : List α}
    (relates : List.Forall₂ related lefts rights) : lefts.mapM f = rights.mapM g := by
  induction relates with
  | nil => rfl
  | cons head _ ih => rw [List.mapM_cons, List.mapM_cons, same _ _ head, ih]

/-- Items that are related stay so where one of them is changed alike. -/
theorem forall₂_modify {α : Type} {related : α → α → Prop} {f g : α → α}
    (same : ∀ left right, related left right → related (f left) (g right)) {lefts rights : List α}
    (relates : List.Forall₂ related lefts rights) (index : Nat) :
    List.Forall₂ related (lefts.modify index f) (rights.modify index g) := by
  induction relates generalizing index with
  | nil => cases index <;> exact .nil
  | cons head tail ih =>
    cases index with
    | zero => exact .cons (same _ _ head) tail
    | succ index => exact .cons head (ih index)

/-- Two outcomes agree: both succeed with related values, or both fail alike. -/
inductive Agree {ε α : Type} (same : α → α → Prop) : Except ε α → Except ε α → Prop where
  | ok {left right : α} (holds : same left right) : Agree same (.ok left) (.ok right)
  | error (failure : ε) : Agree same (.error failure) (.error failure)

namespace Agree

variable {ε α β : Type} {same : α → α → Prop} {other : β → β → Prop}

/-- A result agrees with itself. -/
theorem refl (reflexive : ∀ value, same value value) (result : Except ε α) :
    Agree same result result := by
  cases result with
  | ok value => exact .ok (reflexive value)
  | error failure => exact .error failure

/-- Results that agree go on in agreement. -/
theorem bind {first second : Except ε α} {next following : α → Except ε β}
    (start : Agree same first second)
    (rest : ∀ left right, same left right → Agree other (next left) (following right)) :
    Agree other (first >>= next) (second >>= following) := by
  cases start with
  | ok holds => exact rest _ _ holds
  | error failure => exact .error failure

/-- What agrees with a success is one. -/
theorem exists_eq_ok {first second : Except ε α} {value : α} (agree : Agree same first second)
    (succeeds : first = .ok value) : ∃ result, second = .ok result ∧ same value result := by
  subst succeeds
  cases agree with
  | ok holds => exact ⟨_, rfl, holds⟩

/-- Agreement is kept where the relation gets coarser. -/
theorem mono {coarser : α → α → Prop} {first second : Except ε α} (agree : Agree same first second)
    (implies : ∀ left right, same left right → coarser left right) :
    Agree coarser first second := by
  cases agree with
  | ok holds => exact .ok (implies _ _ holds)
  | error failure => exact .error failure

end Agree

/-- Only the size of a fixed type bears on whether a logical type fits it. -/
theorem LogicalType.accepts_congr {registry other : Registry} {schema : Schema}
    (same : fixedSize? registry schema = fixedSize? other schema) (overlay : LogicalType) :
    overlay.accepts registry schema = overlay.accepts other schema := by
  cases overlay <;> simp [accepts, same]

/-! ## Entries and registries -/

/-- A relation of entries that no question to a registry tells apart. It lasts where both come to
derive from a base. -/
structure Entry.Indistinct (related : Entry → Entry → Prop) : Prop where
  name_eq : ∀ left right, related left right → left.name = right.name
  kind_eq : ∀ left right, related left right → left.kind = right.kind
  toSchema_eq : ∀ left right, related left right → left.toSchema = right.toSchema
  size_eq : ∀ left right, related left right →
    left.fixed?.map FixedType.size = right.fixed?.map FixedType.size
  symbols_eq : ∀ left right, related left right →
    left.enum?.map Enumeration.symbols = right.enum?.map Enumeration.symbols
  derive : ∀ base left right, related left right → related (left.derive base) (right.derive base)

namespace Entry.Indistinct

variable {related : Entry → Entry → Prop} (indistinct : Entry.Indistinct related)
include indistinct

/-- Entries that cannot be told apart are abstract bases or not alike. -/
theorem isAbstractBase_eq (left right : Entry) (pair : related left right) :
    left.isAbstractBase = right.isAbstractBase := by
  have kind := indistinct.kind_eq left right pair
  cases left <;> cases right <;> first | rfl | cases kind

/-- Both entries are enums, of one name and with the same symbols, or neither is. -/
theorem enum?_cases (left right : Entry) (pair : related left right) :
    (left.enum? = none ∧ right.enum? = none) ∨
      ∃ enumeration other, left.enum? = some enumeration ∧ right.enum? = some other ∧
        enumeration.name = other.name ∧ enumeration.symbols = other.symbols := by
  have kind := indistinct.kind_eq left right pair
  have name := indistinct.name_eq left right pair
  have symbols := indistinct.symbols_eq left right pair
  cases left <;> cases right <;> cases kind
  case enum.enum enumeration other =>
    exact .inr ⟨enumeration, other, rfl, rfl, name, Option.some.inj symbols⟩
  all_goals exact .inl ⟨rfl, rfl⟩

end Entry.Indistinct

/-- Two registries hold related entries at each handle, the same names in their indices, and the
same bases for slots. -/
structure Registry.Paired (related : Entry → Entry → Prop) (left right : Registry) : Prop where
  entries : List.Forall₂ related left.entries right.entries
  index : left.index = right.index
  bases : left.bases = right.bases

/-- Two changes of registries have related results and leave registries that pair up. -/
structure Registry.PairedAfter (related : Entry → Entry → Prop) {α : Type} (same : α → α → Prop)
    (left right : α × Registry) : Prop where
  result : same left.1 right.1
  registry : left.2.Paired related right.2

namespace Registry.Paired

variable {related : Entry → Entry → Prop} {left right : Registry}
  (paired : left.Paired related right)

include paired

/-! ## Questions -/

/-- Registries that pair up have equally many entries. -/
theorem size_eq : left.size = right.size :=
  paired.entries.length_eq

/-- Entries at the same handle are related. -/
theorem get?_rel (handle : Handle) : Option.Rel related (left.get? handle) (right.get? handle) := by
  have pairs := paired.entries
  simp only [get?]
  generalize left.entries = lefts at pairs ⊢
  generalize right.entries = rights at pairs ⊢
  induction pairs generalizing handle with
  | nil => exact .none
  | cons head _ ih =>
    cases handle with
    | zero => exact .some head
    | succ handle => exact ih handle

/-- At each handle both registries have related entries, or neither has any. -/
theorem get?_cases (handle : Handle) :
    (left.get? handle = none ∧ right.get? handle = none) ∨
      ∃ entry other, left.get? handle = some entry ∧ right.get? handle = some other ∧
        related entry other := by
  have pair := paired.get?_rel handle
  generalize left.get? handle = entry at pair ⊢
  generalize right.get? handle = other at pair ⊢
  cases pair with
  | none => exact .inl ⟨rfl, rfl⟩
  | some pair => exact .inr ⟨_, _, rfl, rfl, pair⟩

/-- What agrees on related entries agrees on the entries at a handle. -/
theorem bind_get? {β : Type} {f : Entry → Option β}
    (same : ∀ left right, related left right → f left = f right) (handle : Handle) :
    (left.get? handle).bind f = (right.get? handle).bind f := by
  obtain ⟨isLeft, isRight⟩ | ⟨entry, other, isLeft, isRight, pair⟩ := paired.get?_cases handle
  · rw [isLeft, isRight]
  · rw [isLeft, isRight, Option.bind_some, Option.bind_some, same entry other pair]

/-- What agrees on related entries agrees on the entries at a handle, or on there being none. -/
theorem match_get? {β : Type} {f : Entry → β} {absent : β}
    (same : ∀ left right, related left right → f left = f right) (handle? : Option Handle) :
    (match handle?.bind left.get? with
      | some entry => f entry
      | none => absent) =
    match handle?.bind right.get? with
      | some entry => f entry
      | none => absent := by
  cases handle? with
  | none => rfl
  | some handle =>
    rw [Option.bind_some, Option.bind_some]
    obtain ⟨isLeft, isRight⟩ | ⟨entry, other, isLeft, isRight, pair⟩ := paired.get?_cases handle
    · rw [isLeft, isRight]
    · rw [isLeft, isRight]
      exact same entry other pair

/-- Both find a name at the same handle. -/
theorem find?_eq (name : Name) : left.find? name = right.find? name := by
  rw [find?, find?, paired.index]

/-- Both made the same base for a slot. -/
theorem baseOf?_eq (owner : Name) (slot : String) :
    left.baseOf? owner slot = right.baseOf? owner slot := by
  rw [baseOf?, baseOf?, paired.bases]

section

variable (indistinct : Entry.Indistinct related)
include indistinct

/-- Both refer to a handle by the same schema. -/
theorem schemaOf?_eq (handle : Handle) : left.schemaOf? handle = right.schemaOf? handle := by
  rw [schemaOf?, schemaOf?, Option.map_eq_bind, Option.map_eq_bind]
  refine paired.bind_get? (fun entry other pair => ?_) handle
  rw [Function.comp_apply, Function.comp_apply, indistinct.toSchema_eq entry other pair]

/-- Both link a reference to the same schema. -/
theorem reference_eq (around : Option String) (text : String) :
    left.reference around text = right.reference around text := by
  have finds : left.find? = right.find? := funext paired.find?_eq
  have schemas : left.schemaOf? = right.schemaOf? := funext (paired.schemaOf?_eq indistinct)
  simp only [reference, findFrom, finds, schemas]

/-- Both call a schema the same. -/
theorem nameOf_eq (schema : Schema) : left.nameOf schema = right.nameOf schema := by
  rw [nameOf, nameOf]
  exact paired.match_get? indistinct.name_eq schema.handle?

/-- Both hold a base of a name or not. -/
theorem holdsBase_eq (name : Name) : left.holdsBase name = right.holdsBase name := by
  rw [holdsBase, holdsBase, paired.find?_eq]
  exact paired.match_get? indistinct.isAbstractBase_eq (right.find? name)

/-- Both find the same free name for a base. -/
theorem freeBaseName_eq (name : Name) : left.freeBaseName name = right.freeBaseName name := by
  have holds : left.holdsBase = right.holdsBase := funext (paired.holdsBase_eq indistinct)
  rw [freeBaseName, freeBaseName, holds, paired.index]

/-- A fixed type has the same size in both. -/
theorem fixedSize?_eq (schema : Schema) :
    LogicalType.fixedSize? left schema = LogicalType.fixedSize? right schema := by
  cases schema with
  | named kind handle =>
    cases kind with
    | fixed =>
      simp only [LogicalType.fixedSize?, fixed?]
      obtain ⟨isLeft, isRight⟩ | ⟨entry, other, isLeft, isRight, pair⟩ := paired.get?_cases handle
      · rw [isLeft, isRight]
      · rw [isLeft, isRight]
        exact indistinct.size_eq entry other pair
    | _ => rfl
  | _ => rfl

/-- A logical type accepts the same schemas in both. -/
theorem accepts_eq (schema : Schema) (overlay : LogicalType) :
    overlay.accepts left schema = overlay.accepts right schema :=
  LogicalType.accepts_congr (paired.fixedSize?_eq indistinct schema) overlay

/-- A default has the same literal, or is refused for the same reason. -/
theorem synthesize_eq (declared : Schema) (default : Json) :
    DefaultLiteral.synthesize left declared default =
      DefaultLiteral.synthesize right declared default := by
  cases declared with
  | named kind handle =>
    cases kind with
    | enum =>
      simp only [DefaultLiteral.synthesize]
      obtain ⟨isLeft, isRight⟩ | ⟨entry, other, isLeft, isRight, pair⟩ := paired.get?_cases handle
      · rw [isLeft, isRight]
      · rw [isLeft, isRight, Option.bind_some, Option.bind_some]
        obtain ⟨noEnum, neither⟩ | ⟨enumeration, another, isEnum, isOther, name, symbols⟩ :=
          indistinct.enum?_cases entry other pair
        · rw [noEnum, neither]
        · simp only [isEnum, isOther, DefaultLiteral.ofEnumeration, name, symbols]
    | _ => rfl
  | _ => rfl

/-- A default has the same literal in both. -/
theorem synthesizeOption_eq (declared : Schema) (default : Option Json) :
    DefaultLiteral.synthesizeOption left declared default =
      DefaultLiteral.synthesizeOption right declared default := by
  cases default with
  | none => rfl
  | some value =>
    rw [DefaultLiteral.synthesizeOption, DefaultLiteral.synthesizeOption,
      paired.synthesize_eq indistinct]

/-! ## Changes -/

omit indistinct in
/-- To change one entry alike leaves registries that pair up. -/
theorem update {change later : Entry → Entry} (handle : Handle)
    (same : ∀ left right, related left right → related (change left) (later right)) :
    (left.update handle change).Paired related (right.update handle later) where
  entries := forall₂_modify same paired.entries handle
  index := paired.index
  bases := paired.bases

/-- Links to a base leave registries that pair up. -/
theorem addBases (handles : List Handle) (base : Handle) :
    (handles.foldl (fun result record => result.addBase record base) left).Paired related
      (handles.foldl (fun result record => result.addBase record base) right) := by
  induction handles generalizing left right with
  | nil => exact paired
  | cons handle rest ih => exact ih (paired.update handle (indistinct.derive base))

/-- An entry is registered in both at the same handle, or refused in both. -/
theorem register {entry other : Entry} (pair : related entry other) :
    Agree (PairedAfter related Eq) (left.register entry) (right.register other) := by
  rw [Registry.register, Registry.register, indistinct.name_eq _ _ pair, paired.find?_eq]
  split
  · exact .error _
  · exact .ok ⟨paired.size_eq,
      { entries := List.rel_append paired.entries (.cons pair .nil)
        index := by rw [paired.size_eq, paired.index]
        bases := paired.bases }⟩

/-- A base is made for related branches, if they have the same records among them. -/
theorem synthesizeBase (owner : Name) (slot : String) {branches others : List Schema}
    (bases : ∀ name, related (.abstractBase ⟨name, owner, slot, branches⟩)
      (.abstractBase ⟨name, owner, slot, others⟩))
    (records : recordHandles branches = recordHandles others) :
    Agree (PairedAfter related Eq) (left.synthesizeBase owner slot branches)
      (right.synthesizeBase owner slot others) := by
  rw [Registry.synthesizeBase, Registry.synthesizeBase, paired.baseOf?_eq]
  cases right.baseOf? owner slot with
  | some base => exact .ok ⟨rfl, paired⟩
  | none =>
    dsimp only
    rw [paired.freeBaseName_eq indistinct, records]
    refine .bind (paired.register indistinct (bases _)) ?_
    rintro ⟨base, registered⟩ ⟨_, other⟩ ⟨rfl, registries⟩
    have remembered : (registered.rememberBase owner slot base).Paired related
        (other.rememberBase owner slot base) :=
      ⟨registries.entries, registries.index,
        congrArg (((owner, slot), base) :: ·) registries.bases⟩
    exact .ok ⟨rfl, remembered.addBases indistinct _ base⟩

/-- A slot is filled alike in both, or refused in both. -/
theorem slot (bases : ∀ base, related (.abstractBase base) (.abstractBase base)) (options : Options)
    (owner : Name) (name : String) (declared : Schema) :
    Agree (PairedAfter related Eq) (left.slot options owner name declared)
      (right.slot options owner name declared) := by
  cases declared with
  | union branches underlying nullable =>
    rw [Registry.slot, Registry.slot]
    split
    · refine .bind (paired.synthesizeBase indistinct owner name (fun _ => bases _) rfl) ?_
      rintro ⟨base, registered⟩ ⟨_, other⟩ ⟨rfl, registries⟩
      exact .ok ⟨rfl, registries⟩
    · exact .ok ⟨rfl, paired⟩
  | _ => exact .ok ⟨rfl, paired⟩

end

end Registry.Paired

end AvroGraph
