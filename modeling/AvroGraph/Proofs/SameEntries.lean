import AvroGraph.Entry.Same
import AvroGraph.Proofs.PairedEntries

/-!
# The same entries

Entries are the same if they differ at most in the order of members inside of defaults and extension
properties. No question to a registry tells such entries apart (`Entry.indistinct_same`), and the
changes that a resolution makes lead from registries of the same entries to such registries again.
-/

namespace AvroGraph

/-- Lists are the same if their items are, one by one. -/
theorem sameList_iff {α : Type} {same : α → α → Bool} {lefts rights : List α} :
    sameList same lefts rights = true ↔
      List.Forall₂ (fun left right => same left right = true) lefts rights := by
  induction lefts generalizing rights with
  | nil => cases rights <;> simp [sameList]
  | cons left rest ih =>
    cases rights with
    | nil => simp [sameList]
    | cons right others =>
      rw [List.forall₂_cons, ← ih]
      simp only [sameList, List.length_cons, List.zip_cons_cons, List.all_cons, Nat.add_right_cancel_iff,
        Bool.and_eq_true, decide_eq_true_eq]
      tauto

/-- Fields that are the same. -/
abbrev Field.Same (left right : Field) : Prop :=
  left.same right = true

/-- Messages that are the same. -/
abbrev Message.Same (left right : Message) : Prop :=
  left.same right = true

/-- Entries that are the same. -/
abbrev Entry.Same (left right : Entry) : Prop :=
  left.same right = true

/-- Fields are the same in everything but the order of keys in their defaults and properties. -/
theorem Field.same_iff {left right : Field} :
    left.Same right ↔
      { left with default := none, properties := [] } =
          { right with default := none, properties := [] } ∧
        Json.sameOption left.default right.default = true ∧
        Json.sameObject left.properties right.properties = true := by
  rw [Same, same, Bool.and_eq_true, Bool.and_eq_true, decide_eq_true_eq, and_assoc]

/-- Fields that are the same have one name. -/
theorem Field.Same.name_eq {left right : Field} (same : left.Same right) : left.name = right.name := by
  injection (Field.same_iff.1 same).1

/-- Fields that are the same have the same literals, or lack them for the same reasons. -/
theorem Field.literals_eq {fields others : List Field} (same : List.Forall₂ Field.Same fields others) :
    fields.map (fun field => (field.literal, field.remarks)) =
      others.map fun field => (field.literal, field.remarks) := by
  refine map_eq_of_forall₂ (fun left right fields => ?_) same
  have rest := (Field.same_iff.1 fields).1
  exact Prod.ext (by injection rest) (by injection rest)

/-- Records are the same if their fields and properties are. -/
theorem Record.same_iff {left right : Record} :
    left.same right = true ↔
      { left with fields := [], properties := [] } =
          { right with fields := [], properties := [] } ∧
        List.Forall₂ Field.Same left.fields right.fields ∧
        Json.sameObject left.properties right.properties = true := by
  rw [same, Bool.and_eq_true, Bool.and_eq_true, decide_eq_true_eq, and_assoc, sameList_iff]

/-- Messages are the same if their parameters and properties are. -/
theorem Message.same_iff {left right : Message} :
    left.Same right ↔
      { left with request := [], properties := [] } =
          { right with request := [], properties := [] } ∧
        List.Forall₂ Field.Same left.request right.request ∧
        Json.sameObject left.properties right.properties = true := by
  rw [Same, same, Bool.and_eq_true, Bool.and_eq_true, decide_eq_true_eq, and_assoc, sameList_iff]

/-- Protocols are the same if their messages and properties are. -/
theorem Protocol.same_iff {left right : Protocol} :
    (Entry.protocol left).Same (.protocol right) ↔
      { left with messages := [], properties := [] } =
          { right with messages := [], properties := [] } ∧
        List.Forall₂ Message.Same left.messages right.messages ∧
        Json.sameObject left.properties right.properties = true := by
  rw [Entry.Same, Entry.same, Bool.and_eq_true, Bool.and_eq_true, decide_eq_true_eq, and_assoc,
    sameList_iff]

/-- Enums are the same if their properties are. -/
theorem Enumeration.same_iff {left right : Enumeration} :
    (Entry.enum left).Same (.enum right) ↔
      { left with properties := [] } = { right with properties := [] } ∧
        Json.sameObject left.properties right.properties = true := by
  rw [Entry.Same, Entry.same, Bool.and_eq_true, decide_eq_true_eq]

/-- Fixed types are the same if their properties are. -/
theorem FixedType.same_iff {left right : FixedType} :
    (Entry.fixed left).Same (.fixed right) ↔
      { left with properties := [] } = { right with properties := [] } ∧
        Json.sameObject left.properties right.properties = true := by
  rw [Entry.Same, Entry.same, Bool.and_eq_true, decide_eq_true_eq]

namespace Entry

/-- An entry without the parts in which the order of members shows. -/
def bare : Entry → Entry
  | .record body => .record { body with fields := [], properties := [] }
  | .error body => .error { body with fields := [], properties := [] }
  | .enum enumeration => .enum { enumeration with properties := [] }
  | .fixed fixedType => .fixed { fixedType with properties := [] }
  | .protocol body => .protocol { body with messages := [], properties := [] }
  | .abstractBase base => .abstractBase base

/-- Entries that are the same are equal but for the parts in which the order of members shows. -/
theorem Same.bare_eq {left right : Entry} (same : left.Same right) : left.bare = right.bare := by
  cases left <;> cases right <;> try cases same
  case record.record => exact congrArg Entry.record (Record.same_iff.1 same).1
  case error.error => exact congrArg Entry.error (Record.same_iff.1 same).1
  case enum.enum => exact congrArg Entry.enum (Enumeration.same_iff.1 same).1
  case fixed.fixed => exact congrArg Entry.fixed (FixedType.same_iff.1 same).1
  case protocol.protocol => exact congrArg Entry.protocol (Protocol.same_iff.1 same).1
  case abstractBase.abstractBase =>
    exact congrArg Entry.abstractBase (of_decide_eq_true same)

/-- What does not depend on the bared parts is equal for entries that are the same. -/
theorem Same.congr {β : Type} {f : Entry → β} (bared : ∀ entry : Entry, f entry.bare = f entry)
    {left right : Entry} (same : left.Same right) : f left = f right := by
  rw [← bared left, same.bare_eq, bared right]

/-- No question to a registry tells entries apart that are the same. -/
theorem indistinct_same : Entry.Indistinct Entry.Same where
  name_eq _ _ := Same.congr fun entry => by cases entry <;> rfl
  kind_eq _ _ := Same.congr fun entry => by cases entry <;> rfl
  toSchema_eq _ _ := Same.congr fun entry => by cases entry <;> rfl
  size_eq _ _ := Same.congr (f := fun entry => entry.fixed?.map FixedType.size) fun entry => by
    cases entry <;> rfl
  symbols_eq _ _ := Same.congr (f := fun entry => entry.enum?.map Enumeration.symbols) fun entry => by
    cases entry <;> rfl
  derive base left right same := by
    cases left <;> cases right <;> try cases same
    case record.record body other =>
      obtain ⟨rest, fields, properties⟩ := Record.same_iff.1 same
      have bases : body.bases = other.bases := by injection rest
      simp only [derive, bases]
      split
      · exact same
      · exact Record.same_iff.2 ⟨congrArg (fun bare : Record =>
          { bare with bases := other.bases ++ [base] }) rest, fields, properties⟩
    all_goals exact same

/-- A base has no properties, and is the same as itself. -/
theorem same_abstractBase (base : AbstractBase) : (abstractBase base).Same (.abstractBase base) :=
  decide_eq_true rfl

/-- The literals of all defaults in an entry, and why some have none. -/
def literals : Entry → List (Option String × Option String)
  | .record body | .error body => body.fields.map fun field => (field.literal, field.remarks)
  | .protocol body => body.messages.flatMap fun message =>
      message.request.map fun field => (field.literal, field.remarks)
  | _ => []

/-- Entries that are the same have the same literals. -/
theorem Same.literals_eq {left right : Entry} (same : left.Same right) :
    left.literals = right.literals := by
  cases left <;> cases right <;> try cases same
  case record.record | error.error =>
    exact Field.literals_eq (Record.same_iff.1 same).2.1
  case protocol.protocol body other =>
    have requests := map_eq_of_forall₂
      (fun left right (messages : Message.Same left right) =>
        Field.literals_eq (Message.same_iff.1 messages).2.1) (Protocol.same_iff.1 same).2.1
    exact congrArg List.flatten requests
  all_goals rfl

end Entry

/-! ## Registries -/

/-- Registries with the same entries in the same order, and the same bases for slots. -/
abbrev Registry.Same (left right : Registry) : Prop :=
  left.Paired Entry.Same right

namespace Registry.Same

variable {left right : Registry} (registries : left.Same right)
include registries

/-- Records that are given the same fields are the same. -/
theorem setFields (handle : Handle) {fields others : List Field}
    (same : List.Forall₂ Field.Same fields others) :
    (left.setFields handle fields).Same (right.setFields handle others) :=
  registries.update handle fun entry other entries => by
    cases entry <;> cases other <;> try cases entries
    case record.record | error.error =>
      obtain ⟨rest, -, properties⟩ := Record.same_iff.1 entries
      exact Record.same_iff.2 ⟨rest, same, properties⟩
    all_goals exact entries

/-- Protocols that are given the same types and messages are the same. -/
theorem setProtocol (handle : Handle) (types : List Schema) {messages others : List Message}
    (same : List.Forall₂ Message.Same messages others) :
    (left.setProtocol handle types messages).Same (right.setProtocol handle types others) :=
  registries.update handle fun entry other entries => by
    cases entry <;> cases other <;> try cases entries
    case protocol.protocol =>
      obtain ⟨rest, -, properties⟩ := Protocol.same_iff.1 entries
      exact Protocol.same_iff.2
        ⟨congrArg (fun bare : Protocol => { bare with types }) rest, same, properties⟩
    all_goals exact entries

/-- Fixed types that are given a logical type are the same. -/
theorem setOverlay (handle : Handle) (overlay : LogicalType) :
    (left.setOverlay handle overlay).Same (right.setOverlay handle overlay) :=
  registries.update handle fun entry other entries => by
    cases entry <;> cases other <;> try cases entries
    case fixed.fixed =>
      obtain ⟨rest, properties⟩ := FixedType.same_iff.1 entries
      exact FixedType.same_iff.2
        ⟨congrArg (fun bare : FixedType => { bare with overlay := some overlay }) rest, properties⟩
    all_goals exact entries

/-- A logical type is laid over a type in both or refused in both. -/
theorem annotate (declaresFixed : Bool) (inner : Schema) (name : String)
    (overlay : Except Reason (Option LogicalType)) :
    Agree (PairedAfter Entry.Same Eq) (left.annotate declaresFixed inner name overlay)
      (right.annotate declaresFixed inner name overlay) := by
  refine .bind (.refl Eq.refl overlay) ?_
  rintro known _ rfl
  have annotated : inner.bare.annotate left name known = inner.bare.annotate right name known := by
    cases known with
    | none => rfl
    | some overlay =>
      rw [Schema.annotate, Schema.annotate, registries.accepts_eq Entry.indistinct_same,
        registries.nameOf_eq Entry.indistinct_same]
  rw [annotated]
  refine .bind (.refl Eq.refl _) ?_
  rintro schema _ rfl
  split
  · refine .ok ⟨rfl, ?_⟩
    cases declaresFixed with
    | false => exact registries
    | true => exact registries.setOverlay _ _
  · exact .ok ⟨rfl, registries⟩

end Registry.Same

end AvroGraph
