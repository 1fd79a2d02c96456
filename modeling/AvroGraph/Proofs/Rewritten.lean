import AvroGraph.Entry.Json
import AvroGraph.Node.OfJson
import AvroGraph.Proofs.Members
import AvroGraph.Proofs.PairedEntries

/-!
# Fixed types that are written and read back

The parameters of a logical type are also properties of the fixed type that is declared with it,
and they come first where it is written. So a fixed type that is read back has its properties in
another order (`FixedType.rewritten`), and that is all that becomes of a registry
(`Registry.rewritten`): no change and no question depends on that order.
-/

namespace AvroGraph

/-- A number is read from a natural number alone. -/
theorem Json.nat?_eq_some {json : Json} {value : Nat} :
    json.nat? = some value ↔ json = .ofNat value := by
  constructor
  · intro isNat
    cases json with
    | number number =>
      cases number with
      | integer integer =>
        cases integer with
        | ofNat natural =>
          cases isNat
          rfl
        | negSucc => cases isNat
      | double => cases isNat
    | _ => cases isNat
  · rintro rfl
    rfl

namespace LogicalType

variable {name : String} {members other : Members} {overlay : LogicalType}

/-- The parameters of a logical type, as members. -/
def parameters : LogicalType → Members
  | .decimal precision scale =>
    ("precision", .ofNat precision) :: if scale = 0 then [] else [("scale", .ofNat scale)]
  | _ => []

/-- A logical type is written with its name first. -/
theorem members_eq (overlay : LogicalType) :
    overlay.members = ("logicalType", .string overlay.name) :: overlay.parameters := by
  cases overlay <;> rfl

/-- A logical type has its parameters at distinct keys. -/
theorem distinct_parameters (overlay : LogicalType) :
    (overlay.parameters.map Prod.fst).Nodup := by
  cases overlay with
  | decimal precision scale => by_cases zero : scale = 0 <;> simp [parameters, zero]
  | _ => exact List.nodup_nil

/-- What makes a decimal: a precision in bounds, and a scale within it that may go without
saying if it is zero. -/
theorem readDecimal_eq_ok :
    readDecimal members = .ok overlay ↔
      ∃ precision scale, overlay = .decimal precision scale ∧
        members.get? "precision" = some (.ofNat precision) ∧
        (members.get? "scale" = some (.ofNat scale) ∨
          members.get? "scale" = none ∧ scale = 0) ∧
        0 < precision ∧ precision ≤ precisionLimit ∧ scale ≤ precision := by
  constructor
  · intro read
    rw [readDecimal] at read
    split at read
    · cases read
    · next precision found =>
      obtain ⟨value, isValue, isNat⟩ := Option.bind_eq_some_iff.1 found
      rw [Json.nat?_eq_some.1 isNat] at isValue
      split at read
      · next bounds =>
        split at read
        · next absent =>
          cases read
          exact ⟨precision, 0, rfl, isValue, .inr ⟨absent, rfl⟩, bounds.1, bounds.2, Nat.zero_le _⟩
        · next scaleValue present =>
          split at read
          · next scale isScale =>
            rw [Json.nat?_eq_some.1 isScale] at present
            split at read
            · next fits =>
              cases read
              exact ⟨precision, scale, rfl, isValue, .inl present, bounds.1, bounds.2, fits⟩
            · cases read
          · cases read
      · cases read
  · rintro ⟨precision, scale, rfl, isPrecision, isScale, positive, bounded, fits⟩
    have natural (value : Nat) : (Json.ofNat value).nat? = some value := Json.nat?_eq_some.2 rfl
    rcases isScale with present | ⟨absent, rfl⟩
    · simp [readDecimal, isPrecision, present, natural, positive, bounded, fits]
    · simp [readDecimal, isPrecision, absent, natural, positive, bounded]

/-- Nothing but a decimal is read by the name of decimals. -/
theorem read_decimal_eq_ok :
    LogicalType.read "decimal" members = .ok (some overlay) ↔ readDecimal members = .ok overlay := by
  rw [LogicalType.read, if_pos rfl]
  cases readDecimal members <;> simp [Except.map]

/-- A logical type is read under its own name. -/
theorem name_of_read (read : LogicalType.read name members = .ok (some overlay)) :
    overlay.name = name := by
  by_cases isDecimal : name = "decimal"
  · subst isDecimal
    obtain ⟨precision, scale, rfl, -⟩ := readDecimal_eq_ok.1 (read_decimal_eq_ok.1 read)
    rfl
  · rw [LogicalType.read, if_neg isDecimal, Except.ok.injEq] at read
    simpa using List.find?_some read

/-- Only the precision and the scale of an object bear on the logical type that is read. -/
theorem read_congr (precision : members.get? "precision" = other.get? "precision")
    (scale : members.get? "scale" = other.get? "scale") :
    LogicalType.read name members = LogicalType.read name other := by
  rw [LogicalType.read, LogicalType.read, readDecimal, readDecimal, precision, scale]

/-- A decimal that is read has the parameters that are written. -/
theorem readDecimal_of_read {precision scale : Nat}
    (read : LogicalType.read name members = .ok (some (.decimal precision scale))) :
    readDecimal members = .ok (.decimal precision scale) := by
  obtain rfl : "decimal" = name := name_of_read read
  exact read_decimal_eq_ok.1 read

/-- A logical type is read from its own members if it is read from any. -/
theorem read_of_read (read : LogicalType.read name members = .ok (some overlay))
    (precision : other.get? "precision" = overlay.members.get? "precision")
    (scale : other.get? "scale" = overlay.members.get? "scale") :
    LogicalType.read overlay.name other = .ok (some overlay) := by
  cases overlay with
  | decimal digits places =>
    obtain ⟨_, _, ⟨⟩, -, -, bounds⟩ := readDecimal_eq_ok.1 (readDecimal_of_read read)
    refine read_decimal_eq_ok.2 (readDecimal_eq_ok.2 ⟨digits, places, rfl, ?_, ?_, bounds⟩)
    · simp [precision, LogicalType.members, Members.get?_cons]
    · rw [scale]
      by_cases zero : places = 0
      · exact .inr ⟨by simp [LogicalType.members, Members.get?_cons, zero], zero⟩
      · exact .inl (by simp [LogicalType.members, Members.get?_cons, zero])
  | _ => rfl

/-- The parameters of a logical type are among the members that it is read from. -/
theorem parameters_of_read (read : LogicalType.read name members = .ok (some overlay)) :
    ∀ member ∈ overlay.parameters, members.get? member.1 = some member.2 := by
  cases overlay with
  | decimal digits places =>
    obtain ⟨_, _, ⟨⟩, isPrecision, isScale, -⟩ := readDecimal_eq_ok.1 (readDecimal_of_read read)
    by_cases zero : places = 0
    · simpa [parameters, zero] using isPrecision
    · have present : members.get? "scale" = some (.ofNat places) :=
        isScale.resolve_right fun absent => zero absent.2
      simpa [parameters, zero] using ⟨isPrecision, present⟩
  | _ => exact fun _ member => absurd member List.not_mem_nil

end LogicalType

/-- A fixed type whose properties are tidy and say the parameters of its logical type. -/
structure FixedType.Coherent (fixedType : FixedType) : Prop where
  tidy : fixedType.properties.Tidy Members.reserved
  overlay : ∀ overlay, fixedType.overlay = some overlay →
    LogicalType.read overlay.name fixedType.properties = .ok (some overlay)

/-- A fixed type as it is read back, the parameters of its logical type first. -/
def FixedType.rewritten (fixedType : FixedType) : FixedType :=
  { fixedType with
    properties :=
      match fixedType.overlay with
      | some overlay => fixedType.properties.promote overlay.parameters
      | none => fixedType.properties }

/-- An entry as it is read back. -/
def Entry.rewritten : Entry → Entry
  | .fixed fixedType => .fixed fixedType.rewritten
  | entry => entry

/-- A registry as it is read back. -/
def Registry.rewritten (registry : Registry) : Registry :=
  { registry with entries := registry.entries.map Entry.rewritten }

namespace FixedType

variable {fixedType : FixedType}

/-- What is read back twice is read back once. -/
theorem rewritten_rewritten (fixedType : FixedType) :
    fixedType.rewritten.rewritten = fixedType.rewritten := by
  obtain ⟨_, _, _, _, _, overlay⟩ := fixedType
  cases overlay with
  | none => rfl
  | some overlay => simp [rewritten, Members.promote_promote]

/-- A fixed type without a logical type is read back as it is. -/
theorem rewritten_eq_self (plain : fixedType.overlay = none) : fixedType.rewritten = fixedType := by
  obtain ⟨_, _, _, _, _, _⟩ := fixedType
  cases plain
  rfl

/-- The properties are the same up to their order. -/
theorem Coherent.perm_rewritten (coherent : fixedType.Coherent) :
    fixedType.rewritten.properties.Perm fixedType.properties := by
  cases isOverlay : fixedType.overlay with
  | none => simp [rewritten, isOverlay]
  | some overlay =>
    have present := LogicalType.parameters_of_read (coherent.overlay overlay isOverlay)
    simpa [rewritten, isOverlay] using
      Members.perm_promote present overlay.distinct_parameters coherent.tidy.distinct

/-- A coherent fixed type has the same properties once it is read back. -/
theorem Coherent.get?_rewritten (coherent : fixedType.Coherent) (key : String) :
    fixedType.rewritten.properties.get? key = fixedType.properties.get? key := by
  cases isOverlay : fixedType.overlay with
  | none => simp [rewritten, isOverlay]
  | some overlay =>
    have present := LogicalType.parameters_of_read (coherent.overlay overlay isOverlay)
    simpa [rewritten, isOverlay] using Members.get?_promote present key

/-- A coherent fixed type is coherent once it is read back. -/
theorem Coherent.rewritten (coherent : fixedType.Coherent) : fixedType.rewritten.Coherent where
  tidy := by
    cases isOverlay : fixedType.overlay with
    | none => simpa [FixedType.rewritten, isOverlay] using coherent.tidy
    | some overlay =>
      have present := LogicalType.parameters_of_read (coherent.overlay overlay isOverlay)
      simpa [FixedType.rewritten, isOverlay] using
        Members.tidy_promote present overlay.distinct_parameters coherent.tidy
  overlay overlay isOverlay := by
    rw [← coherent.overlay overlay isOverlay]
    exact LogicalType.read_congr (coherent.get?_rewritten _) (coherent.get?_rewritten _)

end FixedType

namespace Entry

/-- An entry that is read back keeps its name. -/
@[simp]
theorem name_rewritten (entry : Entry) : entry.rewritten.name = entry.name := by
  cases entry <;> rfl

/-- An entry that is read back keeps its kind. -/
@[simp]
theorem kind_rewritten (entry : Entry) : entry.rewritten.kind = entry.kind := by
  cases entry <;> rfl

/-- An entry that is read back is an abstract base if it was one. -/
@[simp]
theorem isAbstractBase_rewritten (entry : Entry) :
    entry.rewritten.isAbstractBase = entry.isAbstractBase := by
  cases entry <;> rfl

/-- Nothing that a registry is asked about an entry depends on the order of properties. -/
theorem indistinct_rewritten : Indistinct (fun entry other => entry.rewritten = other) where
  name_eq := by
    rintro entry _ rfl
    exact entry.name_rewritten.symm
  kind_eq := by
    rintro entry _ rfl
    exact entry.kind_rewritten.symm
  toSchema_eq := by
    rintro entry _ rfl
    cases entry <;> rfl
  size_eq := by
    rintro entry _ rfl
    cases entry <;> rfl
  symbols_eq := by
    rintro entry _ rfl
    cases entry <;> rfl
  derive := by
    rintro base entry _ rfl
    cases entry with
    | record body => by_cases member : base ∈ body.bases <;> simp [derive, rewritten, member]
    | _ => rfl

end Entry

namespace Registry

variable {registry after : Registry} {handle : Handle} {entry : Entry}

/-- Each entry is read back at its handle. -/
@[simp]
theorem get?_rewritten (registry : Registry) (handle : Handle) :
    registry.rewritten.get? handle = (registry.get? handle).map Entry.rewritten :=
  List.getElem?_map ..

/-- As many entries are read back as there were. -/
@[simp]
theorem size_rewritten (registry : Registry) : registry.rewritten.size = registry.size :=
  List.length_map ..

/-- A registry pairs up with what is read back of it. -/
theorem paired_rewritten (registry : Registry) :
    registry.Paired (fun entry other => entry.rewritten = other) registry.rewritten :=
  ⟨List.forall₂_map_right_iff.2 (List.forall₂_same.2 fun _ _ => rfl), rfl, rfl⟩

/-- Nothing else pairs up with a registry in this way. -/
theorem Paired.eq_rewritten {other : Registry}
    (paired : registry.Paired (fun entry other => entry.rewritten = other) other) :
    other = registry.rewritten := by
  have entries := paired.entries
  rw [← List.forall₂_map_left_iff, List.forall₂_eq_eq_eq] at entries
  exact (Registry.mk.injEq ..).mpr ⟨entries.symm, paired.index.symm, paired.bases.symm⟩

/-- What is read back has the same names. -/
@[simp]
theorem find?_rewritten (registry : Registry) (name : Name) :
    registry.rewritten.find? name = registry.find? name :=
  rfl

/-- A change that yields something yields the same of what is read back. -/
theorem eq_ok_rewritten {α : Type} {value : α} {result twin : Except Reason (α × Registry)}
    (agree : Agree (PairedAfter (fun entry other => entry.rewritten = other) Eq) result twin)
    (succeeds : result = .ok (value, after)) : twin = .ok (value, after.rewritten) := by
  obtain ⟨⟨another, other⟩, rfl, same, pair⟩ := agree.exists_eq_ok succeeds
  obtain rfl : value = another := same
  obtain rfl : other = after.rewritten := pair.eq_rewritten
  rfl

/-- An entry is registered again as it is read back. -/
theorem register_rewritten (registered : registry.register entry = .ok (handle, after)) :
    registry.rewritten.register entry.rewritten = .ok (handle, after.rewritten) :=
  eq_ok_rewritten ((paired_rewritten registry).register Entry.indistinct_rewritten rfl) registered

/-- A change that does not depend on the order of properties is the same on what is read back. -/
theorem update_rewritten (handle : Handle) {change : Entry → Entry}
    (same : ∀ entry, (change entry).rewritten = change entry.rewritten) :
    (registry.update handle change).rewritten = registry.rewritten.update handle change :=
  ((paired_rewritten registry).update handle fun _ _ pair => pair ▸ same _).eq_rewritten.symm

/-- A record is given its fields again. -/
theorem setFields_rewritten (handle : Handle) (fields : List Field) :
    (registry.setFields handle fields).rewritten =
      registry.rewritten.setFields handle fields := by
  refine update_rewritten handle fun entry => ?_
  cases entry <;> rfl

/-- A protocol is given its types and messages again. -/
theorem setProtocol_rewritten (handle : Handle) (types : List Schema) (messages : List Message) :
    (registry.setProtocol handle types messages).rewritten =
      registry.rewritten.setProtocol handle types messages := by
  refine update_rewritten handle fun entry => ?_
  cases entry <;> rfl

/-- References are linked alike in what is read back. -/
theorem reference_rewritten (registry : Registry) (around : Option String) (text : String) :
    registry.rewritten.reference around text = registry.reference around text :=
  ((paired_rewritten registry).reference_eq Entry.indistinct_rewritten around text).symm

/-- Schemas are called alike in what is read back. -/
theorem nameOf_rewritten (registry : Registry) (schema : Schema) :
    registry.rewritten.nameOf schema = registry.nameOf schema :=
  ((paired_rewritten registry).nameOf_eq Entry.indistinct_rewritten schema).symm

/-- A slot is filled alike in what is read back. -/
theorem slot_rewritten {options : Options} {owner : Name} {name : String} {declared : Schema}
    {slot : Slot} (filled : registry.slot options owner name declared = .ok (slot, after)) :
    registry.rewritten.slot options owner name declared = .ok (slot, after.rewritten) :=
  eq_ok_rewritten ((paired_rewritten registry).slot Entry.indistinct_rewritten (fun _ => rfl)
    options owner name declared) filled

end Registry

/-- Logical types accept the same schemas in what is read back. -/
theorem LogicalType.accepts_rewritten (registry : Registry) (schema : Schema)
    (overlay : LogicalType) :
    overlay.accepts registry.rewritten schema = overlay.accepts registry schema :=
  ((Registry.paired_rewritten registry).accepts_eq Entry.indistinct_rewritten schema overlay).symm

/-- Defaults have the same literals in what is read back. -/
theorem DefaultLiteral.synthesizeOption_rewritten (registry : Registry) (schema : Schema)
    (default : Option Json) :
    synthesizeOption registry.rewritten schema default =
      synthesizeOption registry schema default :=
  ((Registry.paired_rewritten registry).synthesizeOption_eq Entry.indistinct_rewritten schema
    default).symm

end AvroGraph
