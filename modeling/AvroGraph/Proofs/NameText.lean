import AvroGraph.Entry.Json

/-!
# Names as text

What `Name.resolve` yields is well-formed, and a well-formed name is read back from what is
written of it: from its local name beside its namespace, and from a reference to it.
-/

namespace AvroGraph

namespace Text

variable {separates : Char → Bool} {before after : List Char} {separator : Char}

/-- What stands before and behind a separator is cut separately. -/
theorem pieces_append (cuts : separates separator = true) :
    pieces separates (before ++ separator :: after) =
      pieces separates before ++ pieces separates after := by
  induction before with
  | nil => simp [pieces, cuts]
  | cons character rest ih =>
    rw [List.cons_append, pieces, pieces, ih]
    split
    · rfl
    · cases whole : pieces separates rest with
      | nil => exact absurd whole (pieces_ne_nil separates rest)
      | cons piece others => rfl

/-- A text without separators is one piece. -/
theorem pieces_eq_singleton (uncut : ∀ character ∈ before, separates character = false) :
    pieces separates before = [before] := by
  induction before with
  | nil => rfl
  | cons character rest ih =>
    rw [List.forall_mem_cons] at uncut
    rw [pieces, ih uncut.2]
    simp [uncut.1]

/-- A dotted text has its dot between the two parts. -/
theorem toList_dotted (space name : String) :
    (space ++ "." ++ name).toList = space.toList ++ '.' :: name.toList := by
  simp [String.toList_append]

/-- A text that is cut at its last dot is a dotted one. -/
theorem dotted_of_cutAtLastDot {text : String} {parts : List Char × List Char}
    (cut : cutAtLastDot text.toList = some parts) :
    text = String.ofList parts.1 ++ "." ++ String.ofList parts.2 ∧
      '.' ∉ (String.ofList parts.2).toList := by
  obtain ⟨whole, undotted⟩ := cutAtLastDot_eq_some.1 cut
  rw [← String.toList_inj, toList_dotted, String.toList_ofList, String.toList_ofList]
  exact ⟨whole, undotted⟩

/-- The segments of a dotted text, cut at its last dot. -/
theorem segments_dotted {space name : String} (undotted : '.' ∉ name.toList) :
    segments (space ++ "." ++ name) = segments space ++ [name] := by
  have single : pieces (· == '.') name.toList = [name.toList] := by
    refine pieces_eq_singleton fun character member => ?_
    rw [beq_eq_false_iff_ne]
    rintro rfl
    exact undotted member
  rw [segments, toList_dotted, pieces_append (by rfl), single, List.map_append, segments]
  simp

end Text

namespace Name

variable {name : Name} {raw : String} {beside around : Option String}

/-- A name that some text resolves to. -/
structure WellFormed (name : Name) : Prop where
  undotted : '.' ∉ name.localName.toList
  visible : Text.isBlank name.localName = false
  space : ∀ space, name.space = some space → checkSegments space = .ok ()

/-- Segments pass their check if none of them is blank. -/
theorem checkSegments_eq_ok {dotted : String} :
    checkSegments dotted = .ok () ↔
      ∀ segment ∈ Text.segments dotted, Text.isBlank segment = false := by
  rw [checkSegments]
  split
  · next blank =>
    obtain ⟨segment, member, isBlank⟩ := List.any_eq_true.1 blank
    constructor
    · intro failed
      cases failed
    · intro visible
      rw [visible segment member] at isBlank
      cases isBlank
  · next visible => simpa using visible

/-- An empty text is no namespace. -/
theorem ne_empty_of_checkSegments {space : String} (checked : checkSegments space = .ok ()) :
    space ≠ "" := by
  rintro rfl
  have visible := checkSegments_eq_ok.1 checked "" (by decide)
  simp at visible

/-- The segments of a dotted text are those of what it is cut into at its last dot. -/
theorem checkSegments_dotted {space localName : String} (undotted : '.' ∉ localName.toList) :
    checkSegments (space ++ "." ++ localName) = .ok () ↔
      checkSegments space = .ok () ∧ Text.isBlank localName = false := by
  rw [checkSegments_eq_ok, checkSegments_eq_ok, Text.segments_dotted undotted,
    List.forall_mem_append, List.forall_mem_singleton]

/-- A dotted text means the name that it spells, whatever namespaces are known. -/
theorem resolve_dotted {space localName : String} (undotted : '.' ∉ localName.toList) :
    resolve (space ++ "." ++ localName) beside around = .ok name ↔
      (checkSegments space = .ok () ∧ Text.isBlank localName = false) ∧
        name = ⟨localName, some space⟩ := by
  have cut := Text.cutAtLastDot_eq_some.2 ⟨Text.toList_dotted space localName, undotted⟩
  have member : '.' ∈ (space ++ "." ++ localName).toList := by simp
  have visible := Text.isBlank_eq_false_of_mem member (by decide)
  rw [resolve, if_neg (by simp [visible]), cut, ← checkSegments_dotted undotted]
  simp only [String.ofList_toList]
  cases checkSegments (space ++ "." ++ localName) with
  | error => simp [bind, Except.bind]
  | ok => simp [bind, Except.bind, pure, Except.pure, eq_comm]

/-- A text without dots is a local name in the namespace beside it, or else in the one around. -/
theorem resolve_undotted (undotted : '.' ∉ raw.toList) :
    resolve raw beside around = .ok name ↔
      Text.isBlank raw = false ∧ beside ≠ some "" ∧
        (∀ space, beside.or around = some space → checkSegments space = .ok ()) ∧
        name = ⟨raw, beside.or around⟩ := by
  rw [resolve, Text.cutAtLastDot_eq_none.2 undotted]
  by_cases visible : Text.isBlank raw = true
  · simp [visible]
  by_cases isEmpty : beside = some ""
  · simp [visible, isEmpty]
  simp only [visible, isEmpty, Bool.false_eq_true, ↓reduceIte, ne_eq, not_false_eq_true, true_and]
  cases beside.or around with
  | none => simp [eq_comm]
  | some space =>
    cases checked : checkSegments space with
    | error => simp [checked, bind, Except.bind]
    | ok => simp [checked, bind, Except.bind, pure, Except.pure, eq_comm]

/-- What a text resolves to is well-formed, and lies in a namespace if there is one around. -/
theorem wellFormed_of_resolve (resolved : resolve raw beside around = .ok name) :
    name.WellFormed ∧ (name.space = none → around = none) := by
  cases cut : Text.cutAtLastDot raw.toList with
  | some parts =>
    obtain ⟨isDotted, undotted⟩ := Text.dotted_of_cutAtLastDot cut
    rw [isDotted, resolve_dotted undotted] at resolved
    obtain ⟨⟨checked, visible⟩, rfl⟩ := resolved
    refine ⟨⟨undotted, visible, ?_⟩, nofun⟩
    rintro _ ⟨⟩
    exact checked
  | none =>
    have undotted := Text.cutAtLastDot_eq_none.1 cut
    obtain ⟨visible, -, checked, rfl⟩ := (resolve_undotted undotted).1 resolved
    exact ⟨⟨undotted, visible, checked⟩, fun noSpace => (Option.or_eq_none_iff.1 noSpace).2⟩

/-- A name is read back from its local name where its namespace is known. -/
theorem WellFormed.resolve_localName (wellFormed : name.WellFormed)
    (sameSpace : beside.or around = name.space) (notEmpty : beside ≠ some "") :
    resolve name.localName beside around = .ok name := by
  refine (resolve_undotted wellFormed.undotted).2 ⟨wellFormed.visible, notEmpty, ?_, ?_⟩
  · rw [sameSpace]
    exact wellFormed.space
  · rw [sameSpace]

/-- A name in a namespace is read back from its full name. -/
theorem WellFormed.resolve_full (wellFormed : name.WellFormed) {space : String}
    (inSpace : name.space = some space) : resolve name.full beside around = .ok name := by
  rw [full, inSpace]
  refine (resolve_dotted wellFormed.undotted).2 ⟨⟨?_, wellFormed.visible⟩, ?_⟩
  · exact wellFormed.space space inSpace
  · rw [← inSpace]

/-- A name is read back from a reference to it, except for a name outside all namespaces from
within one. -/
theorem WellFormed.resolve_reference (wellFormed : name.WellFormed)
    (enclosed : name.space = none → around = none) :
    resolve (name.reference around) none around = .ok name := by
  rw [reference]
  split
  · next same => exact wellFormed.resolve_localName (by simp [same]) (by simp)
  · next different =>
    cases inSpace : name.space with
    | none => exact absurd (by rw [inSpace, enclosed inSpace]) different
    | some space => exact wellFormed.resolve_full inSpace

/-- The namespace that is written beside a local name. -/
def spaceBeside (name : Name) (around : Option String) : Option String :=
  if name.space = around then none else name.space

/-- A name is read back from its local name and the namespace written beside it. -/
theorem WellFormed.resolve_beside (wellFormed : name.WellFormed)
    (enclosed : name.space = none → around = none) :
    resolve name.localName (name.spaceBeside around) around = .ok name := by
  rw [spaceBeside]
  split
  · next same => exact wellFormed.resolve_localName (by simp [same]) (by simp)
  · next different =>
    refine wellFormed.resolve_localName ?_ ?_
    · cases inSpace : name.space with
      | none => exact absurd (by rw [inSpace, enclosed inSpace]) different
      | some space => rfl
    · intro isEmpty
      exact ne_empty_of_checkSegments (wellFormed.space "" isEmpty) rfl

end Name

end AvroGraph
