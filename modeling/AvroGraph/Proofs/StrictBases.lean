import AvroGraph.Proofs.NameTable

/-!
# Abstract bases under strict names

Every base is named after an owner and a slot whose names have been checked
(`AbstractBase.MadeFor`), but its own name is not held against the identifier grammar. Only the
first character of it can break the grammar: Pascal case drops underscores, and with them what lets
an identifier go on with a digit (`Registry.Reached.validate_base`).
-/

namespace AvroGraph

/-! ## Identifiers in Pascal case -/

/-- The upper case of ASCII differs only for the letters from `a` to `z`. -/
theorem Text.UpperCase.codes_of_ascii {code : Nat} (ascii : code < 128) :
    codes code = [if 0x61 ≤ code ∧ code ≤ 0x7A then code - 0x20 else code] := by
  have several : ∀ expansion ∈ expansions, 128 ≤ expansion.1 := by decide +kernel
  have beyond : ∀ span ∈ spans.tail, 128 ≤ span.first := by decide +kernel
  have one : expansions.lookup code = none := by
    refine List.lookup_eq_none_iff.2 fun expansion member => ?_
    have bound := several expansion member
    rw [bne_iff_ne]
    omega
  have first : spans = ⟨0x61, 0x7A, 1, -32⟩ :: spans.tail := rfl
  have others : spans.tail.find? (·.holds code) = none := by
    refine List.find?_eq_none.2 fun span member => ?_
    have bound := beyond span member
    simp only [Span.holds, Bool.and_eq_true, decide_eq_true_eq]
    omega
  rw [codes, one, first, List.find?_cons, others]
  by_cases letter : 0x61 ≤ code ∧ code ≤ 0x7A
  · have holds : Span.holds ⟨0x61, 0x7A, 1, -32⟩ code = true := by
      simp [Span.holds, letter, Nat.mod_one]
    simp only [holds, if_pos letter, Int.ofNat_eq_natCast, List.cons.injEq, and_true]
    omega
  · have holds : Span.holds ⟨0x61, 0x7A, 1, -32⟩ code = false := by
      simpa [Span.holds, Nat.mod_one] using letter
    simp only [holds, if_neg letter]

namespace Identifier

variable {character : Char} {text : String}

/-- The characters of identifiers lie within ASCII. -/
theorem toNat_lt_of_continues (continues : continuesIdentifier character = true) :
    character.toNat < 128 := by
  have below {last : UInt32} (within : character.val ≤ last) (small : last.toNat < 128) :
      character.toNat < 128 :=
    Nat.lt_of_le_of_lt (UInt32.le_iff_toNat_le.1 within) small
  rw [continuesIdentifier, Bool.or_eq_true, beq_iff_eq] at continues
  obtain alphanumeric | rfl := continues
  · obtain alpha | digit := Bool.or_eq_true_iff.1 alphanumeric
    · obtain upper | lower := Bool.or_eq_true_iff.1 alpha
      · exact below (of_decide_eq_true upper).2 (by decide)
      · exact below (of_decide_eq_true (Bool.and_eq_true_iff.1 lower).2) (by decide)
    · exact Nat.lt_of_le_of_lt (Char.isDigit_iff_toNat.1 digit).2 (by decide)
  · decide

/-- What may stand in an identifier has one character for its upper case, which may stand there as
well and is a digit if the first one is. -/
theorem upperCase_of_continues (continues : continuesIdentifier character = true) :
    ∃ upper, Text.upperCase character = [upper] ∧ continuesIdentifier upper = true ∧
      upper.isDigit = character.isDigit := by
  have each : ∀ code < 128, continuesIdentifier (Char.ofNat code) = true →
      let upper := Char.ofNat (if 0x61 ≤ code ∧ code ≤ 0x7A then code - 0x20 else code)
      continuesIdentifier upper = true ∧ upper.isDigit = (Char.ofNat code).isDigit := by
    decide +kernel
  have ascii := toNat_lt_of_continues continues
  have known := each character.toNat ascii
  rw [Char.ofNat_toNat] at known
  rw [Text.upperCase, Text.UpperCase.codes_of_ascii ascii]
  exact ⟨_, rfl, known continues⟩

/-- What may stand in an identifier and is no digit may start one. -/
theorem startsIdentifier_of_continues (continues : continuesIdentifier character = true) :
    startsIdentifier character = !character.isDigit := by
  have each : ∀ code < 128, continuesIdentifier (Char.ofNat code) = true →
      startsIdentifier (Char.ofNat code) = !(Char.ofNat code).isDigit := by
    decide +kernel
  have known := each character.toNat (toNat_lt_of_continues continues)
  rw [Char.ofNat_toNat] at known
  exact known continues

/-- A text of characters that may stand in identifiers. -/
def Continues (text : String) : Prop :=
  ∀ character ∈ text.toList, continuesIdentifier character = true

/-- Texts that continue identifiers can be put one after the other. -/
theorem Continues.append {other : String} (first : Continues text) (second : Continues other) :
    Continues (text ++ other) := by
  rw [Continues, String.toList_append]
  exact List.forall_mem_append.2 ⟨first, second⟩

/-- A counter continues identifiers. -/
theorem continues_toString (counter : Nat) : Continues (toString counter) := by
  intro character member
  rw [Nat.toString_eq_repr, Nat.toList_repr] at member
  have digit := Nat.isDigit_of_mem_toDigits (by decide) (by decide) member
  simp [continuesIdentifier, Char.isAlphanum, digit]

/-- An identifier continues identifiers. -/
theorem continues_of_isWellFormed (formed : isWellFormed text = true) : Continues text := by
  rw [isWellFormed] at formed
  split at formed
  · cases formed
  · next first rest spelled =>
    rw [Bool.and_eq_true, List.all_eq_true] at formed
    rw [Continues, spelled]
    refine List.forall_mem_cons.2 ⟨?_, formed.2⟩
    have starts := formed.1
    simp only [startsIdentifier, continuesIdentifier, Char.isAlphanum, Bool.or_eq_true] at starts ⊢
    exact starts.elim (fun alpha => .inl (.inl alpha)) .inr

/-- Such a text is an identifier if it begins with a character that is no digit. -/
theorem Continues.isWellFormed_iff (continues : Continues text) :
    isWellFormed text = true ↔ text.toList.head?.map Char.isDigit = some false := by
  rw [isWellFormed]
  rw [Continues] at continues
  cases spelled : text.toList with
  | nil => simp
  | cons first rest =>
    rw [spelled, List.forall_mem_cons] at continues
    have all : rest.all continuesIdentifier = true := List.all_eq_true.2 continues.2
    simp [startsIdentifier_of_continues continues.1, all]

/-- The first character of the first word of an identifier. -/
def firstOfWords (identifier : String) : Option Char :=
  identifier.toList.find? fun character => !separatesWords character

/-- The first word of two texts is that of the first one, unless it has none. -/
theorem firstOfWords_append (text other : String) :
    firstOfWords (text ++ other) = (firstOfWords text).or (firstOfWords other) := by
  rw [firstOfWords, String.toList_append, List.find?_append, firstOfWords, firstOfWords]

/-- An identifier in Pascal case is made of characters of identifiers, and begins with a digit if
its first word does. -/
theorem pascalCase_of_continues (continues : Continues text) :
    Continues (pascalCase text) ∧
      (pascalCase text).toList.head?.map Char.isDigit =
        (firstOfWords text).map Char.isDigit := by
  rw [Continues] at continues ⊢
  rw [firstOfWords, pascalCase, String.toList_ofList]
  generalize text.toList = characters at continues
  induction characters with
  | nil => exact ⟨by simp [Text.pieces, capitalize], rfl⟩
  | cons character rest ih =>
    obtain ⟨here, later⟩ := List.forall_mem_cons.1 continues
    obtain ⟨inside, head⟩ := ih later
    rw [Text.pieces]
    by_cases separates : separatesWords character = true
    · rw [if_pos separates, List.flatMap_cons, capitalize, List.nil_append,
        List.find?_cons_of_neg (by simpa using separates)]
      exact ⟨inside, head⟩
    · obtain ⟨upper, isUpper, continuesUpper, digit⟩ := upperCase_of_continues here
      rw [if_neg separates, List.find?_cons_of_pos (by simpa using separates)]
      cases cut : Text.pieces separatesWords rest with
      | nil => exact absurd cut (Text.pieces_ne_nil separatesWords rest)
      | cons piece others =>
        rw [cut, List.flatMap_cons, List.forall_mem_append] at inside
        have pieceInside (other : Char) (member : other ∈ piece) :
            continuesIdentifier other = true :=
          later other (Text.mem_of_mem_pieces (cut ▸ List.mem_cons_self) member)
        simp only [List.flatMap_cons, capitalize, isUpper, List.cons_append, List.head?_cons,
          Option.map_some, digit, and_true]
        refine List.forall_mem_cons.2 ⟨continuesUpper, ?_⟩
        exact List.forall_mem_append.2 ⟨pieceInside, inside.2⟩

end Identifier

/-! ## Names of bases -/

/-- How a base comes to be: the owner of its slot has a name that a declaration can have, the slot a
simple one, and the base is named after the two, perhaps with a counter. -/
structure AbstractBase.MadeFor (options : Options) (base : AbstractBase) : Prop where
  owner : base.owner.Admitted options
  slot : options.checkSimpleName base.slot = .ok ()
  named : base.name = nameFor base.owner base.slot ∨
    ∃ counter, base.name = Registry.numbered (nameFor base.owner base.slot) counter

/-- Where the name of an entry comes from: that of a declaration is one that the options admit, that
of a base comes from its slot. -/
def Entry.Named (options : Options) : Entry → Prop
  | .abstractBase base => base.MadeFor options
  | entry => entry.name.Admitted options

variable {options : Options}

/-- A declaration is named well if its name is admitted. -/
theorem Entry.named_of_declared {entry : Entry} (isDeclared : entry.isAbstractBase = false) :
    entry.Named options ↔ entry.name.Admitted options := by
  cases entry with
  | abstractBase => cases isDeclared
  | _ => exact Iff.rfl

/-- A change that leaves names, kinds and bases alone does not show. -/
theorem Entry.Named.amend {change : Entry → Entry} (amends : Entry.Amends change) {entry : Entry}
    (named : entry.Named options) : (change entry).Named options := by
  cases entry with
  | abstractBase base => rwa [amends.base]
  | _ =>
    refine (named_of_declared (isAbstractBase_of_kind (amends.kind _))).2 ?_
    rw [amends.name]
    exact named

namespace Registry

variable {registry after : Registry}

/-- Every entry has its name from where it should. -/
abbrev Named (options : Options) (registry : Registry) : Prop :=
  registry.Every (Entry.Named options)

namespace Named

/-- Amendments leave a registry as well named as it was. -/
theorem amended (named : registry.Named options) (amended : registry.Amended after) :
    after.Named options := by
  obtain ⟨_, _, amends, rfl⟩ := amended
  exact Every.update named fun _ holds => holds.amend amends

/-- Links to a base leave a registry as well named as it was. -/
theorem addBases {handles : List Handle} {base : Handle} (named : registry.Named options) :
    (handles.foldl (fun result record => result.addBase record base) registry).Named options :=
  keep_addBases (Named options) amended handles base named

/-- The base that is made for a slot is named after it. -/
theorem slot {owner : Name} {name : String} {declared : Schema} {slot : Slot}
    (named : registry.Named options) (admitted : owner.Admitted options)
    (simple : options.checkSimpleName name = .ok ())
    (filled : registry.slot options owner name declared = .ok (slot, after)) :
    after.Named options := by
  obtain rfl | ⟨-, base, registered, register, rfl⟩ := slot_cases filled
  · exact named
  · have made : (Entry.abstractBase ⟨registry.freeBaseName (AbstractBase.nameFor owner name),
        owner, name, declared.branches⟩).Named options :=
      AbstractBase.MadeFor.mk admitted simple (registry.freeBaseName_cases _)
    have registering : registered.Named options := Every.register named made register
    have remembering : (registered.rememberBase owner name base).Named options := registering
    exact remembering.addBases

/-- Whatever a walk does leaves a registry well named. -/
theorem invariant {law : NodeLaw} {meets : Registry → Schema → Prop} :
    Registry.Invariant options law (Named options) meets :=
  .of_amended amended
    (fun named _ declares =>
      Every.register named ((Entry.named_of_declared declares.isAbstractBase).2 declares.admitted))
    fun named owner simple => named.slot owner simple

end Named

/-- In every registry that a resolver reaches, entries have their names from where they should. -/
theorem Reached.named (reached : registry.Reached options) : registry.Named options :=
  (reached.holds (groundedCondition fun _ holds => holds.1.knowsBases)
    (Sound.invariant.and Named.invariant) ⟨.empty, every_empty⟩).2

end Registry

/-! ## Bases under strict names -/

/-- A segment is valid if it is an identifier. -/
theorem Name.validateSegment_eq_ok {text : String} :
    validateSegment text = .ok () ↔ Identifier.isWellFormed text = true := by
  rw [validateSegment]
  split <;> simp [*]

/-- Of two checks in a row, both have to succeed. -/
theorem check_bind_eq_ok {ε : Type} {first second : Except ε Unit} :
    (first >>= fun _ => second) = .ok () ↔ first = .ok () ∧ second = .ok () := by
  cases first <;> simp [bind, Except.bind]

/-- Segments are valid if all of them are identifiers. -/
theorem Name.forM_validateSegment_eq_ok {segments : List String} :
    forM segments validateSegment = .ok () ↔
      ∀ segment ∈ segments, Identifier.isWellFormed segment = true := by
  induction segments with
  | nil => simp [pure, Except.pure]
  | cons segment rest ih =>
    rw [List.forM_cons, check_bind_eq_ok, List.forall_mem_cons, ih, validateSegment_eq_ok]

/-- A name is valid when its local name and all segments of its namespace are identifiers. -/
theorem Name.validate_eq_ok {name : Name} :
    name.validate = .ok () ↔ Identifier.isWellFormed name.localName = true ∧
      ∀ space ∈ name.space, ∀ segment ∈ Text.segments space,
        Identifier.isWellFormed segment = true := by
  rw [validate, check_bind_eq_ok, validateSegment_eq_ok]
  cases name.space with
  | none => simp [pure, Except.pure]
  | some space => simpa using fun _ => forM_validateSegment_eq_ok

/-- Under strict names, the identifier grammar holds of what is checked against it. -/
theorem Name.Admitted.isWellFormed {name : Name} (admitted : name.Admitted options)
    (strict : options.strictNames = true) : Identifier.isWellFormed name.localName = true ∧
      ∀ space ∈ name.space, ∀ segment ∈ Text.segments space,
        Identifier.isWellFormed segment = true :=
  validate_eq_ok.1 (Options.enforce_eq_ok.1 admitted.valid strict)

/-- With strict names, a simple name is an identifier. -/
theorem Options.isWellFormed_of_checkSimpleName {text : String}
    (simple : options.checkSimpleName text = .ok ()) (strict : options.strictNames = true) :
    Identifier.isWellFormed text = true :=
  Name.validateSegment_eq_ok.1 ((checkSimpleName_eq_ok.1 simple).2 strict)

namespace AbstractBase.MadeFor

variable {base : AbstractBase} (made : base.MadeFor options)
include made

/-- A base is in the namespace of its owner. -/
theorem space_eq : base.name.space = base.owner.space := by
  obtain same | ⟨_, same⟩ := made.named <;> rw [same] <;> rfl

/-- The local name of a base: owner and slot in Pascal case, the suffix and perhaps a counter. -/
theorem localName_eq : ∃ counter : String, Identifier.Continues counter ∧
    base.name.localName = Identifier.pascalCase base.owner.localName ++
      Identifier.pascalCase base.slot ++ ("Base" ++ counter) := by
  obtain same | ⟨counter, same⟩ := made.named
  · exact ⟨"", nofun, by rw [same, String.append_empty]; rfl⟩
  · refine ⟨toString counter, Identifier.continues_toString counter, ?_⟩
    rw [same, ← String.append_assoc]
    rfl

/-- Under strict names, the local name of a base is made of characters of identifiers, and it is an
identifier unless the words it is made of begin with a digit. -/
theorem isWellFormed_iff (strict : options.strictNames = true) :
    Identifier.Continues base.name.localName ∧
      (Identifier.isWellFormed base.name.localName = true ↔
        (Identifier.firstOfWords (base.owner.localName ++ base.slot)).any Char.isDigit =
          false) := by
  obtain ⟨counter, counts, same⟩ := made.localName_eq
  have owner := Identifier.pascalCase_of_continues
    (Identifier.continues_of_isWellFormed (made.owner.isWellFormed strict).1)
  have slot := Identifier.pascalCase_of_continues (Identifier.continues_of_isWellFormed
    (Options.isWellFormed_of_checkSimpleName made.slot strict))
  have suffix : Identifier.Continues "Base" := List.all_eq_true.1 (by decide)
  have continues := (owner.1.append slot.1).append (suffix.append counts)
  -- The suffix comes first where owner and slot have no words at all.
  have head : base.name.localName.toList.head?.map Char.isDigit =
      ((Identifier.firstOfWords (base.owner.localName ++ base.slot)).map Char.isDigit).or
        (some false) := by
    have suffixed : "Base".toList.head? = some 'B' := by decide
    rw [same, Identifier.firstOfWords_append, Option.map_or, ← owner.2, ← slot.2]
    simp only [String.toList_append, List.head?_append, Option.map_or, suffixed, Option.some_or]
    rfl
  rw [← same] at continues
  refine ⟨continues, ?_⟩
  rw [continues.isWellFormed_iff, head]
  cases Identifier.firstOfWords (base.owner.localName ++ base.slot) <;> simp

end AbstractBase.MadeFor

namespace Registry

variable {registry : Registry} {handle : Handle} {base : AbstractBase}

/-- Under strict names, the name of a base is valid unless the words of its owner and its slot begin
with a digit: then its local name does so as well. -/
theorem Reached.validate_base (reached : registry.Reached options)
    (strict : options.strictNames = true)
    (found : registry.get? handle = some (.abstractBase base)) :
    base.name.validate =
      if (Identifier.firstOfWords (base.owner.localName ++ base.slot)).any Char.isDigit then
        .error (.invalidCharacters base.name.localName)
      else .ok () := by
  have made : base.MadeFor options := reached.named handle _ found
  have formed := (made.isWellFormed_iff strict).2
  split
  · next digit =>
    have broken : Identifier.isWellFormed base.name.localName = false := by
      rw [← Bool.not_eq_true, formed, digit]
      exact Bool.noConfusion
    rw [Name.validate, Name.validateSegment, broken]
    rfl
  · next word =>
    refine Name.validate_eq_ok.2 ⟨formed.2 (Bool.eq_false_iff.2 word), ?_⟩
    rw [made.space_eq]
    exact (made.owner.isWellFormed strict).2

/-- Two records with a slot that calls for a base: one begins with a digit once its underscore is
dropped, the other has one only within. -/
def digits : Json :=
  let record (name : String) (fields : List Json) : Json :=
    .object [("type", .string "record"), ("name", .string name), ("fields", .array fields)]
  let field (name : String) (type : Json) : Json :=
    .object [("name", .string name), ("type", type)]
  .array [record "n._1" [field "x" (.array [record "A" [], record "B" []])],
    record "n.R" [field "_2" (.array [.string "A", .string "B"])]]

/-- What is registered for them under strict names. -/
def digitsRegistered : Registry :=
  ((Resolver.mk { strictNames := true } .empty).resolve digits none).2.registry

/-- The registry with the digits is one that resolution can reach. -/
theorem digitsRegistered_reached : digitsRegistered.Reached { strictNames := true } := by
  unfold digitsRegistered
  exact .resolve digits none .empty

/-- The base of the first record. -/
def digitBase : AbstractBase :=
  ⟨⟨"1XBase", some "n"⟩, ⟨"_1", some "n"⟩, "x", [.named .record 1, .named .record 2]⟩

/-- That base is registered behind the three records. -/
theorem get?_digitBase : digitsRegistered.get? 3 = some (.abstractBase digitBase) := by
  decide +kernel

/-- The name of that base is not valid, while that of the base of the second record is. -/
theorem validate_base_digits :
    digitBase.name.validate = .error (.invalidCharacters "1XBase") ∧
      ∃ other, digitsRegistered.get? 5 = some (.abstractBase other) ∧ other.name.full = "n.R2Base" ∧
        other.name.validate = .ok () := by
  have found : digitsRegistered.get? 5 = some (.abstractBase
      ⟨⟨"R2Base", some "n"⟩, ⟨"R", some "n"⟩, "_2", [.named .record 1, .named .record 2]⟩) := by
    decide +kernel
  exact ⟨(Reached.validate_base digitsRegistered_reached rfl get?_digitBase).trans
      (by decide +kernel), _, found, by decide,
    (Reached.validate_base digitsRegistered_reached rfl found).trans (by decide +kernel)⟩

/-- So a base can be registered under strict names although its name begins with a digit. -/
theorem not_validate_base_digits :
    ¬ ∀ (options : Options) (registry : Registry) (handle : Handle) (base : AbstractBase),
      registry.Reached options → options.strictNames = true →
      registry.get? handle = some (.abstractBase base) → base.name.validate = .ok () := by
  intro claim
  have valid := claim _ _ _ _ digitsRegistered_reached rfl get?_digitBase
  revert valid
  decide +kernel

end Registry

end AvroGraph
