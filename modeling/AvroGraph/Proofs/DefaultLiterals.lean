import AvroGraph.Proofs.TargetNames

/-!
# Literals of defaults

A default of a scalar type has a literal exactly if it is a value of that type, and the literal says
which one: an integer by its decimal digits, bytes by hexadecimal ones, which `bytesIn` reads off it
again, a symbol by its spelling in the generated code. All other scalars are refused, and types with
parts take every default without a literal (`DefaultLiteral.synthesize_denotes`).
-/

namespace AvroGraph.DefaultLiteral

/-! ## Bytes -/

/-- The value of a hexadecimal digit in upper case. -/
def digitValue? (character : Char) : Option Nat :=
  if '0' ≤ character ∧ character ≤ '9' then some (character.toNat - '0'.toNat)
  else if 'A' ≤ character ∧ character ≤ 'F' then some (character.toNat - 'A'.toNat + 10)
  else none

/-- The byte in hexadecimal notation that a text begins with. -/
def leadingByte? : List Char → Option Nat
  | zero :: mark :: high :: low :: _ =>
    if zero = '0' ∧ mark = 'x' then do
      return 16 * (← digitValue? high) + (← digitValue? low)
    else none
  | _ => none

/-- The bytes in hexadecimal notation that stand anywhere in a text, in order. -/
def bytesIn : List Char → List Nat
  | [] => []
  | first :: rest => (leadingByte? (first :: rest)).toList ++ bytesIn rest

/-- A hexadecimal digit is read as the value that it is written for, and is not taken for the mark
before digits. -/
theorem digitValue?_hexDigit {value : Nat} (small : value < 16) :
    digitValue? (hexDigit value) = some value ∧ hexDigit value ≠ 'x' := by
  revert value
  decide

/-- A byte begins with a zero and its mark. -/
theorem leadingByte?_eq_none (first : Char) (rest : List Char)
    (other : first ≠ '0' ∨ rest.head? ≠ some 'x') : leadingByte? (first :: rest) = none := by
  rw [leadingByte?.eq_def]
  split
  · next same =>
    cases same
    refine if_neg ?_
    rintro ⟨isZero, isMark⟩
    exact other.elim (· isZero) (· (congrArg some isMark))
  · rfl

/-- Text without zeros holds no bytes. -/
theorem bytesIn_append {text rest : List Char} (plain : '0' ∉ text) :
    bytesIn (text ++ rest) = bytesIn rest := by
  induction text with
  | nil => rfl
  | cons first others ih =>
    rw [List.mem_cons, not_or] at plain
    rw [List.cons_append, bytesIn, leadingByte?_eq_none _ _ (.inl (Ne.symm plain.1)), ih plain.2]
    rfl

/-- A byte is read off its notation, if what follows does not turn its last digit into a mark. -/
theorem bytesIn_byteText {byte : Nat} {rest : List Char} (small : byte < 256)
    (unmarked : rest.head? ≠ some 'x') :
    bytesIn ((byteText byte).toList ++ rest) = byte :: bytesIn rest := by
  obtain ⟨high, -⟩ := digitValue?_hexDigit (Nat.div_lt_of_lt_mul small : byte / 16 < 16)
  obtain ⟨low, lowPlain⟩ := digitValue?_hexDigit (Nat.mod_lt byte (by decide : 16 > 0))
  have value : 16 * (byte / 16) + byte % 16 = byte := Nat.div_add_mod byte 16
  have here : leadingByte? ('0' :: 'x' :: hexDigit (byte / 16) :: hexDigit (byte % 16) :: rest) =
      some byte := by
    simp [leadingByte?, high, low, value]
  -- No other byte begins within the notation: no digit is followed by a mark.
  have atMark := leadingByte?_eq_none 'x' (hexDigit (byte / 16) :: hexDigit (byte % 16) :: rest)
    (.inl (by decide))
  have atHigh := leadingByte?_eq_none (hexDigit (byte / 16)) (hexDigit (byte % 16) :: rest)
    (.inr (by simpa using lowPlain))
  have atLow := leadingByte?_eq_none (hexDigit (byte % 16)) rest (.inr unmarked)
  simp only [byteText, String.toList_ofList, List.cons_append, List.nil_append, bytesIn, here,
    atMark, atHigh, atLow, Option.toList_some, Option.toList_none]

/-- Bytes in a row are read off one after another. -/
theorem bytesIn_intercalate {bytes : List Nat} (small : ∀ byte ∈ bytes, byte < 256)
    (rest : List Char) (unmarked : rest.head? ≠ some 'x') :
    bytesIn ((", ".intercalate (bytes.map byteText)).toList ++ rest) = bytes ++ bytesIn rest := by
  induction bytes with
  | nil => rfl
  | cons byte others ih =>
    obtain ⟨here, later⟩ := List.forall_mem_cons.1 small
    cases others with
    | nil => simpa using bytesIn_byteText here unmarked
    | cons next others =>
      have separated : bytesIn (", ".toList ++ ((", ".intercalate ((next :: others).map
          byteText)).toList ++ rest)) = next :: others ++ bytesIn rest := by
        rw [bytesIn_append (by decide), ih later]
      rw [List.map_cons, List.map_cons, String.intercalate_cons_cons, String.toList_append,
        String.toList_append, List.append_assoc, List.append_assoc, bytesIn_byteText here (by simp)]
      exact congrArg (byte :: ·) separated

/-- An array of bytes is spelled if every character fits into one, and its bytes are those
characters. -/
theorem bytes?_cases (text : String) :
    (∃ character ∈ text.toList, 0xFF < character.toNat) ∧ bytes? text = none ∨
      (∀ character ∈ text.toList, character.toNat ≤ 0xFF) ∧ ∃ literal,
        bytes? text = some literal ∧ bytesIn literal.toList = text.toList.map Char.toNat := by
  by_cases fits : ∀ character ∈ text.toList, character.toNat ≤ 0xFF
  · refine .inr ⟨fits, ?_⟩
    have all : text.toList.all (·.toNat ≤ 0xFF) = true := by simpa using fits
    rw [bytes?, if_pos all]
    cases spelled : text.toList with
    | nil => exact ⟨_, rfl, by decide⟩
    | cons first rest =>
      rw [← spelled]
      have small : ∀ byte ∈ text.toList.map Char.toNat, byte < 256 := by
        intro byte member
        obtain ⟨character, isIn, rfl⟩ := List.mem_map.1 member
        exact Nat.lt_succ_iff.2 (fits character isIn)
      have read := bytesIn_intercalate small " \x7d".toList (by decide)
      have closed : bytesIn " \x7d".toList = [] := by decide
      rw [closed, List.append_nil, List.map_map] at read
      refine ⟨_, if_neg (by simp [spelled]), ?_⟩
      rw [String.toList_append, String.toList_append, List.append_assoc,
        bytesIn_append (by decide)]
      exact read
  · refine .inl ⟨?_, ?_⟩
    · simpa using fits
    · rw [bytes?, if_neg (by simpa using fits)]

/-- What a text is spelled as reads as the codes of its characters. -/
theorem bytesIn_of_bytes? {text literal : String} (spelled : bytes? text = some literal) :
    bytesIn literal.toList = text.toList.map Char.toNat := by
  obtain ⟨-, unspelled⟩ | ⟨-, known, spelledAs, read⟩ := bytes?_cases text
  · cases unspelled.symm.trans spelled
  · cases spelledAs.symm.trans spelled
    exact read

/-! ## Literals -/

variable {registry : Registry} {declared : Schema} {default other : Json} {text : String}

/-- A default of a type is spelled by a literal. -/
def Spells (registry : Registry) (declared : Schema) (default : Json) (text : String) : Prop :=
  synthesize registry declared default = .ok (.literal text)

instance : Decidable (Spells registry declared default text) :=
  match equation : synthesize registry declared default with
  | .ok result => decidable_of_iff (result = .literal text) (by simp [Spells, equation])
  | .error _ => .isFalse (by simp [Spells, equation])

/-- A default of a primitive type is spelled by the literal that is made for it. -/
theorem spells_primitive {type : Primitive} :
    Spells registry (.primitive type) default text ↔ ofPrimitive type default = .ok text := by
  rw [Spells, synthesize]
  cases ofPrimitive type default <;> simp [Except.map]

/-- A default of an enum is spelled only where its handle is that of one. -/
theorem spells_enum {handle : Handle} :
    Spells registry (.named .enum handle) default text ↔
      ∃ enumeration, registry.get? handle = some (.enum enumeration) ∧
        ofEnumeration enumeration default = .ok text := by
  rw [Spells, synthesize]
  cases found : registry.get? handle with
  | none => simp
  | some entry =>
    cases entry with
    | enum enumeration =>
      cases spelled : ofEnumeration enumeration default <;> simp [Entry.enum?, spelled, Except.map]
    | _ => simp [Entry.enum?]

/-- An integer of an integer type is spelled by its decimal digits if it is in range. -/
theorem ofInteger_eq_ok {type : Primitive} :
    ofInteger type default = .ok text ↔
      ∃ value, default = .number (.integer value) ∧ inRange type value = true ∧
        text = toString value := by
  rw [ofInteger]
  cases default with
  | number number =>
    cases number with
    | integer value =>
      by_cases fits : inRange type value = true
      · simpa [Json.integer?, fits] using eq_comm
      · simp [Json.integer?, fits]
    | double value => simp [Json.integer?]
  | _ => simp [Json.integer?]

/-- What is spelled as an array of bytes is the string of these bytes. -/
theorem ofPrimitive_bytes_eq_ok :
    ofPrimitive .bytes default = .ok text ↔
      ∃ content, default = .string content ∧ bytes? content = some text := by
  cases default with
  | string content => cases spelled : bytes? content <;> simp [ofPrimitive, spelled]
  | _ => simp [ofPrimitive]

/-- A default of an enum is one of its symbols, and its literal is the escaped name of the enum and
that of the symbol. -/
theorem ofEnumeration_eq_ok {enumeration : Enumeration} :
    ofEnumeration enumeration default = .ok text ↔
      ∃ symbol ∈ enumeration.symbols, default = .string symbol ∧
        text = enumeration.name.escapedFull ++ "." ++ Identifier.escape symbol := by
  cases default with
  | string symbol =>
    by_cases known : symbol ∈ enumeration.symbols <;> simp [ofEnumeration, known, eq_comm]
  | _ => simp [ofEnumeration]

/-- What literals tell about defaults, type by type. -/
structure Denotes (registry : Registry) : Prop where
  /-- An integer of 32 bits is spelled by its decimal digits, and nothing else is spelled. -/
  int : ∀ default text, Spells registry (.primitive .int) default text ↔
    ∃ value, default = .number (.integer value) ∧ -0x80000000 ≤ value ∧ value < 0x80000000 ∧
      text = toString value
  /-- So is an integer of 64 bits. -/
  long : ∀ default text, Spells registry (.primitive .long) default text ↔
    ∃ value, default = .number (.integer value) ∧ -0x8000000000000000 ≤ value ∧
      value < 0x8000000000000000 ∧ text = toString value
  /-- A string is spelled as bytes if each of its characters fits into one. -/
  bytes : ∀ default, (∃ text, Spells registry (.primitive .bytes) default text) ↔
    ∃ content, default = .string content ∧ ∀ character ∈ content.toList, character.toNat ≤ 0xFF
  /-- The bytes read off the literal are the characters of the string. -/
  bytesRead : ∀ content text, Spells registry (.primitive .bytes) (.string content) text →
    bytesIn text.toList = content.toList.map Char.toNat
  /-- No two defaults are spelled as the same bytes. -/
  bytesApart : ∀ default other text, Spells registry (.primitive .bytes) default text →
    Spells registry (.primitive .bytes) other text → default = other
  /-- The symbols of an enum are spelled, each in its own way if all are identifiers. -/
  enum : ∀ handle enumeration, registry.get? handle = some (.enum enumeration) →
    (∀ default, (∃ text, Spells registry (.named .enum handle) default text) ↔
      ∃ symbol ∈ enumeration.symbols, default = .string symbol) ∧
    ((∀ symbol ∈ enumeration.symbols, Identifier.isWellFormed symbol = true) →
      ∀ default other text, Spells registry (.named .enum handle) default text →
        Spells registry (.named .enum handle) other text → default = other)
  /-- A handle without an enum has no literals. -/
  noEnum : ∀ handle, (∀ enumeration, registry.get? handle ≠ some (.enum enumeration)) →
    ∀ default text, ¬ Spells registry (.named .enum handle) default text
  null : ∀ default, (∃ text, Spells registry (.primitive .null) default text) ↔ default = .null
  boolean : ∀ default, (∃ text, Spells registry (.primitive .boolean) default text) ↔
    ∃ value, default = .bool value
  /-- A default of a scalar type is refused if it is not spelled. -/
  refused : ∀ declared default,
    (declared.isPrimitive = true ∨ ∃ handle, declared = .named .enum handle) →
    (∀ text, ¬ Spells registry declared default text) →
    ∃ reason, synthesize registry declared default = .error reason
  /-- All other types take every default, without a literal. -/
  unsupported : ∀ declared default, declared.isPrimitive = false →
    (∀ handle, declared ≠ .named .enum handle) →
    synthesize registry declared default = .ok (.unsupported declared.kind)

/-- Distinct symbols that are identifiers are spelled differently. -/
theorem eq_of_ofEnumeration {enumeration : Enumeration}
    (wellFormed : ∀ symbol ∈ enumeration.symbols, Identifier.isWellFormed symbol = true)
    (spelled : ofEnumeration enumeration default = .ok text)
    (otherSpelled : ofEnumeration enumeration other = .ok text) : default = other := by
  obtain ⟨symbol, member, rfl, rfl⟩ := ofEnumeration_eq_ok.1 spelled
  obtain ⟨otherSymbol, otherMember, rfl, same⟩ := ofEnumeration_eq_ok.1 otherSpelled
  have plain (symbol : String) (member : symbol ∈ enumeration.symbols) : '@' ∉ symbol.toList :=
    (Identifier.continues_of_isWellFormed (wellFormed symbol member)).notMem (by decide)
  have escaped : Identifier.escape symbol = Identifier.escape otherSymbol := by simpa using same
  rw [Identifier.escape_inj (plain symbol member) (plain otherSymbol otherMember) escaped]

/-- A literal has no kind of default but the scalar ones, and these are spelled or refused. -/
theorem spells_or_refused (registry : Registry) (default : Json)
    (scalar : declared.isPrimitive = true ∨ ∃ handle, declared = .named .enum handle) :
    (∃ text, Spells registry declared default text) ∨
      ∃ reason, synthesize registry declared default = .error reason := by
  have either (literal : Except Reason String)
      (same : synthesize registry declared default = literal.map .literal) :
      (∃ text, Spells registry declared default text) ∨
        ∃ reason, synthesize registry declared default = .error reason := by
    cases literal with
    | ok text => exact .inl ⟨text, same⟩
    | error reason => exact .inr ⟨reason, same⟩
  obtain isPrimitive | ⟨handle, rfl⟩ := scalar
  · cases declared with
    | primitive type => exact either _ rfl
    | _ => cases isPrimitive
  · cases found : (registry.get? handle).bind Entry.enum? with
    | some enumeration =>
      exact either (ofEnumeration enumeration default) (by rw [synthesize, found])
    | none => exact .inr ⟨_, by rw [synthesize, found]⟩

/-- The strings that are spelled as bytes are those of characters that fit into one. -/
theorem exists_spells_bytes_iff :
    (∃ text, Spells registry (.primitive .bytes) default text) ↔
      ∃ content, default = .string content ∧
        ∀ character ∈ content.toList, character.toNat ≤ 0xFF := by
  simp only [spells_primitive, ofPrimitive_bytes_eq_ok]
  constructor
  · rintro ⟨text, content, rfl, spelled⟩
    obtain ⟨-, unspelled⟩ | ⟨fits, -⟩ := bytes?_cases content
    · cases unspelled.symm.trans spelled
    · exact ⟨content, rfl, fits⟩
  · rintro ⟨content, rfl, fits⟩
    obtain ⟨⟨character, member, wide⟩, -⟩ | ⟨-, text, spelled, -⟩ := bytes?_cases content
    · exact absurd (fits character member) (Nat.not_le.2 wide)
    · exact ⟨text, content, rfl, spelled⟩

/-- Strings that are spelled as the same bytes are the same. -/
theorem eq_of_spells_bytes (spells : Spells registry (.primitive .bytes) default text)
    (otherSpells : Spells registry (.primitive .bytes) other text) : default = other := by
  obtain ⟨content, rfl, spelled⟩ := ofPrimitive_bytes_eq_ok.1 (spells_primitive.1 spells)
  obtain ⟨content', rfl, spelled'⟩ := ofPrimitive_bytes_eq_ok.1 (spells_primitive.1 otherSpells)
  have same : content.toList.map Char.toNat = content'.toList.map Char.toNat :=
    (bytesIn_of_bytes? spelled).symm.trans (bytesIn_of_bytes? spelled')
  rw [String.toList_inj.1 (List.map_injective_iff.2 (fun _ _ => Char.toNat_inj.1) same)]

/-- At the handle of an enum, its symbols are spelled and nothing else is. -/
theorem spells_enum_of_found {handle : Handle} {enumeration : Enumeration}
    (found : registry.get? handle = some (.enum enumeration)) :
    Spells registry (.named .enum handle) default text ↔
      ofEnumeration enumeration default = .ok text := by
  simp [spells_enum, found]

/-- The symbols of an enum have literals, and nothing else does. -/
theorem exists_ofEnumeration_iff {enumeration : Enumeration} :
    (∃ text, ofEnumeration enumeration default = .ok text) ↔
      ∃ symbol ∈ enumeration.symbols, default = .string symbol := by
  simp only [ofEnumeration_eq_ok]
  constructor
  · rintro ⟨text, symbol, member, same, -⟩
    exact ⟨symbol, member, same⟩
  · rintro ⟨symbol, member, same⟩
    exact ⟨_, symbol, member, same, rfl⟩

/-- Literals denote exactly the defaults that they are made of. -/
theorem synthesize_denotes (registry : Registry) : Denotes registry where
  int default text := by
    rw [spells_primitive, ofPrimitive, ofInteger_eq_ok]
    simp [inRange, and_assoc]
  long default text := by
    rw [spells_primitive, ofPrimitive, ofInteger_eq_ok]
    simp [inRange, Number.isSigned64, and_assoc]
  bytes default := exists_spells_bytes_iff
  bytesRead content text spells := by
    obtain ⟨_, same, spelled⟩ := ofPrimitive_bytes_eq_ok.1 (spells_primitive.1 spells)
    cases same
    exact bytesIn_of_bytes? spelled
  bytesApart default other text := eq_of_spells_bytes
  enum handle enumeration found := by
    simp only [spells_enum_of_found found]
    exact ⟨fun default => exists_ofEnumeration_iff,
      fun wellFormed default other text => eq_of_ofEnumeration wellFormed⟩
  noEnum handle none default text spells := by
    obtain ⟨enumeration, found, -⟩ := spells_enum.1 spells
    exact none enumeration found
  null default := by
    simp only [spells_primitive]
    cases default <;> simp [ofPrimitive]
  boolean default := by
    simp only [spells_primitive]
    cases default <;> simp [ofPrimitive]
  refused declared default scalar unspelled := by
    obtain ⟨text, spells⟩ | refused := spells_or_refused registry default scalar
    · exact absurd spells (unspelled text)
    · exact refused
  unsupported declared default composite noEnum := by
    rw [synthesize.eq_def]
    split
    · cases composite
    · exact absurd rfl (noEnum _)
    · rfl

example : Spells .empty (.primitive .bytes) (.string "a\u00ff") "new byte[] \x7b 0x61, 0xFF \x7d" ∧
    bytesIn "new byte[] \x7b 0x61, 0xFF \x7d".toList = [0x61, 0xFF] := by
  decide +kernel

/-- A registry that holds nothing but an enum with a keyword for a symbol. -/
def modifiers : Registry :=
  { entries := [.enum { name := ⟨"Modifier", some "n"⟩, symbols := ["class", "Class"] }],
    index := [(⟨"Modifier", some "n"⟩, 0)] }

/-- Its symbols denote different defaults, and all others are refused. -/
theorem synthesize_denotes_modifiers :
    Spells modifiers (.named .enum 0) (.string "class") "n.Modifier.@class" ∧
      Spells modifiers (.named .enum 0) (.string "Class") "n.Modifier.Class" ∧
      (∀ default other text, Spells modifiers (.named .enum 0) default text →
        Spells modifiers (.named .enum 0) other text → default = other) ∧
      ∀ default, default ≠ .string "class" → default ≠ .string "Class" →
        ∃ reason, synthesize modifiers (.named .enum 0) default = .error reason := by
  have denotes := synthesize_denotes modifiers
  obtain ⟨symbols, apart⟩ := denotes.enum 0 _ rfl
  refine ⟨by decide +kernel, by decide +kernel, apart (by decide +kernel),
    fun default notFirst notSecond => denotes.refused _ _ (.inr ⟨0, rfl⟩) fun text spells => ?_⟩
  obtain ⟨symbol, member, rfl⟩ := (symbols default).1 ⟨text, spells⟩
  obtain rfl | rfl : symbol = "class" ∨ symbol = "Class" := by simpa using member
  · exact notFirst rfl
  · exact notSecond rfl

end AvroGraph.DefaultLiteral
