import AvroGraph.Json.Members
import AvroGraph.Json.Numeral
import AvroGraph.Json.SyntaxError

/-!
# Reading JSON text

`Json.read` takes a text apart into a value or says what is wrong with it and where. Each
scanner consumes the front of what is left of the text and leaves a shorter rest.
-/

namespace AvroGraph.Json

/-- A fault, met so many bytes beyond the start of `rest`, or at the end if `rest` is shorter. -/
structure Failure where
  fault : SyntaxFault
  rest : List Char
  beyond : Nat

/-- What a scanner leaves of its input. -/
abbrev Rest (input : List Char) :=
  { rest : List Char // rest.length < input.length }

/-- The outcome of a scanner: what it read and what it left, or a failure. -/
abbrev Scan (input : List Char) (α : Type) :=
  Except Failure (α × Rest input)

/-- A fault at the next character, which counts as seen. -/
def failSeen {α : Type} (fault : SyntaxFault) (rest : List Char) : Except Failure α :=
  .error ⟨fault, rest, 1⟩

/-- A fault right before `rest`. -/
def failBefore {α : Type} (fault : SyntaxFault) (rest : List Char) : Except Failure α :=
  .error ⟨fault, rest, 0⟩

/-- The outcome of a scanner that ran on the back of a longer input. -/
def Scan.within {α : Type} {inner outer : List Char} (scan : Scan inner α)
    (le : inner.length ≤ outer.length) : Scan outer α :=
  scan.map fun (value, rest) => (value, ⟨rest.1, Nat.lt_of_lt_of_le rest.2 le⟩)

/-- The outcome of a scanner with what it read made into something else. -/
def Scan.as {α β : Type} {input : List Char} (scan : Scan input α) (make : α → β) :
    Scan input β :=
  scan.map fun (value, rest) => (make value, rest)

/-- The blanks of JSON. -/
def isBlank (character : Char) : Bool :=
  character == ' ' || character == '\n' || character == '\t' || character == '\r'

/-- The input from its first character on that is no blank. -/
def skipBlanks (input : List Char) : List Char :=
  input.dropWhile isBlank

/-- To drop characters shortens the text or leaves it as long as it is. -/
theorem length_dropWhile_le (test : Char → Bool) (input : List Char) :
    (input.dropWhile test).length ≤ input.length :=
  (List.dropWhile_suffix test).length_le

/-- To skip blanks shortens the text or leaves it as long as it is. -/
theorem length_skipBlanks_le (input : List Char) : (skipBlanks input).length ≤ input.length :=
  length_dropWhile_le isBlank input

/-- Blanks skipped and the first character taken leave less than there was. -/
theorem length_lt_of_skipBlanks {input rest : List Char} {character : Char}
    (equal : skipBlanks input = character :: rest) : rest.length < input.length := by
  have := length_skipBlanks_le input
  simp only [equal, List.length_cons] at this
  omega

/-- The rest of a literal such as `null`, letter by letter. -/
def literal (value : Json) : (expected input : List Char) →
    Except Failure (Json × { rest : List Char // rest.length ≤ input.length })
  | [], input => .ok (value, ⟨input, Nat.le_refl _⟩)
  | _ :: _, [] => failBefore .endInValue []
  | letter :: letters, character :: rest =>
    if character = letter then
      (literal value letters rest).map fun (value, ⟨rest, le⟩) =>
        (value, ⟨rest, Nat.le_succ_of_le le⟩)
    else failSeen .expectedIdentifier (character :: rest)

/-! ## Numbers -/

/-- The digits of an exponent: their value, or the point where it grew too large. -/
inductive ExponentDigits where
  | exact (value : Nat)
  | excessive (rest : List Char)

/-- Add up the digits of an exponent. -/
def exponentDigits (value : Nat) : List Char → ExponentDigits
  | [] => .exact value
  | character :: rest =>
    if character.isDigit then
      let extended := 10 * value + Numeral.digitValue character
      if extended ≤ Numeral.exponentLimit then exponentDigits extended rest else .excessive rest
    else .exact value

/-- The double of a numeral that ends before `rest`. -/
def finishDouble (negative : Bool) (parts : Numeral.Parts) (rest : List Char) :
    Except Failure Number :=
  match parts.magnitude with
  | some magnitude => .ok (.double ⟨negative, magnitude⟩)
  | none => failBefore .numberOutOfRange rest

/-- The sign of an exponent, true for a minus, and what follows it. -/
def exponentSign : List Char → Bool × List Char
  | '+' :: rest => (false, rest)
  | '-' :: rest => (true, rest)
  | rest => (false, rest)

/-- The double of a numeral whose exponent starts after its letter, at `input`. -/
def exponentPart (negative : Bool) (parts : Numeral.Parts) (input : List Char) :
    Except Failure Number :=
  let (lowers, digits) := exponentSign input
  match digits with
  | [] => failBefore .endInValue []
  | first :: _ =>
    if first.isDigit then
      match exponentDigits 0 digits with
      | .exact value =>
        let exponent := if lowers then parts.exponent - value else parts.exponent + value
        finishDouble negative ⟨parts.significand, exponent⟩ (digits.dropWhile Char.isDigit)
      | .excessive rest =>
        if parts.significand ≠ 0 ∧ lowers = false then failBefore .numberOutOfRange rest
        else .ok (.double ⟨negative, .zero⟩)
    else failSeen .invalidNumber digits

/-- What an exponent leaves. -/
def afterExponent (input : List Char) : List Char :=
  (exponentSign input).2.dropWhile Char.isDigit

/-- To read the exponent of a number shortens the text or leaves it as long as it is. -/
theorem length_afterExponent_le (input : List Char) :
    (afterExponent input).length ≤ input.length := by
  refine Nat.le_trans (length_dropWhile_le _ _) ?_
  unfold exponentSign
  split <;> simp

/-- A numeral from its first digit on. A zero stands alone before the point. -/
def numeral (negative : Bool) : (input : List Char) → Except Failure (Number × Rest input)
  | [] => failBefore .endInValue []
  | first :: tail => do
    if first.isDigit = false then failSeen .invalidNumber (first :: tail)
    let rest := tail.dropWhile Char.isDigit
    let shorter : rest.length < (first :: tail).length :=
      Nat.lt_succ_of_le (length_dropWhile_le _ _)
    if first = '0' ∧ rest.length < tail.length then failSeen .invalidNumber tail
    let whole := first :: tail.takeWhile Char.isDigit
    match equal : rest with
    | 'e' :: input | 'E' :: input =>
      let double ← exponentPart negative (.ofDigits whole []) input
      return (double, ⟨afterExponent input, by
        have := length_afterExponent_le input
        simp only [equal, List.length_cons] at shorter ⊢
        omega⟩)
    | '.' :: after =>
      let fraction := after.takeWhile Char.isDigit
      let behind := after.dropWhile Char.isDigit
      have le : behind.length ≤ after.length := length_dropWhile_le _ _
      if fraction.isEmpty then
        if behind.isEmpty then failSeen .endInValue [] else failSeen .invalidNumber behind
      match equalBehind : behind with
      | 'e' :: input | 'E' :: input =>
        let double ← exponentPart negative (.ofDigits whole fraction) input
        return (double, ⟨afterExponent input, by
          have := length_afterExponent_le input
          simp only [equal, equalBehind, List.length_cons] at le shorter ⊢
          omega⟩)
      | _ =>
        let double ← finishDouble negative (.ofDigits whole fraction) behind
        return (double, ⟨behind, by
          simp only [equal, List.length_cons] at le shorter ⊢
          omega⟩)
    | _ =>
      match Numeral.ofWhole negative whole with
      | some whole => return (whole, ⟨rest, shorter⟩)
      | none => failBefore .numberOutOfRange rest

/-! ## Strings -/

/-- The characters that an escape of one letter stands for. -/
def shortUnescapes : List (Char × Char) :=
  [('"', '"'), ('\\', '\\'), ('/', '/'), ('b', '\x08'), ('f', '\x0c'), ('n', '\n'), ('r', '\r'),
   ('t', '\t')]

/-- The value of a hexadecimal digit of either case. -/
def hexValue? (character : Char) : Option Nat :=
  if character.isDigit then some (character.toNat - '0'.toNat)
  else if 'a' ≤ character ∧ character ≤ 'f' then some (character.toNat - 'a'.toNat + 10)
  else if 'A' ≤ character ∧ character ≤ 'F' then some (character.toNat - 'A'.toNat + 10)
  else none

/-- The number of bytes that characters take in UTF-8. -/
def byteLength (characters : List Char) : Nat :=
  characters.foldr (fun character bytes => character.utf8Size + bytes) 0

/-- Four hexadecimal digits. Four bytes are looked at together. -/
def hexQuad (input : List Char) : Scan input Nat :=
  let failure : Failure :=
    ⟨if byteLength input < 4 then .endInString else .invalidEscape, input, 4⟩
  match input with
  | first :: second :: third :: fourth :: rest =>
    match hexValue? first, hexValue? second, hexValue? third, hexValue? fourth with
    | some a, some b, some c, some d =>
      .ok (((a * 16 + b) * 16 + c) * 16 + d, ⟨rest, by simp only [List.length_cons]; omega⟩)
    | _, _, _, _ => .error failure
  | _ => .error failure

/-- A leading surrogate, which needs a trailing one behind it. -/
def isLeadingSurrogate (unit : Nat) : Bool :=
  0xD800 ≤ unit && unit ≤ 0xDBFF

/-- A trailing surrogate, which needs a leading one before it. -/
def isTrailingSurrogate (unit : Nat) : Bool :=
  0xDC00 ≤ unit && unit ≤ 0xDFFF

/-- The second half of a pair of surrogates, written as an escape of its own. -/
def trailingEscape (leading : Nat) : (input : List Char) → Scan input Char
  | [] | ['\\'] => failBefore .endInString []
  | '\\' :: 'u' :: input =>
    match hexQuad input with
    | .error failure => .error failure
    | .ok (trailing, rest) =>
      if isTrailingSurrogate trailing then
        .ok (Char.ofNat (0x10000 + (leading - 0xD800) * 0x400 + (trailing - 0xDC00)),
          ⟨rest.1, Nat.lt_succ_of_lt (Nat.lt_succ_of_lt rest.2)⟩)
      else failBefore .loneSurrogate rest.1
  | '\\' :: rest => failSeen .endOfHexEscape rest
  | rest => failSeen .endOfHexEscape rest

/-- The character of an escape with hexadecimal digits, from the first digit on. -/
def unicodeEscape (input : List Char) : Scan input Char :=
  match hexQuad input with
  | .error failure => .error failure
  | .ok (unit, rest) =>
    if isTrailingSurrogate unit then failBefore .loneSurrogate rest.1
    else if isLeadingSurrogate unit then
      (trailingEscape unit rest.1).within (Nat.le_of_lt rest.2)
    else .ok (Char.ofNat unit, rest)

/-- The character of an escape, from behind its backslash on. -/
def escape : (input : List Char) → Scan input Char
  | [] => failBefore .endInString []
  | 'u' :: rest => (unicodeEscape rest).within (Nat.le_succ _)
  | letter :: rest =>
    match shortUnescapes.lookup letter with
    | some character => .ok (character, ⟨rest, Nat.lt_succ_self _⟩)
    | none => failSeen .invalidEscape (letter :: rest)

/-- A string from behind its opening quote on; `read` holds what came before, last first. -/
def stringBody (read : List Char) (input : List Char) : Scan input String :=
  match input with
  | [] => failBefore .endInString []
  | '"' :: rest => .ok (String.ofList read.reverse, ⟨rest, Nat.lt_succ_self _⟩)
  | '\\' :: rest =>
    match escape rest with
    | .ok (character, ⟨behind, shorter⟩) =>
      (stringBody (character :: read) behind).within
        (Nat.le_of_lt (Nat.lt_succ_of_lt shorter))
    | .error failure => .error failure
  | character :: rest =>
    if character.toNat < 0x20 then failSeen .controlCharacter (character :: rest)
    else (stringBody (character :: read) rest).within (Nat.le_succ _)
termination_by input.length
decreasing_by all_goals simp only [List.length_cons]; omega

/-! ## Values -/

mutual

/-- A value, within so many further levels of brackets. -/
def value (levels : Nat) (input : List Char) : Scan input Json :=
  match equal : skipBlanks input with
  | [] => failSeen .endInValue []
  | character :: rest =>
    have shorter : rest.length < input.length := length_lt_of_skipBlanks equal
    if character = 'n' then
      (literal .null ['u', 'l', 'l'] rest).map fun (value, ⟨rest, le⟩) =>
        (value, ⟨rest, Nat.lt_of_le_of_lt le shorter⟩)
    else if character = 't' then
      (literal (.bool true) ['r', 'u', 'e'] rest).map fun (value, ⟨rest, le⟩) =>
        (value, ⟨rest, Nat.lt_of_le_of_lt le shorter⟩)
    else if character = 'f' then
      (literal (.bool false) ['a', 'l', 's', 'e'] rest).map fun (value, ⟨rest, le⟩) =>
        (value, ⟨rest, Nat.lt_of_le_of_lt le shorter⟩)
    else if character = '"' then
      ((stringBody [] rest).as Json.string).within (Nat.le_of_lt shorter)
    else if character = '-' then
      (Scan.as (numeral true rest) Json.number).within (Nat.le_of_lt shorter)
    else if character.isDigit then
      (Scan.as (numeral false (character :: rest)) Json.number).within
        (equal ▸ length_skipBlanks_le input)
    else if character = '[' then
      match levels with
      | 0 => failSeen .recursionLimit (character :: rest)
      | levels + 1 =>
        match equalRest : skipBlanks rest with
        | [] => failSeen .endInList []
        | ']' :: behind =>
          .ok (.array [], ⟨behind, Nat.lt_trans (length_lt_of_skipBlanks equalRest) shorter⟩)
        | first :: behind =>
          have le : (first :: behind).length ≤ rest.length :=
            equalRest ▸ length_skipBlanks_le rest
          (items levels [] (first :: behind)).within (Nat.le_trans le (Nat.le_of_lt shorter))
    else if character = '{' then
      match levels with
      | 0 => failSeen .recursionLimit (character :: rest)
      | levels + 1 =>
        match equalRest : skipBlanks rest with
        | [] => failSeen .endInObject []
        | '}' :: behind =>
          .ok (.object [], ⟨behind, Nat.lt_trans (length_lt_of_skipBlanks equalRest) shorter⟩)
        | first :: behind =>
          have le : (first :: behind).length ≤ rest.length :=
            equalRest ▸ length_skipBlanks_le rest
          (members levels [] (first :: behind)).within (Nat.le_trans le (Nat.le_of_lt shorter))
    else failSeen .expectedValue (character :: rest)
termination_by (input.length, 0)
decreasing_by
  all_goals
    refine Prod.Lex.left _ _ ?_
    exact Nat.lt_of_le_of_lt le shorter

/-- The items of an array from one of them on; `done` holds those before, last first. -/
def items (levels : Nat) (done : List Json) (input : List Char) : Scan input Json :=
  match value levels input with
  | .error failure => .error failure
  | .ok (item, ⟨rest, shorter⟩) =>
    match equal : skipBlanks rest with
    | [] => failSeen .endInList []
    | ']' :: behind =>
      .ok (.array (item :: done).reverse,
        ⟨behind, Nat.lt_trans (length_lt_of_skipBlanks equal) shorter⟩)
    | ',' :: behind =>
      match equalBehind : skipBlanks behind with
      | [] => failSeen .endInValue []
      | ']' :: _ => failSeen .trailingComma (skipBlanks behind)
      | first :: further =>
        have le : (first :: further).length < input.length :=
          Nat.lt_of_le_of_lt (equalBehind ▸ length_skipBlanks_le behind)
            (Nat.lt_trans (length_lt_of_skipBlanks equal) shorter)
        (items levels (item :: done) (first :: further)).within (Nat.le_of_lt le)
    | _ => failSeen .expectedListEnd (skipBlanks rest)
termination_by (input.length, 1)
decreasing_by
  · exact Prod.Lex.right _ (by decide)
  · exact Prod.Lex.left _ _ le

/-- The members of an object from one of them on; `done` holds those before. A repeated key
keeps its first place and takes its last value. -/
def members (levels : Nat) (done : Members) (input : List Char) : Scan input Json :=
  match input with
  | '"' :: rest =>
    match stringBody [] rest with
    | .error failure => .error failure
    | .ok (key, ⟨rest, shorterKey⟩) =>
      match equalColon : skipBlanks rest with
      | [] => failSeen .endInObject []
      | ':' :: rest =>
        have shorterColon := length_lt_of_skipBlanks equalColon
        match value levels rest with
        | .error failure => .error failure
        | .ok (value, ⟨rest, shorterValue⟩) =>
          let done := done.insert key value
          match equal : skipBlanks rest with
          | [] => failSeen .endInObject []
          | '}' :: behind =>
            .ok (.object done, ⟨behind, by
              have := length_lt_of_skipBlanks equal
              simp only [List.length_cons]
              omega⟩)
          | ',' :: behind =>
            match equalBehind : skipBlanks behind with
            | [] => failSeen .endInValue []
            | '}' :: _ => failSeen .trailingComma (skipBlanks behind)
            | first :: further =>
              have le : (first :: further).length < ('"' :: rest).length := by
                have := length_lt_of_skipBlanks equal
                have := equalBehind ▸ length_skipBlanks_le behind
                simp only [List.length_cons] at *
                omega
              (members levels done (first :: further)).within (by
                simp only [List.length_cons] at *
                omega)
          | _ => failSeen .expectedObjectEnd (skipBlanks rest)
      | _ => failSeen .expectedColon (skipBlanks rest)
  | rest => failSeen .keyNotString rest
termination_by (input.length, 1)
decreasing_by
  · refine Prod.Lex.left _ _ ?_
    simp only [List.length_cons]
    omega
  · refine Prod.Lex.left _ _ ?_
    simp only [List.length_cons] at *
    omega

end

/-- The levels of brackets that a text may have. -/
def levelLimit : Nat := 127

/-- The place of a failure in the text it arose in. -/
def Failure.toError (failure : Failure) (input : List Char) : SyntaxError :=
  ⟨failure.fault, Position.advance ⟨1, 0⟩
    (byteLength input - byteLength failure.rest + failure.beyond) input⟩

/-- The value that a text spells, or what is wrong with the text. -/
def read (text : String) : Except SyntaxError Json :=
  let input := text.toList
  match value levelLimit input with
  | .error failure => .error (failure.toError input)
  | .ok (value, rest) =>
    match skipBlanks rest.1 with
    | [] => .ok value
    | behind => .error (Failure.toError ⟨.trailingCharacters, behind, 1⟩ input)

end AvroGraph.Json
