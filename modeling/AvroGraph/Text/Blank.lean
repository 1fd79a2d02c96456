/-!
# Blank text

Unicode's `White_Space` property and the texts made of nothing else. A name segment
must not be blank, so the property decides which names exist.
-/

namespace AvroGraph.Text

/-- The code points with Unicode's `White_Space` property. -/
def isWhiteSpaceCode (code : Nat) : Bool :=
  (0x9 ≤ code && code ≤ 0xD) || code == 0x20 || code == 0x85 || code == 0xA0 || code == 0x1680 ||
    (0x2000 ≤ code && code ≤ 0x200A) || code == 0x2028 || code == 0x2029 || code == 0x202F ||
    code == 0x205F || code == 0x3000

/-- Whether a character has Unicode's `White_Space` property. -/
def isWhiteSpace (character : Char) : Bool :=
  isWhiteSpaceCode character.toNat

/-- A text is blank when it is empty or holds white space alone. -/
def isBlank (text : String) : Bool :=
  text.toList.all isWhiteSpace

/-- An empty text is blank. -/
@[simp]
theorem isBlank_empty : isBlank "" = true := rfl

/-- A character that is not white space keeps every text that holds it from being blank. -/
theorem isBlank_eq_false_of_mem {text : String} {character : Char}
    (member : character ∈ text.toList) (visible : isWhiteSpace character = false) :
    isBlank text = false := by
  rw [isBlank, List.all_eq_false]
  exact ⟨character, member, by simp [visible]⟩

end AvroGraph.Text
