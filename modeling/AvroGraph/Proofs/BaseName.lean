import AvroGraph.Proofs.Resolved

/-!
# Names of abstract bases

The name of a base is put together from the names of its owner and its slot, a suffix and perhaps
a counter. No part of it brings in a dot and the suffix is never blank, so it is well-formed
wherever its owner is (`Registry.wellFormed_freeBaseName`).
-/

namespace AvroGraph

namespace Text

/-- No other character has the dot for its upper case. -/
theorem UpperCase.dot_notMem_codes {code : Nat} (other : code ≠ '.'.toNat) :
    '.'.toNat ∉ codes code := by
  have several : ∀ expansion ∈ expansions, '.'.toNat ∉ expansion.2 := by decide +kernel
  have above : ∀ span ∈ spans, ('.'.toNat : Int) < span.first + span.shift := by
    decide +kernel
  intro member
  rw [codes] at member
  split at member
  · next letters found =>
    have entry : (code, letters) ∈ expansions := by
      rw [List.lookup_eq_some_iff] at found
      obtain ⟨before, after, same, -⟩ := found
      simp [same]
    exact several _ entry member
  · split at member
    · next span found =>
      have holds := List.find?_some found
      have lowest := above span (List.mem_of_find?_eq_some found)
      simp only [Span.holds, Bool.and_eq_true, decide_eq_true_eq] at holds
      rw [List.mem_singleton, Int.ofNat_eq_natCast] at member
      omega
    · exact other (List.mem_singleton.1 member).symm

/-- No character but a dot is turned into one in upper case. -/
theorem dot_notMem_upperCase {character : Char} (other : character ≠ '.') :
    '.' ∉ upperCase character := by
  intro member
  obtain ⟨code, isCode, isDot⟩ := List.mem_map.1 member
  have same : code = '.'.toNat := by
    by_cases valid : code.isValidChar
    · rw [← isDot, Char.ofNat, dif_pos valid]
      rfl
    · rw [Char.ofNat, dif_neg valid] at isDot
      cases isDot
  rw [same] at isCode
  exact UpperCase.dot_notMem_codes (fun isDot => other (Char.toNat_inj.1 isDot)) isCode

/-- The pieces of a text are made of its characters. -/
theorem mem_of_mem_pieces {separates : Char → Bool} {characters piece : List Char}
    {character : Char} (isPiece : piece ∈ pieces separates characters)
    (member : character ∈ piece) :
    character ∈ characters := by
  induction characters generalizing piece with
  | nil =>
    rw [List.mem_singleton.1 isPiece] at member
    exact member
  | cons first rest ih =>
    rw [pieces] at isPiece
    split at isPiece
    · rcases List.mem_cons.1 isPiece with rfl | later
      · cases member
      · exact List.mem_cons_of_mem _ (ih later member)
    · split at isPiece
      · obtain rfl := List.mem_singleton.1 isPiece
        rw [List.mem_singleton.1 member]
        exact List.mem_cons_self
      · next head others cut =>
        rw [cut] at ih
        rcases List.mem_cons.1 isPiece with rfl | later
        · rcases List.mem_cons.1 member with rfl | inside
          · exact List.mem_cons_self
          · exact List.mem_cons_of_mem _ (ih List.mem_cons_self inside)
        · exact List.mem_cons_of_mem _ (ih (List.mem_cons_of_mem _ later) member)

end Text

namespace Identifier

variable {text : String}

/-- A text without dots has none in Pascal case either. -/
theorem dot_notMem_pascalCase (undotted : '.' ∉ text.toList) : '.' ∉ (pascalCase text).toList := by
  intro member
  rw [pascalCase, String.toList_ofList, List.mem_flatMap] at member
  obtain ⟨piece, isPiece, member⟩ := member
  cases piece with
  | nil => cases member
  | cons first rest =>
    have inside (character : Char) (isInside : character ∈ first :: rest) : character ≠ '.' := by
      rintro rfl
      exact undotted (Text.mem_of_mem_pieces isPiece isInside)
    rcases List.mem_append.1 member with head | tail
    · exact Text.dot_notMem_upperCase (inside first List.mem_cons_self) head
    · exact inside '.' (List.mem_cons_of_mem _ tail) rfl

end Identifier

/-- There is no dot in a counter. -/
theorem dot_notMem_toString (counter : Nat) : '.' ∉ (toString counter).toList := by
  intro member
  rw [Nat.toString_eq_repr, Nat.toList_repr] at member
  have digit := Nat.isDigit_of_mem_toDigits (by decide) (by decide) member
  revert digit
  decide

variable {name owner : Name} {slot : String}

/-- More text without dots leaves a name well-formed. -/
theorem Name.WellFormed.append {text : String} (wellFormed : name.WellFormed)
    (undotted : '.' ∉ text.toList) :
    Name.WellFormed { name with localName := name.localName ++ text } where
  undotted := by
    rw [String.toList_append, List.mem_append, not_or]
    exact ⟨wellFormed.undotted, undotted⟩
  visible := by
    have visible := wellFormed.visible
    rw [Text.isBlank, List.all_eq_false] at visible ⊢
    obtain ⟨character, member, isVisible⟩ := visible
    exact ⟨character, by simp [member], isVisible⟩
  space := wellFormed.space

/-- The base of a slot is named in the namespace of its owner, without dots. -/
theorem AbstractBase.wellFormed_nameFor (wellFormed : owner.WellFormed)
    (undotted : '.' ∉ slot.toList) : (nameFor owner slot).WellFormed where
  undotted := by
    simp only [nameFor, String.toList_append, List.mem_append, not_or]
    exact ⟨⟨Identifier.dot_notMem_pascalCase wellFormed.undotted,
      Identifier.dot_notMem_pascalCase undotted⟩, by decide⟩
  visible := by
    have member : 'B' ∈ (nameFor owner slot).localName.toList := by
      simp [nameFor, String.toList_append]
    exact Text.isBlank_eq_false_of_mem member (by decide)
  space := wellFormed.space

/-- The name that a base is given is the one for its slot, or that with a counter behind it. -/
theorem Registry.freeBaseName_cases (registry : Registry) (name : Name) :
    registry.freeBaseName name = name ∨
      ∃ counter, registry.freeBaseName name = numbered name counter := by
  rw [freeBaseName]
  split
  · cases found : ((List.range (registry.index.length + 1)).map fun index =>
        numbered name (index + 2)).find? fun candidate => !registry.holdsBase candidate with
    | none => exact .inl rfl
    | some free =>
      obtain ⟨index, -, rfl⟩ := List.mem_map.1 (List.mem_of_find?_eq_some found)
      exact .inr ⟨index + 2, rfl⟩
  · exact .inl rfl

/-- A base has a well formed name if its owner does and there is no dot in the name of the slot. -/
theorem Registry.wellFormed_freeBaseName (registry : Registry) (wellFormed : owner.WellFormed)
    (undotted : '.' ∉ slot.toList) :
    (registry.freeBaseName (AbstractBase.nameFor owner slot)).WellFormed := by
  have named := AbstractBase.wellFormed_nameFor wellFormed undotted
  obtain same | ⟨counter, same⟩ := registry.freeBaseName_cases (AbstractBase.nameFor owner slot)
  · rwa [same]
  · rw [same]
    exact named.append (dot_notMem_toString counter)

end AvroGraph
