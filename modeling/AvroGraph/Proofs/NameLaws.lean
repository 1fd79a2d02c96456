import AvroGraph.Proofs.Declarations
import AvroGraph.Proofs.NameTable

/-!
# Laws of names

A text is a name where it stands unless a part of it that counts there is blank, and then it means
the name that it spells (`Name.resolve_eq_ok_iff`). Writing a name out inverts that: what a text
means can be read off its full name, and no other name has that full name
(`Name.resolve_inverts_full`).
-/

namespace AvroGraph.Name

variable {raw : String} {beside around : Option String} {name : Name}

/-- One of the segments of a dotted text is blank. -/
def HasBlankSegment (dotted : String) : Prop :=
  ∃ segment ∈ Text.segments dotted, Text.isBlank segment = true

/-- Segments pass their check where none of them is blank. -/
theorem not_hasBlankSegment {dotted : String} :
    ¬ HasBlankSegment dotted ↔ checkSegments dotted = .ok () := by
  simp [HasBlankSegment, checkSegments_eq_ok]

/-- A text that is no name where it stands. A dotted one has to be sound by itself; any other also
needs a sound namespace, which is the one beside it or else the one around it. -/
inductive Refused (raw : String) (beside around : Option String) : Prop where
  | blank (isBlank : Text.isBlank raw = true)
  | segment (dotted : '.' ∈ raw.toList) (blank : HasBlankSegment raw)
  | emptySpace (undotted : '.' ∉ raw.toList) (isEmpty : beside = some "")
  | spaceSegment (undotted : '.' ∉ raw.toList) (space : String)
      (inForce : beside.or around = some space) (blank : HasBlankSegment space)

/-- For a dotted text nothing counts but its segments. -/
theorem refused_dotted (dotted : '.' ∈ raw.toList) :
    Refused raw beside around ↔ HasBlankSegment raw := by
  constructor
  · rintro (isBlank | ⟨-, blank⟩ | ⟨undotted, -⟩ | ⟨undotted, -⟩)
    · rw [Text.isBlank_eq_false_of_mem dotted (by decide)] at isBlank
      cases isBlank
    · exact blank
    · exact absurd dotted undotted
    · exact absurd dotted undotted
  · exact .segment dotted

/-- A text without dots needs a namespace that is sound, if it has any. -/
theorem not_refused_undotted (undotted : '.' ∉ raw.toList) :
    ¬ Refused raw beside around ↔
      Text.isBlank raw = false ∧ beside ≠ some "" ∧
        ∀ space, beside.or around = some space → checkSegments space = .ok () := by
  constructor
  · intro accepted
    refine ⟨?_, fun isEmpty => accepted (.emptySpace undotted isEmpty), fun space inForce => ?_⟩
    · exact Bool.eq_false_iff.2 fun isBlank => accepted (.blank isBlank)
    · exact not_hasBlankSegment.1 fun blank => accepted (.spaceSegment undotted space inForce blank)
  · rintro ⟨visible, notEmpty, sound⟩
      (isBlank | ⟨dotted, -⟩ | ⟨-, isEmpty⟩ | ⟨-, space, inForce, blank⟩)
    · simp [visible] at isBlank
    · exact undotted dotted
    · exact notEmpty isEmpty
    · exact not_hasBlankSegment.2 (sound space inForce) blank

/-- What is not refused means the name that it spells. -/
theorem resolve_eq_ok_iff :
    resolve raw beside around = .ok name ↔
      ¬ Refused raw beside around ∧ name = qualified raw beside around := by
  rw [qualified]
  cases cut : Text.cutAtLastDot raw.toList with
  | some parts =>
    obtain ⟨isDotted, undotted⟩ := Text.dotted_of_cutAtLastDot cut
    rw [isDotted, refused_dotted (by simp), not_hasBlankSegment, resolve_dotted undotted,
      checkSegments_dotted undotted]
  | none =>
    have undotted := Text.cutAtLastDot_eq_none.1 cut
    rw [not_refused_undotted undotted, resolve_undotted undotted, and_assoc, and_assoc]

/-- A name fails to resolve where it is refused. -/
theorem exists_resolve_eq_error :
    (∃ error, resolve raw beside around = .error error) ↔ Refused raw beside around := by
  cases resolved : resolve raw beside around with
  | error error =>
    have refused : Refused raw beside around := by
      refine Classical.byContradiction fun accepted => ?_
      rw [resolve_eq_ok_iff.2 ⟨accepted, rfl⟩] at resolved
      cases resolved
    simp [refused]
  | ok name => simp [(resolve_eq_ok_iff.1 resolved).1]

/-- A text fails to be a name exactly if it is blank, if it is dotted and has a blank segment, or if
it is not dotted and the namespace beside it is empty or the one in force has a blank segment. If it
is a name, it is the one that it spells; its local name is visible and free of dots, its full name
is read back as the same name and belongs to no other one, and within a namespace both the full name
and the local name beside that namespace mean this name wherever they stand. -/
theorem resolve_inverts_full (raw : String) (beside around : Option String) :
    ((∃ error, resolve raw beside around = .error error) ↔ Refused raw beside around) ∧
      ∀ name, resolve raw beside around = .ok name →
        name = qualified raw beside around ∧
        '.' ∉ name.localName.toList ∧ Text.isBlank name.localName = false ∧
        parse name.full = .ok name ∧
        (∀ otherRaw otherBeside otherAround other,
          resolve otherRaw otherBeside otherAround = .ok other → other.full = name.full →
            other = name) ∧
        ∀ space, name.space = some space →
          (∀ besideFull aroundFull, resolve name.full besideFull aroundFull = .ok name) ∧
          ∀ aroundLocal, resolve name.localName (some space) aroundLocal = .ok name := by
  refine ⟨exists_resolve_eq_error, fun name resolved => ?_⟩
  have wellFormed := (wellFormed_of_resolve resolved).1
  refine ⟨(resolve_eq_ok_iff.1 resolved).2, wellFormed.undotted, wellFormed.visible,
    wellFormed.parse_full, fun _ _ _ other otherResolved same => ?_, fun space inSpace =>
      ⟨fun _ _ => wellFormed.resolve_full inSpace, fun _ => ?_⟩⟩
  · exact (wellFormed_of_resolve otherResolved).1.full_inj wellFormed same
  · have notEmpty := ne_empty_of_checkSegments (wellFormed.space space inSpace)
    exact wellFormed.resolve_localName (by simp [inSpace]) (by simpa using notEmpty)

/-- An inherited namespace of two segments, one of them an ideographic letter, next to white space
that is not ASCII: the name is found again, while that space alone is no name. -/
theorem resolve_inverts_full_inherited :
    resolve "C\u00A0" none (some "a.名") = .ok ⟨"C\u00A0", some "a.名"⟩ ∧
      (∀ beside around, resolve "a.名.C\u00A0" beside around = .ok ⟨"C\u00A0", some "a.名"⟩) ∧
      (∀ around, resolve "C\u00A0" (some "a.名") around = .ok ⟨"C\u00A0", some "a.名"⟩) ∧
      ∃ error, resolve "a.\u00A0" none none = .error error := by
  have resolved : resolve "C\u00A0" none (some "a.名") = .ok ⟨"C\u00A0", some "a.名"⟩ := by
    decide +kernel
  obtain ⟨-, -, -, -, -, within⟩ := (resolve_inverts_full _ _ _).2 _ resolved
  have blank : Refused "a.\u00A0" none none :=
    .segment (by decide) ⟨"\u00A0", by decide, by decide⟩
  exact ⟨resolved, (within "a.名" rfl).1, (within "a.名" rfl).2,
    (resolve_inverts_full _ _ _).1.2 blank⟩

end AvroGraph.Name
