/-!
# Segments of a text

Cutting a text at separator characters and at its last dot. The last dot is characterised by
what surrounds it (`cutAtLastDot_eq_some`), and a text without one has no dot at all
(`cutAtLastDot_eq_none`).
-/

namespace AvroGraph.Text

/-- The maximal runs between separators, in order; there is always at least one, and it may be
empty. -/
def pieces (separates : Char → Bool) : List Char → List (List Char)
  | [] => [[]]
  | character :: rest =>
    if separates character then [] :: pieces separates rest
    else
      match pieces separates rest with
      | [] => [[character]]
      | piece :: others => (character :: piece) :: others

/-- Even an empty text has one piece. -/
theorem pieces_ne_nil (separates : Char → Bool) (characters : List Char) :
    pieces separates characters ≠ [] := by
  cases characters with
  | nil => simp [pieces]
  | cons character rest =>
    rw [pieces]
    split
    · simp
    · split <;> simp

/-- The segments of a dotted text: what stands between its dots. -/
def segments (text : String) : List String :=
  (pieces (· == '.') text.toList).map String.ofList

/-- Cut at the last dot: what stands before it and what stands after it. -/
def cutAtLastDot : List Char → Option (List Char × List Char)
  | [] => none
  | character :: rest =>
    match cutAtLastDot rest with
    | some (before, after) => some (character :: before, after)
    | none => if character = '.' then some ([], rest) else none

/-- A text has no last dot exactly when it has no dot. -/
theorem cutAtLastDot_eq_none {characters : List Char} :
    cutAtLastDot characters = none ↔ '.' ∉ characters := by
  induction characters with
  | nil => simp [cutAtLastDot]
  | cons character rest inductionHypothesis =>
    rw [cutAtLastDot]
    split
    · next equal =>
      simp only [equal, reduceCtorEq, false_iff, Decidable.not_not] at inductionHypothesis
      simp [inductionHypothesis]
    · next equal =>
      have absent := inductionHypothesis.1 equal
      by_cases dot : character = '.'
      · simp [dot]
      · simp [dot, absent, Ne.symm dot]

/-- The cut loses nothing but the dot, and no dot follows it. -/
theorem cutAtLastDot_eq_some {characters before after : List Char} :
    cutAtLastDot characters = some (before, after) ↔
      characters = before ++ '.' :: after ∧ '.' ∉ after := by
  induction characters generalizing before after with
  | nil => simp [cutAtLastDot]
  | cons character rest inductionHypothesis =>
    rw [cutAtLastDot]
    split
    -- There is a dot behind the first character, so the last one is there.
    · next left right equal =>
      obtain ⟨split, absent⟩ := inductionHypothesis.1 equal
      constructor
      · intro same
        simp only [Option.some.injEq, Prod.mk.injEq] at same
        obtain ⟨rfl, rfl⟩ := same
        exact ⟨by simp [split], absent⟩
      · rintro ⟨same, absentAfter⟩
        cases before with
        | nil =>
          simp only [List.nil_append, List.cons.injEq] at same
          subst split
          exact absurd (by simp [← same.2] : '.' ∈ after) absentAfter
        | cons head tail =>
          simp only [List.cons_append, List.cons.injEq] at same
          have := inductionHypothesis.2 ⟨same.2, absentAfter⟩
          simp only [equal, Option.some.injEq, Prod.mk.injEq] at this
          simp [this, same.1]
    · next equal =>
      have absent := cutAtLastDot_eq_none.1 equal
      -- No dot follows, so the first character is the last dot if it is one.
      by_cases dot : character = '.'
      · subst dot
        simp only [↓reduceIte, Option.some.injEq, Prod.mk.injEq]
        constructor
        · rintro ⟨rfl, rfl⟩
          exact ⟨by simp, absent⟩
        · rintro ⟨same, _⟩
          cases before with
          | nil => simpa using same
          | cons head tail =>
            simp only [List.cons_append, List.cons.injEq] at same
            exact absurd (by simp [same.2]) absent
      · simp only [dot, ↓reduceIte, reduceCtorEq, false_iff, not_and]
        intro same
        cases before with
        | nil => simp_all
        | cons head tail =>
          simp only [List.cons_append, List.cons.injEq] at same
          exact absurd (by simp [same.2]) absent

end AvroGraph.Text
