import AvroGraph.Proofs.TypeGraph
import Mathlib.Data.List.Permutation

/-!
# Laws of reduction

A union is reduced round by round: what one look at its branches takes for their representation is
looked at again as long as it is a union. The rounds end in the reduction of the branches
(`Reduction.flattens_iff`), which depends neither on the order of branches at any depth nor on what
unions say about themselves.
-/

namespace AvroGraph

variable {options : Options}

/-! ## Rounds -/

/-- One look at the branches of a union: a sole candidate is taken as it stands, a union as well. -/
def reduceOnce (options : Options) : List Schema → Reduction
  | [] => ⟨.null, options.nullableReferences⟩
  | [only] => ⟨only, false⟩
  | [first, second] =>
    if second.isNull then
      if first.isNull then ⟨.null, options.nullableReferences⟩ else ⟨first, true⟩
    else if first.isNull then ⟨second, true⟩
    else ⟨.boxed, false⟩
  | branches => ⟨.boxed, branches.any Schema.isNull && options.nullableReferences⟩

namespace Reduction

/-- A reduction that admits null also where something before it did. -/
def orMarked (reduction : Reduction) (marked : Bool) : Reduction :=
  { reduction with nullable := marked || reduction.nullable }

/-- Not to mark a reduction leaves it as it is. -/
@[simp]
theorem orMarked_false (reduction : Reduction) : reduction.orMarked false = reduction := by
  simp [orMarked]

/-- To mark a reduction twice is to mark it if one of the two says so. -/
@[simp]
theorem orMarked_orMarked (reduction : Reduction) (marked other : Bool) :
    (reduction.orMarked marked).orMarked other = reduction.orMarked (other || marked) := by
  simp [orMarked, Bool.or_assoc]

/-- Flattening, round after round: a union is looked at once more, anything else is the result. What
admits null once goes on to do so. -/
inductive Flattens (options : Options) : Reduction → Reduction → Prop where
  | done {reduction : Reduction} (flat : reduction.underlying.isUnion = false) :
      Flattens options reduction reduction
  | round {branches : List Schema} {underlying : Schema} {nullable marked : Bool}
      {result : Reduction}
      (next : Flattens options ((reduceOnce options branches).orMarked marked) result) :
      Flattens options ⟨.union branches underlying nullable, marked⟩ result

end Reduction

open Reduction

/-- What is no union is its own reduction, and not nullable. -/
theorem Schema.reduction_of_isUnion {schema : Schema} (flat : schema.isUnion = false) :
    schema.reduction options = ⟨schema, false⟩ := by
  cases schema with
  | union => cases flat
  | _ => rfl

/-- The reduction of branches is what one look at them comes to, reduced in turn. -/
theorem reduceBranches_eq (branches : List Schema) :
    reduceBranches options branches =
      ((reduceOnce options branches).underlying.reduction options).orMarked
        (reduceOnce options branches).nullable := by
  match branches with
  | [] => simp [reduceBranches, reduceOnce, Schema.reduction, orMarked]
  | [only] => simp [reduceBranches, reduceOnce]
  | [first, second] =>
    simp only [reduceBranches, reduceOnce]
    split
    · split <;> simp [Schema.reduction, orMarked, orNull]
    · split <;> simp [Schema.reduction, orMarked, orNull]
  | _ :: _ :: _ :: _ => simp [reduceBranches, reduceOnce, Schema.reduction, orMarked]

mutual

/-- Flattening ends, and it ends in the reduction of a schema. -/
theorem Schema.flattens (options : Options) :
    (schema : Schema) → (marked : Bool) →
      Flattens options ⟨schema, marked⟩ ((schema.reduction options).orMarked marked)
  | .union branches _ _, marked => .round (flattens_reduceOnce options branches marked)
  | .primitive _, marked | .named _ _, marked | .array _, marked | .map _, marked
  | .logical _ _, marked | .boxed, marked => by
    simpa [Schema.reduction, orMarked] using .done rfl

/-- The loop ends at what branches are reduced to, whatever it has marked before. -/
theorem flattens_reduceOnce (options : Options) :
    (branches : List Schema) → (marked : Bool) →
      Flattens options ((reduceOnce options branches).orMarked marked)
        ((reduceBranches options branches).orMarked marked)
  | [], _ => .done rfl
  | [only], marked => by
    simpa [reduceBranches, reduceOnce, orMarked] using only.flattens options marked
  | [first, second], marked => by
    have firstFlattens := first.flattens options true
    have secondFlattens := second.flattens options true
    simp only [reduceBranches, reduceOnce]
    split
    · split
      · exact .done rfl
      · simpa [orMarked, orNull] using firstFlattens
    · split
      · simpa [orMarked, orNull] using secondFlattens
      · exact .done rfl
  | _ :: _ :: _ :: _, _ => .done rfl

end

/-- From wherever it starts, flattening ends in one result: the schema reduced by its branches. -/
theorem Reduction.flattens_iff {start result : Reduction} :
    start.Flattens options result ↔
      result = (start.underlying.reduction options).orMarked start.nullable := by
  constructor
  · intro flattens
    induction flattens with
    | done flat => simp [Schema.reduction_of_isUnion flat, orMarked]
    | round _ ih => rw [ih, Schema.reduction, reduceBranches_eq, orMarked_orMarked]; rfl
  · rintro rfl
    exact start.underlying.flattens options start.nullable

/-! ## Order -/

/-- Branches in another order, also those of unions among them, at any depth. What such a union says
about itself is of no account. -/
inductive Rearranged : List Schema → List Schema → Prop where
  | nil : Rearranged [] []
  | cons (branch : Schema) {branches others : List Schema} (rest : Rearranged branches others) :
      Rearranged (branch :: branches) (branch :: others)
  | swap (first second : Schema) (branches : List Schema) :
      Rearranged (first :: second :: branches) (second :: first :: branches)
  | union {inner otherInner branches others : List Schema} (underlying otherUnderlying : Schema)
      (nullable otherNullable : Bool) (inside : Rearranged inner otherInner)
      (rest : Rearranged branches others) :
      Rearranged (.union inner underlying nullable :: branches)
        (.union otherInner otherUnderlying otherNullable :: others)
  | trans {branches others last : List Schema} (first : Rearranged branches others)
      (second : Rearranged others last) : Rearranged branches last

/-- All that a reduction looks at in a branch: whether it is null, and what it reduces to. -/
def Schema.facet (options : Options) (schema : Schema) : Bool × Reduction :=
  (schema.isNull, schema.reduction options)

/-- Two branches may be exchanged. -/
theorem reduceBranches_pair (first second : Schema) :
    reduceBranches options [first, second] = reduceBranches options [second, first] := by
  simp only [reduceBranches]
  by_cases left : first.isNull <;> by_cases right : second.isNull <;> simp [left, right]

/-- Branches of the same facets, in whatever order, reduce to the same. -/
theorem reduceBranches_of_facets {branches others : List Schema}
    (same : (branches.map (Schema.facet options)).Perm (others.map (Schema.facet options))) :
    reduceBranches options branches = reduceBranches options others := by
  have lengths : branches.length = others.length := by simpa using same.length_eq
  have nulls : branches.any Schema.isNull = others.any Schema.isNull := by
    have anyNull := same.any_eq (f := Prod.fst)
    simpa [List.any_map, Function.comp_def, Schema.facet] using anyNull
  match branches, others with
  | [], [] => rfl
  | [only], [other] =>
    simp only [List.map_cons, List.map_nil, List.singleton_perm_singleton] at same
    exact (Prod.mk.inj same).2
  | [first, second], [third, fourth] =>
    simp only [List.map_cons, List.map_nil, List.perm_pair, List.cons.injEq, and_true] at same
    obtain ⟨left, right⟩ | ⟨left, right⟩ := same
    · obtain ⟨leftNull, leftReduction⟩ := Prod.mk.inj left
      obtain ⟨rightNull, rightReduction⟩ := Prod.mk.inj right
      simp only [reduceBranches, leftNull, leftReduction, rightNull, rightReduction]
    · obtain ⟨leftNull, leftReduction⟩ := Prod.mk.inj left
      obtain ⟨rightNull, rightReduction⟩ := Prod.mk.inj right
      rw [reduceBranches_pair third fourth]
      simp only [reduceBranches, leftNull, leftReduction, rightNull, rightReduction]
  | _ :: _ :: _ :: _, _ :: _ :: _ :: _ => simp only [reduceBranches, nulls]

/-- Rearranged branches have the same facets. -/
theorem Rearranged.facets {branches others : List Schema}
    (rearranged : Rearranged branches others) :
    (branches.map (Schema.facet options)).Perm (others.map (Schema.facet options)) := by
  induction rearranged with
  | nil => exact .refl _
  | cons branch _ ih => exact .cons _ ih
  | swap first second branches => exact .swap _ _ _
  | union _ _ _ _ _ _ inside rest =>
    have same := reduceBranches_of_facets inside
    simp only [List.map_cons, Schema.facet, Schema.reduction, Schema.isNull, same]
    exact .cons _ rest
  | trans _ _ first second => exact first.trans second

/-! ## Options -/

mutual

/-- Which type represents a schema does not depend on options. -/
theorem Schema.underlying_reduction (options other : Options) : (schema : Schema) →
    (schema.reduction options).underlying = (schema.reduction other).underlying
  | .union branches _ _ => underlying_reduceBranches_eq options other branches
  | .primitive _ | .named _ _ | .array _ | .map _ | .logical _ _ | .boxed => rfl

/-- What represents branches does not depend on options. -/
theorem underlying_reduceBranches_eq (options other : Options) : (branches : List Schema) →
    (reduceBranches options branches).underlying = (reduceBranches other branches).underlying
  | [] => rfl
  | [only] => only.underlying_reduction options other
  | [first, second] => by
    simp only [reduceBranches]
    split
    · split
      · rfl
      · exact first.underlying_reduction options other
    · split
      · exact second.underlying_reduction options other
      · rfl
  | _ :: _ :: _ :: _ => rfl

end

/-! ## The union of branches -/

namespace Schema

/-- What represents a schema, and whether it has to admit null: a union says so itself. -/
def representation (schema : Schema) : Reduction :=
  ⟨schema.underlying, schema.isNullable⟩

/-- The union of branches is represented by what they are reduced to. -/
@[simp]
theorem representation_ofBranches (options : Options) (branches : List Schema) :
    (ofBranches options branches).representation = reduceBranches options branches := rfl

/-- What represents a union is no union. -/
theorem isUnion_reduceBranches (options : Options) (branches : List Schema) :
    (reduceBranches options branches).underlying.isUnion = false :=
  reduction_induction (fun _ representative => representative.isUnion = false) options
    (fun _ => rfl) (fun _ => rfl) (fun _ flat => flat) (fun _ flat => flat)
    (.union branches .boxed false)

/-- The union of branches keeps its branches. Looking at them round by round ends, in one result,
which represents the union and is no union itself. Neither the order of branches nor that of the
branches of unions among them matters to it, and the options decide about null alone. A union within
a union represents it as it represents itself, and beside null it has to admit null as well. -/
theorem ofBranches_reduced (options : Options) (branches : List Schema) :
    (∃ underlying nullable, ofBranches options branches = .union branches underlying nullable ∧
      underlying.isUnion = false) ∧
    (∀ result, (reduceOnce options branches).Flattens options result ↔
      result = (ofBranches options branches).representation) ∧
    (∀ others, Rearranged branches others →
      (ofBranches options others).representation = (ofBranches options branches).representation) ∧
    (∀ other, (ofBranches other branches).underlying = (ofBranches options branches).underlying) ∧
    (ofBranches options [ofBranches options branches]).representation =
      (ofBranches options branches).representation ∧
    (ofBranches options [ofBranches options branches, .null]).representation =
      (ofBranches options branches).representation.orNull ∧
    (ofBranches options [.null, ofBranches options branches]).representation =
      (ofBranches options branches).representation.orNull := by
  refine ⟨⟨_, _, rfl, isUnion_reduceBranches options branches⟩, fun result => ?_,
    fun others rearranged => ?_, fun other => underlying_reduceBranches_eq other options branches,
    rfl, rfl, rfl⟩
  · rw [representation_ofBranches, reduceBranches_eq, flattens_iff]
  · exact (reduceBranches_of_facets rearranged.facets).symm

/-- A nullable integer that is wrapped in two unions, which say otherwise, beside null. -/
def wrapped : List Schema :=
  [.null, .union [.union [.primitive .int, .null] .boxed false] .string false]

/-- The same branches in another order at every depth, with other words about themselves. -/
def rewrapped : List Schema :=
  [.union [.union [.null, .primitive .int] .null true] .boxed true, .null]

/-- The one list is a rearrangement of the other. -/
theorem rearranged_wrapped : Rearranged wrapped rewrapped :=
  .trans (.cons .null (.union _ _ _ _ (.union _ _ _ _ (.swap _ _ []) .nil) .nil)) (.swap _ _ [])

/-- However the integer is wrapped, it represents the union and has to admit null. -/
theorem ofBranches_reduced_wrapped :
    Rearranged wrapped rewrapped ∧
      (ofBranches {} rewrapped).representation = (ofBranches {} wrapped).representation ∧
      (ofBranches {} wrapped).representation = ⟨.primitive .int, true⟩ :=
  ⟨rearranged_wrapped, (ofBranches_reduced {} wrapped).2.2.1 rewrapped rearranged_wrapped,
    by decide⟩

end Schema

end AvroGraph
