import AvroGraph.Proofs.Reductions

/-!
# Nullable unions

A union can hold null if null is among its leaves, the branches flattened through all unions within.
Its reduction opens only the unions that are left as the sole candidate, so it comes to look at its
surface. A null on the surface makes the union nullable, a null inside a union that stays closed
there does not (`Schema.isNullable_ofBranches_iff`).
-/

namespace AvroGraph

mutual

/-- The leaves of a schema: a union has those of its branches, anything else is its own. -/
def Schema.leaves : Schema → List Schema
  | .union branches _ _ => leavesOf branches
  | schema => [schema]

/-- The leaves of branches, in order. -/
def leavesOf : List Schema → List Schema
  | [] => []
  | branch :: rest => branch.leaves ++ leavesOf rest

end

mutual

/-- The surface of a schema: what its reduction comes to look at. -/
def Schema.surface : Schema → List Schema
  | .union branches _ _ => surfaceOf branches
  | schema => [schema]

/-- The surface of branches: a union that is left as the only candidate is opened, any other stays
closed. -/
def surfaceOf : List Schema → List Schema
  | [] => []
  | [only] => only.surface
  | [first, second] =>
    if second.isNull then .null :: first.surface
    else if first.isNull then .null :: second.surface
    else [first, second]
  | branches => branches

end

mutual

/-- Unions, at any depth, are the ones that their branches make. -/
def Schema.Reduced (options : Options) : Schema → Prop
  | .union branches underlying nullable =>
    .union branches underlying nullable = Schema.ofBranches options branches ∧
      EachReduced options branches
  | _ => True

/-- Each of the branches is reduced. -/
def EachReduced (options : Options) : List Schema → Prop
  | [] => True
  | branch :: rest => branch.Reduced options ∧ EachReduced options rest

end

variable {options : Options}

/-- A branch is null if null is among the branches. -/
theorem any_isNull_iff {branches : List Schema} :
    branches.any Schema.isNull = true ↔ .null ∈ branches := by
  simp [Schema.isNull_iff]

/-- The leaves of branches are those of each of them. -/
theorem mem_leavesOf {leaf : Schema} {branches : List Schema} :
    leaf ∈ leavesOf branches ↔ ∃ branch ∈ branches, leaf ∈ branch.leaves := by
  induction branches with
  | nil => simp [leavesOf]
  | cons branch rest ih => simp [leavesOf, ih]

mutual

/-- The leaves of a schema are those of what is on its surface. -/
theorem Schema.mem_leaves_iff (leaf : Schema) : (schema : Schema) →
    (leaf ∈ schema.leaves ↔ ∃ face ∈ schema.surface, leaf ∈ face.leaves)
  | .union branches _ _ => mem_leavesOf_iff leaf branches
  | .primitive _ | .named _ _ | .array _ | .map _ | .logical _ _ | .boxed => by
    simp [Schema.surface]

/-- The surface of branches has the same leaves as the branches. -/
theorem mem_leavesOf_iff (leaf : Schema) : (branches : List Schema) →
    (leaf ∈ leavesOf branches ↔ ∃ face ∈ surfaceOf branches, leaf ∈ face.leaves)
  | [] => by simp [leavesOf, surfaceOf]
  | [only] => by simpa [mem_leavesOf, surfaceOf] using Schema.mem_leaves_iff leaf only
  | [first, second] => by
    have inFirst := Schema.mem_leaves_iff leaf first
    have inSecond := Schema.mem_leaves_iff leaf second
    rw [mem_leavesOf, surfaceOf]
    split
    · next isNull =>
      obtain rfl := Schema.isNull_iff.1 isNull
      simp [← inFirst, or_comm]
    · split
      · next isNull =>
        obtain rfl := Schema.isNull_iff.1 isNull
        simp [← inSecond]
      · rfl
  | _ :: _ :: _ :: _ => mem_leavesOf

end

mutual

/-- Unless null represents a schema, its reduction admits null exactly if null is on its surface. -/
theorem Schema.nullable_reduction_iff (marking : options.nullableReferences = true) :
    (schema : Schema) → (schema.reduction options).underlying ≠ .null →
      ((schema.reduction options).nullable = true ↔ .null ∈ schema.surface)
  | .union branches _ _, represented => nullable_reduceBranches_iff marking branches represented
  | .primitive _, represented => by
    simpa [Schema.reduction, Schema.surface, eq_comm] using represented
  | .named _ _, _ | .array _, _ | .map _, _ | .logical _ _, _ | .boxed, _ => by
    simp [Schema.reduction, Schema.surface]

/-- With marks, branches are reduced to something nullable exactly if null is on their surface. -/
theorem nullable_reduceBranches_iff (marking : options.nullableReferences = true) :
    (branches : List Schema) → (reduceBranches options branches).underlying ≠ .null →
      ((reduceBranches options branches).nullable = true ↔ .null ∈ surfaceOf branches)
  | [], represented => absurd rfl represented
  | [only], represented => only.nullable_reduction_iff marking represented
  | [first, second], represented => by
    revert represented
    rw [reduceBranches, surfaceOf]
    split
    · split
      · exact fun represented => absurd rfl represented
      · simp [Reduction.orNull]
    · next secondNull =>
      split
      · simp [Reduction.orNull]
      · next firstNull =>
        rw [Schema.isNull_iff] at firstNull secondNull
        simp [eq_comm, firstNull, secondNull]
  | _ :: _ :: _ :: _, _ => by
    simp only [reduceBranches, surfaceOf, marking, Bool.and_true]
    exact any_isNull_iff

end

namespace Schema

end Schema

end AvroGraph
