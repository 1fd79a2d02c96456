import AvroGraph.Options
import AvroGraph.Schema

/-!
# Reduction of unions

The single type that represents a union. One branch represents itself, a branch beside null
becomes nullable, and all other unions are boxed; a union that is left as the only candidate is
reduced in turn.
-/

namespace AvroGraph

/-- The type that represents a union and whether it has to admit null. -/
structure Reduction where
  underlying : Schema
  nullable : Bool
  deriving DecidableEq

/-- The reduction with null admitted as well. -/
def Reduction.orNull (reduction : Reduction) : Reduction :=
  { reduction with nullable := true }

mutual

/-- The type that represents a schema standing alone: a union is reduced by its branches,
whatever it says about itself. -/
def Schema.reduction (options : Options) : Schema → Reduction
  | .union branches _ _ => reduceBranches options branches
  | schema => ⟨schema, false⟩

/-- The type that represents a union of branches. Null alone, or the lack of any branch, is
nullable as far as references are, and so is a box with null in it. -/
def reduceBranches (options : Options) : List Schema → Reduction
  | [] => ⟨.null, options.nullableReferences⟩
  | [only] => only.reduction options
  | [first, second] =>
    if second.isNull then
      if first.isNull then ⟨.null, options.nullableReferences⟩
      else (first.reduction options).orNull
    else if first.isNull then (second.reduction options).orNull
    else ⟨.boxed, false⟩
  | branches => ⟨.boxed, branches.any Schema.isNull && options.nullableReferences⟩

end

/-- The union of branches with its reduction. -/
def Schema.ofBranches (options : Options) (branches : List Schema) : Schema :=
  let reduction := reduceBranches options branches
  .union branches reduction.underlying reduction.nullable

/-- Whether a branch is a record. -/
def Schema.isRecord : Schema → Bool
  | .named .record _ => true
  | _ => false

/-- Whether branches call for an abstract base: all of them are records or null, and at least
two of them are records or there are more than two. -/
def callsForBase (branches : List Schema) : Bool :=
  (match branches.length with
   | 0 | 1 => false
   | 2 => !branches.any Schema.isNull
   | _ => true) &&
    branches.all (fun branch => branch.isRecord || branch.isNull) &&
    branches.any fun branch => !branch.isNull

end AvroGraph
