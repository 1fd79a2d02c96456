import AvroGraph.Registry

/-!
# Steps of a resolution

A resolution is a walk that reads and changes a registry and may fail at a node. What it has
changed by then stays: `outcome_bind` says that a failure passes the registry on.
-/

namespace AvroGraph

/-- A step of the walk, which works on the registry and may fail at a node. -/
abbrev Resolving := ExceptT Violation (StateM Registry)

namespace Resolving

/-- The outcome of a walk from a registry: its result, and the registry it leaves. -/
def outcome {α : Type} (walk : Resolving α) (registry : Registry) :
    Except Violation α × Registry :=
  StateT.run (ExceptT.run walk) registry

/-- A check at a node. -/
def check {α : Type} (node : Json) (result : Except Reason α) : Resolving α :=
  match result with
  | .ok value => return value
  | .error reason => throw ⟨reason, node⟩

/-- A question to the registry at a node. -/
def ask {α : Type} (node : Json) (question : Registry → Except Reason α) : Resolving α := do
  check node (question (← get))

/-- A change of the registry at a node, which changes nothing if it fails. -/
def change {α : Type} (node : Json) (step : Registry → Except Reason (α × Registry)) :
    Resolving α := do
  let (value, registry) ← ask node step
  set registry
  return value

/-- A result by itself succeeds and leaves the registry as it is. -/
@[simp]
theorem outcome_pure {α : Type} (value : α) (registry : Registry) :
    (pure value : Resolving α).outcome registry = (.ok value, registry) := rfl

/-- A violation fails and leaves the registry as it is. -/
@[simp]
theorem outcome_throw {α : Type} (violation : Violation) (registry : Registry) :
    (throw violation : Resolving α).outcome registry = (.error violation, registry) := rfl

/-- A walk goes on from the registry and the result of its first part, if that succeeds. -/
theorem outcome_bind {α β : Type} (first : Resolving α) (next : α → Resolving β)
    (registry : Registry) :
    (first >>= next).outcome registry =
      match first.outcome registry with
      | (.ok value, after) => (next value).outcome after
      | (.error violation, after) => (.error violation, after) := by
  simp only [outcome, ExceptT.run_bind, StateT.run_bind]
  change (match StateT.run (ExceptT.run first) registry with
    | (result, after) => _) = _
  rcases StateT.run (ExceptT.run first) registry with ⟨_ | _, _⟩ <;> rfl

/-- A change succeeds. -/
@[simp]
theorem outcome_modify (change : Registry → Registry) (registry : Registry) :
    (modify change : Resolving PUnit).outcome registry = (.ok ⟨⟩, change registry) := rfl

/-- A check leaves the registry as it is. -/
@[simp]
theorem outcome_check {α : Type} (node : Json) (result : Except Reason α) (registry : Registry) :
    (check node result).outcome registry = (result.mapError (⟨·, node⟩), registry) := by
  cases result <;> rfl

/-- A question leaves the registry as it is. -/
@[simp]
theorem outcome_ask {α : Type} (node : Json) (question : Registry → Except Reason α)
    (registry : Registry) :
    (ask node question).outcome registry =
      ((question registry).mapError (⟨·, node⟩), registry) := by
  rw [ask, outcome_bind]
  exact outcome_check node (question registry) registry

/-- A change takes effect exactly when it succeeds. -/
theorem outcome_change {α : Type} (node : Json)
    (step : Registry → Except Reason (α × Registry)) (registry : Registry) :
    (change node step).outcome registry =
      match step registry with
      | .ok (value, after) => (.ok value, after)
      | .error reason => (.error ⟨reason, node⟩, registry) := by
  rw [change, outcome_bind, outcome_ask]
  cases step registry <;> rfl

end Resolving

end AvroGraph
