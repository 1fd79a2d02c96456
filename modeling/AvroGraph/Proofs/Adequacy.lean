import AvroGraph.Proofs.Sound
import AvroGraph.Proofs.Written
import Mathlib.Data.Finset.Card
import Mathlib.Data.Finset.Range
import Mathlib.Data.Finset.SDiff

/-!
# Projections always succeed

In a closed registry every grounded schema can be written (`Registry.write_yields`). Each
declaration is written in full once on the way down, and between two of these an abstract base
can be passed only once, as its branches are records or null; so nesting is never too deep.
-/

namespace AvroGraph

open Projecting

namespace Registry

variable {registry : Registry} {written after : List Handle}

/-- How many entries are still to be written in full. -/
def unwritten (registry : Registry) (written : List Handle) : Nat :=
  (Finset.range registry.size \ written.toFinset).card

/-- At most every entry is still to be written. -/
theorem unwritten_le_size : registry.unwritten written ≤ registry.size := by
  calc registry.unwritten written
      ≤ (Finset.range registry.size).card := Finset.card_le_card Finset.sdiff_subset
    _ = registry.size := Finset.card_range _

/-- The more is written, the less is still to be written. -/
theorem unwritten_anti (subset : written ⊆ after) :
    registry.unwritten after ≤ registry.unwritten written := by
  refine Finset.card_le_card (Finset.sdiff_subset_sdiff (Finset.Subset.refl _) ?_)
  intro handle member
  exact List.mem_toFinset.2 (subset (List.mem_toFinset.1 member))

/-- Writing an entry in full leaves one less to be written. -/
theorem unwritten_cons_lt {handle : Handle} (bound : handle < registry.size)
    (fresh : handle ∉ written) :
    registry.unwritten (handle :: written) < registry.unwritten written := by
  refine Finset.card_lt_card ((Finset.ssubset_iff_of_subset ?_).2 ⟨handle, ?_, ?_⟩)
  · refine Finset.sdiff_subset_sdiff (Finset.Subset.refl _) fun other member => ?_
    exact List.mem_toFinset.2 (List.mem_cons_of_mem _ (List.mem_toFinset.1 member))
  · simp [bound, fresh]
  · simp

end Registry

/-- A projection succeeds and forgets nothing of what is written. -/
def Projecting.Succeeds {α : Type} (projection : Projecting α) (written : List Handle) : Prop :=
  ∃ value after, projection.Yields written value after ∧ written ⊆ after

/-- Entries of certain kinds can be written while at most so many are still to be written. -/
def Define.Serves (define : Define) (registry : Registry) (kinds : NamedKind → Prop)
    (room : Nat) : Prop :=
  ∀ kind handle around written, kinds kind → registry.kindAt? handle = some kind →
    registry.unwritten written ≤ room → (define handle around).Succeeds written

variable {registry : Registry} {define : Define} {room : Nat}

mutual

/-- A grounded schema can be written wherever its entries can. -/
theorem Schema.succeeds (serves : define.Serves registry (fun _ => True) room)
    {around : Option String} {written : List Handle}
    (enough : registry.unwritten written ≤ room) : (schema : Schema) →
      schema.Grounded registry → (schema.project registry define around).Succeeds written
  | .primitive _, _ => ⟨_, _, yields_primitive.2 ⟨rfl, rfl⟩, List.Subset.refl _⟩
  | .named kind handle, grounded => by
    obtain ⟨json, after, writes, subset⟩ :=
      serves kind handle around written trivial grounded enough
    exact ⟨json, after, yields_named.2 writes, subset⟩
  | .array items, grounded => by
    obtain ⟨inner, after, writes, subset⟩ := items.succeeds serves enough grounded
    exact ⟨_, after, yields_array.2 ⟨inner, writes, rfl⟩, subset⟩
  | .map values, grounded => by
    obtain ⟨inner, after, writes, subset⟩ := values.succeeds serves enough grounded
    exact ⟨_, after, yields_map.2 ⟨inner, writes, rfl⟩, subset⟩
  | .union branches _ _, grounded => by
    obtain ⟨jsons, after, writes, subset⟩ :=
      Schema.succeeds_projectEach serves enough branches grounded
    exact ⟨_, after, yields_union.2 ⟨jsons, writes, rfl⟩, subset⟩
  | .logical underlying _, grounded => by
    obtain ⟨inner, after, writes, subset⟩ := underlying.succeeds serves enough grounded
    exact ⟨_, after, yields_logical.2 ⟨inner, writes, rfl⟩, subset⟩
  | .boxed, grounded => grounded.elim

/-- Schemas in a row are written if whatever they refer to can be. -/
theorem Schema.succeeds_projectEach (serves : define.Serves registry (fun _ => True) room)
    {around : Option String} {written : List Handle}
    (enough : registry.unwritten written ≤ room) : (schemas : List Schema) →
      AllGrounded registry schemas →
      (projectEach registry define around schemas).Succeeds written
  | [], _ => ⟨[], written, yields_projectEach_nil.2 ⟨rfl, rfl⟩, List.Subset.refl _⟩
  | schema :: rest, grounded => by
    obtain ⟨first, between, writes, subset⟩ := schema.succeeds serves enough grounded.1
    have left := Nat.le_trans (Registry.unwritten_anti subset) enough
    obtain ⟨others, after, writesRest, subsetRest⟩ :=
      Schema.succeeds_projectEach serves left rest grounded.2
    exact ⟨_, after, yields_projectEach_cons.2 ⟨first, between, others, writes, writesRest, rfl⟩,
      List.Subset.trans subset subsetRest⟩

end

/-- Fields are written if whatever their types refer to can be. -/
theorem succeeds_projectFields (serves : define.Serves registry (fun _ => True) room)
    {around : Option String} {written : List Handle} {fields : List Field}
    (enough : registry.unwritten written ≤ room)
    (grounded : ∀ field ∈ fields, field.Grounded registry) :
    (projectFields registry define around fields).Succeeds written := by
  induction fields generalizing written with
  | nil => exact ⟨[], written, yields_projectFields_nil.2 ⟨rfl, rfl⟩, List.Subset.refl _⟩
  | cons field rest ih =>
    obtain ⟨type, between, writes, subset⟩ :=
      field.declared.succeeds serves enough (grounded field List.mem_cons_self)
    obtain ⟨others, after, writesRest, subsetRest⟩ :=
      ih (Nat.le_trans (Registry.unwritten_anti subset) enough)
        fun other member => grounded other (List.mem_cons_of_mem _ member)
    exact ⟨_, after, yields_projectFields_cons.2 ⟨type, between, others, writes, writesRest, rfl⟩,
      List.Subset.trans subset subsetRest⟩

/-- Messages are written if whatever the types in them refer to can be. -/
theorem succeeds_projectMessages (serves : define.Serves registry (fun _ => True) room)
    {around : Option String} {written : List Handle} {messages : List Message}
    (enough : registry.unwritten written ≤ room)
    (grounded : ∀ message ∈ messages, message.Grounded registry) :
    (projectMessages registry define around messages).Succeeds written := by
  induction messages generalizing written with
  | nil => exact ⟨[], written, yields_projectMessages_nil.2 ⟨rfl, rfl⟩, List.Subset.refl _⟩
  | cons message rest ih =>
    have parts := grounded message List.mem_cons_self
    have failures : Schema.AllGrounded registry (message.errors.drop 1) :=
      Schema.allGrounded_iff.2 fun schema member =>
        Schema.allGrounded_iff.1 parts.errors schema (List.mem_of_mem_drop member)
    obtain ⟨request, asked, asks, askedSubset⟩ :=
      succeeds_projectFields serves enough parts.request
    have asking := Nat.le_trans (Registry.unwritten_anti askedSubset) enough
    obtain ⟨response, answered, answers, answeredSubset⟩ :=
      message.response.succeeds serves asking parts.response
    have answered' := Nat.le_trans (Registry.unwritten_anti answeredSubset) asking
    obtain ⟨errors, failed, fails, failedSubset⟩ :=
      Schema.succeeds_projectEach serves answered' _ failures
    have failing := Nat.le_trans (Registry.unwritten_anti failedSubset) answered'
    obtain ⟨others, after, writesRest, subsetRest⟩ :=
      ih failing fun other member => grounded other (List.mem_cons_of_mem _ member)
    refine ⟨_, after, yields_projectMessages_cons.2 ⟨request, asked, response, answered, errors,
      failed, others, asks, answers, fails, writesRest, rfl⟩, ?_⟩
    have answering := List.Subset.trans askedSubset answeredSubset
    exact List.Subset.trans answering (List.Subset.trans failedSubset subsetRest)

/-- A declaration can be written in full wherever the entries in it can. -/
theorem Entry.succeeds (serves : define.Serves registry (fun _ => True) room)
    {around : Option String} {written : List Handle} {entry : Entry}
    (enough : registry.unwritten written ≤ room) (grounded : entry.Grounded registry) :
    (entry.project registry define around).Succeeds written := by
  cases entry with
  | record body =>
    obtain ⟨fields, after, writes, subset⟩ := succeeds_projectFields serves enough grounded
    exact ⟨_, after, (yields_record false).2 ⟨fields, writes, rfl⟩, subset⟩
  | error body =>
    obtain ⟨fields, after, writes, subset⟩ := succeeds_projectFields serves enough grounded
    exact ⟨_, after, (yields_record true).2 ⟨fields, writes, rfl⟩, subset⟩
  | enum => exact ⟨_, _, yields_enum.2 ⟨rfl, rfl⟩, List.Subset.refl _⟩
  | fixed => exact ⟨_, _, yields_fixed.2 ⟨rfl, rfl⟩, List.Subset.refl _⟩
  | protocol body =>
    obtain ⟨types, typed, writesTypes, typedSubset⟩ :=
      Schema.succeeds_projectEach serves enough body.types grounded.1
    obtain ⟨messages, after, writesMessages, subset⟩ := succeeds_projectMessages serves
      (Nat.le_trans (Registry.unwritten_anti typedSubset) enough) grounded.2
    exact ⟨_, after, yields_protocol.2 ⟨types, typed, messages, writesTypes, writesMessages, rfl⟩,
      List.Subset.trans typedSubset subset⟩
  | abstractBase base =>
    obtain ⟨jsons, after, writes, subset⟩ :=
      Schema.succeeds_projectEach serves enough base.derived grounded.1
    exact ⟨_, after, yields_abstractBase.2 ⟨jsons, writes, rfl⟩, subset⟩

/-- Branches that are records or null can be written wherever declarations can. -/
theorem succeeds_branches (serves : define.Serves registry (· ≠ .abstractBase) room)
    {around : Option String} {written : List Handle} {branches : List Schema}
    (enough : registry.unwritten written ≤ room)
    (grounded : Schema.AllGrounded registry branches)
    (plain : ∀ branch ∈ branches, branch.isRecord = true ∨ branch.isNull = true) :
    (Schema.projectEach registry define around branches).Succeeds written := by
  induction branches generalizing written with
  | nil => exact ⟨[], written, Schema.yields_projectEach_nil.2 ⟨rfl, rfl⟩, List.Subset.refl _⟩
  | cons branch rest ih =>
    have here : (branch.project registry define around).Succeeds written := by
      rcases plain branch List.mem_cons_self with isRecord | isNull
      · cases branch with
        | named kind handle =>
          cases kind with
          | record =>
            obtain ⟨json, after, writes, subset⟩ :=
              serves .record handle around written (by simp) grounded.1 enough
            exact ⟨json, after, Schema.yields_named.2 writes, subset⟩
          | _ => cases isRecord
        | _ => cases isRecord
      · cases branch with
        | primitive => exact ⟨_, _, Schema.yields_primitive.2 ⟨rfl, rfl⟩, List.Subset.refl _⟩
        | _ => cases isNull
    obtain ⟨first, between, writes, subset⟩ := here
    obtain ⟨others, after, writesRest, subsetRest⟩ :=
      ih (Nat.le_trans (Registry.unwritten_anti subset) enough) grounded.2
        fun other member => plain other (List.mem_cons_of_mem _ member)
    exact ⟨_, after,
      Schema.yields_projectEach_cons.2 ⟨first, between, others, writes, writesRest, rfl⟩,
      List.Subset.trans subset subsetRest⟩

namespace Registry

/-- Deep enough nesting lets every declaration be written, and one level more every entry. -/
theorem serves_define (closed : registry.Closed) (depth : Nat) :
    (∀ room, 2 * room + 1 ≤ depth →
      (registry.define depth).Serves registry (· ≠ .abstractBase) room) ∧
    ∀ room, 2 * room + 2 ≤ depth →
      (registry.define depth).Serves registry (fun _ => True) room := by
  -- A base uses up a level without an entry being written, but never two in a row.
  induction depth with
  | zero => exact ⟨fun room deep => absurd deep (by omega), fun room deep => absurd deep (by omega)⟩
  | succ depth ih =>
    have declarations : ∀ room, 2 * room + 1 ≤ depth + 1 →
        (registry.define (depth + 1)).Serves registry (· ≠ .abstractBase) room := by
      intro room deep kind handle around written isDeclared known enough
      obtain ⟨entry, found, rfl⟩ := kindAt?_eq_some.1 known
      have notBase : entry.isAbstractBase = false := by
        cases entry with
        | abstractBase => exact absurd rfl isDeclared
        | _ => rfl
      by_cases member : handle ∈ written
      · exact ⟨_, _, (yields_define_written found notBase member).2 ⟨rfl, rfl⟩,
          List.Subset.refl _⟩
      · -- One entry less is left to be written, so what is inside may use two levels less.
        have less := unwritten_cons_lt (lt_size_of_get? found) member
        have inside : (entry.project registry (registry.define depth) around).Succeeds
            (handle :: written) :=
          entry.succeeds (ih.2 (registry.unwritten (handle :: written)) (by omega)) (Nat.le_refl _)
            (closed handle entry found)
        obtain ⟨json, after, writes, subset⟩ := inside
        exact ⟨json, after, (yields_define_fresh found notBase member).2 writes,
          fun other isWritten => subset (List.mem_cons_of_mem handle isWritten)⟩
    refine ⟨declarations, fun room deep kind handle around written _ known enough => ?_⟩
    by_cases isBase : kind = .abstractBase
    · subst isBase
      obtain ⟨entry, found, isKind⟩ := kindAt?_eq_some.1 known
      cases entry with
      | abstractBase base =>
        obtain ⟨grounded, plain⟩ := closed handle _ found
        have branches : (Schema.projectEach registry (registry.define depth) around
            base.derived).Succeeds written :=
          succeeds_branches (ih.1 room (by omega)) enough grounded plain
        obtain ⟨jsons, after, writes, subset⟩ := branches
        exact ⟨_, after, (yields_define_base found).2 ⟨jsons, writes, rfl⟩, subset⟩
      | _ => cases isKind
    · exact declarations room (by omega) kind handle around written isBase known enough

/-- In a closed registry every grounded schema can be written, whatever is written already. -/
theorem write_yields (closed : registry.Closed) {schema : Schema}
    (grounded : schema.Grounded registry) (around : Option String) (written : List Handle) :
    ∃ json after, (registry.write schema around).Yields written json after := by
  have serves : (registry.define registry.depthLimit).Serves registry (fun _ => True)
      registry.size := by
    by_cases empty : registry.size = 0
    · intro kind handle _ _ _ known
      obtain ⟨entry, found, -⟩ := kindAt?_eq_some.1 known
      exact absurd (empty ▸ lt_size_of_get? found) (Nat.not_lt_zero handle)
    · refine (serves_define closed _).2 _ ?_
      calc 2 * registry.size + 2
          = 2 * (registry.size + 1) := by omega
        _ ≤ registry.depthLimit := Nat.mul_le_mul_right _ (by omega : 2 ≤ registry.size + 1)
  have succeeds : (schema.project registry (registry.define registry.depthLimit) around).Succeeds
      written := schema.succeeds serves unwritten_le_size grounded
  obtain ⟨json, after, writes, -⟩ := succeeds
  exact ⟨json, after, writes⟩

end Registry

/-! ## Documents -/

namespace Document

variable {options : Options} {root json : Json} {document : Document}

/-- A document is projected to what its root is written as, with nothing written before. -/
theorem toJson_eq_ok :
    document.toJson = .ok json ↔
      ∃ after, (document.registry.write document.root none).Yields [] json after := by
  rw [toJson]
  constructor
  · intro projected
    exact ⟨_, Prod.ext projected rfl⟩
  · rintro ⟨after, writes⟩
    rw [writes.outcome]

/-- A document that is accepted can be projected. -/
theorem exists_toJson (accepted : Document.resolve options root = .ok document) :
    ∃ json, document.toJson = .ok json := by
  obtain ⟨json, after, writes⟩ := Registry.write_yields (reached accepted).sound.closed
    (root_grounded accepted) none []
  exact ⟨json, toJson_eq_ok.2 ⟨after, writes⟩⟩

end Document

end AvroGraph
