import AvroGraph.Proofs.Unadorned
import AvroGraph.Proofs.Written
import Mathlib.Logic.Relation

/-!
# What a projection visits

A projection goes through the entries depth first. Where there are no bases, what it writes in full
from the start on are the entries that can be reached from where it starts
(`Registry.Visits.mem_iff_reaches`): each of them was come upon on the way, and nothing in them is
left out.
-/

namespace AvroGraph

open Projecting

/-! ## What is inside an entry -/

namespace Schema

mutual

/-- The handles in a schema. The type that represents a union does not count as a part. -/
def handles : Schema → List Handle
  | .primitive _ | .boxed => []
  | .named _ handle => [handle]
  | .array items => items.handles
  | .map values => values.handles
  | .union branches _ _ => handlesOfEach branches
  | .logical underlying _ => underlying.handles

/-- The handles in the schemas of a list. -/
def handlesOfEach : List Schema → List Handle
  | [] => []
  | schema :: rest => schema.handles ++ handlesOfEach rest

end

end Schema

namespace Registry

/-- One entry has another one in it. -/
def Links (registry : Registry) (source target : Handle) : Prop :=
  ∃ entry, registry.get? source = some entry ∧ target ∈ Schema.handlesOfEach entry.schemas

/-- An entry can be reached from another one through what is inside. -/
def Reaches (registry : Registry) : Handle → Handle → Prop :=
  Relation.ReflTransGen registry.Links

end Registry

section

variable {registry : Registry} {define : Define} {around : Option String}
  {written between last : List Handle} {json : Json} {jsons others : List Json}

/-- Lists of schemas are written one after the other. -/
theorem Schema.yields_projectEach_append {first second : List Schema}
    (writes : (projectEach registry define around first).Yields written jsons between)
    (writesOn : (projectEach registry define around second).Yields between others last) :
    (projectEach registry define around (first ++ second)).Yields written (jsons ++ others)
      last := by
  induction first generalizing written jsons with
  | nil =>
    obtain ⟨rfl, rfl⟩ := yields_projectEach_nil.1 writes
    exact writesOn
  | cons schema rest ih =>
    obtain ⟨json, middle, more, writesFirst, writesRest, rfl⟩ := yields_projectEach_cons.1 writes
    exact yields_projectEach_cons.2 ⟨json, middle, _, writesFirst, ih writesRest, rfl⟩

/-- Where fields are written, their types are. -/
theorem exists_of_projectFields {fields : List Field}
    (writes : (projectFields registry define around fields).Yields written jsons last) :
    ∃ types, (Schema.projectEach registry define around (fields.map Field.declared)).Yields written
      types last := by
  induction fields generalizing written jsons with
  | nil =>
    obtain ⟨rfl, rfl⟩ := yields_projectFields_nil.1 writes
    exact ⟨[], Schema.yields_projectEach_nil.2 ⟨rfl, rfl⟩⟩
  | cons field rest ih =>
    obtain ⟨type, between, more, writesType, writesRest, rfl⟩ := yields_projectFields_cons.1 writes
    obtain ⟨types, writesTypes⟩ := ih writesRest
    exact ⟨_, Schema.yields_projectEach_cons.2 ⟨type, between, types, writesType, writesTypes, rfl⟩⟩

/-- Where messages are written, the schemas in them are. -/
theorem exists_of_projectMessages {messages : List Message} {members : Members}
    (writes : (projectMessages registry define around messages).Yields written members last) :
    ∃ types, (Schema.projectEach registry define around (messages.flatMap Message.schemas)).Yields
      written types last := by
  induction messages generalizing written members with
  | nil =>
    obtain ⟨rfl, rfl⟩ := yields_projectMessages_nil.1 writes
    exact ⟨[], Schema.yields_projectEach_nil.2 ⟨rfl, rfl⟩⟩
  | cons message rest ih =>
    obtain ⟨request, asked, response, answered, errors, failed, more, asks, answers, fails,
      writesRest, rfl⟩ := yields_projectMessages_cons.1 writes
    obtain ⟨parameters, writesRequest⟩ := exists_of_projectFields asks
    have writesMessage := Schema.yields_projectEach_append writesRequest
      (Schema.yields_projectEach_cons.2 ⟨response, answered, errors, answers, fails, rfl⟩)
    obtain ⟨types, writesTypes⟩ := ih writesRest
    exact ⟨_, Schema.yields_projectEach_append writesMessage writesTypes⟩

/-- Where an entry is written in full, the schemas in it are written in order. -/
theorem Entry.exists_of_project {entry : Entry}
    (writes : (entry.project registry define around).Yields written json last) :
    ∃ inside types, (Schema.projectEach registry define inside entry.schemas).Yields written types
      last := by
  cases entry with
  | record body =>
    obtain ⟨fields, writesFields, rfl⟩ := (yields_record false).1 writes
    exact ⟨_, exists_of_projectFields writesFields⟩
  | error body =>
    obtain ⟨fields, writesFields, rfl⟩ := (yields_record true).1 writes
    exact ⟨_, exists_of_projectFields writesFields⟩
  | enum =>
    obtain ⟨rfl, rfl⟩ := yields_enum.1 writes
    exact ⟨none, [], Schema.yields_projectEach_nil.2 ⟨rfl, rfl⟩⟩
  | fixed =>
    obtain ⟨rfl, rfl⟩ := yields_fixed.1 writes
    exact ⟨none, [], Schema.yields_projectEach_nil.2 ⟨rfl, rfl⟩⟩
  | protocol body =>
    obtain ⟨types, typed, messages, writesTypes, writesMessages, rfl⟩ := yields_protocol.1 writes
    obtain ⟨more, writesMore⟩ := exists_of_projectMessages writesMessages
    exact ⟨_, _, Schema.yields_projectEach_append writesTypes writesMore⟩
  | abstractBase base =>
    obtain ⟨types, writesTypes, rfl⟩ := yields_abstractBase.1 writes
    exact ⟨_, _, writesTypes⟩

end

/-! ## Visits -/

namespace Registry

variable {registry : Registry} {starts more : List Handle} {start handle : Handle}
  {written between last : List Handle}

/-- A projection visits some handles: what it writes in full can be reached from them, and nothing
that can be reached from there remains. -/
structure Visits (registry : Registry) (starts written last : List Handle) : Prop where
  suffix : written <:+ last
  begun : starts ⊆ last
  reached : ∀ handle ∈ last, handle ∈ written ∨ ∃ start ∈ starts, registry.Reaches start handle
  closed : ∀ handle ∈ last,
    handle ∈ written ∨ ∀ target, registry.Links handle target → target ∈ last

namespace Visits

/-- A visit to nothing writes nothing. -/
theorem nil (registry : Registry) (written : List Handle) : registry.Visits [] written written :=
  ⟨List.suffix_rfl, List.nil_subset _, fun _ => .inl, fun _ => .inl⟩

/-- Visits can be made one after the other. -/
theorem trans (first : registry.Visits starts written between)
    (second : registry.Visits more between last) :
    registry.Visits (starts ++ more) written last where
  suffix := first.suffix.trans second.suffix
  begun := List.append_subset.2 ⟨List.Subset.trans first.begun second.suffix.subset, second.begun⟩
  reached handle member := by
    rcases second.reached handle member with early | ⟨start, isStart, reaches⟩
    · rcases first.reached handle early with old | ⟨start, isStart, reaches⟩
      · exact .inl old
      · exact .inr ⟨start, List.mem_append_left _ isStart, reaches⟩
    · exact .inr ⟨start, List.mem_append_right _ isStart, reaches⟩
  closed handle member := by
    rcases second.closed handle member with early | closed
    · refine (first.closed handle early).imp_right fun closed target links => ?_
      exact second.suffix.subset (closed target links)
    · exact .inr closed

/-- What is written already is visited at once. -/
theorem of_mem (member : handle ∈ written) : registry.Visits [handle] written written :=
  ⟨List.suffix_rfl, List.cons_subset.2 ⟨member, List.nil_subset _⟩, fun _ => .inl, fun _ => .inl⟩

/-- An entry is visited when all that is in it is. -/
theorem of_entry {entry : Entry} (found : registry.get? handle = some entry)
    (inside : registry.Visits (Schema.handlesOfEach entry.schemas) (handle :: written) last) :
    registry.Visits [handle] written last where
  suffix := (List.suffix_cons handle written).trans inside.suffix
  begun := List.cons_subset.2 ⟨inside.suffix.subset List.mem_cons_self, List.nil_subset _⟩
  reached other member := by
    rcases inside.reached other member with old | ⟨start, isStart, reaches⟩
    · rcases List.mem_cons.1 old with rfl | old
      · exact .inr ⟨other, List.mem_singleton_self _, .refl⟩
      · exact .inl old
    · exact .inr ⟨handle, List.mem_singleton_self _, .head ⟨entry, found, isStart⟩ reaches⟩
  closed other member := by
    rcases inside.closed other member with old | closed
    · rcases List.mem_cons.1 old with rfl | old
      · refine .inr fun target ⟨source, isSource, isTarget⟩ => inside.begun ?_
        rwa [Option.some.inj (found.symm.trans isSource)]
      · exact .inl old
    · exact .inr closed

/-- From the start on, just what can be reached is written. -/
theorem mem_iff_reaches (visits : registry.Visits [start] [] last) :
    handle ∈ last ↔ registry.Reaches start handle := by
  constructor
  · intro member
    obtain none | ⟨other, isStart, reaches⟩ := visits.reached handle member
    · cases none
    · rwa [← List.mem_singleton.1 isStart]
  · intro reaches
    induction reaches with
    | refl => exact visits.begun (List.mem_singleton_self _)
    | @tail source target _ links member =>
      exact (visits.closed source member).resolve_left List.not_mem_nil target links

end Visits

end Registry

/-- Writing the entry at a handle visits it. -/
def Define.Visits (define : Define) (registry : Registry) : Prop :=
  ∀ handle around written json last, (define handle around).Yields written json last →
    registry.Visits [handle] written last

section

variable {registry : Registry} {define : Define}

mutual

/-- Writing a schema visits the handles in it. -/
theorem Schema.visits (visits : define.Visits registry) {around : Option String}
    {written last : List Handle} {json : Json} : (schema : Schema) →
      (schema.project registry define around).Yields written json last →
      registry.Visits schema.handles written last
  | .primitive _, writes => by
    obtain ⟨-, rfl⟩ := yields_primitive.1 writes
    exact .nil registry written
  | .named _ handle, writes => visits handle _ _ _ _ (yields_named.1 writes)
  | .array items, writes =>
    have ⟨_, writesItems, _⟩ := yields_array.1 writes
    items.visits visits writesItems
  | .map values, writes =>
    have ⟨_, writesValues, _⟩ := yields_map.1 writes
    values.visits visits writesValues
  | .union branches _ _, writes =>
    have ⟨_, writesEach, _⟩ := yields_union.1 writes
    Schema.visits_projectEach visits branches writesEach
  | .logical underlying _, writes =>
    have ⟨_, writesUnderlying, _⟩ := yields_logical.1 writes
    underlying.visits visits writesUnderlying
  | .boxed, writes => absurd writes yields_boxed

/-- Schemas in a row are visited in order. -/
theorem Schema.visits_projectEach (visits : define.Visits registry) {around : Option String}
    {written last : List Handle} {jsons : List Json} : (schemas : List Schema) →
      (projectEach registry define around schemas).Yields written jsons last →
      registry.Visits (handlesOfEach schemas) written last
  | [], writes => by
    obtain ⟨-, rfl⟩ := yields_projectEach_nil.1 writes
    exact .nil registry written
  | schema :: rest, writes =>
    have ⟨_, _, _, writesFirst, writesRest, _⟩ := yields_projectEach_cons.1 writes
    (schema.visits visits writesFirst).trans (Schema.visits_projectEach visits rest writesRest)

end

namespace Registry

/-- Without bases, the entry at a handle is written in full or is written already. -/
theorem Unadorned.visits_defineWith (unadorned : registry.Unadorned)
    (visits : define.Visits registry) : Define.Visits (registry.defineWith define) registry := by
  intro handle around written json last writes
  obtain ⟨entry, found, writesEntry⟩ := yields_defineWith.1 writes
  rw [if_neg (by simp [(unadorned handle entry found).1])] at writesEntry
  split at writesEntry
  · next member =>
    obtain ⟨-, rfl⟩ := writesEntry
    exact .of_mem member
  · obtain ⟨_, _, writesInside⟩ := Entry.exists_of_project writesEntry
    exact .of_entry found (Schema.visits_projectEach visits _ writesInside)

/-- What is written of an entry visits it. -/
theorem Unadorned.visits_define (unadorned : registry.Unadorned) (depth : Nat) :
    (registry.define depth).Visits registry := by
  induction depth with
  | zero => exact fun _ _ _ _ _ writes => absurd writes yields_define_zero
  | succ depth ih => exact unadorned.visits_defineWith ih

end Registry

end

end AvroGraph
