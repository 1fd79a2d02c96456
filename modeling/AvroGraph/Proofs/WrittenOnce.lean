import AvroGraph.Proofs.Adequacy
import AvroGraph.Proofs.ReadAsWritten
import AvroGraph.Proofs.TypeGraph
import AvroGraph.Writer

/-!
# Everything is written once

A writer that is given schemas of a resolver's registry answers all of its calls. In the answers,
read in order, every declaration that can be reached from these schemas is defined once, what is
referred to by name has been defined before, and what has been defined counts as written
(`Resolver.writes_once`).
-/

namespace AvroGraph

namespace Registry

variable {registry : Registry} {starts : List Handle} {written last : List Handle}
  {start handle : Handle} {occurrences others : List Occurrence}

/-- The answers to calls of a writer read as the schemas that they were made for. -/
inductive ReadsAll (registry : Registry) :
    List (Schema × Option String) → List Json → List Occurrence → Prop where
  | nil : ReadsAll registry [] [] []
  | cons {schema : Schema} {around : Option String} {rest : List (Schema × Option String)}
      {json : Json} {jsons : List Json} {occurrences others : List Occurrence}
      (first : registry.Reads around schema json occurrences)
      (following : ReadsAll registry rest jsons others) :
      ReadsAll registry ((schema, around) :: rest) (json :: jsons) (occurrences ++ others)

section

variable {requests : List (Schema × Option String)} {jsons : List Json}

/-- The occurrences in a sequence of writes are determined by what is written. -/
theorem ReadsAll.unique (reads : registry.ReadsAll requests jsons occurrences)
    (again : registry.ReadsAll requests jsons others) : occurrences = others := by
  induction reads generalizing others with
  | nil =>
    cases again
    rfl
  | cons first _ ih =>
    cases again with
    | cons firstAgain followingAgain => rw [first.unique firstAgain, ih followingAgain]

/-- What is written in a sequence of writes surveys what it begins from. -/
theorem ReadsAll.surveys (reads : registry.ReadsAll requests jsons occurrences) :
    registry.Surveys (requests.flatMap fun request => request.1.handles) occurrences := by
  induction reads with
  | nil => exact .nil registry
  | cons first _ ih => exact first.surveys.append ih

end

/-- Every declaration that can be reached is defined once, all that is referred to has been defined
before, and nothing else occurs, least of all a base. -/
structure DefinesOnce (registry : Registry) (starts : List Handle)
    (occurrences : List Occurrence) : Prop where
  once : ∀ start ∈ starts, ∀ handle, registry.Reaches start handle → registry.Declared handle →
    occurrences.count (.definition handle) = 1
  before : ∀ early handle late, occurrences = early ++ .reference handle :: late →
    .definition handle ∈ early
  reached : ∀ occurrence ∈ occurrences, ∃ start ∈ starts, registry.Reaches start occurrence.handle
  declared : ∀ occurrence ∈ occurrences, registry.Declared occurrence.handle

/-- What occurs is defined, if nothing was written in the beginning. -/
theorem definition_mem_of_occurs (introduces : Introduces [] occurrences last)
    {occurrence : Occurrence} (member : occurrence ∈ occurrences) :
    .definition occurrence.handle ∈ occurrences := by
  cases occurrence with
  | definition => exact member
  | reference handle =>
    obtain ⟨early, late, rfl⟩ := List.append_of_mem member
    have defined := introduces.before_reference.resolve_left List.not_mem_nil
    exact List.mem_append_left _ defined

namespace Surveys

variable (surveys : registry.Surveys starts occurrences)
  (introduces : Introduces [] occurrences last)
include surveys introduces

/-- All that can be reached is covered. -/
theorem covers_of_reaches (isStart : start ∈ starts) (reaches : registry.Reaches start handle) :
    registry.Covers occurrences handle := by
  induction reaches with
  | refl => exact surveys.begun start isStart
  | @tail source target _ links covers =>
    cases covers with
    | occurs member =>
      exact surveys.closed _ target (definition_mem_of_occurs introduces member) links
    | base found branches =>
      obtain ⟨entry, isEntry, inside⟩ := links
      obtain rfl := Option.some.inj (found.symm.trans isEntry)
      exact branches target inside

/-- A survey that introduces what occurs in it defines everything once. -/
theorem definesOnce : registry.DefinesOnce starts occurrences where
  once start isStart handle reaches isDeclared := by
    have covers := surveys.covers_of_reaches introduces isStart reaches
    obtain ⟨occurrence, member, rfl⟩ := covers.exists_of_declared isDeclared
    exact introduces.count_of_definition (definition_mem_of_occurs introduces member)
  before early handle late same := by
    subst same
    exact introduces.before_reference.resolve_left List.not_mem_nil
  reached := surveys.reached
  declared := surveys.declared

end Surveys

end Registry

/-! ## Writers -/

namespace Writer

variable {registry : Registry} {requests : List (Schema × Option String)}

/-- A call is answered with what reads as its schema, and introduces what is written by then. -/
theorem write_reads (closed : registry.Closed) (neat : registry.Neat) (written : List Handle)
    {schema : Schema} (grounded : schema.Grounded registry) (around : Option String) :
    ∃ json last occurrences,
      (mk registry written).write schema around = (.ok json, ⟨registry, last⟩) ∧
      registry.Reads around schema json occurrences ∧ Introduces written occurrences last := by
  obtain ⟨json, last, writes⟩ := Registry.write_yields closed grounded around written
  obtain ⟨occurrences, reads, introduces⟩ := neat.reads_write writes
  exact ⟨json, last, occurrences, by rw [write, writes.outcome], reads, introduces⟩

/-- Calls in a row are all answered with what reads as their schemas, and introduce what is written
by then. -/
theorem writeAll_reads (closed : registry.Closed) (neat : registry.Neat) (written : List Handle)
    (grounded : ∀ request ∈ requests, request.1.Grounded registry) :
    ∃ jsons last occurrences,
      (mk registry written).writeAll requests = (jsons.map .ok, ⟨registry, last⟩) ∧
      registry.ReadsAll requests jsons occurrences ∧ Introduces written occurrences last := by
  induction requests generalizing written with
  | nil => exact ⟨[], written, [], rfl, .nil, .nil⟩
  | cons request rest ih =>
    obtain ⟨schema, around⟩ := request
    rw [List.forall_mem_cons] at grounded
    obtain ⟨json, between, occurrences, answered, reads, introduces⟩ :=
      write_reads closed neat written grounded.1 around
    obtain ⟨jsons, last, others, answers, following, introducesMore⟩ := ih between grounded.2
    refine ⟨json :: jsons, last, occurrences ++ others, ?_, .cons reads following,
      introduces.append introducesMore⟩
    rw [writeAll, answered]
    simp only [answers, List.map_cons]

end Writer

/-! ## Schemas of a resolver -/

namespace Resolver

variable {options : Options} {calls : List (Json × Option String)} {schema : Schema}

/-- The schemas that a new resolver provides after some calls: those that calls have returned, those
of the entries, those declared in the entries, and the parts of all these. -/
inductive Provides (options : Options) (calls : List (Json × Option String)) : Schema → Prop where
  | returned {before after : List (Json × Option String)} {call : Json × Option String}
      {schema : Schema} (same : calls = before ++ call :: after)
      (isOk : (((new options).run before).resolve call.1 call.2).1 = .ok schema) :
      Provides options calls schema
  | entry {handle : Handle} {schema : Schema}
      (schemaOf : ((new options).run calls).registry.schemaOf? handle = some schema) :
      Provides options calls schema
  | declared {handle : Handle} {entry : Entry} {schema : Schema}
      (found : ((new options).run calls).registry.get? handle = some entry)
      (inside : schema ∈ entry.schemas) : Provides options calls schema
  | primitive (type : Primitive) : Provides options calls (.primitive type)
  | items {items : Schema} (provided : Provides options calls (.array items)) :
      Provides options calls items
  | values {values : Schema} (provided : Provides options calls (.map values)) :
      Provides options calls values
  | branch {branches : List Schema} {underlying branch : Schema} {nullable : Bool}
      (provided : Provides options calls (.union branches underlying nullable))
      (member : branch ∈ branches) : Provides options calls branch
  | underlying {underlying : Schema} {overlay : LogicalType}
      (provided : Provides options calls (.logical underlying overlay)) :
      Provides options calls underlying

/-- What a call has returned is grounded in all that follow. -/
theorem grounded_of_returned {before after : List (Json × Option String)}
    {call : Json × Option String}
    (isOk : (((new options).run before).resolve call.1 call.2).1 = .ok schema) :
    schema.Grounded ((new options).run (before ++ call :: after)).registry := by
  have reached : ((new options).run before).registry.Reached options := Registry.Reached.empty.run _
  have succeeds := yields_of_resolve (Prod.ext isOk rfl :
    ((new options).run before).resolve call.1 call.2 = (.ok schema, _))
  rw [options_run] at succeeds
  have here := reached.meets (Registry.groundedCondition fun _ => Registry.Sound.knowsBases)
    Registry.Sound.invariant .empty succeeds
  rw [run, List.foldl_append, List.foldl_cons]
  exact here.mono (grows_run _ after).keepsKinds

end Resolver

/-- The types declared in a grounded entry are grounded. -/
theorem Entry.Grounded.schemas {registry : Registry} {entry : Entry}
    (grounded : entry.Grounded registry) : Schema.AllGrounded registry entry.schemas := by
  have declared {fields : List Field} (fine : ∀ field ∈ fields, field.Grounded registry) :
      ∀ schema ∈ fields.map Field.declared, schema.Grounded registry := by
    intro schema member
    obtain ⟨field, isField, rfl⟩ := List.mem_map.1 member
    exact fine field isField
  cases entry with
  | record body | error body => exact Schema.allGrounded_iff.2 (declared grounded)
  | enum | fixed => trivial
  | protocol body =>
    refine Schema.allGrounded_iff.2 fun schema member => ?_
    rcases List.mem_append.1 member with isType | inMessage
    · exact Schema.allGrounded_iff.1 grounded.1 schema isType
    · obtain ⟨message, isMessage, inside⟩ := List.mem_flatMap.1 inMessage
      have parts := grounded.2 message isMessage
      rcases List.mem_append.1 inside with isRequest | isOther
      · exact declared parts.request schema isRequest
      · rcases List.mem_cons.1 isOther with rfl | isError
        · exact parts.response
        · exact Schema.allGrounded_iff.1 parts.errors schema (List.mem_of_mem_drop isError)
  | abstractBase base => exact grounded.1

namespace Resolver

variable {options : Options} {calls : List (Json × Option String)} {schema : Schema}

/-- What a resolver provides is grounded in its registry. -/
theorem Provides.grounded (closed : ((new options).run calls).registry.Closed)
    (provided : Provides options calls schema) :
    schema.Grounded ((new options).run calls).registry := by
  induction provided with
  | returned same isOk => exact same ▸ grounded_of_returned isOk
  | entry schemaOf =>
    obtain ⟨entry, found, rfl⟩ := Option.map_eq_some_iff.1 schemaOf
    exact Schema.grounded_toSchema found
  | declared found inside =>
    exact Schema.allGrounded_iff.1 (closed _ _ found).schemas _ inside
  | primitive => trivial
  | items _ ih => exact ih
  | values _ ih => exact ih
  | branch _ member ih => exact Schema.allGrounded_iff.1 ih _ member
  | underlying _ ih => exact ih

/-- Whatever calls a resolver was given and however they ended, a writer answers all calls with
schemas that the resolver provides, as long as the keys of the objects the resolver was given are
distinct. The answers can be read in one way, and then everything is defined once and before it is
referred to; what is defined in them is what has been written. -/
theorem writes_once (options : Options) {calls : List (Json × Option String)}
    (distinct : ∀ call ∈ calls, call.1.EveryObject Members.DistinctKeys)
    {requests : List (Schema × Option String)}
    (provided : ∀ request ∈ requests, Provides options calls request.1) :
    let registry := ((new options).run calls).registry
    ∃ jsons writer occurrences,
      (Writer.new registry).writeAll requests = (jsons.map .ok, writer) ∧
      registry.ReadsAll requests jsons occurrences ∧
      (∀ others, registry.ReadsAll requests jsons others → others = occurrences) ∧
      registry.DefinesOnce (requests.flatMap fun request => request.1.handles) occurrences ∧
      ∀ handle, writer.isWritten handle = true ↔ .definition handle ∈ occurrences := by
  intro registry
  have keyed : registry.Keyed options := run_keyed options distinct
  obtain ⟨jsons, last, occurrences, answers, reads, introduces⟩ :=
    Writer.writeAll_reads keyed.sound.closed keyed.neat []
      fun request member => (provided request member).grounded keyed.sound.closed
  refine ⟨jsons, ⟨registry, last⟩, occurrences, answers, reads,
    fun _ again => again.unique reads, reads.surveys.definesOnce introduces, fun handle => ?_⟩
  simp [Writer.isWritten, introduces.mem_iff]

/-- The protocol that uses what is left of a record that was refused, the base that was made for a
field of that record, and the fixed type declared in it. The base is written as its branches, one of
which the protocol has defined already. -/
theorem writes_once_leftovers :
    let requests : List (Schema × Option String) :=
      [(.named .protocol 6, none), (.named .abstractBase 5, some "n"),
        (.logical (.named .fixed 2) .uuid, none)]
    let branch := Json.object [("type", .string "record"), ("name", .string "A"),
      ("fields", .array [.object [("name", .string "r"), ("type", .string "R")]])]
    let writes := (Writer.new Registry.remaining).writeAll requests
    (∀ call ∈ leftovers, call.1.EveryObject Members.DistinctKeys) ∧
      (∀ request ∈ requests, Provides {} leftovers request.1) ∧
      (writes.1.map Except.toOption).drop 1 =
        [some (.array [branch, .string "B"]), some (.string "n.F")] ∧
      ∃ jsons writer occurrences, writes = (jsons.map .ok, writer) ∧
        Registry.remaining.ReadsAll requests jsons occurrences ∧
        (∀ others, Registry.remaining.ReadsAll requests jsons others → others = occurrences) ∧
        Registry.remaining.DefinesOnce [6, 5, 2] occurrences ∧
        ∀ handle, writer.isWritten handle = true ↔ .definition handle ∈ occurrences := by
  intro requests branch writes
  have distinct : ∀ call ∈ leftovers, call.1.EveryObject Members.DistinctKeys := by decide +kernel
  have provided : ∀ request ∈ requests, Provides {} leftovers request.1 := by
    have entry (handle : Handle) (schema : Schema)
        (schemaOf : Registry.remaining.schemaOf? handle = some schema) :
        Provides {} leftovers schema := .entry schemaOf
    rw [List.forall_mem_cons, List.forall_mem_cons, List.forall_mem_singleton]
    exact ⟨entry 6 _ (by decide +kernel), entry 5 _ (by decide +kernel),
      entry 2 _ (by decide +kernel)⟩
  exact ⟨distinct, provided, by decide +kernel, writes_once {} distinct provided⟩

end Resolver

end AvroGraph
