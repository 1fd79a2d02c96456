import AvroGraph.Proofs.Adequacy
import AvroGraph.Proofs.Recovered

/-!
# Excerpts of documents

One entry of a document is projected by itself, with the entries that can be reached from it. Where
there are neither logical types nor bases, the excerpt is resolved to these entries under their
names, as long as every name has a spelling where it stands (`Document.resolve_excerpt`).
-/

namespace AvroGraph

open Projecting

namespace Document

variable {options : Options} {root : Json} {document : Document} {handle : Handle} {entry : Entry}

/-- A document as it is seen from one of its entries. -/
def excerpt (document : Document) (handle : Handle) (entry : Entry) : Document :=
  { document with root := entry.toSchema handle }

/-- In a document without logical types whose declarations are not named like types of their own,
every entry can be projected by itself, if no bases are wanted. If every name that this comes upon
has a spelling there, the result is resolved to the entry and to those that can be reached from it,
under their names. -/
theorem resolve_excerpt (unannotated : root.EveryObject Members.Unannotated)
    (unwanted : options.synthesizeBases = false)
    (accepted : Document.resolve options root = .ok document)
    (avoids : document.registry.AvoidsKeywords)
    (found : document.registry.get? handle = some entry) :
    ∃ json, (document.excerpt handle entry).toJson = .ok json ∧
      (document.registry.SpellsNames (entry.toSchema handle) →
        ∃ again place other, Document.resolve options json = .ok again ∧
          again.root = .named entry.kind place ∧ again.registry.get? place = some other ∧
          other.name = entry.name ∧
          ∀ full, full ∈ again.registry.names ↔ ∃ target reached,
            document.registry.Reaches handle target ∧
            document.registry.get? target = some reached ∧ reached.name.full = full) := by
  have plain := Document.plain unannotated unwanted accepted
  obtain ⟨json, written, writes⟩ := Registry.write_yields plain.sound.closed
    (Schema.grounded_toSchema found) none []
  refine ⟨json, toJson_eq_ok.2 ⟨written, writes⟩, fun spells => ?_⟩
  have isSchema := (plain.unadorned handle entry found).2 handle
  rw [isSchema] at writes spells
  -- The entry comes back, and what has been read by then is what is written.
  have spelled := Schema.yields_named.1 (spells.yields writes)
  obtain ⟨schema, registry, walks, follows, alike⟩ :=
    plain.recovers_defineSpelled avoids _ found (by simp) spelled document.registry.follows_empty
  -- What is written is what can be reached.
  have visits := plain.unadorned.visits_define _ _ _ _ _ _ (Schema.yields_named.1 writes)
  cases alike with
  | named isOrigin isOther standsFor =>
    obtain rfl := Option.some.inj (found.symm.trans isOrigin)
    refine ⟨⟨_, registry⟩, _, _, resolve_eq_ok.2 walks, rfl, isOther, standsFor.name_eq,
      fun full => ?_⟩
    rw [follows.mem_names]
    constructor
    · rintro ⟨target, isWritten, reached, isReached, isFull⟩
      exact ⟨target, reached, visits.mem_iff_reaches.1 isWritten, isReached, isFull⟩
    · rintro ⟨target, reached, reaches, isReached, isFull⟩
      exact ⟨target, visits.mem_iff_reaches.2 reaches, reached, isReached, isFull⟩

/-- A record outside all namespaces and one in the namespace `n` that have each other in them, with
these members for the name of the inner one. -/
def circleOf (inner : Members) : Json :=
  let record (heading : Members) (field : String) (type : Json) : Json :=
    .object ([("type", .string "record")] ++ heading ++
      [("fields", .array [.object [("name", .string field), ("type", type)]])])
  record [("name", .string "Outer")] "inner"
    (record inner "outer" (.array [.string "null", .string "Outer"]))

/-- These records, with the name of the inner one in full. -/
def circle : Json := circleOf [("name", .string "n.Inner")]

/-- These records, with the namespace of the inner one as a member of its own. -/
def projectedCircle : Json := circleOf [("name", .string "Inner"), ("namespace", .string "n")]

/-- What both resolve to. -/
def encircled : Document :=
  let outer := Schema.ofBranches { synthesizeBases := false } [.null, .named .record 0]
  { root := .named .record 0
    registry :=
      { entries := [
          .record { name := .unqualified "Outer", fields := [.ofSchema "inner" (.named .record 1)] },
          .record { name := ⟨"Inner", some "n"⟩, fields := [.ofSchema "outer" outer] }]
        index := [(⟨"Inner", some "n"⟩, 1), (.unqualified "Outer", 0)] } }

/-- The outer record is projected by itself, with the inner one in it, and comes back with it. -/
theorem resolve_excerpt_circle :
    let options : Options := { synthesizeBases := false }
    circle.EveryObject Members.Unannotated ∧
      Document.resolve options circle = .ok encircled ∧ encircled.registry.AvoidsKeywords ∧
      ∃ entry, encircled.registry.get? 0 = some entry ∧
        encircled.registry.SpellsNames (entry.toSchema 0) ∧
        (encircled.excerpt 0 entry).toJson = .ok projectedCircle ∧
        Document.resolve options projectedCircle = .ok encircled ∧
        ∀ full, full ∈ encircled.registry.names ↔ ∃ target reached,
          encircled.registry.Reaches 0 target ∧
          encircled.registry.get? target = some reached ∧ reached.name.full = full := by
  intro options
  have unannotated : circle.EveryObject Members.Unannotated := by decide +kernel
  have accepted : Document.resolve options circle = .ok encircled := by decide +kernel
  have avoids : encircled.registry.AvoidsKeywords := by decide +kernel
  have resolved : Document.resolve options projectedCircle = .ok encircled := by decide +kernel
  obtain ⟨entry, found⟩ : ∃ entry, encircled.registry.get? 0 = some entry := ⟨_, rfl⟩
  have every : (encircled.registry.get? 0).all (fun entry =>
      decide (encircled.registry.SpellsNames (entry.toSchema 0)) &&
        decide ((encircled.excerpt 0 entry).toJson = .ok projectedCircle)) = true := by decide +kernel
  simp only [found, Option.all_some, Bool.and_eq_true, decide_eq_true_eq] at every
  obtain ⟨spells, projected⟩ := every
  obtain ⟨json, isJson, resolves⟩ := resolve_excerpt unannotated rfl accepted avoids found
  obtain rfl := Except.ok.inj (projected.symm.trans isJson)
  obtain ⟨again, -, -, isAgain, -, -, -, names⟩ := resolves spells
  obtain rfl := Except.ok.inj (resolved.symm.trans isAgain)
  exact ⟨unannotated, accepted, avoids, entry, found, spells, projected, resolved, names⟩

/-- The outer record takes on the namespace of the inner one where it is written in it. -/
theorem not_resolve_excerpt_circle :
    ¬ ∀ (options : Options) (root : Json) (document : Document) (handle : Handle) (entry : Entry),
      root.EveryObject Members.Unannotated → options.synthesizeBases = false →
      Document.resolve options root = .ok document → document.registry.AvoidsKeywords →
      document.registry.get? handle = some entry →
      ∃ json again place other, (document.excerpt handle entry).toJson = .ok json ∧
        Document.resolve options json = .ok again ∧ again.root = .named entry.kind place ∧
        again.registry.get? place = some other ∧ other.name = entry.name ∧
        ∀ full, full ∈ again.registry.names ↔ ∃ target reached,
          document.registry.Reaches handle target ∧
          document.registry.get? target = some reached ∧ reached.name.full = full := by
  intro claim
  have unannotated : circle.EveryObject Members.Unannotated := by decide +kernel
  obtain ⟨document, accepted⟩ :=
    Document.exists_of_isOk { synthesizeBases := false } circle (by decide +kernel)
  -- The inner record is there, has the outer one in it, and its excerpt comes back without that.
  have every : ((Document.resolve { synthesizeBases := false } circle).toOption.all fun document =>
      decide document.registry.AvoidsKeywords && (document.registry.get? 1).any fun inner =>
        (Schema.handlesOfEach inner.schemas).contains 0 &&
        (document.registry.get? 0).any (·.name.full = "Outer") &&
        (document.excerpt 1 inner).toJson.toOption.all fun json =>
          (Document.resolve { synthesizeBases := false } json).toOption.all fun again =>
            !again.registry.names.contains "Outer") = true := by decide +kernel
  simp only [accepted, Except.toOption, Option.all_some, Bool.and_eq_true, decide_eq_true_eq,
    Option.any_eq_true] at every
  obtain ⟨avoids, inner, isInner, ⟨inside, outer, isOuter, isName⟩, absent⟩ := every
  obtain ⟨json, again, _, _, projected, resolved, -, -, -, names⟩ :=
    claim { synthesizeBases := false } circle document 1 inner unannotated rfl accepted avoids
      isInner
  have links : document.registry.Links 1 0 := ⟨inner, isInner, by simpa using inside⟩
  have present := (names "Outer").2 ⟨0, outer, .single links, isOuter, isName⟩
  simp [projected, resolved, present] at absent

end Document

end AvroGraph
