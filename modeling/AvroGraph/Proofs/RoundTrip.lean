import AvroGraph.Proofs.ErasedJson
import AvroGraph.Proofs.Rewalk

/-!
# Documents that are projected and resolved again

What a document is projected to resolves to the document again, with every entry at its handle,
and is projected alike (`Document.resolve_toJson`). Only the extension properties of a fixed type
may come back in another order, since the parameters of its logical type are written first.
-/

namespace AvroGraph

open Projecting

/-- The same entry, up to the order of a fixed type's extension properties. -/
inductive Entry.Reordered : Entry → Entry → Prop where
  | same (entry : Entry) : Reordered entry entry
  | fixed (fixedType : FixedType) {properties : Members}
      (perm : properties.Perm fixedType.properties) :
      Reordered (.fixed { fixedType with properties }) (.fixed fixedType)

namespace Registry

variable {registry : Registry}

/-- What is read back is there in the same order. -/
theorem Coherent.forall₂_rewritten (coherent : registry.Coherent) :
    List.Forall₂ Entry.Reordered registry.rewritten.entries registry.entries := by
  rw [rewritten, List.forall₂_map_left_iff, List.forall₂_same]
  intro entry member
  cases entry with
  | fixed fixedType =>
    obtain ⟨handle, found⟩ := List.mem_iff_getElem?.1 member
    exact .fixed fixedType (coherent handle fixedType found).perm_rewritten
  | _ => exact .same _

/-- What is read back has the logical types of fixed types that were there. -/
theorem sameOverlays_rewritten (registry : Registry) :
    registry.SameOverlays registry.rewritten := by
  intro underlying overlay
  cases underlying with
  | named kind handle =>
    cases kind with
    | fixed =>
      rw [Schema.isOwnOverlay, Schema.isOwnOverlay, fixed?, fixed?, get?_rewritten]
      cases registry.get? handle with
      | none => rfl
      | some entry => cases entry <;> rfl
    | _ => rfl
  | _ => rfl

/-- Entries are written alike when they have been read back. -/
theorem Coherent.define_rewritten (coherent : registry.Coherent) (depth : Nat) :
    (registry.define depth).Extends (registry.rewritten.define depth) := by
  induction depth with
  | zero => exact fun _ _ _ _ _ writes => absurd writes yields_define_zero
  | succ depth ih =>
    intro handle around written json after
    refine defineWith_mono fun entry found => ?_
    have again : registry.rewritten.get? handle = some entry.rewritten := by
      rw [get?_rewritten, found, Option.map_some]
    refine ⟨entry.rewritten, again, entry.name_rewritten, entry.isAbstractBase_rewritten,
      fun written writes => ?_⟩
    have mono := entry.yields_mono (sameOverlays_rewritten registry) ih writes
    cases entry with
    | fixed fixedType =>
      obtain ⟨rfl, rfl⟩ := Entry.yields_fixed.1 mono
      refine Entry.yields_fixed.2 ⟨?_, rfl⟩
      rw [(coherent handle fixedType found).project_rewritten]
    | _ => exact mono

/-- Every schema is written alike when it has been read back. -/
theorem Coherent.write_rewritten (coherent : registry.Coherent) {schema : Schema}
    {around : Option String} {written after : List Handle} {json : Json}
    (writes : (registry.write schema around).Yields written json after) :
    (registry.rewritten.write schema around).Yields written json after := by
  have deep : registry.rewritten.depthLimit = registry.depthLimit := by
    rw [depthLimit, depthLimit, size_rewritten]
  rw [write, deep]
  exact schema.yields_mono (sameOverlays_rewritten registry) (coherent.define_rewritten _) writes

end Registry

namespace Document

variable {options : Options} {root : Json} {document : Document}

/-- A document is projected to JSON that resolves to the same root and to the same entries at the
same handles, and that is projected to itself. No declaration may be named like a type of its own,
no logical type may have an object as its type or take one away from a fixed type, no reference
may be linked to a base, and no two slots of one owner and one name may call for one. -/
theorem resolve_toJson (flat : root.EveryObject Members.Flat)
    (accepted : Document.resolve options root = .ok document)
    (avoids : document.registry.AvoidsKeywords)
    (kept : ∀ event ∈ Document.events options root, event.dropsOverlay = false)
    (unlinked : ∀ event ∈ Document.events options root, event.linksBase = false)
    (distinct : ((candidates (Document.events options root)).map Prod.fst).Nodup) :
    ∃ json again, document.toJson = .ok json ∧ Document.resolve options json = .ok again ∧
      again.root = document.root ∧
      List.Forall₂ Entry.Reordered again.registry.entries document.registry.entries ∧
      again.registry.index = document.registry.index ∧
      again.registry.bases = document.registry.bases ∧ again.toJson = .ok json := by
  have events : ∀ event ∈ Document.events options root,
      event.Rereadable options document.registry := by
    intro event member
    refine ⟨unlinked event member, fun wanted => ?_⟩
    exact hasOwnBase wanted accepted (candidatesAgree_of_nodup distinct) event member
  obtain ⟨json, projected, resolved, coherent⟩ :=
    rereads (Node.obeys_tidy root flat) accepted avoids (whole_of_kept accepted kept) events
  obtain ⟨after, writes⟩ := toJson_eq_ok.1 projected
  exact ⟨json, _, projected, resolved, rfl, coherent.forall₂_rewritten, rfl, rfl,
    toJson_eq_ok.2 ⟨after, coherent.write_rewritten writes⟩⟩

/-- A record of amounts of money and of a union of two records, with this heading and with these
members of money. -/
def ledgerOf (heading money : Members) : Json :=
  let record (heading : Members) (fields : List Json) : Json :=
    .object ([("type", .string "record")] ++ heading ++ [("fields", .array fields)])
  let field (name : String) (type : Json) : Json :=
    .object [("name", .string name), ("type", type)]
  let parties := [record [("name", .string "Person")] [], record [("name", .string "Firm")] []]
  record heading
    [field "amount" (.object money), field "party" (.array parties),
      field "balance" (.string "Money")]

/-- Such a record, with the precision of money behind its unit. -/
def ledger : Json :=
  ledgerOf [("name", .string "books.Entry")]
    [("type", .string "fixed"), ("name", .string "Money"), ("size", .ofNat 8),
      ("unit", .string "cent"), ("logicalType", .string "decimal"), ("precision", .ofNat 4)]

/-- The same record as it is projected: its namespace is a member of its own, and the precision of
money stands before the unit. -/
def projectedLedger : Json :=
  ledgerOf [("name", .string "Entry"), ("namespace", .string "books")]
    [("type", .string "fixed"), ("name", .string "Money"), ("size", .ofNat 8),
      ("logicalType", .string "decimal"), ("precision", .ofNat 4), ("unit", .string "cent")]

/-- What both resolve to, with these properties of money. -/
def booked (properties : Members) : Document :=
  let name (text : String) : Name := ⟨text, some "books"⟩
  let money := Schema.logical (.named .fixed 1) (.decimal 4 0)
  { root := .named .record 0
    registry :=
      { entries := [
          .record { name := name "Entry", fields := [.ofSchema "amount" money,
            .ofSchema "party" (.named .abstractBase 4), .ofSchema "balance" money] },
          .fixed { name := name "Money", size := 8, properties, overlay := some (.decimal 4 0) },
          .record { name := name "Person", fields := [], bases := [4] },
          .record { name := name "Firm", fields := [], bases := [4] },
          .abstractBase ⟨name "EntryPartyBase", name "Entry", "party",
            [.named .record 2, .named .record 3]⟩]
        index := [(name "EntryPartyBase", 4), (name "Firm", 3), (name "Person", 2),
          (name "Money", 1), (name "Entry", 0)]
        bases := [((name "Entry", "party"), 4)] } }

/-- That record is projected and resolved again, to the same but for the order of the properties of
money. -/
theorem resolve_toJson_ledger :
    let document := booked [("unit", .string "cent"), ("precision", .ofNat 4)]
    let again := booked [("precision", .ofNat 4), ("unit", .string "cent")]
    ledger.EveryObject Members.Flat ∧ Document.resolve {} ledger = .ok document ∧
      document.registry.AvoidsKeywords ∧ document.toJson = .ok projectedLedger ∧
      Document.resolve {} projectedLedger = .ok again ∧ again.root = document.root ∧
      List.Forall₂ Entry.Reordered again.registry.entries document.registry.entries ∧
      again.registry.index = document.registry.index ∧
      again.registry.bases = document.registry.bases ∧ again.toJson = .ok projectedLedger := by
  intro document again
  have flat : ledger.EveryObject Members.Flat := by decide +kernel
  have accepted : Document.resolve {} ledger = .ok document := by decide +kernel
  have avoids : document.registry.AvoidsKeywords := by decide +kernel
  have projected : document.toJson = .ok projectedLedger := by decide +kernel
  have resolved : Document.resolve {} projectedLedger = .ok again := by decide +kernel
  obtain ⟨json, _, isJson, isAgain, same⟩ := resolve_toJson flat accepted avoids
    (by decide +kernel) (by decide +kernel) (by decide +kernel)
  obtain rfl := Except.ok.inj (projected.symm.trans isJson)
  obtain rfl := Except.ok.inj (resolved.symm.trans isAgain)
  exact ⟨flat, accepted, avoids, projected, resolved, same⟩

end Document

end AvroGraph
