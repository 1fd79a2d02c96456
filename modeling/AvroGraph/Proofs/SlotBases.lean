import AvroGraph.Proofs.Events
import AvroGraph.Proofs.Linked

/-!
# Bases of slots

A slot whose branches call for a base is a candidate. Bases are remembered by the owner and the
name of their slot, and the first candidate of that name decides what a base is made for
(`Registry.Steps.holdsBase`). So every candidate has a base of its own branches exactly if no two
candidates of one name differ in their branches (`Document.hasOwnBase_iff`).
-/

namespace AvroGraph

/-- The owner and the name of a slot whose branches call for a base, and these branches. -/
def Event.candidate? : Event → Option ((Name × String) × List Schema)
  | .slot owner name declared _ =>
    if callsForBase declared.branches then some ((owner, name), declared.branches) else none
  | _ => none

/-- The candidates among events, in order. -/
def candidates (events : List Event) : List ((Name × String) × List Schema) :=
  events.filterMap Event.candidate?

/-- Candidates of one owner and one name have the same branches. -/
def CandidatesAgree (events : List Event) : Prop :=
  ∀ first ∈ candidates events, ∀ second ∈ candidates events,
    first.1 = second.1 → first.2 = second.2

instance (events : List Event) : Decidable (CandidatesAgree events) :=
  inferInstanceAs (Decidable (∀ first ∈ candidates events, ∀ second ∈ candidates events,
    first.1 = second.1 → first.2 = second.2))

/-- A slot whose branches call for a base has one that is made for these branches, and every
record among them derives from it. -/
def Event.HasOwnBase (registry : Registry) : Event → Prop
  | .slot _ _ declared filled =>
    callsForBase declared.branches = true →
      ∃ base body, filled.declared = .named .abstractBase base ∧
        registry.get? base = some (.abstractBase body) ∧ body.derived = declared.branches ∧
        ∀ handle, .named .record handle ∈ declared.branches → registry.Derives handle base
  | _ => True

namespace Registry

variable {options : Options} {registry middle after : Registry} {events : List Event}

/-- The bases remembered, and what they are made for, last. -/
structure KeepsBases (before after : Registry) : Prop where
  made : ∀ owner slot base, before.baseOf? owner slot = some base →
    after.baseOf? owner slot = some base
  body : ∀ base body, before.get? base = some (.abstractBase body) →
    after.get? base = some (.abstractBase body)

/-- A registry keeps its own bases. -/
theorem KeepsBases.refl (registry : Registry) : registry.KeepsBases registry :=
  ⟨fun _ _ _ => id, fun _ _ => id⟩

/-- What keeps bases twice keeps them. -/
theorem KeepsBases.trans (first : registry.KeepsBases middle) (second : middle.KeepsBases after) :
    registry.KeepsBases after where
  made owner slot base known := second.made owner slot base (first.made owner slot base known)
  body base body found := second.body base body (first.body base body found)

/-- A registry that grows keeps its bases. -/
theorem Grows.keepsBases (grows : registry.Grows after) : registry.KeepsBases after where
  made := grows.base
  body base body found := by
    obtain ⟨grown, foundAfter, growth⟩ := grows.entry base _ (lt_size_of_get? found) found
    have same : grown = .abstractBase body := growth.eq_of_kind (by simp [Entry.kind])
    rw [foundAfter, same]

/-- Amendments keep the bases that have been made. -/
theorem Amended.keepsBases (amended : registry.Amended after) : registry.KeepsBases after where
  made owner slot _ known := (amended.baseOf?_eq owner slot).trans known
  body _ _ := amended.get?_base_iff.2

/-- What is remembered for a slot: a base that was made for certain branches, or nothing. -/
def RemembersFor (registry : Registry) (owner : Name) (slot : String) :
    Option (List Schema) → Prop
  | some branches => ∃ base body, registry.baseOf? owner slot = some base ∧
      registry.get? base = some (.abstractBase body) ∧ body.derived = branches
  | none => registry.baseOf? owner slot = none

/-- A base that is remembered for a slot stays remembered, for the same branches. -/
theorem RemembersFor.mono {owner : Name} {slot : String} {branches : List Schema}
    (remembers : registry.RemembersFor owner slot (some branches))
    (keeps : registry.KeepsBases after) : after.RemembersFor owner slot (some branches) := by
  obtain ⟨base, body, made, found, same⟩ := remembers
  exact ⟨base, body, keeps.made _ _ _ made, keeps.body _ _ found, same⟩

/-! ## Single steps -/

/-- A step keeps the bases that were there before it. -/
theorem Step.keepsBases (step : Step options registry events after) :
    registry.KeepsBases after := by
  cases step with
  | register _ registered => exact Grows.keepsBases (keeps_register registered)
  | setFields handle fields => exact (amended_setFields handle fields).keepsBases
  | setProtocol handle types messages =>
    exact (amended_setProtocol handle types messages).keepsBases
  | reference => exact .refl _
  | overlay annotated =>
    obtain rfl | amended := eq_or_amended_of_annotate annotated
    · exact .refl _
    · exact amended.keepsBases
  | slot filled => exact (grows_slot filled).keepsBases

/-- A slot that was without a base is remembered with its branches if they call for one; no other
slot is given a base. -/
theorem slot_remembers {owner other : Name} {name slotName : String} {declared : Schema}
    {slot : Slot} (wanted : options.synthesizeBases = true)
    (fresh : registry.baseOf? other slotName = none)
    (filled : registry.slot options owner name declared = .ok (slot, after)) :
    after.RemembersFor other slotName
      ((candidates [.slot owner name declared slot]).lookup (other, slotName)) := by
  rw [slot_eq_ok, wanted, Bool.true_and] at filled
  split at filled
  · next calls =>
    obtain ⟨base, made, -⟩ := filled
    have only : candidates [.slot owner name declared slot] =
        [((owner, name), declared.branches)] := by simp [candidates, Event.candidate?, calls]
    rw [only]
    by_cases same : (other, slotName) = (owner, name)
    · cases same
      rw [List.lookup_cons_self]
      exact ⟨base, _, baseOf?_synthesizeBase made, get?_synthesizeBase fresh made, rfl⟩
    · rw [List.lookup_cons, beq_eq_false_iff_ne.2 same]
      exact (baseOf?_synthesizeBase_of_ne same made).trans fresh
  · next calls =>
    obtain ⟨rfl, -⟩ := filled
    simpa [candidates, Event.candidate?, calls, RemembersFor] using fresh

/-- A step remembers a slot with the branches of its candidate, if it has one. -/
theorem Step.remembersFor {owner : Name} {slot : String} (wanted : options.synthesizeBases = true)
    (step : Step options registry events after) (fresh : registry.baseOf? owner slot = none) :
    after.RemembersFor owner slot ((candidates events).lookup (owner, slot)) := by
  cases step with
  | register _ registered => exact (baseOf?_register registered owner slot).trans fresh
  | setFields handle fields => exact ((amended_setFields handle fields).baseOf?_eq _ _).trans fresh
  | setProtocol handle types messages =>
    exact ((amended_setProtocol handle types messages).baseOf?_eq _ _).trans fresh
  | reference => exact fresh
  | overlay annotated =>
    obtain rfl | amended := eq_or_amended_of_annotate annotated
    · exact fresh
    · exact (amended.baseOf?_eq owner slot).trans fresh
  | slot filled => exact slot_remembers wanted fresh filled

/-- A candidate is given a base, the one remembered for its slot. -/
theorem Step.slot_declared {owner : Name} {name : String} {declared : Schema} {slot : Slot}
    (wanted : options.synthesizeBases = true) (step : Step options registry events after)
    (member : .slot owner name declared slot ∈ events) (calls : callsForBase declared.branches) :
    ∃ base, slot.declared = .named .abstractBase base ∧ after.baseOf? owner name = some base := by
  cases step with
  | slot filled =>
    cases List.mem_singleton.1 member
    rw [slot_eq_ok, wanted, calls, Bool.and_self, if_pos rfl] at filled
    obtain ⟨base, made, rfl⟩ := filled
    exact ⟨base, rfl, baseOf?_synthesizeBase made⟩
  | reference | overlay => cases List.mem_singleton.1 member
  | register | setFields | setProtocol => cases member

/-! ## Series of steps -/

/-- Steps in a row keep the bases that were there before them. -/
theorem Steps.keepsBases (steps : Steps options registry events after) :
    registry.KeepsBases after := by
  induction steps with
  | refl => exact .refl _
  | step first _ ih => exact first.keepsBases.trans ih

/-- The first candidate of a slot decides what its base is made for. -/
theorem Steps.remembersFor (owner : Name) (slot : String)
    (wanted : options.synthesizeBases = true) (steps : Steps options registry events after)
    (fresh : registry.baseOf? owner slot = none) :
    after.RemembersFor owner slot ((candidates events).lookup (owner, slot)) := by
  induction steps with
  | refl => exact fresh
  | @step registry middle after events more first rest ih =>
    have start := first.remembersFor wanted fresh
    rw [candidates, List.filterMap_append, List.lookup_append]
    cases found : (candidates events).lookup (owner, slot) with
    | some branches =>
      rw [found] at start
      rw [← candidates, found, Option.some_or]
      exact start.mono rest.keepsBases
    | none =>
      rw [found] at start
      rw [← candidates, found, Option.none_or]
      exact ih start

/-- A slot that calls for a base among the steps is given the one that is remembered for it. -/
theorem Steps.slot_declared {owner : Name} {name : String} {declared : Schema} {slot : Slot}
    (wanted : options.synthesizeBases = true) (steps : Steps options registry events after)
    (member : .slot owner name declared slot ∈ events) (calls : callsForBase declared.branches) :
    ∃ base, slot.declared = .named .abstractBase base ∧ after.baseOf? owner name = some base := by
  induction steps with
  | refl => cases member
  | step first rest ih =>
    rcases List.mem_append.1 member with here | later
    · obtain ⟨base, isBase, made⟩ := first.slot_declared wanted here calls
      exact ⟨base, isBase, rest.keepsBases.made _ _ _ made⟩
    · exact ih later

end Registry

/-! ## Documents -/

/-- The candidates among events are the slots whose branches call for a base. -/
theorem mem_candidates {events : List Event} {owner : Name} {name : String}
    {branches : List Schema} :
    ((owner, name), branches) ∈ candidates events ↔
      ∃ declared slot, .slot owner name declared slot ∈ events ∧
        callsForBase declared.branches = true ∧ declared.branches = branches := by
  rw [candidates, List.mem_filterMap]
  constructor
  · rintro ⟨event, member, isCandidate⟩
    cases event with
    | slot owner name declared slot =>
      rw [Event.candidate?] at isCandidate
      split at isCandidate
      · next calls =>
        cases isCandidate
        exact ⟨declared, slot, member, calls, rfl⟩
      · cases isCandidate
    | _ => cases isCandidate
  · rintro ⟨declared, slot, member, calls, rfl⟩
    exact ⟨_, member, by rw [Event.candidate?, if_pos calls]⟩

/-- Where candidates agree, a candidate is found under its owner and name. -/
theorem CandidatesAgree.lookup {events : List Event} (agree : CandidatesAgree events)
    {slot : Name × String} {branches : List Schema} (member : (slot, branches) ∈ candidates events) :
    (candidates events).lookup slot = some branches := by
  cases found : (candidates events).lookup slot with
  | none => simpa using List.lookup_eq_none_iff.1 found _ member
  | some first =>
    obtain ⟨before, after, split, -⟩ := List.lookup_eq_some_iff.1 found
    have isFirst : (slot, first) ∈ candidates events := by simp [split]
    exact congrArg some (agree _ isFirst _ member rfl)

variable {options : Options} {root : Json} {document : Document}

/-- What a document makes of the base of a candidate: it is the base remembered for its slot,
made for the first candidate of that owner and name. -/
theorem Document.base_of_candidate (wanted : options.synthesizeBases = true)
    (accepted : Document.resolve options root = .ok document) {owner : Name} {name : String}
    {declared : Schema} {slot : Slot}
    (member : .slot owner name declared slot ∈ Document.events options root)
    (calls : callsForBase declared.branches) :
    ∃ base body, slot.declared = .named .abstractBase base ∧
      document.registry.baseOf? owner name = some base ∧
      document.registry.get? base = some (.abstractBase body) ∧
      (candidates (Document.events options root)).lookup (owner, name) = some body.derived := by
  have steps := (Node.ofJson root).steps (Document.resolve_eq_ok.1 accepted)
  obtain ⟨base, isBase, made⟩ := steps.slot_declared wanted member calls
  have remembers := steps.remembersFor owner name wanted rfl
  cases found : (candidates (Document.events options root)).lookup (owner, name) with
  | none =>
    have present := mem_candidates.2 ⟨declared, slot, member, calls, rfl⟩
    simpa using List.lookup_eq_none_iff.1 found _ present
  | some branches =>
    rw [← Document.events, found] at remembers
    obtain ⟨other, body, isMade, isEntry, rfl⟩ := remembers
    rw [made] at isMade
    cases isMade
    exact ⟨base, body, isBase, made, isEntry, rfl⟩

/-- Slots with bases of their own branches agree wherever they share owner and name: they have
the base that is remembered, which is made for one list of branches. -/
theorem Document.candidatesAgree (wanted : options.synthesizeBases = true)
    (accepted : Document.resolve options root = .ok document)
    (own : ∀ event ∈ Document.events options root, event.HasOwnBase document.registry) :
    CandidatesAgree (Document.events options root) := by
  rintro ⟨⟨owner, name⟩, branches⟩ first ⟨⟨_, _⟩, others⟩ second ⟨⟩
  obtain ⟨declared, slot, member, calls, rfl⟩ := mem_candidates.1 first
  obtain ⟨otherDeclared, otherSlot, otherMember, otherCalls, rfl⟩ := mem_candidates.1 second
  obtain ⟨base, _, isBase, made, -⟩ := base_of_candidate wanted accepted member calls
  obtain ⟨other, _, isOther, madeOther, -⟩ :=
    base_of_candidate wanted accepted otherMember otherCalls
  obtain ⟨ownBase, body, isOwn, isEntry, derived, -⟩ := own _ member calls
  obtain ⟨otherBase, otherBody, isOtherOwn, isOtherEntry, otherDerived, -⟩ :=
    own _ otherMember otherCalls
  have same : other = base := by simpa [made] using madeOther.symm
  have here : ownBase = base := by simpa [isBase] using isOwn.symm
  have there : otherBase = base := by simpa [isOther, same] using isOtherOwn.symm
  subst here there
  rw [isEntry] at isOtherEntry
  cases isOtherEntry
  exact derived.symm.trans otherDerived

/-- Where slots agree, each has a base of its own branches. -/
theorem Document.hasOwnBase (wanted : options.synthesizeBases = true)
    (accepted : Document.resolve options root = .ok document)
    (agree : CandidatesAgree (Document.events options root)) :
    ∀ event ∈ Document.events options root, event.HasOwnBase document.registry := by
  rintro (_ | _ | ⟨owner, name, declared, slot⟩) member
  · trivial
  · trivial
  · intro calls
    obtain ⟨base, body, isBase, -, isEntry, found⟩ :=
      base_of_candidate wanted accepted member calls
    have present := mem_candidates.2 ⟨declared, slot, member, calls, rfl⟩
    rw [agree.lookup present, Option.some.injEq] at found
    refine ⟨base, body, isBase, isEntry, found.symm, fun handle branch => ?_⟩
    refine (Document.reached accepted).linked base body isEntry handle ?_
    rwa [← found, Registry.mem_recordHandles]

/-- Every slot whose branches call for a base has one of its own branches exactly if no two such
slots of one owner and one name differ in their branches. -/
theorem Document.hasOwnBase_iff (wanted : options.synthesizeBases = true)
    (accepted : Document.resolve options root = .ok document) :
    (∀ event ∈ Document.events options root, event.HasOwnBase document.registry) ↔
      CandidatesAgree (Document.events options root) :=
  ⟨Document.candidatesAgree wanted accepted, Document.hasOwnBase wanted accepted⟩

/-- What is accepted has a document. -/
theorem Document.exists_of_isOk (options : Options) (root : Json)
    (isOk : (Document.resolve options root).isOk = true) :
    ∃ document, Document.resolve options root = .ok document := by
  cases result : Document.resolve options root with
  | ok document => exact ⟨document, rfl⟩
  | error violation => simp [result, Except.isOk, Except.toBool] at isOk

/-- A protocol of two records with one message, given its parameters and its response. -/
def messageOf (request : List Json) (response : Json) : Json :=
  let record (name : String) : Json :=
    .object [("type", .string "record"), ("name", .string name), ("fields", .array [])]
  .object [("protocol", .string "P"), ("types", .array [record "A", record "B"]),
    ("messages", .object [("m", .object [("request", .array request), ("response", response)])])]

namespace Document

/-- A protocol of two records, with a parameter and a response of both. -/
def letters : Json :=
  messageOf [.object [("name", .string "sent"), ("type", .array [.string "A", .string "B"])]]
    (.array [.string "B", .string "A"])

/-- The entries of what that protocol declares, if the parameter and the response have these types
and the records derive from these bases. -/
def declaredLetters (sent response : Schema) (bases : List Handle) : List Entry :=
  let message : Message :=
    { name := "m"
      request := [.ofSchema "sent" sent]
      response := response
      responseUnderlying := response.underlying
      responseNullable := response.isNullable
      errors := [.string] }
  [.protocol
      { name := .unqualified "P"
        types := [.named .record 1, .named .record 2]
        messages := [message] },
    .record { name := .unqualified "A", fields := [], bases },
    .record { name := .unqualified "B", fields := [], bases }]

/-- What the protocol of letters resolves to with bases. -/
def basedLetters : Document :=
  let sent : AbstractBase :=
    ⟨.unqualified "MSentBase", .unqualified "m", "sent", [.named .record 1, .named .record 2]⟩
  let response : AbstractBase :=
    ⟨.unqualified "MResponseBase", .unqualified "m", "response",
      [.named .record 2, .named .record 1]⟩
  { root := .named .protocol 0
    registry :=
      { entries := declaredLetters (.named .abstractBase 3) (.named .abstractBase 4) [3, 4] ++
          [.abstractBase sent, .abstractBase response]
        index := [(response.name, 4), (sent.name, 3), (.unqualified "B", 2), (.unqualified "A", 1),
          (.unqualified "P", 0)]
        bases := [((response.owner, response.slot), 4), ((sent.owner, sent.slot), 3)] } }

/-- A parameter and a response of different branches have bases of their own. -/
theorem hasOwnBase_iff_messageOf :
    Document.resolve {} letters = .ok basedLetters ∧ CandidatesAgree (events {} letters) ∧
      ∀ event ∈ events {} letters, event.HasOwnBase basedLetters.registry := by
  have accepted : Document.resolve {} letters = .ok basedLetters := by decide +kernel
  have agree : CandidatesAgree (events {} letters) := by decide +kernel
  exact ⟨accepted, agree, (hasOwnBase_iff rfl accepted).2 agree⟩

/-- A parameter called `response` shares its base with the response, whatever the branches. -/
theorem not_hasOwnBase_response :
    let root := messageOf
      [.object [("name", .string "response"), ("type", .array [.string "A", .string "B"])]]
      (.array [.string "B", .string "A"])
    ∃ document, Document.resolve {} root = .ok document ∧
      ¬ ∀ event ∈ Document.events {} root, event.HasOwnBase document.registry := by
  intro root
  obtain ⟨document, accepted⟩ := Document.exists_of_isOk {} root (by decide +kernel)
  have disagree : ¬ CandidatesAgree (Document.events {} root) := by decide +kernel
  exact ⟨document, accepted, fun own => disagree (Document.candidatesAgree rfl accepted own)⟩

end Document

end AvroGraph
