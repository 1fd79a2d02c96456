import AvroGraph.Proofs.AppendOnly
import AvroGraph.Proofs.Capture
import AvroGraph.Proofs.Index
import Mathlib.Data.List.Nodup
import Mathlib.Data.List.Perm.Subperm

/-!
# Numbers of abstract bases

The bases for which one name is wanted form a family. The first of them has that name and the others
have it with the numbers from two on, in the order in which they are made: no number is left out,
also where attempts fail in between, and none belongs to a base of another family
(`Registry.Reached.family_numbered`).
-/

namespace AvroGraph

namespace Registry

/-! ## Counted names -/

/-- What stands behind the name of a family: nothing at first, then the numbers from two on. -/
def counter : Nat → String
  | 0 => ""
  | index + 1 => toString (index + 2)

/-- The names that the bases of a family are given one after another. -/
def counted (name : Name) (index : Nat) : Name :=
  { name with localName := name.localName ++ counter index }

/-- The first name of a family has no counter. -/
@[simp]
theorem counted_zero (name : Name) : counted name 0 = name := by
  simp [counted, counter]

/-- The second one is counted by two, and so on. -/
theorem counted_succ (name : Name) (index : Nat) :
    counted name (index + 1) = numbered name (index + 2) := rfl

/-- Counters are made of digits. -/
theorem isDigit_of_mem_counter {index : Nat} {character : Char}
    (member : character ∈ (counter index).toList) : character.isDigit = true := by
  cases index with
  | zero => cases member
  | succ index =>
    rw [counter, Nat.toString_eq_repr, Nat.toList_repr] at member
    exact Nat.isDigit_of_mem_toDigits (by decide) (by decide) member

/-- Different indices have different counters. -/
theorem counter_inj {left right : Nat} (same : counter left = counter right) : left = right := by
  cases left <;> cases right
  case zero.zero => rfl
  case succ.succ left right =>
    simp only [counter, Nat.toString_eq_ofList_toDigits, String.ofList_inj] at same
    have numbers := congrArg (Nat.ofDigitChars 10 · 0) same
    simpa only [Nat.ofDigitChars_ten_toDigits, Nat.add_right_cancel_iff] using numbers
  all_goals simp [counter] at same

/-- Different indices have different names. -/
theorem counted_inj {name : Name} {left right : Nat}
    (same : counted name left = counted name right) : left = right := by
  refine counter_inj ?_
  simpa [counted] using same

/-- A text can be told from the digits behind it if it does not end in one itself. -/
theorem eq_of_append_digits {left right leftDigits rightDigits : List Char}
    (leftPlain : left.getLast?.all (!·.isDigit)) (rightPlain : right.getLast?.all (!·.isDigit))
    (leftAll : ∀ digit ∈ leftDigits, digit.isDigit = true)
    (rightAll : ∀ digit ∈ rightDigits, digit.isDigit = true)
    (same : left ++ leftDigits = right ++ rightDigits) : left = right := by
  -- What one text has over the other is among the digits of the latter, but ends in none.
  have nothing {text extra digits : List Char} (plain : (text ++ extra).getLast?.all (!·.isDigit))
      (all : ∀ digit ∈ extra ++ digits, digit.isDigit = true) : extra = [] := by
    cases last : extra.getLast? with
    | none => exact List.getLast?_eq_none_iff.1 last
    | some digit =>
      have isDigit := all digit (List.mem_append_left _ (List.mem_of_getLast? last))
      simp [List.getLast?_append, last, isDigit] at plain
  obtain ⟨extra, rfl, rfl⟩ | ⟨extra, rfl, rfl⟩ := List.append_eq_append_iff.1 same
  · rw [nothing rightPlain leftAll, List.append_nil]
  · rw [nothing leftPlain rightAll, List.append_nil]

end Registry

/-- The name that is wanted for a base ends in a letter. -/
theorem AbstractBase.getLast?_nameFor (owner : Name) (slot : String) :
    (nameFor owner slot).localName.toList.getLast? = some 'e' := by
  have suffix : "Base".toList.getLast? = some 'e' := by decide
  rw [nameFor, String.toList_append, List.getLast?_append, suffix, Option.some_or]

namespace Registry

/-- Names of two families are told apart by what they are wanted for, whatever their numbers. -/
theorem nameFor_eq_of_counted {owner other : Name} {slot name : String} {left right : Nat}
    (same : counted (AbstractBase.nameFor owner slot) left =
      counted (AbstractBase.nameFor other name) right) :
    AbstractBase.nameFor owner slot = AbstractBase.nameFor other name := by
  obtain ⟨locals, spaces⟩ := Name.mk.inj same
  have sameLocal : (AbstractBase.nameFor owner slot).localName =
      (AbstractBase.nameFor other name).localName := by
    rw [← String.toList_inj, String.toList_append, String.toList_append] at locals
    refine String.toList_inj.1 (eq_of_append_digits ?_ ?_ (fun _ => isDigit_of_mem_counter)
      (fun _ => isDigit_of_mem_counter) locals)
    · rw [AbstractBase.getLast?_nameFor]
      rfl
    · rw [AbstractBase.getLast?_nameFor]
      rfl
  exact Name.mk.injEq .. ▸ ⟨sameLocal, spaces⟩

/-! ## Free names -/

variable {registry after : Registry} {options : Options}

/-- Not all of as many names as are indexed, and one more, can be taken. -/
theorem exists_holdsBase_eq_false (registry : Registry) (name : Name) :
    ∃ index ≤ registry.index.length, registry.holdsBase (counted name index) = false := by
  refine Classical.byContradiction fun taken => ?_
  have names : (List.range (registry.index.length + 1)).map (counted name) ⊆
      registry.index.map Prod.fst := by
    intro candidate member
    obtain ⟨index, inRange, rfl⟩ := List.mem_map.1 member
    have holds : registry.holdsBase (counted name index) = true := by
      refine Bool.of_not_eq_false fun free => taken ⟨index, ?_, free⟩
      exact Nat.lt_succ_iff.1 (List.mem_range.1 inRange)
    obtain ⟨base, -, found, -⟩ := holdsBase_eq_true.1 holds
    obtain ⟨before, behind, isIndex, -⟩ := List.lookup_eq_some_iff.1 found
    exact List.mem_map.2 ⟨_, isIndex ▸ List.mem_append_cons_self, rfl⟩
  have distinct : ((List.range (registry.index.length + 1)).map (counted name)).Nodup :=
    List.nodup_range.map fun _ _ => counted_inj
  have bound := (distinct.subperm names).length_le
  simp only [List.length_map, List.length_range] at bound
  exact absurd bound (Nat.not_succ_le_self _)

/-- The name that a base is given is the first one of its family that belongs to no base. -/
theorem freeBaseName_eq_counted (registry : Registry) (name : Name) :
    ∃ index, registry.freeBaseName name = counted name index ∧
      registry.holdsBase (counted name index) = false ∧
      ∀ earlier < index, registry.holdsBase (counted name earlier) = true := by
  rw [freeBaseName]
  split
  · next held =>
    rw [List.find?_map]
    cases search : (List.range (registry.index.length + 1)).find?
        ((fun candidate => !registry.holdsBase candidate) ∘ fun index => numbered name (index + 2))
      with
    | none =>
      obtain ⟨index, bound, free⟩ := registry.exists_holdsBase_eq_false name
      cases index with
      | zero => simp [held] at free
      | succ index =>
        have passed := List.find?_eq_none.1 search index (List.mem_range.2 (by omega))
        simp [← counted_succ, free] at passed
    | some index =>
      obtain ⟨free, -, least⟩ := List.find?_range_eq_some.1 search
      refine ⟨index + 1, rfl, by simpa [counted_succ] using free, fun earlier early => ?_⟩
      cases earlier with
      | zero => simpa using held
      | succ earlier => simpa [counted_succ] using least earlier (by omega)
  · next free => exact ⟨0, by simp, by simpa using free, by simp⟩

/-! ## Families -/

/-- The abstract bases, in the order in which they were made. -/
def madeBases (registry : Registry) : List AbstractBase :=
  registry.entries.filterMap Entry.abstractBase?

/-- The bases for which a name is wanted, in the order in which they were made. -/
def family (registry : Registry) (name : Name) : List AbstractBase :=
  registry.madeBases.filter fun base => AbstractBase.nameFor base.owner base.slot = name

/-- The bases that have been made are the entries that are bases. -/
theorem mem_madeBases {body : AbstractBase} :
    body ∈ registry.madeBases ↔ ∃ handle, registry.get? handle = some (.abstractBase body) := by
  have isBase (entry : Entry) : entry.abstractBase? = some body ↔ entry = .abstractBase body := by
    cases entry <;> simp [Entry.abstractBase?]
  simp [madeBases, isBase, ← List.mem_iff_getElem?, get?]

/-- Amendments leave alone which bases have been made. -/
theorem Amended.madeBases_eq (amended : registry.Amended after) :
    after.madeBases = registry.madeBases := by
  obtain ⟨handle, change, amends, rfl⟩ := amended
  have same (entry : Entry) : (change entry).abstractBase? = entry.abstractBase? := by
    have kind := amends.kind entry
    cases entry with
    | abstractBase body => rw [amends.base]
    | _ => cases changed : change _ <;> simp_all [Entry.kind, Entry.abstractBase?]
  have views : (registry.entries.modify handle change).map Entry.abstractBase? =
      registry.entries.map Entry.abstractBase? := by
    refine List.ext_getElem? fun index => ?_
    simp only [List.getElem?_map, List.getElem?_modify]
    split <;> cases registry.entries[index]? <;> simp [same]
  have merged (entries : List Entry) :
      entries.filterMap Entry.abstractBase? = (entries.map Entry.abstractBase?).filterMap id := by
    rw [List.filterMap_map]
    rfl
  rw [madeBases, madeBases, merged, update, views, ← merged]

/-- An entry that is registered is made behind the others if it is a base. -/
theorem madeBases_register {entry : Entry} {handle : Handle}
    (registered : registry.register entry = .ok (handle, after)) :
    after.madeBases = registry.madeBases ++ entry.abstractBase?.toList := by
  obtain ⟨-, -, rfl⟩ := register_eq_ok.1 registered
  rw [madeBases, List.filterMap_append, madeBases]
  cases entry <;> rfl

/-- Links to a base leave alone which bases have been made. -/
theorem madeBases_addBases (handles : List Handle) (base : Handle) :
    (handles.foldl (fun result record => result.addBase record base) registry).madeBases =
      registry.madeBases :=
  keep_addBases (fun result => result.madeBases = registry.madeBases)
    (fun same amended => amended.madeBases_eq.trans same) handles base rfl

/-- Bases are remembered for their slots, and those of a family are numbered one after another. -/
structure Numbered (registry : Registry) : Prop where
  indexed : registry.Indexed
  remembered : ∀ handle body, registry.get? handle = some (.abstractBase body) →
    registry.baseOf? body.owner body.slot = some handle
  named : ∀ name, (registry.family name).map AbstractBase.name =
    (List.range (registry.family name).length).map (counted name)

namespace Numbered

/-- An empty registry has no bases to number. -/
theorem empty : Registry.empty.Numbered where
  indexed := .empty
  remembered _ _ found := by cases found
  named _ := rfl

/-- Amendments leave the numbers of bases alone. -/
theorem amended (numbered : registry.Numbered) (amended : registry.Amended after) :
    after.Numbered where
  indexed := numbered.indexed.amended amended
  remembered handle body found := by
    rw [amended.baseOf?_eq]
    exact numbered.remembered handle body (amended.get?_base_iff.1 found)
  named name := by
    rw [family, amended.madeBases_eq]
    exact numbered.named name

/-- A declaration belongs to no family. -/
theorem register {entry : Entry} {handle : Handle} (numbered : registry.Numbered)
    (isDeclared : entry.isAbstractBase = false)
    (registered : registry.register entry = .ok (handle, after)) : after.Numbered where
  indexed := numbered.indexed.register registered
  remembered other body found := by
    rw [get?_register registered] at found
    split at found
    · cases found
      cases isDeclared
    · rw [baseOf?_register registered]
      exact numbered.remembered other body found
  named name := by
    have none : entry.abstractBase? = none := by
      cases entry <;> first | rfl | cases isDeclared
    rw [family, madeBases_register registered, none, Option.toList_none, List.append_nil]
    exact numbered.named name

/-- The names of a family up to its size are taken. -/
theorem counted_mem_names (numbered : registry.Numbered) {name : Name} {index : Nat}
    (bound : index < (registry.family name).length) :
    counted name index ∈ registry.entries.map Entry.name := by
  have member : counted name index ∈ (registry.family name).map AbstractBase.name := by
    rw [numbered.named]
    exact List.mem_map_of_mem (List.mem_range.2 bound)
  obtain ⟨body, inFamily, same⟩ := List.mem_map.1 member
  obtain ⟨handle, found⟩ := mem_madeBases.1 (List.mem_filter.1 inFamily).1
  exact same ▸ List.mem_map_of_mem (List.mem_of_getElem? found)

/-- A counted name belongs to a base only if the family has been counted that far. -/
theorem lt_of_holdsBase (numbered : registry.Numbered) {owner : Name} {slot : String} {index : Nat}
    (holds : registry.holdsBase (counted (AbstractBase.nameFor owner slot) index) = true) :
    index < (registry.family (AbstractBase.nameFor owner slot)).length := by
  obtain ⟨base, body, finds, found⟩ := holdsBase_eq_true.1 holds
  have named : body.name = counted (AbstractBase.nameFor owner slot) index := by
    obtain ⟨entry, isEntry, same⟩ := (numbered.indexed _ _).1 finds
    rw [found] at isEntry
    cases isEntry
    exact same
  have inFamily : body ∈ registry.family (AbstractBase.nameFor body.owner body.slot) :=
    List.mem_filter.2 ⟨mem_madeBases.2 ⟨base, found⟩, by simp⟩
  have member := List.mem_map_of_mem (f := AbstractBase.name) inFamily
  rw [numbered.named] at member
  obtain ⟨other, inRange, same⟩ := List.mem_map.1 member
  rw [named] at same
  have sameFamily := nameFor_eq_of_counted same
  rw [sameFamily] at same inRange
  rw [← counted_inj same]
  exact List.mem_range.1 inRange

/-- A name that can be registered for a base is the next one of its family: those before it are
taken, and the first one that belongs to no base is not behind it. -/
theorem freeBaseName_eq (numbered : registry.Numbered) {owner : Name} {slot : String}
    (free : registry.find? (registry.freeBaseName (AbstractBase.nameFor owner slot)) = none) :
    registry.freeBaseName (AbstractBase.nameFor owner slot) =
      counted (AbstractBase.nameFor owner slot)
        (registry.family (AbstractBase.nameFor owner slot)).length := by
  obtain ⟨index, same, -, held⟩ :=
    registry.freeBaseName_eq_counted (AbstractBase.nameFor owner slot)
  rw [same] at free ⊢
  have notBefore := fun before => numbered.indexed.find?_eq_none.1 free (numbered.counted_mem_names before)
  have notBehind := fun behind => Nat.lt_irrefl _ (numbered.lt_of_holdsBase (held _ behind))
  rw [Nat.le_antisymm (Nat.not_lt.1 notBehind) (Nat.not_lt.1 notBefore)]

/-- A base that is made takes the next name of its family. -/
theorem synthesizeBase {owner : Name} {slot : String} {branches : List Schema} {base : Handle}
    (numbered : registry.Numbered)
    (made : registry.synthesizeBase owner slot branches = .ok (base, after)) : after.Numbered := by
  obtain ⟨-, rfl⟩ | ⟨fresh, registered, register, rfl⟩ := synthesizeBase_cases made
  · exact numbered
  refine ⟨numbered.indexed.synthesizeBase made, fun handle body found => ?_, fun name => ?_⟩
  · rw [baseOf?_addBases, baseOf?_rememberBase]
    rw [get?_addBases_base] at found
    change registered.get? handle = _ at found
    rw [get?_register register] at found
    split at found
    · next isNew =>
      cases found
      rw [if_pos rfl, isNew, handle_register register]
    · have known := numbered.remembered handle body found
      have different : (body.owner, body.slot) ≠ (owner, slot) := by
        intro same
        obtain ⟨sameOwner, sameSlot⟩ := Prod.mk.inj same
        rw [sameOwner, sameSlot, fresh] at known
        cases known
      rw [if_neg different, baseOf?_register register, known]
  · have sameBases : (registered.rememberBase owner slot base).madeBases = registered.madeBases :=
      rfl
    rw [family, madeBases_addBases, sameBases, madeBases_register register, List.filter_append]
    by_cases inFamily : AbstractBase.nameFor owner slot = name
    · -- The family is one longer, and the name of the new member is the next one.
      subst inFamily
      have next := numbered.freeBaseName_eq (register_eq_ok.1 register).1
      simp only [Entry.abstractBase?, Option.toList_some, List.filter_singleton, decide_true,
        cond_true, List.length_append, List.length_singleton, List.range_succ, List.map_append,
        List.map_singleton, next]
      exact congrArg (· ++ _) (numbered.named _)
    · simp only [Entry.abstractBase?, Option.toList_some, List.filter_singleton, inFamily,
        decide_false, cond_false, List.append_nil]
      exact numbered.named name

/-- A slot leaves bases numbered, whether it makes one or not. -/
theorem slot {owner : Name} {name : String} {declared : Schema} {slot : Slot}
    (numbered : registry.Numbered)
    (filled : registry.slot options owner name declared = .ok (slot, after)) : after.Numbered := by
  rw [slot_eq_ok] at filled
  split at filled
  · obtain ⟨base, made, -⟩ := filled
    exact numbered.synthesizeBase made
  · exact filled.1 ▸ numbered

/-- Whatever a walk does leaves bases numbered. -/
theorem invariant {law : NodeLaw} {meets : Registry → Schema → Prop} :
    Registry.Invariant options law Numbered meets :=
  .of_amended amended (fun numbered _ declares => numbered.register declares.isAbstractBase)
    fun numbered _ _ => numbered.slot

end Numbered

/-- In every registry that a resolver reaches, bases are numbered. -/
theorem Reached.numbered (reached : registry.Reached options) : registry.Numbered :=
  (reached.holds (groundedCondition fun _ holds => holds.1.knowsBases)
    (Sound.invariant.and Numbered.invariant) ⟨.empty, .empty⟩).2

/-- In every registry that a resolver reaches, the bases for which a name is wanted have that name
and then the same with the numbers from two on, in the order in which they were made. The search for
a name always ends, at the first one that belongs to no base. Each base is the one remembered for
its owner and its slot, and no two bases have these in common. -/
theorem Reached.family_numbered (reached : registry.Reached options) :
    (∀ name, (registry.family name).map AbstractBase.name =
        (List.range (registry.family name).length).map (counted name) ∧
      ((registry.family name).map AbstractBase.name).Nodup) ∧
    (∀ name, ∃ index, registry.freeBaseName name = counted name index ∧
      registry.holdsBase (counted name index) = false ∧
      ∀ earlier < index, registry.holdsBase (counted name earlier) = true) ∧
    (∀ handle other body otherBody, registry.get? handle = some (.abstractBase body) →
      registry.get? other = some (.abstractBase otherBody) →
      body.owner = otherBody.owner → body.slot = otherBody.slot → handle = other) ∧
    ∀ handle body, registry.get? handle = some (.abstractBase body) →
      registry.baseOf? body.owner body.slot = some handle := by
  have numbered := reached.numbered
  refine ⟨fun name => ⟨numbered.named name, ?_⟩, registry.freeBaseName_eq_counted,
    fun handle other body otherBody found otherFound sameOwner sameSlot => ?_, numbered.remembered⟩
  · rw [numbered.named]
    exact List.nodup_range.map fun _ _ => counted_inj
  · have known := numbered.remembered handle body found
    rw [sameOwner, sameSlot, numbered.remembered other otherBody otherFound] at known
    exact (Option.some.inj known).symm

/-- Calls that want bases of one name: two for slots of a record that is refused for another field,
one for a slot of another record, and one that is refused since a declaration has the next name. -/
def crowding : List (Json × Option String) :=
  let record (name : String) (fields : List Json) : Json :=
    .object [("type", .string "record"), ("name", .string name), ("fields", .array fields)]
  let field (name : String) (type : Json) : Json :=
    .object [("name", .string name), ("type", type)]
  let both := Json.array [.string "B", .string "A"]
  [(record "R" [field "b_c" (.array [record "A" [], record "B" []]), field "bC" both,
      field "x" (.string "Missing")], some "n"),
    (record "RB" [field "c" both], some "n"),
    (record "RBCBase4" [], some "n"),
    (record "r" [field "b-c" both], some "n"),
    (record "S" [field "d" both], some "n")]

/-- What a resolver has registered after them. -/
def crowded : Registry :=
  ((Resolver.new {}).run crowding).registry

/-- Three bases have been numbered; the number of the declaration belongs to none of them. -/
theorem family_numbered_crowded :
    crowded.Reached {} ∧
      crowded.names = ["n.R", "n.A", "n.B", "n.RBCBase", "n.RBCBase2", "n.RB", "n.RBCBase3",
        "n.RBCBase4", "n.r", "n.S", "n.SDBase"] ∧
      (crowded.family ⟨"RBCBase", some "n"⟩).map (·.name.full) =
        ["n.RBCBase", "n.RBCBase2", "n.RBCBase3"] ∧
      (∀ name, (crowded.family name).map AbstractBase.name =
          (List.range (crowded.family name).length).map (counted name) ∧
        ((crowded.family name).map AbstractBase.name).Nodup) ∧
      (∀ name, ∃ index, crowded.freeBaseName name = counted name index ∧
        crowded.holdsBase (counted name index) = false ∧
        ∀ earlier < index, crowded.holdsBase (counted name earlier) = true) ∧
      (∀ handle other body otherBody, crowded.get? handle = some (.abstractBase body) →
        crowded.get? other = some (.abstractBase otherBody) →
        body.owner = otherBody.owner → body.slot = otherBody.slot → handle = other) ∧
      ∀ handle body, crowded.get? handle = some (.abstractBase body) →
        crowded.baseOf? body.owner body.slot = some handle := by
  have reached : crowded.Reached {} := Reached.empty.run crowding
  exact ⟨reached, by decide +kernel, by decide +kernel, Reached.family_numbered reached⟩

end Registry

end AvroGraph
