import AvroGraph.Proofs.DistinctKeys
import AvroGraph.Proofs.SameNodes

/-!
# Values with members in another order

`Json.Reordered` relates two values that differ in the order of members alone, at any depth. Only
the messages of a protocol keep their order, and which object holds them depends on what stands
around it (`Role`). If keys are distinct, such values are the same (`Json.Reordered.same`), and the
members of such objects are read alike (`Members.Reordered`).
-/

namespace AvroGraph

/-! ## What values stand for -/

/-- What a value stands for in a document, as far as the order of members may count. -/
inductive Role where
  /-- No schema and no part of one: defaults, extension properties and the like. -/
  | data
  | schema
  | schemas
  | field
  | fields
  | message
  /-- The messages of a protocol, by their names. -/
  | messages
  deriving DecidableEq

namespace Role

/-- The role of the items of an array. An array in the place of a schema is a union. -/
def item : Role → Role
  | .schema | .schemas => .schema
  | .fields => .field
  | _ => .data

/-- The members of a schema object that hold schemas, fields or messages. -/
def partsOfSchema (members : Members) : List (String × Role) :=
  match members.get? "type" with
  | none => if members.has "protocol" then [("types", .schemas), ("messages", .messages)] else []
  | some (.string "record") | some (.string "error") => [("fields", .fields)]
  | some (.string "enum") | some (.string "fixed") => []
  | some (.string "array") => [("items", .schema)]
  | some (.string "map") => [("values", .schema)]
  | some _ => [("type", .schema)]

/-- The role of the value at a key of an object; what is not listed is data. -/
def atKey (role : Role) (members : Members) (key : String) : Role :=
  match role with
  | .schema => ((partsOfSchema members).lookup key).getD .data
  | .field => (([("type", Role.schema)].lookup key)).getD .data
  | .message =>
    ([("request", Role.fields), ("response", .schema), ("errors", .schemas)].lookup key).getD .data
  | .messages => .message
  | _ => .data

end Role

/-- The same value but for the order of members: at any depth, the members of an object may be
permuted, except for the messages of a protocol. -/
inductive Json.Reordered : Role → Json → Json → Prop where
  | null (role : Role) : Reordered role .null .null
  | bool (role : Role) (value : Bool) : Reordered role (.bool value) (.bool value)
  | number (role : Role) (value : Number) : Reordered role (.number value) (.number value)
  | string (role : Role) (text : String) : Reordered role (.string text) (.string text)
  | array {role : Role} {lefts rights : List Json} (length : lefts.length = rights.length)
      (items : ∀ index (left : index < lefts.length) (right : index < rights.length),
        Reordered role.item lefts[index] rights[index]) :
      Reordered role (.array lefts) (.array rights)
  | object {role : Role} {members permuted others : Members} (perm : members.Perm permuted)
      (order : role = .messages → permuted = members)
      (keys : permuted.map Prod.fst = others.map Prod.fst)
      (values : ∀ index (left : index < permuted.length) (right : index < others.length),
        Reordered (role.atKey members permuted[index].1) permuted[index].2 others[index].2) :
      Reordered role (.object members) (.object others)

namespace Json.Reordered

variable {role : Role} {left right : Json}

/-- Arrays are reordered if their items are, one by one. -/
theorem array_of_forall₂ {lefts rights : List Json}
    (items : List.Forall₂ (Reordered role.item) lefts rights) :
    Reordered role (.array lefts) (.array rights) :=
  .array items.length_eq fun _ left right => items.get left right

/-- Objects are reordered if their members are permuted and the values reordered at each key.
Messages stay in order. -/
theorem object_of_forall₂ {members permuted others : Members} (perm : members.Perm permuted)
    (order : role = .messages → permuted = members)
    (values : List.Forall₂ (fun left right => left.1 = right.1 ∧
      Reordered (role.atKey members left.1) left.2 right.2) permuted others) :
    Reordered role (.object members) (.object others) :=
  .object perm order (map_eq_of_forall₂ (fun _ _ pair => pair.1) values)
    fun _ left right => (values.get left right).2

/-- Strings are the same when reordered. -/
theorem string?_eq (reordered : Reordered role left right) : left.string? = right.string? := by
  cases reordered <;> rfl

/-- Numbers are the same when reordered. -/
theorem nat?_eq (reordered : Reordered role left right) : left.nat? = right.nat? := by
  cases reordered <;> rfl

/-- Items of arrays are reordered one by one. -/
theorem array?_rel (reordered : Reordered role left right) :
    Option.Rel (List.Forall₂ (Reordered role.item)) left.array? right.array? := by
  cases reordered with
  | array length items => exact .some (List.forall₂_iff_get.2 ⟨length, items⟩)
  | _ => exact .none

/-- Items that are strings are the same strings. -/
theorem strings_eq {lefts rights : List Json} (items : List.Forall₂ (Reordered role) lefts rights) :
    lefts.mapM string? = rights.mapM string? :=
  mapM_eq_of_forall₂ (fun _ _ item => string?_eq item) items

end Json.Reordered

/-! ## Sameness -/

/-- A number is the same as itself. -/
theorem Number.same_self (value : Number) : value.same value = true := by
  cases value <;> simp [Number.same, Binary64.same]

/-- Items of arrays are the same one by one. -/
theorem Json.sameItems_iff {lefts rights : List Json} :
    sameItems lefts rights = true ↔ List.Forall₂ (fun left right => left.same right = true) lefts rights := by
  induction lefts generalizing rights with
  | nil => cases rights <;> simp [sameItems]
  | cons left rest ih => cases rights <;> simp [sameItems, ih]

/-- Members of objects are the same if every value is the same as the one at its key. -/
theorem Json.sameMembers_iff {members others : Members} :
    sameMembers members others = true ↔
      ∀ key value, (key, value) ∈ members →
        ∃ other, others.get? key = some other ∧ value.same other = true := by
  induction members with
  | nil => simp [sameMembers]
  | cons member rest ih =>
    obtain ⟨key, value⟩ := member
    rw [sameMembers, Bool.and_eq_true, ih]
    constructor
    · rintro ⟨first, later⟩ name found member
      obtain ⟨⟩ | ⟨_, member⟩ := member
      · split at first
        · next other isOther => exact ⟨other, isOther, first⟩
        · cases first
      · exact later name found member
    · intro all
      obtain ⟨other, isOther, same⟩ := all key value List.mem_cons_self
      refine ⟨?_, fun name found member => all name found (List.mem_cons_of_mem _ member)⟩
      rw [isOther]
      exact same

namespace Members

variable {members others : Members}

/-- Among members of distinct keys, the order does not matter to what stands at a key. -/
theorem get?_of_perm (perm : members.Perm others) (distinct : members.DistinctKeys) (key : String) :
    members.get? key = others.get? key := by
  refine Option.ext fun value => ?_
  rw [← mem_iff_get? distinct, ← mem_iff_get? ((perm.map Prod.fst).nodup_iff.1 distinct),
    perm.mem_iff]

/-- Members with the same keys in the same order are related one by one if their values are. -/
theorem forall₂_of_keys (related : String → Json → Json → Prop)
    (keys : members.map Prod.fst = others.map Prod.fst)
    (values : ∀ index (left : index < members.length) (right : index < others.length),
      related members[index].1 members[index].2 others[index].2) :
    List.Forall₂ (fun left right => left.1 = right.1 ∧ related left.1 left.2 right.2) members
      others := by
  have length : members.length = others.length := by simpa using congrArg List.length keys
  refine List.forall₂_iff_get.2 ⟨length, fun index left right => ⟨?_, values index left right⟩⟩
  have key := List.getElem_of_eq keys (by simpa using left)
  rwa [List.getElem_map, List.getElem_map] at key

/-- Then the values at each key are related. -/
theorem get?_rel (related : String → Json → Json → Prop)
    (pairs : List.Forall₂ (fun left right => left.1 = right.1 ∧ related left.1 left.2 right.2)
      members others) (key : String) :
    Option.Rel (related key) (members.get? key) (others.get? key) := by
  induction pairs with
  | nil => exact .none
  | @cons left right _ _ head _ ih =>
    obtain ⟨name, value⟩ := left
    obtain ⟨_, other⟩ := right
    obtain ⟨rfl, pair⟩ := head
    rw [get?_cons, get?_cons]
    split
    · next same => exact .some (same ▸ pair)
    · exact ih

/-- The values at each key are related if the members are permuted and then related one by one, and
their keys are distinct. -/
theorem get?_rel_of_perm (related : String → Json → Json → Prop) {permuted : Members}
    (perm : members.Perm permuted) (distinct : members.DistinctKeys)
    (keys : permuted.map Prod.fst = others.map Prod.fst)
    (values : ∀ index (left : index < permuted.length) (right : index < others.length),
      related permuted[index].1 permuted[index].2 others[index].2) (key : String) :
    Option.Rel (related key) (members.get? key) (others.get? key) := by
  rw [get?_of_perm perm distinct]
  exact get?_rel related (forall₂_of_keys related keys values) key

/-- What is left of objects without some keys is the same, if the values at the others are. -/
theorem sameObject_without (keys : (members.map Prod.fst).Perm (others.map Prod.fst))
    (distinct : members.DistinctKeys)
    (values : ∀ key, Option.Rel (fun left right => left.same right = true) (members.get? key)
      (others.get? key)) (reserved : List String) :
    Json.sameObject (members.without reserved) (others.without reserved) = true := by
  rw [Json.sameObject, Bool.and_eq_true, decide_eq_true_eq, Json.sameMembers_iff]
  constructor
  · have kept := (keys.filter fun key => !reserved.contains key).length_eq
    simpa only [without, List.filter_map, List.length_map, Function.comp_def] using kept
  · intro key value member
    have tidy := tidy_without reserved distinct
    have unreserved : key ∉ reserved := tidy.unreserved _ member
    have found : members.get? key = some value := by
      have found := get?_of_mem tidy.distinct member
      rwa [get?_without, if_neg unreserved] at found
    have value := values key
    rw [get?_without, if_neg unreserved]
    rw [found] at value
    generalize others.get? key = other at value ⊢
    cases value with
    | some same => exact ⟨_, rfl, same⟩

end Members

/-- Values that differ in the order of members alone are the same, if keys are distinct. -/
theorem Json.Reordered.same {role : Role} {left right : Json} (reordered : Reordered role left right)
    (distinct : left.EveryObject Members.DistinctKeys) : left.same right = true := by
  induction reordered with
  | null => rfl
  | bool | string => exact decide_eq_true rfl
  | number role value => exact value.same_self
  | array length items ih =>
    rw [Json.same, sameItems_iff, List.forall₂_iff_get]
    refine ⟨length, fun index left right => ih index left right ?_⟩
    exact EveryObjectOfItems.item distinct (List.getElem_mem left)
  | @object role members permuted others perm order keys values ih =>
    have values := Members.get?_rel_of_perm (fun _ left right => left.same right = true) perm
      distinct.1 keys fun index left right => ih index left right
        (EveryObjectOfMembers.member distinct.2 (perm.mem_iff.2 (List.getElem_mem left)))
    have whole := Members.sameObject_without (keys ▸ perm.map Prod.fst) distinct.1 values []
    rwa [Members.without_eq_self fun _ _ => List.not_mem_nil,
      Members.without_eq_self fun _ _ => List.not_mem_nil] at whole

/-! ## Members -/

/-- Two objects with the same members but for their order, and the order of members inside. -/
structure Members.Reordered (roles : String → Role) (members others : Members) : Prop where
  keys : (members.map Prod.fst).Perm (others.map Prod.fst)
  distinct : members.DistinctKeys
  values : ∀ key, Option.Rel
    (fun left right => Json.Reordered (roles key) left right ∧ left.same right = true)
    (members.get? key) (others.get? key)

namespace Members.Reordered

variable {roles : String → Role} {members others : Members}
  (reordered : Members.Reordered roles members others)

include reordered

/-- At each key there are values that are reordered, or there is none on either side. -/
theorem get?_cases (key : String) :
    (members.get? key = none ∧ others.get? key = none) ∨
      ∃ left right, members.get? key = some left ∧ others.get? key = some right ∧
        Json.Reordered (roles key) left right ∧ left.same right = true := by
  have pair := reordered.values key
  generalize members.get? key = left at pair ⊢
  generalize others.get? key = right at pair ⊢
  cases pair with
  | none => exact .inl ⟨rfl, rfl⟩
  | some pair => exact .inr ⟨_, _, rfl, rfl, pair⟩

/-- A key is missing on both sides or on neither. -/
theorem get?_eq_none {key : String} : members.get? key = none ↔ others.get? key = none := by
  rw [Members.get?_eq_none, Members.get?_eq_none, reordered.keys.mem_iff]

/-- What is found at a key is found reordered on the other side. -/
theorem reordered_of_get? {key : String} {left : Json} (found : members.get? key = some left) :
    ∃ right, others.get? key = some right ∧ Json.Reordered (roles key) left right := by
  obtain ⟨absent, -⟩ | ⟨_, right, isLeft, isOther, value, -⟩ := reordered.get?_cases key
  · rw [absent] at found
    cases found
  · rw [isLeft] at found
    cases found
    exact ⟨right, isOther, value⟩

/-- A key is there on both sides or on neither. -/
theorem has_eq (key : String) : members.has key = others.has key := by
  obtain ⟨absent, neither⟩ | ⟨left, right, found, isOther, -⟩ := reordered.get?_cases key
  · rw [has, has, absent, neither]
  · rw [has, has, found, isOther]
    rfl

/-- What agrees on values that differ in order alone agrees on the values at a key. -/
theorem bind_eq {β : Type} {f : Json → Option β} {key : String}
    (same : ∀ left right, Json.Reordered (roles key) left right → f left = f right) :
    (members.get? key).bind f = (others.get? key).bind f := by
  obtain ⟨absent, neither⟩ | ⟨left, right, found, isOther, value, -⟩ := reordered.get?_cases key
  · rw [absent, neither]
  · rw [found, isOther]
    exact same left right value

/-- The same string is found at a key. -/
theorem string?_eq (key : String) :
    (members.get? key).bind Json.string? = (others.get? key).bind Json.string? :=
  reordered.bind_eq fun _ _ value => value.string?_eq

/-- The same number is found at a key. -/
theorem nat?_eq (key : String) :
    (members.get? key).bind Json.nat? = (others.get? key).bind Json.nat? :=
  reordered.bind_eq fun _ _ value => value.nat?_eq

/-- A keyword stands at a key of both objects. -/
theorem get?_string {key text : String} :
    members.get? key = some (.string text) ↔ others.get? key = some (.string text) := by
  obtain ⟨absent, neither⟩ | ⟨left, right, found, isOther, value, -⟩ := reordered.get?_cases key
  · rw [absent, neither]
  · rw [found, isOther]
    cases value <;> simp

/-- Items of the array at a key are reordered one by one. -/
theorem array?_rel (key : String) :
    Option.Rel (List.Forall₂ (Json.Reordered (roles key).item)) (members.array? key)
      (others.array? key) := by
  obtain ⟨absent, neither⟩ | ⟨left, right, found, isOther, value, -⟩ := reordered.get?_cases key
  · rw [array?, array?, absent, neither]
    exact .none
  · rw [array?, array?, found, isOther]
    exact value.array?_rel

/-- An optional string is read alike. -/
theorem optionalString_eq (key : String) : members.optionalString key = others.optionalString key := by
  obtain ⟨absent, neither⟩ | ⟨left, right, found, isOther, value, -⟩ := reordered.get?_cases key
  · rw [optionalString, optionalString, absent, neither]
  · rw [optionalString, optionalString, found, isOther]
    cases value <;> rfl

/-- A list of strings is read alike. -/
theorem stringList_eq (key : String) : members.stringList key = others.stringList key := by
  obtain ⟨absent, neither⟩ | ⟨left, right, found, isOther, value, -⟩ := reordered.get?_cases key
  · rw [stringList, stringList, absent, neither]
  · rw [stringList, stringList, found, isOther]
    cases value with
    | array length items =>
      have texts := Json.Reordered.strings_eq (List.forall₂_iff_get.2 ⟨length, items⟩)
      simp only [texts]
    | _ => rfl

/-- Extension properties are the same. -/
theorem without (reserved : List String) :
    Json.sameObject (members.without reserved) (others.without reserved) = true :=
  sameObject_without reordered.keys reordered.distinct
    (fun key => by
      obtain ⟨absent, neither⟩ | ⟨left, right, found, isOther, -, same⟩ := reordered.get?_cases key
      · rw [absent, neither]
        exact .none
      · rw [found, isOther]
        exact .some same) reserved

/-! ## Details -/

/-- Details are the same, or refused on both sides. -/
theorem details : Tally Details.Same (Details.ofMembers members) (Details.ofMembers others) := by
  rw [Details.ofMembers, Details.ofMembers, reordered.optionalString_eq, reordered.stringList_eq]
  refine .bind (.refl Eq.refl _) ?_
  rintro doc _ rfl
  refine .bind (.refl Eq.refl _) ?_
  rintro aliases _ rfl
  exact .ok ⟨rfl, rfl, reordered.without _⟩

/-- Details without aliases are the same, or refused on both sides. -/
theorem withoutAliases (reserved : List String) :
    Tally Details.Same (Details.withoutAliases reserved members)
      (Details.withoutAliases reserved others) := by
  rw [Details.withoutAliases, Details.withoutAliases, reordered.optionalString_eq]
  refine .bind (.refl Eq.refl _) ?_
  rintro doc _ rfl
  exact .ok ⟨rfl, rfl, reordered.without _⟩

/-- The details of a field are the same, or refused on both sides. -/
theorem fieldDetails :
    Tally FieldDetails.Same (FieldDetails.ofMembers members) (FieldDetails.ofMembers others) := by
  have rest (order : Option FieldOrder) : Tally FieldDetails.Same
      (do
        let doc ← members.optionalString "doc"
        let aliases ← members.stringList "aliases"
        return { order, doc, aliases, properties := members.without reserved })
      (do
        let doc ← others.optionalString "doc"
        let aliases ← others.stringList "aliases"
        return { order, doc, aliases, properties := others.without reserved }) := by
    rw [reordered.optionalString_eq, reordered.stringList_eq]
    refine .bind (.refl Eq.refl _) ?_
    rintro doc _ rfl
    refine .bind (.refl Eq.refl _) ?_
    rintro aliases _ rfl
    exact .ok ⟨rfl, rfl, rfl, reordered.without _⟩
  rw [FieldDetails.ofMembers, FieldDetails.ofMembers]
  obtain ⟨absent, neither⟩ | ⟨left, right, found, isOther, value, -⟩ := reordered.get?_cases "order"
  · rw [absent, neither]
    exact rest none
  · simp only [found, isOther, value.string?_eq]
    cases right.string?.bind FieldOrder.ofKeyword? with
    | some order => exact rest (some order)
    | none => exact .error _ _

/-- Headings are the same, or refused on both sides. -/
theorem heading {key : String} {missing : Reason} {details twin : Except Reason Details}
    (said : Tally Details.Same details twin) :
    Tally Heading.Same (Heading.ofMembers members key missing details)
      (Heading.ofMembers others key missing twin) := by
  rw [Heading.ofMembers, Heading.ofMembers, reordered.string?_eq]
  split
  · rw [reordered.optionalString_eq]
    refine .bind (.refl Eq.refl _) ?_
    rintro space _ rfl
    exact .ok ⟨rfl, rfl, said⟩
  · exact .error _ _

/-- Logical types are read alike. -/
theorem read_eq (name : String) : LogicalType.read name members = LogicalType.read name others := by
  have decimal : LogicalType.readDecimal members = LogicalType.readDecimal others := by
    rw [LogicalType.readDecimal, LogicalType.readDecimal, reordered.nat?_eq]
    obtain ⟨absent, neither⟩ | ⟨left, right, found, isOther, value, -⟩ :=
      reordered.get?_cases "scale"
    · simp only [absent, neither]
    · simp only [found, isOther, value.nat?_eq]
  rw [LogicalType.read, LogicalType.read, decimal]

end Members.Reordered

end AvroGraph
