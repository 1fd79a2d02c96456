import AvroGraph.Node.OfJson
import Mathlib.Data.List.Nodup

/-!
# Laws of members

How `append`, `extend` and `without` act on the members of an object. Members of distinct keys that
agree with what is there are appended as far as they are new (`Members.extend_eq`), and the
extension properties of an object are read back from the members they are written among
(`Members.Tidy.without_extend`). Objects that differ at some keys alone are read alike wherever
those keys do not count (`Members.SameBesides`).
-/

namespace AvroGraph

namespace Members

variable {members additions : Members} {key : String} {value : Json}

/-- What stands first at a key is found. -/
theorem get?_append (first second : Members) (key : String) :
    Members.get? (first ++ second) key = (first.get? key).or (second.get? key) := by
  induction first with
  | nil => rfl
  | cons member rest ih =>
    obtain ⟨name, value⟩ := member
    rw [List.cons_append, get?_cons, get?_cons, ih]
    split <;> rfl

/-- Nothing is found at a key where nothing stands. -/
theorem get?_eq_none : members.get? key = none ↔ key ∉ members.map Prod.fst := by
  induction members with
  | nil => simp
  | cons member rest ih =>
    obtain ⟨name, value⟩ := member
    rw [get?_cons, List.map_cons, List.mem_cons, not_or, ← ih]
    by_cases same : name = key
    · simp [same]
    · simp [same, Ne.symm same]

/-- What is found at a key stands there. -/
theorem mem_of_get? (found : members.get? key = some value) : (key, value) ∈ members := by
  induction members with
  | nil => cases found
  | cons member rest ih =>
    obtain ⟨name, old⟩ := member
    rw [get?_cons] at found
    split at found
    · next same =>
      cases found
      rw [same]
      exact List.mem_cons_self
    · exact List.mem_cons_of_mem _ (ih found)

/-- Among members of distinct keys, each is found under its key. -/
theorem get?_of_mem (distinct : (members.map Prod.fst).Nodup) (member : (key, value) ∈ members) :
    members.get? key = some value := by
  induction members with
  | nil => cases member
  | cons head rest ih =>
    obtain ⟨name, old⟩ := head
    rw [List.map_cons, List.nodup_cons] at distinct
    rw [get?_cons]
    rcases List.mem_cons.1 member with same | later
    · cases same
      rw [if_pos rfl]
    · have different : name ≠ key := by
        intro same
        exact distinct.1 (List.mem_map.2 ⟨_, later, same.symm⟩)
      rw [if_neg different]
      exact ih distinct.2 later

/-- Giving a key the value it has changes nothing. -/
theorem insert_of_get?_eq_some (found : members.get? key = some value) :
    members.insert key value = members := by
  induction members with
  | nil => cases found
  | cons member rest ih =>
    obtain ⟨name, old⟩ := member
    rw [get?_cons] at found
    rw [insert]
    split at found
    · next same =>
      cases found
      rw [if_pos same, same]
    · next different => rw [if_neg different, ih found]

/-- A new key goes to the end. -/
theorem insert_of_get?_eq_none (absent : members.get? key = none) :
    members.insert key value = members ++ [(key, value)] := by
  induction members with
  | nil => rfl
  | cons member rest ih =>
    obtain ⟨name, old⟩ := member
    rw [get?_cons] at absent
    split at absent
    · cases absent
    · next different => rw [insert, if_neg different, ih absent, List.cons_append]

/-- Members at other keys leave the value at a key alone. -/
theorem get?_extend_of_clear (clear : ∀ addition ∈ additions, addition.1 ≠ key) :
    (members.extend additions).get? key = members.get? key := by
  induction additions generalizing members with
  | nil => rfl
  | cons addition rest ih =>
    rw [List.forall_mem_cons] at clear
    exact (ih clear.2).trans ((get?_insert ..).trans (if_neg clear.1))

/-- What members add to others that they agree with: those of new keys, behind. -/
theorem extend_eq (distinct : (additions.map Prod.fst).Nodup)
    (agree : ∀ key value, (key, value) ∈ additions →
      members.get? key = none ∨ members.get? key = some value) :
    members.extend additions =
      members ++ additions.filter fun addition => (members.get? addition.1).isNone := by
  induction additions generalizing members with
  | nil => simp [extend]
  | cons addition rest ih =>
    obtain ⟨name, new⟩ := addition
    rw [List.map_cons, List.nodup_cons] at distinct
    have inserted : members.extend ((name, new) :: rest) = (members.insert name new).extend rest :=
      rfl
    have elsewhere (key : String) (value : Json) (member : (key, value) ∈ rest) : name ≠ key := by
      intro same
      exact distinct.1 (List.mem_map.2 ⟨_, member, same.symm⟩)
    have agreeRest : ∀ key value, (key, value) ∈ rest →
        (members.insert name new).get? key = none ∨
          (members.insert name new).get? key = some value := by
      intro key value member
      rw [get?_insert, if_neg (elsewhere key value member)]
      exact agree key value (List.mem_cons_of_mem _ member)
    have sameFilter : (rest.filter fun addition =>
        ((members.insert name new).get? addition.1).isNone) =
          rest.filter fun addition => (members.get? addition.1).isNone := by
      refine List.filter_congr fun addition member => ?_
      rw [get?_insert, if_neg (elsewhere addition.1 addition.2 member)]
    rw [inserted, ih distinct.2 agreeRest, sameFilter, List.filter_cons]
    rcases agree name new List.mem_cons_self with absent | present
    · rw [insert_of_get?_eq_none absent]
      simp [absent]
    · rw [insert_of_get?_eq_some present]
      simp [present]

/-- Members of distinct keys that nothing stands before stay as they are. -/
theorem extend_nil (distinct : (members.map Prod.fst).Nodup) :
    Members.extend [] members = members := by
  rw [extend_eq distinct fun key _ _ => .inl (get?_nil key), List.nil_append, List.filter_eq_self]
  exact fun _ _ => rfl

/-- Keys are left out of each part. -/
theorem without_append (first second : Members) (keys : List String) :
    Members.without (first ++ second) keys = first.without keys ++ second.without keys :=
  List.filter_append ..

/-- Nothing is left when all keys are left out. -/
theorem without_eq_nil {keys : List String} (all : ∀ member ∈ members, member.1 ∈ keys) :
    members.without keys = [] := by
  rw [without, List.filter_eq_nil_iff]
  intro member isMember
  simpa using all member isMember

/-- Everything is left when none of the keys is there. -/
theorem without_eq_self {keys : List String} (none : ∀ member ∈ members, member.1 ∉ keys) :
    members.without keys = members := by
  rw [without, List.filter_eq_self]
  intro member isMember
  simpa using none member isMember

/-- Among members of distinct keys, to be there is to be found. -/
theorem mem_iff_get? (distinct : (members.map Prod.fst).Nodup) :
    (key, value) ∈ members ↔ members.get? key = some value :=
  ⟨get?_of_mem distinct, mem_of_get?⟩

/-- Extension properties: their keys are distinct, and none of them has a meaning of its own. -/
structure Tidy (reserved : List String) (properties : Members) : Prop where
  distinct : (properties.map Prod.fst).Nodup
  unreserved : ∀ member ∈ properties, member.1 ∉ reserved

/-- What is left of the members of an object without the keys that have a meaning. -/
theorem tidy_without (reserved : List String) (distinct : (members.map Prod.fst).Nodup) :
    (members.without reserved).Tidy reserved where
  distinct := distinct.sublist (List.filter_sublist.map _)
  unreserved member isMember := by simpa using (List.mem_filter.1 isMember).2

namespace Tidy

variable {reserved : List String} {properties written : Members}

/-- There is nothing tidy at a reserved key. -/
theorem get?_eq_none (tidy : properties.Tidy reserved) (isReserved : key ∈ reserved) :
    properties.get? key = none := by
  rw [Members.get?_eq_none]
  intro member
  obtain ⟨property, isProperty, rfl⟩ := List.mem_map.1 member
  exact tidy.unreserved property isProperty isReserved

/-- Properties go behind members whose keys all have a meaning. -/
theorem extend_eq_append (tidy : properties.Tidy reserved)
    (all : ∀ member ∈ written, member.1 ∈ reserved) :
    written.extend properties = written ++ properties := by
  have absent : ∀ member ∈ properties, written.get? member.1 = none := by
    intro member isMember
    rw [Members.get?_eq_none]
    intro present
    obtain ⟨other, isOther, same⟩ := List.mem_map.1 present
    exact tidy.unreserved member isMember (same ▸ all other isOther)
  rw [extend_eq tidy.distinct fun key value member => .inl (absent (key, value) member)]
  congr 1
  rw [List.filter_eq_self]
  intro member isMember
  simp [absent member isMember]

/-- Properties do not get in the way of members whose keys have a meaning. -/
theorem get?_extend (tidy : properties.Tidy reserved)
    (all : ∀ member ∈ written, member.1 ∈ reserved) (isReserved : key ∈ reserved) :
    (written.extend properties).get? key = written.get? key := by
  rw [tidy.extend_eq_append all, get?_append, tidy.get?_eq_none isReserved, Option.or_none]

/-- Members whose keys have a meaning do not get in the way of properties. -/
theorem get?_extend_of_notMem (tidy : properties.Tidy reserved)
    (all : ∀ member ∈ written, member.1 ∈ reserved) (isProperty : key ∉ reserved) :
    (written.extend properties).get? key = properties.get? key := by
  have absent : written.get? key = none := by
    rw [Members.get?_eq_none]
    intro isWritten
    obtain ⟨member, isMember, rfl⟩ := List.mem_map.1 isWritten
    exact isProperty (all member isMember)
  rw [tidy.extend_eq_append all, get?_append, absent, Option.none_or]

/-- Properties are what is left of the members they are written among. -/
theorem without_extend (tidy : properties.Tidy reserved)
    (all : ∀ member ∈ written, member.1 ∈ reserved) :
    (written.extend properties).without reserved = properties := by
  rw [tidy.extend_eq_append all, without_append, without_eq_nil all,
    without_eq_self tidy.unreserved, List.nil_append]

end Tidy

/-! ## Members put first -/

/-- Members with some of them put first. -/
def promote (members first : Members) : Members :=
  first ++ members.without (first.map Prod.fst)

/-- To put members first leaves keys distinct. -/
theorem nodup_promote {first : Members} (distinctFirst : (first.map Prod.fst).Nodup)
    (distinct : (members.map Prod.fst).Nodup) : ((members.promote first).map Prod.fst).Nodup := by
  rw [promote, List.map_append]
  refine List.Nodup.append distinctFirst (distinct.sublist (List.filter_sublist.map _)) ?_
  intro key isFirst later
  obtain ⟨member, isMember, rfl⟩ := List.mem_map.1 later
  exact absurd isFirst (by simpa using (List.mem_filter.1 isMember).2)

section

variable {first : Members} (present : ∀ member ∈ first, members.get? member.1 = some member.2)
include present

/-- To put members first leaves alone what is found at a key. -/
theorem get?_promote (key : String) : (members.promote first).get? key = members.get? key := by
  rw [promote, get?_append, get?_without]
  cases found : first.get? key with
  | some value =>
    rw [Option.some_or]
    exact (present (key, value) (mem_of_get? found)).symm
  | none => rw [if_neg (get?_eq_none.1 found), Option.none_or]

/-- Putting members first changes their order alone. -/
theorem perm_promote (distinctFirst : (first.map Prod.fst).Nodup)
    (distinct : (members.map Prod.fst).Nodup) : (members.promote first).Perm members := by
  have promoted := nodup_promote distinctFirst distinct
  rw [List.perm_ext_iff_of_nodup promoted.of_map distinct.of_map]
  rintro ⟨key, value⟩
  rw [mem_iff_get? promoted, mem_iff_get? distinct, get?_promote present]

/-- To put members first leaves them tidy. -/
theorem tidy_promote {reserved : List String} (distinctFirst : (first.map Prod.fst).Nodup)
    (tidy : members.Tidy reserved) : (members.promote first).Tidy reserved where
  distinct := nodup_promote distinctFirst tidy.distinct
  unreserved member isMember :=
    tidy.unreserved member ((perm_promote present distinctFirst tidy.distinct).mem_iff.1 isMember)

end

/-- Members that stand first already stay where they are. -/
theorem promote_promote (members first : Members) :
    (members.promote first).promote first = members.promote first := by
  have nothing : first.without (first.map Prod.fst) = [] :=
    without_eq_nil fun member isMember => List.mem_map_of_mem isMember
  have again : (members.without (first.map Prod.fst)).without (first.map Prod.fst) =
      members.without (first.map Prod.fst) :=
    without_eq_self fun member isMember => by simpa using (List.mem_filter.1 isMember).2
  rw [promote, promote, without_append, nothing, again, List.nil_append]

/-- Properties that stand among the members before them already are not written twice. -/
theorem Tidy.extend_append {reserved : List String} {properties written first : Members}
    (tidy : properties.Tidy reserved) (all : ∀ member ∈ written, member.1 ∈ reserved)
    (present : ∀ member ∈ first, properties.get? member.1 = some member.2) :
    (written ++ first).extend properties = written ++ properties.promote first := by
  have absent (key : String) (value : Json) (member : (key, value) ∈ properties) :
      written.get? key = none := by
    rw [Members.get?_eq_none]
    intro isWritten
    obtain ⟨other, isOther, same⟩ := List.mem_map.1 isWritten
    exact tidy.unreserved _ member (same ▸ all other isOther)
  rw [extend_eq tidy.distinct, promote, List.append_assoc, without]
  · congr 2
    refine List.filter_congr fun member isMember => ?_
    rw [get?_append, absent member.1 member.2 isMember, Option.none_or]
    cases found : Members.get? first member.1 with
    | none => simpa using Members.get?_eq_none.1 found
    | some value => simpa using ⟨value, mem_of_get? found⟩
  · intro key value member
    rw [get?_append, absent key value member, Option.none_or]
    cases found : Members.get? first key with
    | none => exact .inl rfl
    | some other =>
      refine .inr ?_
      rw [← present (key, other) (mem_of_get? found)]
      exact get?_of_mem tidy.distinct member

/-- Two objects say the same besides what stands at some keys. -/
structure SameBesides (first : Members) (keys : List String) (second : Members) : Prop where
  get? : ∀ key, key ∉ keys → first.get? key = second.get? key
  without : ∀ reserved, keys ⊆ reserved → first.without reserved = second.without reserved

namespace SameBesides

variable {first second : Members} {keys reserved : List String}
  (same : first.SameBesides keys second)

include same

/-- Optional strings are read alike at other keys. -/
theorem optionalString (key : String) (other : key ∉ keys) :
    first.optionalString key = second.optionalString key := by
  rw [Members.optionalString, Members.optionalString, same.get? key other]

/-- Lists of strings are read alike at other keys. -/
theorem stringList (key : String) (other : key ∉ keys) :
    first.stringList key = second.stringList key := by
  rw [Members.stringList, Members.stringList, same.get? key other]

/-- Details are read alike if they do not stand at the keys in question. -/
theorem details (within : keys ⊆ Members.reserved) (doc : "doc" ∉ keys)
    (aliases : "aliases" ∉ keys) : Details.ofMembers first = Details.ofMembers second := by
  rw [Details.ofMembers, Details.ofMembers, same.optionalString _ doc, same.stringList _ aliases,
    same.without _ within]

/-- Details without aliases are read alike if they do not stand at the keys in question. -/
theorem withoutAliases (within : keys ⊆ reserved) (doc : "doc" ∉ keys) :
    Details.withoutAliases reserved first = Details.withoutAliases reserved second := by
  rw [Details.withoutAliases, Details.withoutAliases, same.optionalString _ doc,
    same.without _ within]

/-- The details of a field are read alike if they do not stand at the keys in question. -/
theorem fieldDetails (within : keys ⊆ Members.reserved) (order : "order" ∉ keys)
    (doc : "doc" ∉ keys) (aliases : "aliases" ∉ keys) :
    FieldDetails.ofMembers first = FieldDetails.ofMembers second := by
  rw [FieldDetails.ofMembers, FieldDetails.ofMembers, same.get? _ order, same.optionalString _ doc,
    same.stringList _ aliases, same.without _ within]

end SameBesides

end Members

end AvroGraph
