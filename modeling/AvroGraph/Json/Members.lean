import AvroGraph.Json

/-!
# Members of objects

An object is a list of members whose keys are distinct. `Members.get?` is the view of it:
`get?_insert` and `get?_without` say what the other operations do to the value at a key.
-/

namespace AvroGraph

/-- The members of an object, in order. -/
abbrev Members := List (String × Json)

namespace Members

/-- The value at a key. -/
def get? (members : Members) (key : String) : Option Json :=
  members.lookup key

/-- Whether a key has a value. -/
def has (members : Members) (key : String) : Bool :=
  (members.get? key).isSome

/-- Give a key a value: a key that is there keeps its place, a new one goes to the end. -/
def insert (members : Members) (key : String) (value : Json) : Members :=
  match members with
  | [] => [(key, value)]
  | (name, old) :: rest =>
    if name = key then (key, value) :: rest else (name, old) :: insert rest key value

/-- Insert members one after another. -/
def extend (members additions : Members) : Members :=
  additions.foldl (fun result member => result.insert member.1 member.2) members

/-- The members whose keys are not among the given ones. -/
def without (members : Members) (keys : List String) : Members :=
  members.filter fun member => !keys.contains member.1

/-- An empty object has no value at any key. -/
@[simp]
theorem get?_nil (key : String) : Members.get? [] key = none := rfl

/-- The first member at a key has the value there. -/
theorem get?_cons (name key : String) (value : Json) (rest : Members) :
    Members.get? ((name, value) :: rest) key =
      if name = key then some value else rest.get? key := by
  rw [get?, List.lookup_cons]
  by_cases equal : name = key
  · subst equal
    simp
  · have : (key == name) = false := by simpa using Ne.symm equal
    simp [equal, this, get?]

/-- After an insertion the key has the new value and every other key its old one. -/
theorem get?_insert (members : Members) (key other : String) (value : Json) :
    (members.insert key value).get? other =
      if key = other then some value else members.get? other := by
  induction members with
  | nil => simp [insert, get?_cons]
  | cons member rest inductionHypothesis =>
    obtain ⟨name, old⟩ := member
    rw [insert]
    split
    · next equal =>
      subst equal
      by_cases same : name = other <;> simp [get?_cons, same]
    · next different =>
      rw [get?_cons, get?_cons, inductionHypothesis]
      by_cases same : name = other
      · subst same
        simp [Ne.symm different]
      · simp [same]

/-- A key that is not left out keeps its value. -/
theorem get?_without (members : Members) (keys : List String) (key : String) :
    (members.without keys).get? key = if key ∈ keys then none else members.get? key := by
  induction members with
  | nil => simp [without]
  | cons member rest inductionHypothesis =>
    obtain ⟨name, value⟩ := member
    rw [without, List.filter_cons]
    by_cases dropped : name ∈ keys
    · by_cases same : name = key
      · subst same
        simpa [dropped, without] using inductionHypothesis
      · simpa [dropped, get?_cons, same, without] using inductionHypothesis
    · by_cases same : name = key
      · subst same
        simp [dropped, get?_cons]
      · simpa [dropped, get?_cons, same, without] using inductionHypothesis

end Members

end AvroGraph
