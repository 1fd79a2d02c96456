import AvroGraph.Json.Reader
import AvroGraph.Proofs.DistinctKeys

/-!
# Values that are read from text

A text may repeat a key in an object: the first place and the last value count. So the keys of every
object are distinct in a value that is read (`Json.distinctKeys_of_read`), as they are taken to be
wherever documents of distinct keys are spoken of. What the scanners read is shown by the recursion
that they run by.
-/

namespace AvroGraph

/-! ## Objects -/

/-- Keys stay distinct when a member is inserted, since it replaces the one at its key. -/
theorem Members.DistinctKeys.insert {members : Members} (distinct : members.DistinctKeys)
    (key : String) (value : Json) : (members.insert key value).DistinctKeys := by
  induction members with
  | nil => exact List.nodup_singleton key
  | cons member rest ih =>
    obtain ⟨name, old⟩ := member
    have ⟨fresh, others⟩ := List.nodup_cons.1 distinct
    rw [Members.insert]
    split
    · next same => exact same ▸ distinct
    · next different =>
      refine List.nodup_cons.2 ⟨?_, ih others⟩
      rw [← Members.get?_eq_none, get?_insert, if_neg (Ne.symm different)]
      exact Members.get?_eq_none.2 fresh

namespace Json

variable {condition : Members → Prop}

/-- A condition on every object inside each item is one on every object inside all of them. -/
theorem EveryObjectOfItems.of_forall {items : List Json}
    (every : ∀ item ∈ items, item.EveryObject condition) : EveryObjectOfItems condition items := by
  induction items with
  | nil => trivial
  | cons item rest ih =>
    have ⟨here, there⟩ := List.forall_mem_cons.1 every
    exact ⟨here, ih there⟩

/-- A condition on every object inside the members is kept when a value that meets it is inserted.
-/
theorem EveryObjectOfMembers.insert {members : Members} {value : Json}
    (every : EveryObjectOfMembers condition members) (key : String)
    (inside : value.EveryObject condition) :
    EveryObjectOfMembers condition (members.insert key value) := by
  induction members with
  | nil => exact ⟨inside, trivial⟩
  | cons member rest ih =>
    rw [Members.insert]
    split
    · exact ⟨inside, every.2⟩
    · exact ⟨every.1, ih every.2⟩

/-! ## Scanners -/

namespace Scan

variable {α β : Type} {input outer : List Char} {good : α → Prop}

/-- Whatever a scanner reads is good. -/
def Reads (good : α → Prop) (scan : Scan input α) : Prop :=
  ∀ value rest, scan = .ok (value, rest) → good value

/-- A failure reads nothing. -/
theorem reads_error (failure : Failure) : Reads good (.error failure : Scan input α) :=
  nofun

/-- What is made of a result is good if all that can be made of it is. -/
theorem reads_map {γ : Type} {result : Except Failure γ} {make : γ → α × Rest input}
    (all : ∀ found, result = .ok found → good (make found).1) : Reads good (result.map make) := by
  intro value rest read
  cases result with
  | error failure => cases read
  | ok found =>
    have isGood := all found rfl
    rwa [Except.ok.inj read] at isGood

/-- What is read within a shorter text is read within a longer one. -/
theorem Reads.within {scan : Scan input α} (reads : scan.Reads good)
    (le : input.length ≤ outer.length) : (scan.within le).Reads good :=
  reads_map fun found isFound => reads found.1 found.2 isFound

/-- What is made of whatever is read is good if all that can be made is. -/
theorem reads_as {make : β → α} (all : ∀ value, good (make value)) (scan : Scan input β) :
    (scan.as make).Reads good :=
  reads_map fun found _ => all found.1

end Scan

/-- A literal stands for its own value. -/
theorem literal_eq_ok {json : Json} {expected input : List Char}
    {found : Json × { rest : List Char // rest.length ≤ input.length }}
    (reads : literal json expected input = .ok found) : found.1 = json := by
  induction expected generalizing input with
  | nil =>
    cases reads
    rfl
  | cons letter letters ih =>
    cases input with
    | nil => cases reads
    | cons character behind =>
      rw [literal] at reads
      split at reads
      · cases result : literal json letters behind with
        | error failure => simp [result, Except.map] at reads
        | ok other =>
          rw [result] at reads
          cases reads
          exact (ih result :)
      · cases reads

/-! ## Values -/

mutual

/-- The objects in a value that is read have distinct keys. -/
theorem reads_value (levels : Nat) (input : List Char) :
    (value levels input).Reads (EveryObject Members.DistinctKeys) := by
  rw [value]
  split
  · exact Scan.reads_error _
  · next character rest equal =>
    have shorter := length_lt_of_skipBlanks equal
    dsimp only
    -- Only arrays and objects have objects inside; what is read of the other kinds does not matter.
    split
    · exact Scan.reads_map fun found isFound => literal_eq_ok isFound ▸ trivial
    split
    · exact Scan.reads_map fun found isFound => literal_eq_ok isFound ▸ trivial
    split
    · exact Scan.reads_map fun found isFound => literal_eq_ok isFound ▸ trivial
    split
    · exact (Scan.reads_as (fun _ => trivial) _).within _
    split
    · exact (Scan.reads_as (fun _ => trivial) _).within _
    split
    · exact (Scan.reads_as (fun _ => trivial) _).within _
    split
    · split
      · exact Scan.reads_error _
      · next levels =>
        split
        · exact Scan.reads_error _
        · intro json rest read
          cases read
          trivial
        · next first behind isRest isFirst =>
          have le : (first :: behind).length ≤ rest.length := isFirst ▸ length_skipBlanks_le rest
          exact (reads_items levels [] (first :: behind) nofun).within _
    split
    · split
      · exact Scan.reads_error _
      · next levels =>
        split
        · exact Scan.reads_error _
        · intro json rest read
          cases read
          exact ⟨List.nodup_nil, trivial⟩
        · next first behind isRest isFirst =>
          have le : (first :: behind).length ≤ rest.length := isFirst ▸ length_skipBlanks_le rest
          exact (reads_members levels [] (first :: behind) List.nodup_nil trivial).within _
    · exact Scan.reads_error _
termination_by (input.length, 0)
decreasing_by
  all_goals
    refine Prod.Lex.left _ _ ?_
    exact Nat.lt_of_le_of_lt le shorter

/-- The objects in the items of an array that is read have distinct keys. -/
theorem reads_items (levels : Nat) (done : List Json) (input : List Char)
    (inside : ∀ item ∈ done, item.EveryObject Members.DistinctKeys) :
    (items levels done input).Reads (EveryObject Members.DistinctKeys) := by
  rw [items]
  have first := reads_value levels input
  split
  · exact Scan.reads_error _
  · next item rest shorter isItem =>
    have each : ∀ other ∈ item :: done, other.EveryObject Members.DistinctKeys :=
      List.forall_mem_cons.2 ⟨first item _ isItem, inside⟩
    split
    · exact Scan.reads_error _
    · intro json rest read
      cases read
      exact EveryObjectOfItems.of_forall fun other member => each other (List.mem_reverse.1 member)
    · next behind equal =>
      split
      · exact Scan.reads_error _
      · exact Scan.reads_error _
      · next first further _ equalBehind =>
        have le : (first :: further).length < input.length :=
          Nat.lt_of_le_of_lt (equalBehind ▸ length_skipBlanks_le behind)
            (Nat.lt_trans (length_lt_of_skipBlanks equal) shorter)
        exact (reads_items levels (item :: done) (first :: further) each).within _
    · exact Scan.reads_error _
termination_by (input.length, 1)
decreasing_by
  · exact Prod.Lex.right _ (by decide)
  · exact Prod.Lex.left _ _ le

/-- An object that is read has distinct keys, and so have the objects in its members. -/
theorem reads_members (levels : Nat) (done : Members) (input : List Char)
    (distinct : done.DistinctKeys) (inside : EveryObjectOfMembers Members.DistinctKeys done) :
    (members levels done input).Reads (EveryObject Members.DistinctKeys) := by
  unfold members
  split
  · next behindQuote =>
    split
    · exact Scan.reads_error _
    · next key rest shorterKey isKey =>
      split
      · exact Scan.reads_error _
      · next rest equalColon =>
        have shorterColon := length_lt_of_skipBlanks equalColon
        have first := reads_value levels rest
        dsimp only
        split
        · exact Scan.reads_error _
        · next value rest shorterValue isValue =>
          have distinct := distinct.insert key value
          have inside := inside.insert key (first value _ isValue)
          split
          · exact Scan.reads_error _
          · intro json rest read
            cases read
            exact ⟨distinct, inside⟩
          · next behind equal =>
            split
            · exact Scan.reads_error _
            · exact Scan.reads_error _
            · next first further _ equalBehind =>
              have shorter := length_lt_of_skipBlanks equal
              have le := equalBehind ▸ length_skipBlanks_le behind
              exact (reads_members levels _ (first :: further) distinct inside).within _
          · exact Scan.reads_error _
      · exact Scan.reads_error _
  · exact Scan.reads_error _
termination_by (input.length, 1)
decreasing_by
  all_goals
    refine Prod.Lex.left _ _ ?_
    simp_all only [List.length_cons]
    omega

end

/-- In a value that is read from text the keys of every object are distinct. -/
theorem distinctKeys_of_read {text : String} {json : Json} (reads : read text = .ok json) :
    json.EveryObject Members.DistinctKeys := by
  rw [read] at reads
  split at reads
  · cases reads
  · next found rest isFound =>
    split at reads
    · cases reads
      exact reads_value levelLimit text.toList _ rest isFound
    · cases reads

end Json

end AvroGraph
