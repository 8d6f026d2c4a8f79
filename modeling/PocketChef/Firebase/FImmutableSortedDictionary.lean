import PocketChef.Firebase.FArraySortedDictionary
import PocketChef.Firebase.FTreeSortedDictionaryEnumerator
import PocketChef.Firebase.TreeBuilder

/-!
# Immutable sorted dictionaries

A dictionary begins as an array and becomes a tree when a key is inserted into
25 others.  It never becomes an array again.  Either way, it stands for the
list of its entries in the order of their keys.
-/

namespace PocketChef
namespace Firebase

universe u v

open SortedAssoc (Sorted select)

inductive FImmutableSortedDictionary (Key : Type u) (Value : Type v) where
  | array (self : FArraySortedDictionary Key Value)
  | tree (self : FTreeSortedDictionary Key Value)

variable {Key : Type u} {Value : Type v}

def sortedDictionaryArrayToRbTreeSizeThreshold : Nat :=
  25

namespace FArraySortedDictionary

/-- `none` is the exception that a conversion to a tree may throw. -/
def insertKey (comparator : Key → Key → Ordering)
    (self : FArraySortedDictionary Key Value) (key : Key) (value : Value) :
    Option (FImmutableSortedDictionary Key Value) :=
  match self.findKey comparator key with
  | none =>
      if sortedDictionaryArrayToRbTreeSizeThreshold ≤ self.entries.length then
        (FTreeSortedDictionary.fromDictionary comparator
          (self.entries ++ [(key, value)])).map .tree
      else
        let newPos := self.findInsertPositionForKey comparator key
        some (.array { entries := self.entries.insertIdx newPos (key, value) })
  | some pos => some (.array { entries := self.entries.set pos (key, value) })

end FArraySortedDictionary

namespace FImmutableSortedDictionary

section Operations

variable (comparator : Key → Key → Ordering)

/-- `dictionaryWithComparator`, an empty array. -/
def new : FImmutableSortedDictionary Key Value :=
  .array {}

def fromDictionary (dictionary : List (Key × Value)) :
    Option (FImmutableSortedDictionary Key Value) :=
  if dictionary.length ≤ sortedDictionaryArrayToRbTreeSizeThreshold then
    (FTreeSortedDictionary.sortedEntries comparator dictionary).map
      fun entries => .array { entries := entries }
  else
    (FTreeSortedDictionary.fromDictionary comparator dictionary).map .tree

variable (self : FImmutableSortedDictionary Key Value)

def insertKey (key : Key) (value : Value) :
    Option (FImmutableSortedDictionary Key Value) :=
  match self with
  | array self => self.insertKey comparator key value
  | tree self => some (.tree (self.insertKey comparator key value))

def removeKey (key : Key) : FImmutableSortedDictionary Key Value :=
  match self with
  | array self => .array (self.removeKey comparator key)
  | tree self => .tree (self.removeKey comparator key)

def get (key : Key) : Option Value :=
  match self with
  | array self => self.get comparator key
  | tree self => self.get comparator key

def getPredecessorKey (key : Key) : Option (Option Key) :=
  match self with
  | array self => self.getPredecessorKey comparator key
  | tree self => self.getPredecessorKey comparator key

def count : Nat :=
  match self with
  | array self => self.entries.length
  | tree self => self.count

/-- What `enumerateKeysAndObjectsUsingBlock` passes to its block. -/
def entries : List (Key × Value) :=
  match self with
  | array self => self.entries
  | tree self => self.root.inorderTraversal

/-- The objects of `keyEnumerator`. -/
def allKeys : List Key :=
  match self with
  | array self => self.keys
  | tree self => (self.keyEnumerator comparator).allObjects

/-- The objects of `keyEnumeratorFrom`. -/
def keysFrom (startKey : Key) : List Key :=
  match self with
  | array self => (self.keyEnumeratorFrom comparator startKey).allObjects
  | tree self => (self.keyEnumeratorFrom comparator startKey).allObjects

/-- The objects of `reverseKeyEnumerator`. -/
def reverseKeys : List Key :=
  match self with
  | array self => self.keys.reverse
  | tree self => (self.reverseKeyEnumerator comparator).allObjects

/-- The objects of `reverseKeyEnumeratorFrom`. -/
def reverseKeysFrom (startKey : Key) : List Key :=
  match self with
  | array self =>
      (self.reverseKeyEnumeratorFrom comparator startKey).allObjects
  | tree self =>
      (self.reverseKeyEnumeratorFrom comparator startKey).allObjects

def isEqual [DecidableEq Value] (other : FImmutableSortedDictionary Key Value) :
    Bool :=
  self.count = other.count &&
    self.entries.all fun entry =>
      other.get comparator entry.1 = some entry.2

end Operations

/-- What every operation keeps. -/
inductive Valid (comparator : Key → Key → Ordering) :
    FImmutableSortedDictionary Key Value → Prop
  | array {self : FArraySortedDictionary Key Value}
      (sorted : Sorted comparator self.entries)
      (small : self.entries.length ≤
        sortedDictionaryArrayToRbTreeSizeThreshold) :
      Valid comparator (.array self)
  | tree {self : FTreeSortedDictionary Key Value}
      (valid : FTreeSortedDictionary.Valid comparator self) :
      Valid comparator (.tree self)

variable {comparator : Key → Key → Ordering}
variable {self : FImmutableSortedDictionary Key Value}

theorem Valid.new :
    Valid comparator (new : FImmutableSortedDictionary Key Value) :=
  .array List.Pairwise.nil (Nat.zero_le _)

theorem Valid.sorted (valid : Valid comparator self) :
    Sorted comparator self.entries := by
  cases valid with
  | array sorted _ => exact sorted
  | tree valid => exact valid.sorted

theorem count_eq : self.count = self.entries.length := by
  cases self with
  | array self => rfl
  | tree self => exact FLLRBNode.count_eq_length _

theorem Valid.allKeys (valid : Valid comparator self) :
    self.allKeys comparator = self.entries.map Prod.fst := by
  cases valid with
  | array _ _ => rfl
  | tree _ => exact FTreeSortedDictionary.keyEnumerator_allObjects

variable [Std.TransCmp comparator]

theorem Valid.keysFrom (valid : Valid comparator self) (startKey : Key) :
    self.keysFrom comparator startKey =
      (select comparator Ordering.isGE startKey self.entries).map
        Prod.fst := by
  cases valid with
  | @array self sorted _ =>
      refine (FArraySortedDictionaryEnumerator.allObjects_forward _ _).trans ?_
      rw [FArraySortedDictionary.keys, ← List.map_drop]
      exact congrArg _
        (FArraySortedDictionary.take_findInsertPosition sorted).2
  | tree valid =>
      exact FTreeSortedDictionary.keyEnumeratorFrom_allObjects valid startKey

/-- A reverse enumeration of an array starts at the last entry that is not
larger. -/
theorem array_reverseKeysFrom {self : FArraySortedDictionary Key Value}
    (sorted : Sorted comparator self.entries) (startKey : Key) :
    (self.reverseKeyEnumeratorFrom comparator startKey).allObjects =
      ((select comparator Ordering.isLE startKey self.entries).map
        Prod.fst).reverse := by
  have within := FArraySortedDictionary.findInsertPosition_le comparator
    startKey self.entries
  rw [FArraySortedDictionary.select_isLE sorted,
    FArraySortedDictionary.reverseKeyEnumeratorFrom, List.map_take,
    FArraySortedDictionary.findInsertPositionForKey]
  generalize FArraySortedDictionary.findInsertPosition comparator startKey
    self.entries = startPos at within ⊢
  rw [← @List.length_map _ _ self.entries Prod.fst] at within
  have reversed (count : Nat) (fits : count ≤ self.keys.length) :=
    FArraySortedDictionaryEnumerator.allObjects_reverse self.keys count fits
  have there : (self.keys[startPos]?.map fun other =>
      comparator other startKey) =
        self.entries[startPos]?.map fun entry =>
          comparator entry.1 startKey := by
    rw [FArraySortedDictionary.keys, List.getElem?_map, Option.map_map]
    rfl
  rw [there]
  split
  · next found =>
    rcases Option.map_eq_some_iff.mp found with ⟨entry, inside, _⟩
    have inRange := (List.getElem?_eq_some_iff.mp inside).1
    rw [← @List.length_map _ _ self.entries Prod.fst] at inRange
    have last : ((startPos + 1 : Nat) : Int) - 1 = startPos := by
      omega
    rw [← last]
    exact reversed (startPos + 1) inRange
  · exact reversed startPos within

theorem Valid.reverseKeysFrom (valid : Valid comparator self)
    (startKey : Key) :
    self.reverseKeysFrom comparator startKey =
      ((select comparator Ordering.isLE startKey self.entries).map
        Prod.fst).reverse := by
  cases valid with
  | array sorted _ => exact array_reverseKeysFrom sorted startKey
  | tree valid =>
      rw [← List.map_reverse]
      exact FTreeSortedDictionary.reverseKeyEnumeratorFrom_allObjects valid
        startKey

theorem Valid.getPredecessorKey
    (valid : Valid comparator self) (key : Key) :
    self.getPredecessorKey comparator key =
      SortedAssoc.predecessor comparator key self.entries := by
  cases valid with
  | @array self sorted _ =>
      change self.getPredecessorKey comparator key = _
      rw [FArraySortedDictionary.getPredecessorKey, SortedAssoc.predecessor]
      cases found : self.findKey comparator key with
      | none =>
          have absent :=
            FArraySortedDictionary.findPosition_eq_none sorted found
          exact (congrArg (Option.map _)
            (SortedAssoc.lookup_eq_none absent)).symm
      | some pos =>
          rcases FArraySortedDictionary.of_findPosition sorted found with
            ⟨looked, smaller, _⟩
          have inRange := FArraySortedDictionary.findPosition_lt found
          change _ = (SortedAssoc.lookup comparator key self.entries).map
            fun _ => (select comparator Ordering.isLT key
              self.entries).getLast?.map Prod.fst
          rw [looked, smaller, List.getElem?_eq_getElem inRange]
          cases pos with
          | zero => rfl
          | succ pos =>
              have before : self.entries[pos]? = some self.entries[pos] :=
                List.getElem?_eq_getElem (Nat.lt_of_succ_lt inRange)
              rw [List.getLast?_take, if_neg (Nat.succ_ne_zero pos),
                Nat.add_sub_cancel, before]
              exact congrArg (fun entry => some (Option.map Prod.fst entry))
                before
  | tree valid => exact FTreeSortedDictionary.getPredecessorKey_eq valid key

theorem Valid.get (valid : Valid comparator self) (key : Key) :
    self.get comparator key =
      SortedAssoc.lookup comparator key self.entries := by
  cases valid with
  | @array self sorted _ =>
      change self.get comparator key = _
      rw [FArraySortedDictionary.get]
      cases found : self.findKey comparator key with
      | none =>
          have absent :=
            FArraySortedDictionary.findPosition_eq_none sorted found
          exact (SortedAssoc.lookup_eq_none absent).symm
      | some pos =>
          exact (FArraySortedDictionary.of_findPosition sorted found).1.symm
  | tree valid => exact FTreeSortedDictionary.get_eq_lookup valid key

/-! ## What the operations do to the entries -/

theorem pairwise_append_absent {entries : List (Key × Value)} {key : Key}
    (sorted : Sorted comparator entries) (value : Value)
    (absent : ∀ other ∈ entries, comparator key other.1 ≠ .eq) :
    (entries ++ [(key, value)]).Pairwise fun first second =>
      comparator first.1 second.1 ≠ .eq := by
  refine List.pairwise_append.mpr ⟨?_, List.pairwise_singleton _ _, ?_⟩
  · refine sorted.imp ?_
    intro first second less same
    rw [less] at same
    cases same
  · intro other member last only same
    rw [List.mem_singleton.mp only] at same
    exact absent other member (Std.OrientedCmp.eq_symm same)

/-- A dictionary can be made of entries whose keys all differ. -/
theorem fromDictionary_spec {dictionary : List (Key × Value)}
    (different : dictionary.Pairwise fun first second =>
      comparator first.1 second.1 ≠ .eq) :
    ∃ made, fromDictionary comparator dictionary = some made ∧
      Valid comparator made ∧
      made.entries = SortedAssoc.sort comparator dictionary := by
  rw [fromDictionary]
  split
  · next small =>
    have sorted : Sorted comparator
        (SortedAssoc.sort comparator dictionary) :=
      SortedAssoc.sorted_sort different
    have entries : FTreeSortedDictionary.sortedEntries comparator dictionary =
        some (SortedAssoc.sort comparator dictionary) :=
      if_pos (List.Pairwise.isChain sorted)
    rw [entries]
    refine ⟨_, rfl, .array sorted ?_, rfl⟩
    rw [(SortedAssoc.sort_perm dictionary).length_eq]
    exact small
  · rcases FTreeSortedDictionary.fromDictionary_spec different with
      ⟨built, made, valid, entries⟩
    rw [made]
    exact ⟨.tree built, rfl, .tree valid, entries⟩

/-- The entries of a dictionary that has been made. -/
theorem fromDictionary_sorted {dictionary : List (Key × Value)}
    {made : FImmutableSortedDictionary Key Value}
    (some : fromDictionary comparator dictionary = some made) :
    Sorted comparator made.entries ∧ made.entries.Perm dictionary := by
  have ordered : (SortedAssoc.sort comparator dictionary).IsChain
      fun first second => comparator first.1 second.1 = .lt := by
    by_contra unordered
    have none : FTreeSortedDictionary.sortedEntries comparator dictionary =
        none :=
      if_neg unordered
    rw [fromDictionary, FTreeSortedDictionary.fromDictionary, none] at some
    split at some <;> cases some
  let before (first second : Key × Value) : Prop :=
    comparator first.1 second.1 = .lt
  have : Trans before before before := ⟨Std.TransCmp.lt_trans⟩
  have sorted : Sorted comparator (SortedAssoc.sort comparator dictionary) :=
    List.isChain_iff_pairwise.mp ordered
  have perm : (SortedAssoc.sort comparator dictionary).Perm dictionary :=
    SortedAssoc.sort_perm dictionary
  have different : dictionary.Pairwise fun first second =>
      comparator first.1 second.1 ≠ .eq := by
    have apart : (SortedAssoc.sort comparator dictionary).Pairwise
        fun first second => comparator first.1 second.1 ≠ .eq := by
      refine sorted.imp ?_
      intro first second less same
      rw [less] at same
      cases same
    refine apart.perm perm ?_
    intro first second unequal same
    exact unequal (Std.OrientedCmp.eq_symm same)
  obtain ⟨built, equal, _, entries⟩ := fromDictionary_spec different
  obtain rfl : built = made := Option.some.inj (equal.symm.trans some)
  rw [entries]
  exact ⟨sorted, perm⟩

/-- An insertion into an array, which may make it a tree. -/
theorem array_insertKey {self : FArraySortedDictionary Key Value}
    (sorted : Sorted comparator self.entries)
    (small : self.entries.length ≤
      sortedDictionaryArrayToRbTreeSizeThreshold) (key : Key) (value : Value) :
    ∃ inserted, self.insertKey comparator key value = some inserted ∧
      Valid comparator inserted ∧
      inserted.entries =
        SortedAssoc.insert comparator key value self.entries := by
  have insertedSorted := sorted.insert key value
  rw [FArraySortedDictionary.insertKey]
  cases found : self.findKey comparator key with
  | some pos =>
      have kept := (FArraySortedDictionary.of_findPosition sorted found).2.2.2
        value
      rw [kept] at insertedSorted ⊢
      refine ⟨_, rfl, Valid.array insertedSorted ?_, rfl⟩
      rw [List.length_set]
      exact small
  | none =>
      have absent := FArraySortedDictionary.findPosition_eq_none sorted found
      have perm := @SortedAssoc.insert_perm _ _ comparator self.entries key
        value _ absent
      dsimp only
      split
      · rcases FTreeSortedDictionary.fromDictionary_spec
          (pairwise_append_absent sorted value absent) with
            ⟨built, made, valid, entries⟩
        rw [made]
        refine ⟨.tree built, rfl, .tree valid, ?_⟩
        refine valid.sorted.eq_of_perm insertedSorted ?_
        rw [entries]
        exact (SortedAssoc.sort_perm _).trans perm.symm
      · next room =>
        have place : self.entries.insertIdx
            (self.findInsertPositionForKey comparator key) (key, value) =
              SortedAssoc.insert comparator key value self.entries :=
          FArraySortedDictionary.insertIdx_findInsertPosition value sorted
            absent
        rw [place]
        refine ⟨_, rfl, Valid.array insertedSorted ?_, rfl⟩
        have size := perm.length_eq
        rw [List.length_append, List.length_singleton] at size
        change (SortedAssoc.insert comparator key value
          self.entries).length ≤ _
        omega

/-- An array takes over the new key, a tree keeps one that compares equal. -/
theorem Valid.insertKey (valid : Valid comparator self) (key : Key)
    (value : Value) :
    ∃ inserted, self.insertKey comparator key value = some inserted ∧
      Valid comparator inserted ∧
      ∃ kept, comparator key kept = .eq ∧
        (kept = key ∨ kept ∈ self.entries.map Prod.fst) ∧
        inserted.entries =
          SortedAssoc.insert comparator kept value self.entries := by
  cases valid with
  | array sorted small =>
      rcases array_insertKey sorted small key value with
        ⟨inserted, made, valid, entries⟩
      exact ⟨inserted, made, valid, key, Std.ReflCmp.compare_self,
        Or.inl rfl, entries⟩
  | tree valid =>
      exact ⟨_, rfl, .tree (valid.insertKey key value), _,
        SortedAssoc.compare_storedKey key _, SortedAssoc.storedKey_mem key _,
        FTreeSortedDictionary.inorder_insertKey valid key value⟩

theorem Valid.removeKey (valid : Valid comparator self) (key : Key) :
    Valid comparator (self.removeKey comparator key) ∧
      (self.removeKey comparator key).entries =
        SortedAssoc.erase comparator key self.entries := by
  cases valid with
  | @array self sorted small =>
      change Valid comparator (.array (self.removeKey comparator key)) ∧
        (self.removeKey comparator key).entries =
          SortedAssoc.erase comparator key self.entries
      rw [FArraySortedDictionary.removeKey]
      have erasedSorted := sorted.erase key
      cases found : self.findKey comparator key with
      | none =>
          have absent :=
            FArraySortedDictionary.findPosition_eq_none sorted found
          exact ⟨.array sorted small, (SortedAssoc.erase_absent absent).symm⟩
      | some pos =>
          have erased :=
            (FArraySortedDictionary.of_findPosition sorted found).2.2.1
          rw [erased] at erasedSorted ⊢
          refine ⟨.array erasedSorted ?_, rfl⟩
          exact Nat.le_trans (List.length_eraseIdx_le _ _) small
  | tree valid =>
      exact ⟨.tree (valid.removeKey key),
        FTreeSortedDictionary.inorder_removeKey valid key⟩

end FImmutableSortedDictionary

end Firebase
end PocketChef
