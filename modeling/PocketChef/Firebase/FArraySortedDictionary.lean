import PocketChef.Library.SortedAssoc

/-!
# The array of a sorted dictionary

`FArraySortedDictionary` has an array of keys and one of values, which it
changes at the same positions; they are one list of entries here.  `findKey`
stops at the first larger key.

`FArraySortedDictionaryEnumerator` walks over the keys from a position, which
is outside of the array when the enumeration is over.
-/

namespace PocketChef
namespace Firebase

universe u v

open SortedAssoc (Sorted select)

structure FArraySortedDictionary (Key : Type u) (Value : Type v) where
  entries : List (Key × Value) := []
  deriving DecidableEq

variable {Key : Type u} {Value : Type v}

structure FArraySortedDictionaryEnumerator (Key : Type u) where
  keys : List Key
  pos : Int
  reverse : Bool

namespace FArraySortedDictionary

section Operations

variable (comparator : Key → Key → Ordering) (key : Key)

/-- The loop of `findInsertPositionForKey`. -/
def findInsertPosition : List (Key × Value) → Nat
  | [] => 0
  | entry :: rest =>
      if comparator entry.1 key = .lt then findInsertPosition rest + 1 else 0

/-- The loop of `findKey`; `none` is `NSNotFound`. -/
def findPosition : List (Key × Value) → Option Nat
  | [] => none
  | entry :: rest =>
      match comparator key entry.1 with
      | .eq => some 0
      | .lt => none
      | .gt => (findPosition rest).map (· + 1)

variable (self : FArraySortedDictionary Key Value)

def findInsertPositionForKey : Nat :=
  findInsertPosition comparator key self.entries

def findKey : Option Nat :=
  findPosition comparator key self.entries

def get : Option Value :=
  (self.findKey comparator key).bind fun pos =>
    self.entries[pos]?.map Prod.snd

def removeKey : FArraySortedDictionary Key Value :=
  match self.findKey comparator key with
  | none => self
  | some pos => { entries := self.entries.eraseIdx pos }

/-- `none` is the exception for a key without an entry. -/
def getPredecessorKey : Option (Option Key) :=
  match self.findKey comparator key with
  | none => none
  | some 0 => some none
  | some (pos + 1) => some (self.entries[pos]?.map Prod.fst)

def keys : List Key :=
  self.entries.map Prod.fst

def keyEnumeratorFrom : FArraySortedDictionaryEnumerator Key where
  keys := self.keys
  pos := self.findInsertPositionForKey comparator key
  reverse := false

/-- Without an exact match, the position after the closest one is corrected. -/
def reverseKeyEnumeratorFrom : FArraySortedDictionaryEnumerator Key :=
  let startPos := self.findInsertPositionForKey comparator key
  let exactMatch :=
    (self.keys[startPos]?.map fun other => comparator other key) = some .eq
  { keys := self.keys
    pos := if exactMatch then startPos else (startPos : Int) - 1
    reverse := true }

end Operations

end FArraySortedDictionary

namespace FArraySortedDictionaryEnumerator

/-- The key at the position, if there is one, and the enumerator after it. -/
def nextObject (self : FArraySortedDictionaryEnumerator Key) :
    Option (Key × FArraySortedDictionaryEnumerator Key) :=
  if 0 ≤ self.pos then
    self.keys[self.pos.toNat]?.map fun key =>
      (key, { self with
        pos := if self.reverse then self.pos - 1 else self.pos + 1 })
  else
    none

/-- The keys that are still ahead. -/
def ahead (self : FArraySortedDictionaryEnumerator Key) : Nat :=
  if self.reverse then (self.pos + 1).toNat
  else self.keys.length - self.pos.toNat

theorem ahead_lt {self next : FArraySortedDictionaryEnumerator Key}
    {key : Key} (given : self.nextObject = some (key, next)) :
    next.ahead < self.ahead := by
  rw [nextObject] at given
  split at given
  · next positive =>
    rcases Option.map_eq_some_iff.mp given with ⟨found, inside, same⟩
    obtain ⟨rfl, rfl⟩ := Prod.mk.inj same
    have inRange := (List.getElem?_eq_some_iff.mp inside).1
    rw [ahead, ahead]
    dsimp only
    split
    · omega
    · omega
  · cases given

/-- All the objects that `nextObject` gives out until it returns `nil`. -/
def allObjects (self : FArraySortedDictionaryEnumerator Key) : List Key :=
  match _given : self.nextObject with
  | some (key, next) => key :: next.allObjects
  | none => []
termination_by self.ahead
decreasing_by exact ahead_lt _given

theorem allObjects_of_some {self next : FArraySortedDictionaryEnumerator Key}
    {key : Key} (given : self.nextObject = some (key, next)) :
    self.allObjects = key :: next.allObjects := by
  rw [allObjects]
  split
  · next other after found =>
    rw [given] at found
    obtain ⟨rfl, rfl⟩ := Prod.mk.inj (Option.some.inj found)
    rfl
  · next nothing =>
    rw [given] at nothing
    cases nothing

theorem allObjects_of_none {self : FArraySortedDictionaryEnumerator Key}
    (given : self.nextObject = none) : self.allObjects = [] := by
  rw [allObjects]
  split
  · next found =>
    rw [given] at found
    cases found
  · rfl

theorem allObjects_forward (keys : List Key) (pos : Nat) :
    (mk keys pos false).allObjects = keys.drop pos := by
  cases found : keys[pos]? with
  | none =>
      have beyond := List.getElem?_eq_none_iff.mp found
      rw [List.drop_eq_nil_of_le beyond]
      apply allObjects_of_none
      rw [nextObject, if_pos (Int.natCast_nonneg pos), Int.toNat_natCast, found]
      rfl
  | some key =>
      rcases List.getElem?_eq_some_iff.mp found with ⟨inRange, rfl⟩
      have given : (mk keys pos false).nextObject =
          some (keys[pos], mk keys (pos + 1 : Nat) false) := by
        rw [nextObject, if_pos (Int.natCast_nonneg pos), Int.toNat_natCast,
          found]
        rfl
      rw [allObjects_of_some given, List.drop_eq_getElem_cons inRange]
      exact congrArg _ (allObjects_forward keys (pos + 1))
termination_by keys.length - pos

theorem allObjects_reverse (keys : List Key) (count : Nat)
    (fits : count ≤ keys.length) :
    (mk keys ((count : Int) - 1) true).allObjects =
      (keys.take count).reverse := by
  induction count with
  | zero =>
      apply allObjects_of_none
      rfl
  | succ count inductionHypothesis =>
      have inRange : count < keys.length := fits
      have same : ((count + 1 : Nat) : Int) - 1 = count := by
        omega
      have given : (mk keys (((count + 1 : Nat) : Int) - 1) true).nextObject =
          some (keys[count], mk keys ((count : Int) - 1) true) := by
        rw [same, nextObject, if_pos (Int.natCast_nonneg count),
          Int.toNat_natCast, List.getElem?_eq_getElem inRange]
        rfl
      rw [allObjects_of_some given, inductionHypothesis (by omega),
        List.take_succ_eq_append_getElem inRange, List.reverse_concat]

end FArraySortedDictionaryEnumerator

/-! ## Positions in a sorted array -/

namespace FArraySortedDictionary

variable {comparator : Key → Key → Ordering}
variable {key : Key} {entries : List (Key × Value)}

theorem findInsertPosition_le (comparator : Key → Key → Ordering) (key : Key)
    (entries : List (Key × Value)) :
    findInsertPosition comparator key entries ≤ entries.length := by
  induction entries with
  | nil => exact Nat.le_refl _
  | cons entry rest inductionHypothesis =>
      rw [findInsertPosition, List.length_cons]
      split
      · exact Nat.succ_le_succ inductionHypothesis
      · exact Nat.zero_le _

theorem findPosition_lt {pos : Nat}
    (found : findPosition comparator key entries = some pos) :
    pos < entries.length := by
  induction entries generalizing pos with
  | nil => cases found
  | cons entry rest inductionHypothesis =>
      rw [findPosition] at found
      split at found
      · rw [← Option.some.inj found]
        exact Nat.zero_lt_succ _
      · cases found
      · rcases Option.map_eq_some_iff.mp found with ⟨before, inside, rfl⟩
        exact Nat.succ_lt_succ (inductionHypothesis inside)

variable [Std.TransCmp comparator]

theorem take_findInsertPosition (sorted : Sorted comparator entries) :
    entries.take (findInsertPosition comparator key entries) =
      select comparator Ordering.isLT key entries ∧
    entries.drop (findInsertPosition comparator key entries) =
      select comparator Ordering.isGE key entries := by
  induction entries with
  | nil => exact ⟨rfl, rfl⟩
  | cons entry rest inductionHypothesis =>
      rw [findInsertPosition]
      cases order : comparator key entry.1 with
      | lt =>
          have greater := Std.OrientedCmp.gt_of_lt order
          rw [SortedAssoc.select_cons_lt sorted order,
            SortedAssoc.select_cons_lt sorted order, greater]
          exact ⟨rfl, rfl⟩
      | eq =>
          have same := Std.OrientedCmp.eq_symm order
          rw [SortedAssoc.select_cons_eq sorted order,
            SortedAssoc.select_cons_eq sorted order, same]
          exact ⟨rfl, rfl⟩
      | gt =>
          have less := Std.OrientedCmp.lt_of_gt order
          rcases inductionHypothesis sorted.tail with ⟨taken, dropped⟩
          rw [SortedAssoc.select_cons_gt sorted order,
            SortedAssoc.select_cons_gt sorted order, if_pos less,
            List.take_succ_cons, List.drop_succ_cons, taken, dropped]
          exact ⟨rfl, rfl⟩

/-- Where the entry is at the insert position, it is the last one that is not
larger. -/
theorem select_isLE (sorted : Sorted comparator entries) :
    select comparator Ordering.isLE key entries =
      entries.take (findInsertPosition comparator key entries +
        if (entries[findInsertPosition comparator key entries]?.map
          fun entry => comparator entry.1 key) = some .eq then 1 else 0) := by
  induction entries with
  | nil => rfl
  | cons entry rest inductionHypothesis =>
      rw [findInsertPosition]
      cases order : comparator key entry.1 with
      | lt =>
          have greater := Std.OrientedCmp.gt_of_lt order
          rw [SortedAssoc.select_cons_lt sorted order, greater]
          simp [greater]
      | eq =>
          have same := Std.OrientedCmp.eq_symm order
          rw [SortedAssoc.select_cons_eq sorted order, same]
          simp [same]
      | gt =>
          have less := Std.OrientedCmp.lt_of_gt order
          rw [SortedAssoc.select_cons_gt sorted order, if_pos less,
            inductionHypothesis sorted.tail]
          rw [List.getElem?_cons_succ, Nat.add_right_comm,
            List.take_succ_cons]
          rfl

theorem findPosition_eq_none (sorted : Sorted comparator entries)
    (absent : findPosition comparator key entries = none) :
    ∀ other ∈ entries, comparator key other.1 ≠ .eq := by
  induction entries with
  | nil => exact fun _ member => absurd member List.not_mem_nil
  | cons entry rest inductionHypothesis =>
      rw [findPosition] at absent
      intro other member
      cases order : comparator key entry.1 with
      | eq =>
          rw [order] at absent
          cases absent
      | lt =>
          rcases List.mem_cons.mp member with rfl | later
          · rw [order]
            decide
          · have less := (List.pairwise_cons.mp sorted).1 other later
            rw [Std.TransCmp.lt_trans order less]
            decide
      | gt =>
          rw [order] at absent
          rcases List.mem_cons.mp member with rfl | later
          · rw [order]
            decide
          · exact inductionHypothesis sorted.tail
              (Option.map_eq_none_iff.mp absent) other later

theorem insertIdx_findInsertPosition (value : Value)
    (sorted : Sorted comparator entries)
    (absent : ∀ other ∈ entries, comparator key other.1 ≠ .eq) :
    entries.insertIdx (findInsertPosition comparator key entries)
        (key, value) = SortedAssoc.insert comparator key value entries := by
  induction entries with
  | nil => rfl
  | cons entry rest inductionHypothesis =>
      rw [findInsertPosition, SortedAssoc.insert]
      cases order : comparator key entry.1 with
      | lt =>
          have greater := Std.OrientedCmp.gt_of_lt order
          rw [SortedAssoc.select_cons_lt sorted order,
            SortedAssoc.select_cons_lt sorted order, greater]
          rfl
      | eq => exact absurd order (absent entry List.mem_cons_self)
      | gt =>
          have less := Std.OrientedCmp.lt_of_gt order
          rw [SortedAssoc.select_cons_gt sorted order,
            SortedAssoc.select_cons_gt sorted order, if_pos less,
            List.insertIdx_succ_cons]
          exact congrArg _ (inductionHypothesis sorted.tail fun other member =>
            absent other (List.mem_cons_of_mem _ member))

/-- What the operations do at a position that was found. -/
theorem of_findPosition {pos : Nat}
    (sorted : Sorted comparator entries)
    (found : findPosition comparator key entries = some pos) :
    SortedAssoc.lookup comparator key entries =
        entries[pos]?.map Prod.snd ∧
      select comparator Ordering.isLT key entries = entries.take pos ∧
      SortedAssoc.erase comparator key entries = entries.eraseIdx pos ∧
      ∀ value, SortedAssoc.insert comparator key value entries =
        entries.set pos (key, value) := by
  induction entries generalizing pos with
  | nil => cases found
  | cons entry rest inductionHypothesis =>
      rw [findPosition] at found
      have selected (kept : Ordering → Bool) :=
        @SortedAssoc.select_cons_gt _ _ comparator entry key kept _ rest
          sorted
      cases order : comparator key entry.1 with
      | lt =>
          rw [order] at found
          cases found
      | eq =>
          rw [order] at found
          rw [← Option.some.inj found, SortedAssoc.lookup_cons_eq sorted order,
            SortedAssoc.select_cons_eq sorted order, SortedAssoc.erase,
            SortedAssoc.select_cons_eq sorted order]
          refine ⟨rfl, rfl, rfl, ?_⟩
          intro value
          rw [SortedAssoc.insert, SortedAssoc.select_cons_eq sorted order,
            SortedAssoc.select_cons_eq sorted order]
          rfl
      | gt =>
          rw [order] at found
          rcases Option.map_eq_some_iff.mp found with ⟨before, inside, rfl⟩
          rcases inductionHypothesis sorted.tail inside with
            ⟨looked, taken, erased, inserted⟩
          refine ⟨?_, ?_, ?_, ?_⟩
          · rw [SortedAssoc.lookup_cons_gt sorted order, looked]
            rfl
          · rw [selected _ order, taken]
            rfl
          · rw [SortedAssoc.erase, selected _ order]
            exact congrArg _ erased
          · intro value
            rw [SortedAssoc.insert, selected _ order, selected _ order]
            exact congrArg _ (inserted value)

end FArraySortedDictionary

end Firebase
end PocketChef
