import PocketChef.Firebase.FLLRBRemoveKey

/-!
# The tree of a sorted dictionary

`FTreeSortedDictionary` keeps the root of a left-leaning red-black tree black.
`get` and `getPredecessorKey` walk down from the root.
-/

namespace PocketChef
namespace Firebase

universe u v

open SortedAssoc (Sorted)

namespace FLLRBNode

variable {Key : Type u} {Value : Type v}

/-- The loop of `get` from a node on. -/
def get (comparator : Key → Key → Ordering) (key : Key) :
    FLLRBNode Key Value → Option Value
  | empty => none
  | value nodeKey nodeValue _ left right =>
      match comparator key nodeKey with
      | .eq => some nodeValue
      | .lt => left.get comparator key
      | .gt => right.get comparator key

/-- The loop of `getPredecessorKey` from a node on, where `rightParent` is the
key of the last node that was left to the right. -/
def predecessorKey (comparator : Key → Key → Ordering) (key : Key) :
    FLLRBNode Key Value → Option Key → Option (Option Key)
  | empty, _ => none
  | value nodeKey _ _ left right, rightParent =>
      match comparator key nodeKey with
      | .eq =>
          if left.isEmpty then some rightParent else some left.maxKey
      | .lt => left.predecessorKey comparator key rightParent
      | .gt => right.predecessorKey comparator key (some nodeKey)

/-- The nodes on a longest path. -/
def height : FLLRBNode Key Value → Nat
  | empty => 0
  | value _ _ _ left right => max left.height right.height + 1

variable {color : Bool} {depth : Nat} {self : FLLRBNode Key Value}
variable {comparator : Key → Key → Ordering}

theorem count_eq_length (self : FLLRBNode Key Value) :
    self.count = self.inorderTraversal.length := by
  induction self with
  | empty => rfl
  | value key val color left right leftHypothesis rightHypothesis =>
      rw [count, inorderTraversal, List.length_append, List.length_cons,
        leftHypothesis, rightHypothesis]
      omega

theorem reverseTraversal_eq (self : FLLRBNode Key Value) :
    self.reverseTraversal = self.inorderTraversal.reverse := by
  induction self with
  | empty => rfl
  | value key val color left right leftHypothesis rightHypothesis =>
      rw [reverseTraversal, inorderTraversal, List.reverse_append,
        List.reverse_cons, leftHypothesis, rightHypothesis, List.append_assoc]
      rfl

theorem maxKey_eq (self : FLLRBNode Key Value) :
    self.maxKey = self.inorderTraversal.getLast?.map Prod.fst := by
  induction self with
  | empty => rfl
  | value key val color left right _ rightHypothesis =>
      rw [maxKey, inorderTraversal]
      cases right with
      | empty =>
          change some key =
            Option.map Prod.fst (left.inorderTraversal ++ [(key, val)]).getLast?
          rw [List.getLast?_concat]
          rfl
      | value =>
          rw [if_neg (by rw [isEmpty]; decide), rightHypothesis,
            List.getLast?_append]
          congr 1
          rw [List.getLast?_cons]
          cases last : (inorderTraversal (value _ _ _ _ _)).getLast? with
          | none =>
              cases inorder_eq_nil_iff.mp (List.getLast?_eq_none_iff.mp last)
          | some entry => rfl

theorem maxKey_eq_none (none : self.maxKey = none) : self = .empty := by
  rw [maxKey_eq, Option.map_eq_none_iff, List.getLast?_eq_none_iff] at none
  exact inorder_eq_nil_iff.mp none

/-- No path is more than twice as long as the black depth, and the black
depth is logarithmic in the number of entries. -/
theorem Balanced.height_le (balanced : Balanced color depth self) :
    self.height ≤ 2 * depth + color.toNat := by
  induction balanced with
  | empty => exact Nat.le_refl _
  | @black leftColor depth left right key val leftBalanced rightBalanced
      leftHypothesis rightHypothesis =>
      have colored := Bool.toNat_le leftColor
      rw [Bool.toNat_false] at rightHypothesis
      rw [height, Bool.toNat_false]
      omega
  | red key val leftBalanced rightBalanced leftHypothesis rightHypothesis =>
      rw [Bool.toNat_false] at leftHypothesis rightHypothesis
      rw [height, Bool.toNat_true]
      omega

theorem Balanced.pow_le_count (balanced : Balanced color depth self) :
    2 ^ depth ≤ self.count + 1 := by
  induction balanced with
  | empty => exact Nat.le_refl _
  | black key val leftBalanced rightBalanced leftHypothesis rightHypothesis =>
      rw [count, Nat.pow_succ]
      omega
  | red key val leftBalanced rightBalanced leftHypothesis rightHypothesis =>
      rw [count]
      omega

theorem Balanced.checkMaxDepth (balanced : Balanced color depth self) :
    self.checkMaxDepth = some true := by
  rw [FLLRBNode.checkMaxDepth, check_eq_some_iff.mpr ⟨color, balanced⟩]
  exact congrArg some (decide_eq_true balanced.pow_le_count)

/-- A path has at most twice the binary logarithm of the size in nodes. -/
theorem Balanced.height_le_log (balanced : Balanced false depth self) :
    self.height ≤ 2 * Nat.log2 (self.count + 1) := by
  have short := balanced.height_le
  have deep : depth ≤ Nat.log2 (self.count + 1) :=
    (Nat.le_log2 (Nat.succ_ne_zero _)).mpr balanced.pow_le_count
  rw [Bool.toNat_false] at short
  omega

variable [Std.TransCmp comparator]

theorem get_eq_lookup (key : Key)
    (sorted : Sorted comparator self.inorderTraversal) :
    self.get comparator key =
      SortedAssoc.lookup comparator key self.inorderTraversal := by
  induction self with
  | empty => rfl
  | value nodeKey nodeValue color left right leftHypothesis rightHypothesis =>
      rw [get, inorderTraversal]
      rw [inorderTraversal] at sorted
      cases order : comparator key nodeKey with
      | lt =>
          rw [SortedAssoc.lookup_left sorted order]
          exact leftHypothesis sorted.of_left
      | eq => exact (SortedAssoc.lookup_same sorted order).symm
      | gt =>
          rw [SortedAssoc.lookup_right sorted order]
          exact rightHypothesis sorted.of_right

/-- An insertion puts the entry in its place among the entries; a key that
compares equal stays. -/
theorem inorder_insertKey (aKey : Key) (aValue : Value)
    (sorted : Sorted comparator self.inorderTraversal) :
    (self.insertKey comparator aKey aValue).inorderTraversal =
      SortedAssoc.insert comparator
        (SortedAssoc.storedKey comparator aKey self.inorderTraversal) aValue
        self.inorderTraversal := by
  induction self with
  | empty => rfl
  | value key val color left right leftHypothesis rightHypothesis =>
      rw [inorderTraversal] at sorted
      rw [insertKey, inorderTraversal, SortedAssoc.storedKey]
      cases order : comparator aKey key with
      | lt =>
          have same : comparator aKey (SortedAssoc.storedKey comparator aKey
              left.inorderTraversal) = .eq :=
            SortedAssoc.compare_storedKey aKey left.inorderTraversal
          have smaller := order
          rw [Std.TransCmp.congr_left same] at smaller
          rw [SortedAssoc.entryAt_left sorted order]
          refine Eq.trans ?_ (SortedAssoc.insert_left sorted smaller).symm
          rw [← leftHypothesis sorted.of_left]
          exact inorder_fixUp _
      | eq =>
          rw [SortedAssoc.entryAt_same sorted order]
          refine Eq.trans ?_
            (SortedAssoc.insert_same sorted Std.ReflCmp.compare_self).symm
          exact inorder_fixUp _
      | gt =>
          have same : comparator aKey (SortedAssoc.storedKey comparator aKey
              right.inorderTraversal) = .eq :=
            SortedAssoc.compare_storedKey aKey right.inorderTraversal
          have larger := order
          rw [Std.TransCmp.congr_left same] at larger
          rw [SortedAssoc.entryAt_right sorted order]
          refine Eq.trans ?_ (SortedAssoc.insert_right sorted larger).symm
          rw [← rightHypothesis sorted.of_right]
          exact inorder_fixUp _

theorem predecessorKey_eq (key : Key) (rightParent : Option Key)
    (sorted : Sorted comparator self.inorderTraversal) :
    self.predecessorKey comparator key rightParent =
      (SortedAssoc.lookup comparator key self.inorderTraversal).map fun _ =>
        ((SortedAssoc.select comparator Ordering.isLT key
          self.inorderTraversal).getLast?.map Prod.fst).or rightParent := by
  induction self generalizing rightParent with
  | empty => rfl
  | value nodeKey nodeValue color left right leftHypothesis rightHypothesis =>
      rw [predecessorKey, inorderTraversal]
      rw [inorderTraversal] at sorted
      cases order : comparator key nodeKey with
      | lt =>
          have smaller : SortedAssoc.select comparator Ordering.isLT key
              (left.inorderTraversal ++
                (nodeKey, nodeValue) :: right.inorderTraversal) =
                SortedAssoc.select comparator Ordering.isLT key
                  left.inorderTraversal :=
            (SortedAssoc.select_left sorted order).trans (List.append_nil _)
          rw [SortedAssoc.lookup_left sorted order, smaller]
          exact leftHypothesis rightParent sorted.of_left
      | eq =>
          have smaller : SortedAssoc.select comparator Ordering.isLT key
              (left.inorderTraversal ++
                (nodeKey, nodeValue) :: right.inorderTraversal) =
                left.inorderTraversal := by
            rw [SortedAssoc.select_same sorted order]
            simp [Ordering.isLT]
          rw [SortedAssoc.lookup_same sorted order, smaller, ← maxKey_eq]
          cases left with
          | empty => rfl
          | value aKey aValue aColor first second =>
              change some (maxKey _) = some ((maxKey _).or rightParent)
              cases found : maxKey (value aKey aValue aColor first second) with
              | none => cases maxKey_eq_none found
              | some last => rfl
      | gt =>
          have smaller : SortedAssoc.select comparator Ordering.isLT key
              (left.inorderTraversal ++
                (nodeKey, nodeValue) :: right.inorderTraversal) =
                left.inorderTraversal ++ [(nodeKey, nodeValue)] ++
                  SortedAssoc.select comparator Ordering.isLT key
                    right.inorderTraversal :=
            SortedAssoc.select_right sorted order
          rw [SortedAssoc.lookup_right sorted order, smaller,
            List.getLast?_append, List.getLast?_concat]
          refine (rightHypothesis (some nodeKey) sorted.of_right).trans ?_
          congr 1
          funext _
          cases (SortedAssoc.select comparator Ordering.isLT key
            right.inorderTraversal).getLast? with
          | none => rfl
          | some last => rfl

end FLLRBNode

/-! ## The dictionary -/

structure FTreeSortedDictionary (Key : Type u) (Value : Type v) where
  root : FLLRBNode Key Value := .empty
  deriving DecidableEq

namespace FTreeSortedDictionary

variable {Key : Type u} {Value : Type v}

/-- What the operations keep of a tree: it is balanced, its root is black, and
its keys are in order. -/
structure Valid (comparator : Key → Key → Ordering)
    (dictionary : FTreeSortedDictionary Key Value) : Prop where
  balanced : ∃ depth, FLLRBNode.Balanced false depth dictionary.root
  sorted : Sorted comparator dictionary.root.inorderTraversal

variable (comparator : Key → Key → Ordering)
variable (self : FTreeSortedDictionary Key Value)

def insertKey (aKey : Key) (aValue : Value) :
    FTreeSortedDictionary Key Value :=
  { root := (self.root.insertKey comparator aKey aValue).withColor false }

def get (key : Key) : Option Value :=
  self.root.get comparator key

def contains (key : Key) : Bool :=
  (self.get comparator key).isSome

def removeKey (aKey : Key) : FTreeSortedDictionary Key Value :=
  if self.contains comparator aKey then
    { root := (self.root.remove comparator aKey).withColor false }
  else
    self

/-- `none` is the exception `NonexistentKey`. -/
def getPredecessorKey (key : Key) : Option (Option Key) :=
  self.root.predecessorKey comparator key none

def count : Nat :=
  self.root.count

variable {comparator self}

variable [Std.TransCmp comparator]

theorem get_eq_lookup (valid : Valid comparator self) (key : Key) :
    self.get comparator key =
      SortedAssoc.lookup comparator key self.root.inorderTraversal :=
  FLLRBNode.get_eq_lookup key valid.sorted

theorem getPredecessorKey_eq (valid : Valid comparator self) (key : Key) :
    self.getPredecessorKey comparator key =
      SortedAssoc.predecessor comparator key self.root.inorderTraversal := by
  rw [getPredecessorKey, FLLRBNode.predecessorKey_eq key none valid.sorted]
  rw [SortedAssoc.predecessor]
  congr 1
  funext _
  exact Option.or_none

theorem contains_iff (valid : Valid comparator self) (key : Key) :
    self.contains comparator key = true ↔
      ∃ entry ∈ self.root.inorderTraversal, comparator key entry.1 = .eq := by
  rw [contains, get_eq_lookup valid, SortedAssoc.lookup, Option.isSome_map,
    SortedAssoc.entryAt, List.find?_isSome]
  simp only [Ordering.isEq_iff_eq_eq]

theorem nonempty_of_contains (valid : Valid comparator self) {key : Key}
    (present : self.contains comparator key = true) :
    self.root.isEmpty = false := by
  rcases (contains_iff valid key).mp present with ⟨entry, member, _⟩
  cases listed : self.root with
  | empty =>
      rw [listed] at member
      cases member
  | value => rfl

theorem inorder_insertKey (valid : Valid comparator self) (aKey : Key)
    (aValue : Value) :
    (self.insertKey comparator aKey aValue).root.inorderTraversal =
      SortedAssoc.insert comparator
        (SortedAssoc.storedKey comparator aKey self.root.inorderTraversal)
        aValue self.root.inorderTraversal := by
  rw [insertKey, FLLRBNode.inorder_withColor]
  exact FLLRBNode.inorder_insertKey aKey aValue valid.sorted

theorem Valid.insertKey (valid : Valid comparator self) (aKey : Key)
    (aValue : Value) :
    Valid comparator (self.insertKey comparator aKey aValue) where
  balanced := by
    rcases valid.balanced with ⟨depth, balanced⟩
    rcases balanced.insertKey.2 rfl with ⟨color, grown⟩
    exact (FLLRBNode.Loose.of_balanced grown).withColor_black
  sorted := by
    rw [inorder_insertKey valid]
    exact valid.sorted.insert _ aValue

/-- A node with an entry is one that `remove` can start at. -/
theorem Valid.remove (valid : Valid comparator self) (aKey : Key)
    (nonempty : self.root.isEmpty = false) :
    (∃ depth, FLLRBNode.Balanced false depth
      ((self.root.remove comparator aKey).withColor false)) ∧
    (self.root.remove comparator aKey).inorderTraversal =
      SortedAssoc.erase comparator aKey self.root.inorderTraversal := by
  rcases valid.balanced with ⟨depth, balanced⟩
  cases depth with
  | zero =>
      rw [balanced.eq_empty] at nonempty
      cases nonempty
  | succ depth =>
      rcases balanced.two_or_three with two | three
      · have removed := FLLRBNode.Removable.remove self.root
          (.two two : FLLRBNode.Removable comparator aKey _ _) valid.sorted
        exact ⟨removed.1.withColor_black, removed.2⟩
      · have removed := FLLRBNode.Removable.remove self.root
          (.three three : FLLRBNode.Removable comparator aKey _ _)
          valid.sorted
        exact ⟨(FLLRBNode.Loose.of_balanced removed.1).withColor_black,
          removed.2⟩

theorem inorder_removeKey (valid : Valid comparator self) (aKey : Key) :
    (self.removeKey comparator aKey).root.inorderTraversal =
      SortedAssoc.erase comparator aKey self.root.inorderTraversal := by
  rw [removeKey]
  split
  · next present =>
    rw [FLLRBNode.inorder_withColor]
    exact (valid.remove aKey (nonempty_of_contains valid present)).2
  · next absent =>
    refine (SortedAssoc.erase_absent ?_).symm
    intro other member same
    exact absent ((contains_iff valid aKey).mpr ⟨other, member, same⟩)

theorem Valid.removeKey (valid : Valid comparator self) (aKey : Key) :
    Valid comparator (self.removeKey comparator aKey) where
  balanced := by
    rw [FTreeSortedDictionary.removeKey]
    split
    · next present =>
      exact (valid.remove aKey (nonempty_of_contains valid present)).1
    · exact valid.balanced
  sorted := by
    rw [inorder_removeKey valid]
    exact valid.sorted.erase aKey

end FTreeSortedDictionary

end Firebase
end PocketChef
