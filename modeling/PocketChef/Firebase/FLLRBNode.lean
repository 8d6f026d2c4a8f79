import PocketChef.Library.SortedAssoc
import Mathlib.Data.Nat.Bitwise

/-!
# The nodes of the client's sorted dictionaries

`FLLRBEmptyNode` and `FLLRBValueNode` are the nodes of a left-leaning
red-black tree.  The children of an empty node are `nil`, which answers a
message with `nil`, 0 or `NO` as an empty node does, and its `copyWith`
returns itself.  A red node has the colour `true`.

A result `none` of `check` is the exception that it throws.
-/

namespace PocketChef
namespace Firebase

universe u v

inductive FLLRBNode (Key : Type u) (Value : Type v) where
  | empty
  | value (key : Key) (value : Value) (color : Bool)
      (left right : FLLRBNode Key Value)
  deriving DecidableEq

namespace FLLRBNode

variable {Key : Type u} {Value : Type v}

def isEmpty : FLLRBNode Key Value → Bool
  | empty => true
  | value .. => false

def isRed : FLLRBNode Key Value → Bool
  | empty => false
  | value _ _ color _ _ => color

def left : FLLRBNode Key Value → FLLRBNode Key Value
  | empty => empty
  | value _ _ _ left _ => left

def right : FLLRBNode Key Value → FLLRBNode Key Value
  | empty => empty
  | value _ _ _ _ right => right

/-- `copyWith` with another colour. -/
def withColor (self : FLLRBNode Key Value) (color : Bool) :
    FLLRBNode Key Value :=
  match self with
  | empty => empty
  | value key val _ left right => value key val color left right

/-- `copyWith` with another left child. -/
def withLeft (self left : FLLRBNode Key Value) : FLLRBNode Key Value :=
  match self with
  | empty => empty
  | value key val color _ right => value key val color left right

/-- `copyWith` with another right child. -/
def withRight (self right : FLLRBNode Key Value) : FLLRBNode Key Value :=
  match self with
  | empty => empty
  | value key val color left _ => value key val color left right

/-- `copyWith` with another entry. -/
def withEntry (self : FLLRBNode Key Value) (entry : Key × Value) :
    FLLRBNode Key Value :=
  match self with
  | empty => empty
  | value _ _ color left right => value entry.1 entry.2 color left right

def count : FLLRBNode Key Value → Nat
  | empty => 0
  | value _ _ _ left right => left.count + 1 + right.count

/-- The entries in the order of `inorderTraversal`. -/
def inorderTraversal : FLLRBNode Key Value → List (Key × Value)
  | empty => []
  | value key val _ left right =>
      left.inorderTraversal ++ (key, val) :: right.inorderTraversal

/-- The entries in the order of `reverseTraversal`. -/
def reverseTraversal : FLLRBNode Key Value → List (Key × Value)
  | empty => []
  | value key val _ left right =>
      right.reverseTraversal ++ (key, val) :: left.reverseTraversal

/-- The entry of the node `min`. -/
def min : FLLRBNode Key Value → Option (Key × Value)
  | empty => none
  | value key val _ left _ =>
      if left.isEmpty then some (key, val) else left.min

def maxKey : FLLRBNode Key Value → Option Key
  | empty => none
  | value key _ _ _ right =>
      if right.isEmpty then some key else right.maxKey

def rotateLeft (self : FLLRBNode Key Value) : FLLRBNode Key Value :=
  let nl := (self.withColor true).withRight self.right.left
  (self.right.withColor self.isRed).withLeft nl

def rotateRight (self : FLLRBNode Key Value) : FLLRBNode Key Value :=
  let nr := (self.withColor true).withLeft self.left.right
  (self.left.withColor self.isRed).withRight nr

def colorFlip (self : FLLRBNode Key Value) : FLLRBNode Key Value :=
  let nleft := self.left.withColor !self.left.isRed
  let nright := self.right.withColor !self.right.isRed
  ((self.withColor !self.isRed).withLeft nleft).withRight nright

def fixUp (self : FLLRBNode Key Value) : FLLRBNode Key Value :=
  let n := self
  let n := if n.right.isRed && !n.left.isRed then n.rotateLeft else n
  let n := if n.left.isRed && n.left.left.isRed then n.rotateRight else n
  if n.left.isRed && n.right.isRed then n.colorFlip else n

def moveRedLeft (self : FLLRBNode Key Value) : FLLRBNode Key Value :=
  let n := self.colorFlip
  if n.right.left.isRed then
    ((n.withRight n.right.rotateRight).rotateLeft).colorFlip
  else
    n

def moveRedRight (self : FLLRBNode Key Value) : FLLRBNode Key Value :=
  let n := self.colorFlip
  if n.left.left.isRed then n.rotateRight.colorFlip else n

def insertKey (comparator : Key → Key → Ordering) (aKey : Key)
    (aValue : Value) : FLLRBNode Key Value → FLLRBNode Key Value
  | empty => value aKey aValue true empty empty
  | value key val color left right =>
      match comparator aKey key with
      | .lt =>
          (value key val color (left.insertKey comparator aKey aValue)
            right).fixUp
      | .eq => (value key aValue color left right).fixUp
      | .gt =>
          (value key val color left
            (right.insertKey comparator aKey aValue)).fixUp

section Fields

variable (key : Key) (val : Value) (color : Bool)
variable (left right : FLLRBNode Key Value)

@[simp]
theorem left_value : (value key val color left right).left = left :=
  rfl

@[simp]
theorem right_value : (value key val color left right).right = right :=
  rfl

@[simp]
theorem isRed_value : (value key val color left right).isRed = color :=
  rfl

@[simp]
theorem withColor_value (other : Bool) :
    (value key val color left right).withColor other =
      value key val other left right :=
  rfl

@[simp]
theorem withLeft_value (other : FLLRBNode Key Value) :
    (value key val color left right).withLeft other =
      value key val color other right :=
  rfl

@[simp]
theorem withRight_value (other : FLLRBNode Key Value) :
    (value key val color left right).withRight other =
      value key val color left other :=
  rfl

end Fields

/-! ## The size of a node -/

@[simp]
theorem count_withColor (self : FLLRBNode Key Value) (color : Bool) :
    (self.withColor color).count = self.count := by
  cases self <;> rfl

theorem count_colorFlip (self : FLLRBNode Key Value) :
    self.colorFlip.count = self.count := by
  cases self with
  | empty => rfl
  | value key val color left right =>
      change (left.withColor _).count + 1 + (right.withColor _).count = _
      rw [count_withColor, count_withColor]
      rfl

theorem count_rotateRight_le (self : FLLRBNode Key Value) :
    self.rotateRight.count ≤ self.count := by
  cases self with
  | empty => exact Nat.le_refl _
  | value key val color left right =>
      cases left with
      | empty => exact Nat.zero_le _
      | value =>
          simp only [rotateRight, withColor, withLeft, withRight, count,
            FLLRBNode.left, FLLRBNode.right]
          omega

theorem count_rotateLeft_le (self : FLLRBNode Key Value) :
    self.rotateLeft.count ≤ self.count := by
  cases self with
  | empty => exact Nat.le_refl _
  | value key val color left right =>
      cases right with
      | empty => exact Nat.zero_le _
      | value =>
          simp only [rotateLeft, withColor, withLeft, withRight, count,
            FLLRBNode.left, FLLRBNode.right]
          omega

theorem count_withRight_le (self right : FLLRBNode Key Value)
    (smaller : right.count ≤ self.right.count) :
    (self.withRight right).count ≤ self.count := by
  cases self with
  | empty => exact Nat.le_refl _
  | value =>
      simp only [FLLRBNode.right] at smaller
      simp only [withRight, count]
      omega

theorem count_moveRedLeft_le (self : FLLRBNode Key Value) :
    self.moveRedLeft.count ≤ self.count := by
  rw [moveRedLeft, ← count_colorFlip self]
  generalize self.colorFlip = n
  split
  · rw [count_colorFlip]
    exact Nat.le_trans (count_rotateLeft_le _)
      (count_withRight_le _ _ (count_rotateRight_le _))
  · exact Nat.le_refl _

theorem count_moveRedRight_le (self : FLLRBNode Key Value) :
    self.moveRedRight.count ≤ self.count := by
  rw [moveRedRight, ← count_colorFlip self]
  generalize self.colorFlip = n
  split
  · rw [count_colorFlip]
    exact count_rotateRight_le _
  · exact Nat.le_refl _

theorem count_left_lt {self : FLLRBNode Key Value}
    (nonempty : self.isEmpty = false) : self.left.count < self.count := by
  cases self with
  | empty => cases nonempty
  | value =>
      simp only [FLLRBNode.left, count]
      omega

theorem count_right_lt {self : FLLRBNode Key Value}
    (nonempty : self.isEmpty = false) : self.right.count < self.count := by
  cases self with
  | empty => cases nonempty
  | value =>
      simp only [FLLRBNode.right, count]
      omega

theorem count_fixUp_le (self : FLLRBNode Key Value) :
    self.fixUp.count ≤ self.count := by
  have leftRotated (n : FLLRBNode Key Value) :
      (if n.right.isRed && !n.left.isRed then n.rotateLeft else n).count ≤
        n.count := by
    split
    · exact count_rotateLeft_le n
    · exact Nat.le_refl _
  have rightRotated (n : FLLRBNode Key Value) :
      (if n.left.isRed && n.left.left.isRed then n.rotateRight else n).count ≤
        n.count := by
    split
    · exact count_rotateRight_le n
    · exact Nat.le_refl _
  have flipped (n : FLLRBNode Key Value) :
      (if n.left.isRed && n.right.isRed then n.colorFlip else n).count ≤
        n.count := by
    split
    · exact Nat.le_of_eq (count_colorFlip n)
    · exact Nat.le_refl _
  exact Nat.le_trans (flipped _)
    (Nat.le_trans (rightRotated _) (leftRotated self))

/-- The left child of a node that is no larger than a non-empty one. -/
theorem count_left_lt_of_le {self n : FLLRBNode Key Value}
    (nonempty : self.isEmpty = false) (smaller : n.count ≤ self.count) :
    n.left.count < self.count := by
  have positive := count_left_lt nonempty
  cases n with
  | empty => exact Nat.lt_of_le_of_lt (Nat.zero_le _) positive
  | value => exact Nat.lt_of_lt_of_le (count_left_lt rfl) smaller

theorem count_right_lt_of_le {self n : FLLRBNode Key Value}
    (nonempty : self.isEmpty = false) (smaller : n.count ≤ self.count) :
    n.right.count < self.count := by
  have positive := count_right_lt nonempty
  cases n with
  | empty => exact Nat.lt_of_le_of_lt (Nat.zero_le _) positive
  | value => exact Nat.lt_of_lt_of_le (count_right_lt rfl) smaller

/-! ## Removing -/

/-- The first step of `remove` on the way to a smaller key, and of `removeMin`
where the left child is not empty. -/
def borrowLeft (self : FLLRBNode Key Value) : FLLRBNode Key Value :=
  if !self.left.isEmpty && !self.left.isRed && !self.left.left.isRed then
    self.moveRedLeft
  else
    self

theorem count_borrowLeft_le (self : FLLRBNode Key Value) :
    self.borrowLeft.count ≤ self.count := by
  rw [borrowLeft]
  split
  · exact count_moveRedLeft_le self
  · exact Nat.le_refl _

def removeMin (self : FLLRBNode Key Value) : FLLRBNode Key Value :=
  if _nonempty : self.left.isEmpty = false then
    let n := self.borrowLeft
    (n.withLeft n.left.removeMin).fixUp
  else
    empty
termination_by self.count
decreasing_by
  apply count_left_lt_of_le _ (count_borrowLeft_le self)
  cases self with
  | empty => cases _nonempty
  | value => rfl

theorem count_withLeft_le (self left : FLLRBNode Key Value)
    (smaller : left.count ≤ self.left.count) :
    (self.withLeft left).count ≤ self.count := by
  cases self with
  | empty => exact Nat.le_refl _
  | value =>
      simp only [FLLRBNode.left] at smaller
      simp only [withLeft, count]
      omega

theorem count_removeMin_le (self : FLLRBNode Key Value) :
    self.removeMin.count ≤ self.count := by
  fun_induction removeMin self with
  | case1 self nonempty n smaller =>
      refine Nat.le_trans (count_fixUp_le _) ?_
      refine Nat.le_trans (count_withLeft_le _ _ smaller) ?_
      exact count_borrowLeft_le self
  | case2 self => exact Nat.zero_le _

/-- The first step of `remove` on the way to the key or to a larger one. -/
def leanRight (self : FLLRBNode Key Value) : FLLRBNode Key Value :=
  if self.left.isRed then self.rotateRight else self

/-- The second step, which makes the right child red, or its left child. -/
def borrowRight (self : FLLRBNode Key Value) : FLLRBNode Key Value :=
  let n := self.leanRight
  if !n.right.isEmpty && !n.right.isRed && !n.right.left.isRed then
    n.moveRedRight
  else
    n

theorem count_borrowRight_le (self : FLLRBNode Key Value) :
    self.borrowRight.count ≤ self.count := by
  have rotated : self.leanRight.count ≤ self.count := by
    rw [leanRight]
    split
    · exact count_rotateRight_le self
    · exact Nat.le_refl _
  rw [borrowRight]
  split
  · exact Nat.le_trans (count_moveRedRight_le _) rotated
  · exact rotated

/-- `comparator(aKey, n.key)`. -/
def compareKey (comparator : Key → Key → Ordering) (aKey : Key) :
    FLLRBNode Key Value → Ordering
  | empty => .eq
  | value key _ _ _ _ => comparator aKey key

/-- The smallest entry of the right subtree takes the place of the entry. -/
def replaceByMin (self : FLLRBNode Key Value) : FLLRBNode Key Value :=
  match self.right.min with
  | none => self
  | some smallest =>
      (self.withEntry smallest).withRight self.right.removeMin

theorem count_right_replaceByMin_le (self : FLLRBNode Key Value) :
    self.replaceByMin.right.count ≤ self.right.count := by
  rw [replaceByMin]
  split
  · exact Nat.le_refl _
  · cases self with
    | empty => exact Nat.le_refl _
    | value => exact count_removeMin_le _

def remove (comparator : Key → Key → Ordering) (aKey : Key)
    (self : FLLRBNode Key Value) : FLLRBNode Key Value :=
  if _nonempty : self.isEmpty = false then
    if self.compareKey comparator aKey = .lt then
      let n := self.borrowLeft
      (n.withLeft (n.left.remove comparator aKey)).fixUp
    else
      let n := self.borrowRight
      if n.compareKey comparator aKey = .eq then
        if n.right.isEmpty then
          empty
        else
          let n := n.replaceByMin
          (n.withRight (n.right.remove comparator aKey)).fixUp
      else
        (n.withRight (n.right.remove comparator aKey)).fixUp
  else
    empty
termination_by self.count
decreasing_by
  · exact count_left_lt_of_le _nonempty (count_borrowLeft_le self)
  · refine Nat.lt_of_le_of_lt (count_right_replaceByMin_le _) ?_
    exact count_right_lt_of_le _nonempty (count_borrowRight_le self)
  · exact count_right_lt_of_le _nonempty (count_borrowRight_le self)

/-- The black depth of a node, where every path to an empty node agrees on it
and the red nodes lean to the left. -/
def check : FLLRBNode Key Value → Option Nat
  | empty => some 0
  | value _ _ color left right =>
      if color && left.isRed then none
      else if right.isRed then none
      else do
        let blackDepth ← left.check
        let other ← right.check
        if blackDepth ≠ other then none
        else some (blackDepth + if color then 0 else 1)

/-- Whether the black depth is logarithmic in the size. -/
def checkMaxDepth (self : FLLRBNode Key Value) : Option Bool :=
  self.check.map fun blackDepth => decide (2 ^ blackDepth ≤ self.count + 1)

end FLLRBNode

end Firebase
end PocketChef
