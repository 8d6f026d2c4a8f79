import PocketChef.Firebase.FTreeSortedDictionary

/-!
# Enumerators of a tree

An enumerator keeps a stack of the nodes whose entries it still has to give
out, the next one on top.  Below each of them, it also has to give out the
right subtree, or the left one in reverse.

Without a start key every comparison counts as "larger", also in reverse, where
the comparison is flipped.  The constructor then passes all nodes by.
-/

namespace PocketChef
namespace Firebase

universe u v

open SortedAssoc (Sorted select)

variable {Key : Type u} {Value : Type v}

namespace FLLRBNode

/-- The loop of the constructor from a node on. -/
def startStack (comparator : Key → Key → Ordering) (startKey : Option Key)
    (isReverse : Bool) : FLLRBNode Key Value →
      List (FLLRBNode Key Value) → List (FLLRBNode Key Value)
  | empty, stack => stack
  | value key val color left right, stack =>
      let cmp := (startKey.map (comparator key)).getD .gt
      match if isReverse then cmp.swap else cmp with
      | .lt =>
          if isReverse then left.startStack comparator startKey true stack
          else right.startStack comparator startKey false stack
      | .eq => value key val color left right :: stack
      | .gt =>
          let stack := value key val color left right :: stack
          if isReverse then right.startStack comparator startKey true stack
          else left.startStack comparator startKey false stack

/-- The loop of `nextObject`, which pushes a node and those to the left of it,
or to the right in reverse. -/
def pushAll (isReverse : Bool) : FLLRBNode Key Value →
    List (FLLRBNode Key Value) → List (FLLRBNode Key Value)
  | empty, stack => stack
  | value key val color left right, stack =>
      let stack := value key val color left right :: stack
      if isReverse then right.pushAll true stack
      else left.pushAll false stack

/-- What an enumerator gives out for a node on its stack. -/
def onward (isReverse : Bool) : FLLRBNode Key Value → List (Key × Value)
  | empty => []
  | value key val _ left right =>
      (key, val) ::
        if isReverse then left.reverseTraversal else right.inorderTraversal

/-- The entries in the direction of an enumeration. -/
def traversal (isReverse : Bool) (self : FLLRBNode Key Value) :
    List (Key × Value) :=
  if isReverse then self.reverseTraversal else self.inorderTraversal

theorem nonempty_pushAll {isReverse : Bool} {self : FLLRBNode Key Value}
    {stack : List (FLLRBNode Key Value)}
    (nonempty : ∀ node ∈ stack, node.isEmpty = false) :
    ∀ node ∈ self.pushAll isReverse stack, node.isEmpty = false := by
  induction self generalizing stack with
  | empty => exact nonempty
  | value key val color left right leftHypothesis rightHypothesis =>
      have pushed : ∀ node ∈ value key val color left right :: stack,
          node.isEmpty = false := by
        intro node member
        rcases List.mem_cons.mp member with rfl | below
        · rfl
        · exact nonempty node below
      cases isReverse with
      | true => exact rightHypothesis pushed
      | false => exact leftHypothesis pushed

theorem nonempty_startStack {comparator : Key → Key → Ordering}
    {startKey : Option Key} {isReverse : Bool} {self : FLLRBNode Key Value}
    {stack : List (FLLRBNode Key Value)}
    (nonempty : ∀ node ∈ stack, node.isEmpty = false) :
    ∀ node ∈ self.startStack comparator startKey isReverse stack,
      node.isEmpty = false := by
  induction self generalizing stack with
  | empty => exact nonempty
  | value key val color left right leftHypothesis rightHypothesis =>
      have pushed : ∀ node ∈ value key val color left right :: stack,
          node.isEmpty = false := by
        intro node member
        rcases List.mem_cons.mp member with rfl | below
        · rfl
        · exact nonempty node below
      rw [startStack]
      dsimp only
      split
      · cases isReverse with
        | true => exact leftHypothesis nonempty
        | false => exact rightHypothesis nonempty
      · exact pushed
      · cases isReverse with
        | true => exact rightHypothesis pushed
        | false => exact leftHypothesis pushed

/-- Pushing a node adds its entries to what is given out. -/
theorem onward_pushAll (isReverse : Bool) (self : FLLRBNode Key Value)
    (stack : List (FLLRBNode Key Value)) :
    (self.pushAll isReverse stack).flatMap (onward isReverse) =
      self.traversal isReverse ++ stack.flatMap (onward isReverse) := by
  induction self generalizing stack with
  | empty => cases isReverse <;> rfl
  | value key val color left right leftHypothesis rightHypothesis =>
      cases isReverse with
      | true =>
          refine (rightHypothesis _).trans ?_
          simp [traversal, onward, reverseTraversal]
      | false =>
          refine (leftHypothesis _).trans ?_
          simp [traversal, onward, inorderTraversal]

end FLLRBNode

structure FTreeSortedDictionaryEnumerator (Key : Type u) (Value : Type v)
    where
  stack : List (FLLRBNode Key Value)
  isReverse : Bool
  nonempty : ∀ node ∈ stack, node.isEmpty = false

namespace FTreeSortedDictionaryEnumerator

/-- `initWithImmutableSortedDictionary:startKey:isReverse:`. -/
def start (comparator : Key → Key → Ordering)
    (aDict : FTreeSortedDictionary Key Value) (startKey : Option Key)
    (isReverse : Bool) : FTreeSortedDictionaryEnumerator Key Value where
  stack := aDict.root.startStack comparator startKey isReverse []
  isReverse := isReverse
  nonempty := FLLRBNode.nonempty_startStack fun _ member =>
    absurd member List.not_mem_nil

/-- The key of the top node, and the enumerator after it. -/
def nextObject (self : FTreeSortedDictionaryEnumerator Key Value) :
    Option (Key × FTreeSortedDictionaryEnumerator Key Value) :=
  match stacked : self.stack with
  | .value key _ _ left right :: stack =>
      let next := if self.isReverse then left else right
      some (key,
        { stack := next.pushAll self.isReverse stack
          isReverse := self.isReverse
          nonempty := FLLRBNode.nonempty_pushAll fun node member =>
            self.nonempty node (stacked ▸ List.mem_cons_of_mem _ member) })
  | _ => none

/-- The entries that an enumerator has not given out. -/
def remaining (self : FTreeSortedDictionaryEnumerator Key Value) :
    List (Key × Value) :=
  self.stack.flatMap (FLLRBNode.onward self.isReverse)

variable {self next : FTreeSortedDictionaryEnumerator Key Value} {key : Key}

theorem remaining_of_some (given : self.nextObject = some (key, next)) :
    ∃ value, self.remaining = (key, value) :: next.remaining := by
  rw [nextObject] at given
  split at given
  · next nodeKey nodeValue color left right stack stacked =>
    obtain ⟨rfl, rfl⟩ := Prod.mk.inj (Option.some.inj given)
    have top : self.remaining =
        (FLLRBNode.value nodeKey nodeValue color left right ::
          stack).flatMap (FLLRBNode.onward self.isReverse) := by
      rw [remaining, stacked]
    refine ⟨nodeValue, ?_⟩
    rw [top, remaining, FLLRBNode.onward_pushAll, List.flatMap_cons,
      FLLRBNode.onward, FLLRBNode.traversal]
    cases self.isReverse <;> rfl
  · cases given

theorem remaining_of_none (given : self.nextObject = none) :
    self.remaining = [] := by
  rw [nextObject] at given
  split at given
  · cases given
  · next others =>
    cases stacked : self.stack with
    | nil =>
        rw [remaining, stacked]
        rfl
    | cons node stack =>
        have nonempty := self.nonempty node
          (stacked ▸ List.mem_cons_self)
        cases node with
        | empty => cases nonempty
        | value key val color left right =>
            exact absurd stacked (others key val color left right stack)

/-- All the objects that `nextObject` gives out until it returns `nil`. -/
def allObjects (self : FTreeSortedDictionaryEnumerator Key Value) :
    List Key :=
  match _given : self.nextObject with
  | some (key, next) => key :: next.allObjects
  | none => []
termination_by self.remaining.length
decreasing_by
  rcases remaining_of_some _given with ⟨value, more⟩
  rw [more]
  exact Nat.lt_succ_self _

theorem allObjects_eq (self : FTreeSortedDictionaryEnumerator Key Value) :
    self.allObjects = self.remaining.map Prod.fst := by
  fun_induction allObjects self with
  | case1 self key next given inductionHypothesis =>
      rcases remaining_of_some given with ⟨value, more⟩
      rw [inductionHypothesis, more]
      rfl
  | case2 self given =>
      rw [remaining_of_none given]
      rfl

end FTreeSortedDictionaryEnumerator

/-! ## The start of an enumeration -/

namespace FLLRBNode

variable {comparator : Key → Key → Ordering} [Std.TransCmp comparator]
variable {self : FLLRBNode Key Value} (startKey : Key)
variable (stack : List (FLLRBNode Key Value))

/-- From a start key on, the entries that are not smaller. -/
theorem startStack_forward
    (sorted : Sorted comparator self.inorderTraversal) :
    (self.startStack comparator (some startKey) false stack).flatMap
      (onward false) =
        select comparator Ordering.isGE startKey self.inorderTraversal ++
          stack.flatMap (onward false) := by
  induction self generalizing stack with
  | empty => rfl
  | value key val color left right leftHypothesis rightHypothesis =>
      rw [inorderTraversal] at sorted
      rw [startStack, inorderTraversal]
      dsimp only [Option.map_some, Option.getD_some]
      cases order : comparator key startKey with
      | lt =>
          have larger : comparator startKey key = .gt :=
            Std.OrientedCmp.gt_of_lt order
          rw [SortedAssoc.select_right sorted larger]
          exact rightHypothesis stack sorted.of_right
      | eq =>
          have same : comparator startKey key = .eq :=
            Std.OrientedCmp.eq_symm order
          rw [SortedAssoc.select_same sorted same]
          rfl
      | gt =>
          have smaller : comparator startKey key = .lt :=
            Std.OrientedCmp.lt_of_gt order
          rw [SortedAssoc.select_left sorted smaller]
          refine (leftHypothesis _ sorted.of_left).trans ?_
          rw [List.flatMap_cons, List.append_assoc]
          rfl

/-- In reverse, from the start key down, the entries that are not larger. -/
theorem startStack_reverse
    (sorted : Sorted comparator self.inorderTraversal) :
    (self.startStack comparator (some startKey) true stack).flatMap
      (onward true) =
        (select comparator Ordering.isLE startKey
          self.inorderTraversal).reverse ++ stack.flatMap (onward true) := by
  induction self generalizing stack with
  | empty => rfl
  | value key val color left right leftHypothesis rightHypothesis =>
      rw [inorderTraversal] at sorted
      rw [startStack, inorderTraversal]
      dsimp only [Option.map_some, Option.getD_some]
      cases order : comparator key startKey with
      | lt =>
          have larger : comparator startKey key = .gt :=
            Std.OrientedCmp.gt_of_lt order
          rw [SortedAssoc.select_right sorted larger]
          refine (rightHypothesis _ sorted.of_right).trans ?_
          rw [if_pos (by rfl), List.reverse_append, List.reverse_append,
            List.append_assoc, List.flatMap_cons, onward,
            ← reverseTraversal_eq]
          rfl
      | eq =>
          have same : comparator startKey key = .eq :=
            Std.OrientedCmp.eq_symm order
          have kept : select comparator Ordering.isLE startKey
              (left.inorderTraversal ++ (key, val) ::
                right.inorderTraversal) =
                left.inorderTraversal ++ [(key, val)] :=
            (SortedAssoc.select_same sorted same).trans (List.append_nil _)
          rw [kept, List.reverse_append, ← reverseTraversal_eq]
          rfl
      | gt =>
          have smaller : comparator startKey key = .lt :=
            Std.OrientedCmp.lt_of_gt order
          have kept : select comparator Ordering.isLE startKey
              (left.inorderTraversal ++ (key, val) ::
                right.inorderTraversal) =
                select comparator Ordering.isLE startKey
                  left.inorderTraversal :=
            (SortedAssoc.select_left sorted smaller).trans (List.append_nil _)
          rw [kept]
          exact leftHypothesis _ sorted.of_left

omit [Std.TransCmp comparator] in
theorem startStack_all :
    (self.startStack comparator none false stack).flatMap (onward false) =
      self.inorderTraversal ++ stack.flatMap (onward false) := by
  induction self generalizing stack with
  | empty => rfl
  | value key val color left right leftHypothesis rightHypothesis =>
      refine (leftHypothesis _).trans ?_
      rw [inorderTraversal, List.flatMap_cons, List.append_assoc]
      rfl

omit [Std.TransCmp comparator] in
/-- Without a start key, a reverse enumeration starts below the first
entry. -/
theorem startStack_none_reverse :
    self.startStack comparator none true stack = stack := by
  induction self with
  | empty => rfl
  | value key val color left right leftHypothesis rightHypothesis =>
      exact leftHypothesis

end FLLRBNode

namespace FTreeSortedDictionary

variable (comparator : Key → Key → Ordering)
variable (self : FTreeSortedDictionary Key Value)

def keyEnumerator : FTreeSortedDictionaryEnumerator Key Value :=
  .start comparator self none false

def keyEnumeratorFrom (startKey : Key) :
    FTreeSortedDictionaryEnumerator Key Value :=
  .start comparator self (some startKey) false

def reverseKeyEnumerator : FTreeSortedDictionaryEnumerator Key Value :=
  .start comparator self none true

def reverseKeyEnumeratorFrom (startKey : Key) :
    FTreeSortedDictionaryEnumerator Key Value :=
  .start comparator self (some startKey) true

variable {comparator self}

theorem keyEnumerator_allObjects :
    (self.keyEnumerator comparator).allObjects =
      self.root.inorderTraversal.map Prod.fst := by
  rw [FTreeSortedDictionaryEnumerator.allObjects_eq]
  exact congrArg _
    ((FLLRBNode.startStack_all []).trans (List.append_nil _))

theorem reverseKeyEnumerator_allObjects :
    (self.reverseKeyEnumerator comparator).allObjects = [] := by
  rw [FTreeSortedDictionaryEnumerator.allObjects_eq]
  exact congrArg (fun stack =>
    (List.flatMap (FLLRBNode.onward true) stack).map Prod.fst)
      (FLLRBNode.startStack_none_reverse [])

variable [Std.TransCmp comparator]

theorem keyEnumeratorFrom_allObjects (valid : Valid comparator self)
    (startKey : Key) :
    (self.keyEnumeratorFrom comparator startKey).allObjects =
      (select comparator Ordering.isGE startKey
        self.root.inorderTraversal).map Prod.fst := by
  rw [FTreeSortedDictionaryEnumerator.allObjects_eq]
  exact congrArg _ ((FLLRBNode.startStack_forward startKey []
    valid.sorted).trans (List.append_nil _))

theorem reverseKeyEnumeratorFrom_allObjects (valid : Valid comparator self)
    (startKey : Key) :
    (self.reverseKeyEnumeratorFrom comparator startKey).allObjects =
      ((select comparator Ordering.isLE startKey
        self.root.inorderTraversal).reverse).map Prod.fst := by
  rw [FTreeSortedDictionaryEnumerator.allObjects_eq]
  exact congrArg _ ((FLLRBNode.startStack_reverse startKey []
    valid.sorted).trans (List.append_nil _))

end FTreeSortedDictionary

end Firebase
end PocketChef
