import PocketChef.Firebase.FNode

/-!
# The leaves of a node

A node is given by the leaves below it.  An update on a path takes away the
leaves below the path, and the leaves above it if something is put there.
-/

namespace PocketChef
namespace Firebase

universe u v

open SortedAssoc (Sorted lookup)
open PathStrip

namespace FNode

variable {Key : Type u} {Value : Type v}

def leafValue : FNode Key Value → Option Value
  | leaf value _ => some value
  | children _ _ => none

/-- The value of the leaf at the end of a path. -/
def leafAt (comparator : Key → Key → Ordering) (node : FNode Key Value)
    (path : List Key) : Option Value :=
  (node.getChild comparator path).leafValue

variable {comparator : Key → Key → Ordering} {named : Key → Prop}
variable {node new : FNode Key Value}
variable {entries : List (Key × FNode Key Value)} {priority : Option Value}

theorem leafAt_append (node : FNode Key Value) (first second : List Key) :
    node.leafAt comparator (first ++ second) =
      (node.getChild comparator first).leafAt comparator second := by
  rw [leafAt, getChild_append]
  rfl

@[simp]
theorem leafAt_emptyNode (path : List Key) :
    (emptyNode : FNode Key Value).leafAt comparator path = none := by
  rw [leafAt, getChild_emptyNode]
  rfl

theorem leafValue_updateEntries (childName : Key) :
    (updateEntries comparator entries priority childName new).leafValue =
      none := by
  rw [updateEntries]
  split
  · split <;> rfl
  · split <;> rfl

theorem leafValue_updatePriority (priority : Option Value) :
    (node.updatePriority priority).leafValue = node.leafValue := by
  cases node with
  | leaf value old => rfl
  | children entries old =>
      rw [updatePriority]
      split <;> rfl

/-- A leaf gives way to an update below it that is not empty. -/
theorem leafValue_updateChild_cons (front : Key) (rest : List Key) :
    (node.updateChild comparator (front :: rest) new).leafValue =
      if new.isEmpty then node.leafValue else none := by
  cases node with
  | children entries priority =>
      rw [updateChild_children_cons]
      exact (leafValue_updateEntries front).trans (ite_self _).symm
  | leaf value priority =>
      rw [updateChild_leaf_cons]
      cases empty : new.isEmpty with
      | true => rfl
      | false =>
          have filled : ¬ ((emptyNode : FNode Key Value).updateChild comparator
              rest new).isEmpty = true := by
            rw [isEmpty_updateChild empty]
            decide
          rw [if_neg Bool.false_ne_true, if_neg Bool.false_ne_true,
            updateImmediateChild, if_neg filled, leafValue_updatePriority]
          exact leafValue_updateEntries front

variable [Std.TransCmp comparator]

/-- The leaves after an update. -/
theorem leafAt_updateChild (wellFormed : WellFormed comparator named node)
    (newWellFormed : WellFormed comparator named new) {path : List Key}
    (names : ∀ key ∈ path, named key) (other : List Key) :
    (node.updateChild comparator path new).leafAt comparator other =
      match strip comparator path other with
      | some rest => new.leafAt comparator rest
      | none =>
          if (strip comparator other path).isSome ∧ new.isEmpty = false then
            none
          else node.leafAt comparator other := by
  rw [leafAt, getChild_updateChild wellFormed newWellFormed names]
  cases below : strip comparator path other with
  | some rest => rfl
  | none =>
      cases above : strip comparator other path with
      | none => rfl
      | some rest =>
          cases rest with
          | nil =>
              rw [strip_swap above] at below
              cases below
          | cons front rest =>
              dsimp only
              rw [leafValue_updateChild_cons]
              cases new.isEmpty <;> simp [leafAt]

end FNode

end Firebase
end PocketChef
