import PocketChef.Firebase.Database
import PocketChef.Firebase.NodeLeaves
import PocketChef.Firebase.NodeRoundTrip

/-!
# The nodes of writes

A write of the app is turned into a node before the client keeps it.  If the
keys of the write are valid, all checks pass, and the leaves of the node are
what the database has below the path after the write.
-/

namespace PocketChef
namespace Firebase

open KeyedTree (lookup_remove lookup_setFields)
open FUtilities (compareKey)
open FValidation
open FSnapshotUtilities
open PathStrip

/-- The object that is given for a value. -/
def Value.object : Value → NSObject FiniteDouble
  | .string text => .string text
  | .number value => .number value

def kDotInfoPrefix : String :=
  ".info"

/-- `validateFrom:writablePath:`. -/
def FValidation.validateWritablePath (fn : String) (path : Path) :
    Except NSException Unit :=
  if path.head? = some kDotInfoPrefix then
    .error {
      name := "WritablePathValidation"
      reason := "(" ++ fn ++ ") failed to path " ++
        (if path.isEmpty then "/" else
          String.join (path.map fun piece => "/" ++ piece)) ++
        ": Can't modify data under " ++ kDotInfoPrefix }
  else .ok ()

namespace Write

/-- `setValueInternal:andPriority:withCompletionBlock:from:` up to the block
that it dispatches, for `setValue:` and `removeValue:`. -/
def newNode (foundation : Foundation FiniteDouble) :
    Write → Except NSException (Node FiniteDouble)
  | .setValue path fields => do
      validateWritablePath "setValue:" path
      nodeFrom foundation "setValue:"
        (.dictionary (fields.map fun field => (field.1, field.2.object)))
        .null
  | .removeValue path => do
      validateWritablePath "removeValue:" path
      nodeFrom foundation "removeValue:" .null .null

/-- The node of a write that passes the checks. -/
def node : Write → Node FiniteDouble
  | .setValue _ fields =>
      .children (SortedAssoc.sort compareKey
        (fields.map fun field => (field.1, .leaf field.2.object none))) none
  | .removeValue _ => .emptyNode

/-- The keys of a write are `named` and valid, and what it sets is one level
of fields, none of which is too long. -/
inductive Accepted (named : String → Prop) : Write → Prop
  | setValue {path : Path} {fields : List (String × Value)}
      (place : ∀ key ∈ path, named key) (some : fields ≠ [])
      (names : ∀ field ∈ fields, named field.1)
      (different : (fields.map Prod.fst).Nodup)
      (short : ∀ field ∈ fields, ∀ text, field.2 = .string text →
        text.utf8ByteSize ≤ kFirebaseMaxLeafSize) :
      Accepted named (.setValue path fields)
  | removeValue {path : Path} (place : ∀ key ∈ path, named key) :
      Accepted named (.removeValue path)

variable {named : String → Prop} {write : Write}
variable {foundation : Foundation FiniteDouble}

theorem Accepted.place (accepted : Accepted named write) :
    ∀ key ∈ write.path, named key := by
  cases accepted with
  | setValue place some names different short => exact place
  | removeValue place => exact place

/-- The objects of the fields of a write. -/
abbrev objects (fields : List (String × Value)) :
    List (String × NSObject FiniteDouble) :=
  fields.map fun field => (field.1, field.2.object)

/-- The leaves of the fields of a write. -/
abbrev leaves (fields : List (String × Value)) :
    List (String × Node FiniteDouble) :=
  fields.map fun field => (field.1, .leaf field.2.object none)

/-! ## The checks pass -/

theorem isEmpty_sort_leaves {fields : List (String × Value)}
    (some : fields ≠ []) :
    (SortedAssoc.sort compareKey (leaves fields)).isEmpty = false := by
  rw [List.isEmpty_eq_false_iff]
  intro nothing
  have perm := @SortedAssoc.sort_perm _ _ compareKey (leaves fields)
  rw [nothing] at perm
  exact some (List.map_eq_nil_iff.mp perm.symm.eq_nil)

theorem leafValue_object
    (finite : ∀ value, foundation.isNotANumber value = false)
    {value : Value}
    (short : ∀ text, value = .string text →
      text.utf8ByteSize ≤ kFirebaseMaxLeafSize) :
    LeafValue foundation value.object := by
  cases value with
  | string text => exact .string (short text rfl)
  | number number => exact .number (finite number)

theorem membersFrom_objects
    (finite : ∀ value, foundation.isNotANumber value = false)
    {fn : String} {fields : List (String × Value)}
    (names : ∀ field ∈ fields, isValidKey field.1 = true)
    (short : ∀ field ∈ fields, ∀ text, field.2 = .string text →
      text.utf8ByteSize ≤ kFirebaseMaxLeafSize) :
    membersFrom foundation fn 0 [] (objects fields) = .ok (leaves fields) := by
  induction fields with
  | nil =>
      change membersFrom foundation fn 0 [] [] = .ok []
      rw [membersFrom]
      rfl
  | cons field rest inductionHypothesis =>
      have valid := names field List.mem_cons_self
      have later := inductionHypothesis
        (fun other member => names other (List.mem_cons_of_mem field member))
        fun other member => short other (List.mem_cons_of_mem field member)
      have kept : LeafValue foundation field.2.object :=
        leafValue_object finite (short field List.mem_cons_self)
      have leaf : leafBack field.2.object none = .leaf field.2.object none := by
        cases field.2 <;> rfl
      rw [objects, List.map_cons, membersFrom,
        validDictionaryKey_of_isValidKey valid, ok_bind,
        if_neg (head_ne_of_isValidKey valid),
        internalNodeFrom_leafValue (by decide) kept, ok_bind, leaf]
      change (membersFrom foundation fn 0 [] (objects rest) >>= _) = _
      rw [later]
      rfl

theorem lookup_objects {fields : List (String × Value)}
    (names : ∀ field ∈ fields, isValidKey field.1 = true)
    {metadata : String}
    (front : metadata.toList.head? = some kPayloadMetadataPrefix) :
    (objects fields).lookup metadata = none := by
  rw [List.lookup_eq_none_iff]
  intro member inside
  obtain ⟨field, kept, rfl⟩ := List.mem_map.mp inside
  simpa using (ne_of_isValidKey (names field kept) front).symm

variable (valid : ∀ key, named key → isValidKey key = true)
variable (separates : Separates compareKey named)

include separates in
theorem pairwise_leaves {fields : List (String × Value)}
    (names : ∀ field ∈ fields, named field.1)
    (different : (fields.map Prod.fst).Nodup) :
    (leaves fields).Pairwise fun first second =>
      compareKey first.1 second.1 ≠ .eq := by
  rw [leaves, List.pairwise_map]
  rw [List.Nodup, List.pairwise_map] at different
  refine different.imp_of_mem ?_
  intro first second inside other unequal same
  exact unequal (separates _ _ (names first inside) (names second other) same)

include valid separates in
/-- An accepted write passes all checks. -/
theorem Accepted.newNode (accepted : Accepted named write)
    (finite : ∀ value, foundation.isNotANumber value = false) :
    write.newNode foundation = .ok write.node := by
  have writable (fn : String) {path : Path} (place : ∀ key ∈ path, named key) :
      validateWritablePath fn path = .ok () := by
    refine if_neg fun front => ?_
    have key := place kDotInfoPrefix (List.mem_of_head? front)
    exact absurd (valid kDotInfoPrefix key) (by decide)
  cases accepted with
  | removeValue place =>
      rw [Write.newNode, writable _ place, ok_bind, nodeFrom,
        internalNodeFrom]
      rfl
  | @setValue path fields place some names different short =>
      have keys : ∀ field ∈ fields, isValidKey field.1 = true :=
        fun field member => valid field.1 (names field member)
      have unequal := pairwise_leaves separates names different
      have own : ownPriority foundation "setValue:" [] none
          (objects fields) = .ok none := by
        rw [ownPriority, lookup_objects keys rfl]
      rw [Write.newNode, writable _ place, ok_bind, nodeFrom,
        internalNodeFrom, checkedPriority_null (by decide), ok_bind, own,
        ok_bind, lookup_objects keys rfl]
      dsimp only
      rw [isValidLeafValue, lookup_objects keys rfl]
      change (membersFrom foundation "setValue:" 0 [] (objects fields) >>=
        childrenNode none) = _
      rw [membersFrom_objects finite keys short, ok_bind,
        childrenNode_of_perm (SortedAssoc.sorted_sort unequal)
          (SortedAssoc.sort_perm _).symm, isEmpty_sort_leaves some]
      rfl

/-! ## The leaves of the node -/

/-- The value that a write sets at a path below its own. -/
def leaf : Write → Path → Option Value
  | .setValue _ fields, [key] => fields.lookup key
  | _, _ => none

theorem mem_sort_leaves {fields : List (String × Value)}
    {entry : String × Node FiniteDouble} :
    entry ∈ SortedAssoc.sort compareKey (leaves fields) ↔
      ∃ field ∈ fields, (field.1, .leaf field.2.object none) = entry := by
  rw [(SortedAssoc.sort_perm _).mem_iff, leaves, List.mem_map]

include separates in
theorem Accepted.wellFormed (accepted : Accepted named write) :
    FNode.WellFormed compareKey named write.node := by
  cases accepted with
  | removeValue place => exact .emptyNode
  | @setValue path fields place some names different short =>
      refine .children ?_ ?_ ?_ ?_ fun _ => rfl
      · exact SortedAssoc.sorted_sort
          (pairwise_leaves separates names different)
      · intro entry member
        obtain ⟨field, inside, rfl⟩ := mem_sort_leaves.mp member
        exact names field inside
      · intro entry member
        obtain ⟨field, inside, rfl⟩ := mem_sort_leaves.mp member
        rfl
      · intro entry member
        obtain ⟨field, inside, rfl⟩ := mem_sort_leaves.mp member
        exact .leaf _ _

theorem lookup_leaves (fields : List (String × Value)) (key : String) :
    (leaves fields).lookup key =
      (fields.lookup key).map fun value => .leaf value.object none := by
  induction fields with
  | nil => rfl
  | cons field rest inductionHypothesis =>
      rw [leaves, List.map_cons, List.lookup_cons, List.lookup_cons]
      cases key == field.1 with
      | true => rfl
      | false => exact inductionHypothesis

include separates in
/-- The leaves of the node are the values that are set. -/
theorem Accepted.leafAt_node (accepted : Accepted named write) {rest : Path}
    (keys : ∀ key ∈ rest, named key) :
    write.node.leafAt compareKey rest =
      (write.leaf rest).map Value.object := by
  cases accepted with
  | removeValue place => exact FNode.leafAt_emptyNode rest
  | @setValue path fields place some names different short =>
      cases rest with
      | nil =>
          rw [FNode.leafAt, FNode.getChild_nil]
          rfl
      | cons key below =>
          have found : SortedAssoc.lookup compareKey key
              (SortedAssoc.sort compareKey (leaves fields)) =
                (fields.lookup key).map fun value =>
                  .leaf value.object none := by
            rw [SortedAssoc.lookup_sort
              (pairwise_leaves separates names different),
              SortedAssoc.lookup_eq_listLookup, lookup_leaves]
            intro entry member equal
            obtain ⟨field, inside, rfl⟩ := List.mem_map.mp member
            exact separates key field.1 (keys key List.mem_cons_self)
              (names field inside) equal
          have child : (Write.setValue path fields).node.getImmediateChild
              compareKey key =
                ((fields.lookup key).map fun value =>
                  FNode.leaf value.object none).getD .emptyNode :=
            congrArg (fun node => node.getD FNode.emptyNode) found
          rw [FNode.leafAt, FNode.getChild_cons, child]
          cases below with
          | nil =>
              rw [FNode.getChild_nil, leaf]
              cases fields.lookup key <;> rfl
          | cons next below =>
              cases fields.lookup key with
              | none => exact FNode.leafAt_emptyNode (next :: below)
              | some value =>
                  exact congrArg FNode.leafValue
                    (FNode.getChild_leaf_cons value.object none next below)

/-- What the database has at a path after a write. -/
theorem Accepted.lookup_apply (accepted : Accepted named write)
    (database : Database) (path : Path) :
    KeyedTree.lookup (write.apply database) path =
      if write.path <+: path then write.leaf (path.drop write.path.length)
      else if path <+: write.path ∧ write.node.isEmpty = false then none
      else KeyedTree.lookup database path := by
  cases accepted with
  | @removeValue removed place =>
      have nothing : (Write.removeValue removed).node.isEmpty = true := rfl
      rw [apply, lookup_remove, nothing]
      simp [Write.path, leaf]
  | @setValue set fields place some names different short =>
      have filled : (Write.setValue set fields).node.isEmpty = false :=
        isEmpty_sort_leaves some
      rw [apply, lookup_setFields, filled]
      simp only [Write.path, and_true]
      split
      · generalize path.drop set.length = rest
        split
        · rfl
        · rename_i several
          cases rest with
          | nil => rfl
          | cons key below =>
              cases below with
              | nil => exact absurd rfl (several key)
              | cons next below => rfl
      · rfl

end Write

end Firebase
end PocketChef
