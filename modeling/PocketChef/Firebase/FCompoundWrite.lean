import PocketChef.Firebase.FImmutableTree
import PocketChef.Firebase.FNode
import PocketChef.Library.PendingOverwrites

/-!
# Compound writes

An `FCompoundWrite` keeps the nodes that have been written at paths.  A write
below an earlier one changes the node that is there already, and a write above
earlier ones takes their place.

The nodes compare their keys with `keyComparator`, the tree with
`stringComparator`.  On keys that both tell apart, `completeNodeAtPath` is
what the writes tell about a path.
-/

namespace PocketChef
namespace Firebase

universe u v

open PathStrip

namespace FPath

variable {Key : Type u}

/-- `relativePathFrom:to:` of a path inside the outer one. -/
def relativePathFrom (outer inner : List Key) : List Key :=
  inner.drop outer.length

def contains [DecidableEq Key] (path other : List Key) : Bool :=
  path.isPrefixOf other

end FPath

structure FCompoundWrite (Key : Type u) (Value : Type v) where
  writeTree : FImmutableTree Key (FNode Key Value)

namespace FCompoundWrite

variable {Key : Type u} {Value : Type v}

def emptyWrite : FCompoundWrite Key Value :=
  ⟨.ofValue none⟩

def isEmpty (write : FCompoundWrite Key Value) : Bool :=
  write.writeTree.isEmpty

section Methods

variable (keyComparator stringComparator : Key → Key → Ordering)
variable (write : FCompoundWrite Key Value)

def addWrite (node : FNode Key Value) (path : List Key) :
    FCompoundWrite Key Value :=
  if path.isEmpty then ⟨.ofValue (some node)⟩
  else
    match write.writeTree.findRootMostValueAndPath stringComparator path with
    | some (rootMostPath, rootMostValue) =>
        let relativePath := FPath.relativePathFrom rootMostPath path
        let value := rootMostValue.updateChild keyComparator relativePath node
        ⟨write.writeTree.setValue stringComparator value rootMostPath⟩
    | none =>
        ⟨FImmutableTree.setTree stringComparator (.ofValue (some node))
          write.writeTree path⟩

def removeWriteAtPath (path : List Key) : FCompoundWrite Key Value :=
  if path.isEmpty then emptyWrite
  else ⟨FImmutableTree.setTree stringComparator .empty write.writeTree path⟩

def completeNodeAtPath (path : List Key) : Option (FNode Key Value) :=
  match write.writeTree.findRootMostValueAndPath stringComparator path with
  | some (rootMostPath, rootMostValue) =>
      some (rootMostValue.getChild keyComparator
        (FPath.relativePathFrom rootMostPath path))
  | none => none

def hasCompleteWriteAtPath (path : List Key) : Bool :=
  (write.completeNodeAtPath keyComparator stringComparator path).isSome

def childCompoundWriteAtPath (path : List Key) : FCompoundWrite Key Value :=
  if path.isEmpty then write
  else
    match write.completeNodeAtPath keyComparator stringComparator path with
    | some shadowingNode => ⟨.ofValue (some shadowingNode)⟩
    | none => ⟨write.writeTree.subtreeAtPath stringComparator path⟩

mutual

def applySubtreeWrite (relativePath : List Key) (node : FNode Key Value) :
    FImmutableTree Key (FNode Key Value) → FNode Key Value
  | .mk value children =>
      match value with
      | some value => node.updateChild keyComparator relativePath value
      | none => applyChildren relativePath node children

def applyChildren (relativePath : List Key) (node : FNode Key Value) :
    List (Key × FImmutableTree Key (FNode Key Value)) → FNode Key Value
  | [] => node
  | (childKey, childTree) :: rest =>
      applyChildren relativePath
        (applySubtreeWrite (relativePath ++ [childKey]) node childTree) rest

end

def applyToNode (node : FNode Key Value) : FNode Key Value :=
  applySubtreeWrite keyComparator [] node write.writeTree

end Methods

variable {keyComparator stringComparator : Key → Key → Ordering}
variable {named : Key → Prop} {write : FCompoundWrite Key Value}
variable {tree : FImmutableTree Key (FNode Key Value)}
variable {node : FNode Key Value} {front : Key} {rest path : List Key}

/-! ## What is complete -/

theorem completeNodeAtPath_of_value (value : tree.value = some node)
    (path : List Key) :
    (mk tree).completeNodeAtPath keyComparator stringComparator path =
      some (node.getChild keyComparator path) := by
  have rootMost : tree.findRootMostValueAndPath stringComparator path =
      some ([], node) := by
    cases path with
    | nil => rw [FImmutableTree.findRootMostValueAndPath, value]; rfl
    | cons front rest => rw [FImmutableTree.findRootMostValueAndPath, value]
  rw [completeNodeAtPath, rootMost]
  rfl

theorem completeNodeAtPath_nil (noValue : tree.value = none) :
    (mk tree).completeNodeAtPath keyComparator stringComparator [] =
      none := by
  rw [completeNodeAtPath, FImmutableTree.findRootMostValueAndPath, noValue]
  rfl

/-- Without a value at the root, a path leads to the child. -/
theorem completeNodeAtPath_cons (noValue : tree.value = none) :
    (mk tree).completeNodeAtPath keyComparator stringComparator
        (front :: rest) =
      (tree.child stringComparator front).bind fun child =>
        (mk child).completeNodeAtPath keyComparator stringComparator rest := by
  rw [completeNodeAtPath, FImmutableTree.findRootMostValueAndPath, noValue]
  dsimp only
  cases tree.child stringComparator front with
  | none => rfl
  | some child =>
      rw [Option.bind_some, completeNodeAtPath]
      dsimp only
      cases child.findRootMostValueAndPath stringComparator rest with
      | none => rfl
      | some found => rfl

@[simp]
theorem completeNodeAtPath_empty (path : List Key) :
    (mk (.empty : FImmutableTree Key (FNode Key Value))).completeNodeAtPath
      keyComparator stringComparator path = none := by
  cases path with
  | nil => exact completeNodeAtPath_nil rfl
  | cons front rest => exact completeNodeAtPath_cons rfl

/-- The child in the tree, or an empty one, tells about what is below. -/
theorem completeNodeAtPath_cons_getD (noValue : tree.value = none) :
    (mk tree).completeNodeAtPath keyComparator stringComparator
        (front :: rest) =
      (mk ((tree.child stringComparator front).getD
        .empty)).completeNodeAtPath keyComparator stringComparator rest := by
  rw [completeNodeAtPath_cons noValue]
  cases tree.child stringComparator front with
  | none => exact (completeNodeAtPath_empty rest).symm
  | some child => rfl

/-- What is not complete at a path is not complete in the subtree there. -/
theorem completeNodeAtPath_subtreeAtPath
    (incomplete : (mk tree).completeNodeAtPath keyComparator stringComparator
      path = none) :
    (mk (tree.subtreeAtPath stringComparator path)).completeNodeAtPath
      keyComparator stringComparator [] = none := by
  induction path generalizing tree with
  | nil => exact incomplete
  | cons front rest inductionHypothesis =>
      cases value : tree.value with
      | some node =>
          rw [completeNodeAtPath_of_value value] at incomplete
          cases incomplete
      | none =>
          rw [completeNodeAtPath_cons value] at incomplete
          rw [FImmutableTree.subtreeAtPath]
          cases found : tree.child stringComparator front with
          | none => exact completeNodeAtPath_empty []
          | some child =>
              rw [found] at incomplete
              exact inductionHypothesis incomplete

theorem hasCompleteWriteAtPath_childCompoundWriteAtPath
    (incomplete : write.completeNodeAtPath keyComparator stringComparator
      path = none) :
    (write.childCompoundWriteAtPath keyComparator stringComparator
      path).hasCompleteWriteAtPath keyComparator stringComparator [] =
        false := by
  rw [hasCompleteWriteAtPath, childCompoundWriteAtPath]
  cases path with
  | nil =>
      rw [if_pos List.isEmpty_nil, incomplete]
      rfl
  | cons front rest =>
      rw [if_neg (by simp), incomplete]
      dsimp only
      rw [completeNodeAtPath_subtreeAtPath incomplete]
      rfl

/-- What is complete below a child that is put in. -/
theorem completeNodeAtPath_insert [Std.TransCmp stringComparator]
    (sorted : SortedAssoc.Sorted stringComparator tree.children)
    (noValue : tree.value = none)
    {newChild : FImmutableTree Key (FNode Key Value)} {key : Key} :
    (mk (.mk tree.value (SortedAssoc.insert stringComparator front newChild
        tree.children))).completeNodeAtPath keyComparator stringComparator
          (key :: rest) =
      if stringComparator key front = .eq then
        (mk newChild).completeNodeAtPath keyComparator stringComparator rest
      else (mk tree).completeNodeAtPath keyComparator stringComparator
        (key :: rest) := by
  have value : (FImmutableTree.mk tree.value (SortedAssoc.insert
      stringComparator front newChild tree.children)).value = none :=
    noValue
  rw [completeNodeAtPath_cons value, completeNodeAtPath_cons noValue,
    FImmutableTree.child_insert sorted]
  split <;> rfl

/-- What is complete below a child that is taken away. -/
theorem completeNodeAtPath_erase [Std.TransCmp stringComparator]
    (noValue : tree.value = none) {key : Key} :
    (mk (.mk tree.value (SortedAssoc.erase stringComparator front
        tree.children))).completeNodeAtPath keyComparator stringComparator
          (key :: rest) =
      if stringComparator key front = .eq then none
      else (mk tree).completeNodeAtPath keyComparator stringComparator
        (key :: rest) := by
  have value : (FImmutableTree.mk tree.value (SortedAssoc.erase
      stringComparator front tree.children)).value = none :=
    noValue
  rw [completeNodeAtPath_cons value, completeNodeAtPath_cons noValue,
    FImmutableTree.child_erase]
  split <;> rfl

/-! ## Adding and removing a write -/

/-- The nodes of a write keep their invariant. -/
abbrev WellFormed (keyComparator stringComparator : Key → Key → Ordering)
    (named : Key → Prop) (write : FCompoundWrite Key Value) : Prop :=
  FImmutableTree.WellFormed stringComparator
    (FNode.WellFormed keyComparator named) write.writeTree

theorem WellFormed.addWrite [Std.TransCmp keyComparator]
    [Std.TransCmp stringComparator]
    (wellFormed : WellFormed keyComparator stringComparator named write)
    (newWellFormed : FNode.WellFormed keyComparator named node)
    (names : ∀ key ∈ path, named key) :
    WellFormed keyComparator stringComparator named
      (write.addWrite keyComparator stringComparator node path) := by
  have alone : FImmutableTree.WellFormed stringComparator
      (FNode.WellFormed keyComparator named)
      (.ofValue (some node)) := by
    refine .ofValue fun kept member => ?_
    rw [← Option.some.inj member]
    exact newWellFormed
  rw [FCompoundWrite.addWrite]
  split
  · exact alone
  · split
    · rename_i rootMostPath rootMostValue rootMost
      have keptWellFormed := wellFormed.findRootMostValueAndPath rootMost
      refine FImmutableTree.WellFormed.setValue wellFormed ?_ rootMostPath
      exact keptWellFormed.updateChild newWellFormed fun key member =>
        names key (List.mem_of_mem_drop member)
    · exact FImmutableTree.WellFormed.setTree wellFormed alone path

theorem writeTree_removeWriteAtPath (write : FCompoundWrite Key Value)
    (path : List Key) :
    (write.removeWriteAtPath stringComparator path).writeTree =
      FImmutableTree.setTree stringComparator .empty write.writeTree path := by
  cases path with
  | nil => rfl
  | cons front rest => rfl

theorem WellFormed.removeWriteAtPath
    [Std.TransCmp stringComparator]
    (wellFormed : WellFormed keyComparator stringComparator named write)
    (path : List Key) :
    WellFormed keyComparator stringComparator named
      (write.removeWriteAtPath stringComparator path) := by
  rw [WellFormed, writeTree_removeWriteAtPath]
  exact FImmutableTree.WellFormed.setTree wellFormed .empty path

/-- What is complete in the child that a write changes. -/
theorem exists_addWrite_cons (noValue : tree.value = none)
    (node : FNode Key Value) (front : Key) (rest : List Key) :
    ∃ newChild,
      (mk tree).addWrite keyComparator stringComparator node
          (front :: rest) =
        mk (.mk tree.value (SortedAssoc.insert stringComparator front
          newChild tree.children)) ∧
      ∀ other, (mk newChild).completeNodeAtPath keyComparator
          stringComparator other =
        ((mk ((tree.child stringComparator front).getD .empty)).addWrite
          keyComparator stringComparator node rest).completeNodeAtPath
            keyComparator stringComparator other := by
  have rootMost : tree.findRootMostValueAndPath stringComparator
      (front :: rest) =
        (((tree.child stringComparator front).getD
          .empty).findRootMostValueAndPath stringComparator rest).map
            fun found => (front :: found.1, found.2) := by
    rw [FImmutableTree.findRootMostValueAndPath, noValue]
    cases tree.child stringComparator front with
    | some child => rfl
    | none =>
        cases rest with
        | nil => rfl
        | cons next rest => rfl
  rw [addWrite, if_neg (by simp), rootMost]
  cases inside : ((tree.child stringComparator front).getD
      .empty).findRootMostValueAndPath stringComparator rest with
  | some found =>
      obtain ⟨rootMostPath, rootMostValue⟩ := found
      refine ⟨((tree.child stringComparator front).getD .empty).setValue
        stringComparator (rootMostValue.updateChild keyComparator
          (FPath.relativePathFrom rootMostPath rest) node) rootMostPath,
        ?_, ?_⟩
      · rfl
      · intro other
        cases rest with
        | nil =>
            obtain ⟨kept, _, same⟩ := Option.map_eq_some_iff.mp inside
            obtain ⟨rfl, rfl⟩ := Prod.mk.inj same
            refine (completeNodeAtPath_of_value ?_ other).trans
              (completeNodeAtPath_of_value rfl other).symm
            exact congrArg some (FNode.updateChild_nil kept node)
        | cons next rest =>
            rw [addWrite, if_neg (by simp), inside]
  | none =>
      refine ⟨FImmutableTree.setTree stringComparator (.ofValue (some node))
        ((tree.child stringComparator front).getD .empty) rest, ?_, ?_⟩
      · have filled : (FImmutableTree.setTree stringComparator
            (.ofValue (some node))
            ((tree.child stringComparator front).getD .empty)
            rest).isEmpty = false :=
          FImmutableTree.isEmpty_setTree rfl rest
        rw [Option.map_none]
        dsimp only
        rw [FImmutableTree.setTree, filled]
        rfl
      · intro other
        cases rest with
        | nil => rfl
        | cons next rest =>
            rw [addWrite, if_neg (by simp), inside]

variable [DecidableEq Key]

/-- The node at a path, for `PendingOverwrites`. -/
abbrev part (keyComparator : Key → Key → Ordering)
    (node : FNode Key Value) (path : List Key) : FNode Key Value :=
  node.getChild keyComparator path

/-- A node after an update, for `PendingOverwrites`. -/
abbrev put (keyComparator : Key → Key → Ordering)
    (node : FNode Key Value) (path : List Key) (new : FNode Key Value) :
    FNode Key Value :=
  node.updateChild keyComparator path new

/-- On keys that are told apart, a node after an update is what two writes
tell. -/
theorem getChild_updateChild_eq_after [Std.TransCmp keyComparator]
    (separates : Separates keyComparator named) {new : FNode Key Value}
    (wellFormed : FNode.WellFormed keyComparator named node)
    (newWellFormed : FNode.WellFormed keyComparator named new)
    (names : ∀ key ∈ path, named key) {other : List Key}
    (otherNames : ∀ key ∈ other, named key) :
    some ((node.updateChild keyComparator path new).getChild keyComparator
        other) =
      PendingOverwrites.after (part keyComparator) (put keyComparator) other
        (some (node.getChild keyComparator other)) (path, new) := by
  rw [FNode.getChild_updateChild wellFormed newWellFormed names,
    PendingOverwrites.after]
  by_cases above : path <+: other
  · obtain ⟨below, rfl⟩ := above
    rw [strip_append, if_pos (List.prefix_append path below),
      List.drop_left]
  · rw [(strip_eq_none_iff separates names otherNames).mpr above,
      if_neg above]
    by_cases inside : other <+: path
    · obtain ⟨below, rfl⟩ := inside
      rw [strip_append, if_pos (List.prefix_append other below),
        List.drop_left]
      rfl
    · rw [(strip_eq_none_iff separates otherNames names).mpr inside,
        if_neg inside]

variable [Std.TransCmp stringComparator]

/-- What is complete after one more write. -/
theorem completeNodeAtPath_addWrite [Std.TransCmp keyComparator]
    (separates : Separates keyComparator named)
    (separatesStrings : Separates stringComparator named)
    (wellFormed : WellFormed keyComparator stringComparator named write)
    (newWellFormed : FNode.WellFormed keyComparator named node)
    (names : ∀ key ∈ path, named key) {other : List Key}
    (otherNames : ∀ key ∈ other, named key) :
    (write.addWrite keyComparator stringComparator node
        path).completeNodeAtPath keyComparator stringComparator other =
      PendingOverwrites.after (part keyComparator) (put keyComparator) other
        (write.completeNodeAtPath keyComparator stringComparator other)
        (path, node) := by
  obtain ⟨tree⟩ := write
  induction path generalizing tree other with
  | nil =>
      rw [PendingOverwrites.after_of_above List.nil_prefix]
      exact completeNodeAtPath_of_value rfl other
  | cons front rest inductionHypothesis =>
      cases value : tree.value with
      | some kept =>
          have rootMost : tree.findRootMostValueAndPath stringComparator
              (front :: rest) = some ([], kept) := by
            rw [FImmutableTree.findRootMostValueAndPath, value]
          have keptWellFormed := wellFormed.own kept value
          rw [addWrite, if_neg (by simp), rootMost,
            completeNodeAtPath_of_value value,
            ← getChild_updateChild_eq_after separates keptWellFormed
              newWellFormed names otherNames]
          exact completeNodeAtPath_of_value rfl other
      | none =>
          obtain ⟨newChild, added, below⟩ :=
            @exists_addWrite_cons Key Value keyComparator stringComparator
              tree value node front rest
          rw [added]
          have sameValue : (FImmutableTree.mk tree.value
              (SortedAssoc.insert stringComparator front newChild
                tree.children)).value = none :=
            value
          cases other with
          | nil =>
              rw [completeNodeAtPath_nil sameValue,
                completeNodeAtPath_nil value,
                PendingOverwrites.after_none (by simp)]
          | cons key others =>
              have frontNamed := names front List.mem_cons_self
              have keyNamed := otherNames key List.mem_cons_self
              rw [completeNodeAtPath_insert wellFormed.sorted value]
              by_cases same : key = front
              · have equal : stringComparator key front = .eq := by
                  rw [same]
                  exact Std.ReflCmp.compare_self
                have child := inductionHypothesis
                  (fun key member =>
                    names key (List.mem_cons_of_mem front member))
                  (fun other member =>
                    otherNames other (List.mem_cons_of_mem key member))
                  ((tree.child stringComparator front).getD .empty)
                  (wellFormed.getD_child front)
                rw [if_pos equal, below, child, same,
                  completeNodeAtPath_cons_getD value]
                simp only [PendingOverwrites.after, List.cons_prefix_cons,
                  true_and, List.length_cons, List.drop_succ_cons]
              · have different : stringComparator key front ≠ .eq :=
                  fun equal =>
                    same (separatesStrings key front keyNamed frontNamed equal)
                have notAbove : ¬ front :: rest <+: key :: others := by
                  simp [List.cons_prefix_cons, Ne.symm same]
                have notBelow : ¬ key :: others <+: front :: rest := by
                  simp [List.cons_prefix_cons, same]
                rw [if_neg different,
                  PendingOverwrites.after_of_apart notAbove notBelow]

/-- What is complete after a removal, if nothing is above the path. -/
theorem completeNodeAtPath_setTree_empty
    (separatesStrings : Separates stringComparator named)
    (wellFormed : FImmutableTree.WellFormed stringComparator
      (FNode.WellFormed keyComparator named) tree)
    (names : ∀ key ∈ path, named key)
    (alone : ∀ above, above <+: path → above ≠ path →
      (mk tree).completeNodeAtPath keyComparator stringComparator above =
        none) {other : List Key} (otherNames : ∀ key ∈ other, named key) :
    (mk (FImmutableTree.setTree stringComparator .empty tree
        path)).completeNodeAtPath keyComparator stringComparator other =
      if path <+: other then none
      else (mk tree).completeNodeAtPath keyComparator stringComparator
        other := by
  induction path generalizing tree other with
  | nil =>
      rw [if_pos List.nil_prefix]
      exact completeNodeAtPath_empty other
  | cons front rest inductionHypothesis =>
      have value : tree.value = none := by
        have nothing := alone [] List.nil_prefix (by simp)
        cases value : tree.value with
        | none => rfl
        | some kept =>
            rw [completeNodeAtPath_of_value value] at nothing
            cases nothing
      have below := @inductionHypothesis
        ((tree.child stringComparator front).getD .empty)
        (wellFormed.getD_child front)
        (fun key member => names key (List.mem_cons_of_mem front member))
        (by
          intro above inside different
          rw [← completeNodeAtPath_cons_getD value]
          refine alone (front :: above) ?_ ?_
          · exact List.cons_prefix_cons.mpr ⟨rfl, inside⟩
          · exact fun same => different (List.cons.inj same).2)
      cases other with
      | nil =>
          have sameValue : (FImmutableTree.setTree stringComparator .empty
              tree (front :: rest)).value = none :=
            value
          rw [completeNodeAtPath_nil sameValue, completeNodeAtPath_nil value,
            ite_self]
      | cons key others =>
          have othersNamed : ∀ other ∈ others, named other :=
            fun other member =>
              otherNames other (List.mem_cons_of_mem key member)
          have changed : (mk (FImmutableTree.setTree stringComparator .empty
              tree (front :: rest))).completeNodeAtPath keyComparator
                stringComparator (key :: others) =
              if stringComparator key front = .eq then
                (mk (FImmutableTree.setTree stringComparator .empty
                  ((tree.child stringComparator front).getD .empty)
                    rest)).completeNodeAtPath keyComparator stringComparator
                      others
              else (mk tree).completeNodeAtPath keyComparator
                stringComparator (key :: others) := by
            rw [FImmutableTree.setTree]
            split
            · rename_i nothing
              rw [FImmutableTree.eq_empty nothing, completeNodeAtPath_empty]
              exact completeNodeAtPath_erase value
            · exact completeNodeAtPath_insert wellFormed.sorted value
          rw [changed]
          by_cases same : key = front
          · have equal : stringComparator key front = .eq := by
              rw [same]
              exact Std.ReflCmp.compare_self
            rw [if_pos equal, below othersNamed, same,
              completeNodeAtPath_cons_getD value]
            simp only [List.cons_prefix_cons, true_and]
          · have different : stringComparator key front ≠ .eq := fun equal =>
              same (separatesStrings key front
                (otherNames key List.mem_cons_self)
                (names front List.mem_cons_self) equal)
            have notBelow : ¬ front :: rest <+: key :: others := by
              simp [List.cons_prefix_cons, Ne.symm same]
            rw [if_neg different, if_neg notBelow]

end FCompoundWrite

end Firebase
end PocketChef
