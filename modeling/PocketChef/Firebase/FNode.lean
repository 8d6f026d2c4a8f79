import PocketChef.Library.PathStrip
import PocketChef.Library.SortedAssoc

/-!
# Nodes

A node of the client is a leaf with a value, or it has children under keys.
Either kind may have a priority, which is a value of its own.  The empty node
is the one without children.

The children of a node are the entries of an `FImmutableSortedDictionary`;
`SortedAssoc` says what the dictionary does to its entries.
-/

namespace PocketChef
namespace Firebase

universe u v

open SortedAssoc (Sorted lookup insert erase)
open PathStrip

/-- `FLeafNode` and `FChildrenNode`. -/
inductive FNode (Key : Type u) (Value : Type v) where
  | leaf (value : Value) (priority : Option Value)
  | children (entries : List (Key × FNode Key Value))
      (priority : Option Value)

namespace FNode

variable {Key : Type u} {Value : Type v}

def emptyNode : FNode Key Value :=
  children [] none

def isEmpty : FNode Key Value → Bool
  | leaf _ _ => false
  | children entries _ => entries.isEmpty

def getPriority : FNode Key Value → Option Value
  | leaf _ priority => priority
  | children _ priority => priority

def updatePriority (priority : Option Value) : FNode Key Value →
    FNode Key Value
  | leaf value _ => leaf value priority
  | children entries _ =>
      if entries.isEmpty then emptyNode else children entries priority

section Methods

variable (comparator : Key → Key → Ordering)

def getImmediateChild : FNode Key Value → Key → FNode Key Value
  | leaf _ _, _ => emptyNode
  | children entries _, childName =>
      (lookup comparator childName entries).getD emptyNode

def getChild : FNode Key Value → List Key → FNode Key Value
  | node, [] => node
  | leaf _ _, _ :: _ => emptyNode
  | children entries priority, front :: rest =>
      getChild
        ((children entries priority).getImmediateChild comparator front) rest

/-- `updateImmediateChild` of a node with children. -/
def updateEntries (entries : List (Key × FNode Key Value))
    (priority : Option Value) (childName : Key) (new : FNode Key Value) :
    FNode Key Value :=
  let newChildren :=
    if new.isEmpty then erase comparator childName entries
    else insert comparator childName new entries
  if newChildren.isEmpty then emptyNode else children newChildren priority

def updateImmediateChild : FNode Key Value → Key → FNode Key Value →
    FNode Key Value
  | leaf value priority, childName, new =>
      if new.isEmpty then leaf value priority
      else
        (updateEntries comparator [] none childName new).updatePriority
          priority
  | children entries priority, childName, new =>
      updateEntries comparator entries priority childName new

def updateChild : FNode Key Value → List Key → FNode Key Value →
    FNode Key Value
  | _, [], new => new
  | leaf value priority, front :: rest, new =>
      if new.isEmpty then leaf value priority
      else
        (leaf value priority).updateImmediateChild comparator front
          (updateChild emptyNode rest new)
  | children entries priority, front :: rest, new =>
      let node := children entries priority
      node.updateImmediateChild comparator front
        (updateChild (node.getImmediateChild comparator front) rest new)

end Methods

/-- Induction over the children of nodes. -/
theorem induct {motive : FNode Key Value → Prop}
    (leaf : ∀ value priority, motive (leaf value priority))
    (children : ∀ entries priority,
      (∀ entry ∈ entries, motive entry.2) →
        motive (children entries priority))
    (node : FNode Key Value) : motive node := by
  refine @FNode.rec Key Value motive
    (fun entries => ∀ entry ∈ entries, motive entry.2)
    (fun entry => motive entry.2) leaf children ?_ ?_ ?_ node
  · exact fun entry member => absurd member List.not_mem_nil
  · intro head tail first others entry member
    rcases List.mem_cons.mp member with rfl | later
    · exact first
    · exact others entry later
  · exact fun key node same => same

/-- What every method keeps: the children are sorted, none of them is empty,
and the empty node has no priority.  `named` is a property of the keys. -/
inductive WellFormed (comparator : Key → Key → Ordering)
    (named : Key → Prop) : FNode Key Value → Prop
  | leaf (value : Value) (priority : Option Value) :
      WellFormed comparator named (leaf value priority)
  | children {entries : List (Key × FNode Key Value)}
      {priority : Option Value} (sorted : Sorted comparator entries)
      (names : ∀ entry ∈ entries, named entry.1)
      (filled : ∀ entry ∈ entries, entry.2.isEmpty = false)
      (each : ∀ entry ∈ entries, WellFormed comparator named entry.2)
      (plain : entries = [] → priority = none) :
      WellFormed comparator named (children entries priority)

variable {comparator : Key → Key → Ordering} {named : Key → Prop}
variable {node new : FNode Key Value}
variable {entries : List (Key × FNode Key Value)} {priority : Option Value}

theorem WellFormed.emptyNode :
    WellFormed comparator named (emptyNode : FNode Key Value) := by
  refine .children List.Pairwise.nil ?_ ?_ ?_ fun _ => rfl
  · exact fun entry member => absurd member List.not_mem_nil
  · exact fun entry member => absurd member List.not_mem_nil
  · exact fun entry member => absurd member List.not_mem_nil

/-- There is one empty node. -/
theorem WellFormed.eq_emptyNode (wellFormed : WellFormed comparator named node)
    (empty : node.isEmpty = true) : node = FNode.emptyNode := by
  cases wellFormed with
  | leaf value priority => cases empty
  | children sorted names filled each plain =>
      have nothing := List.isEmpty_iff.mp empty
      rw [nothing, plain nothing]
      rfl

@[simp]
theorem getChild_nil (node : FNode Key Value) :
    node.getChild comparator [] = node := by
  rw [getChild.eq_def]

@[simp]
theorem getChild_leaf_cons (value : Value) (priority : Option Value)
    (front : Key) (rest : List Key) :
    (leaf value priority).getChild comparator (front :: rest) = emptyNode := by
  rw [getChild]

theorem getChild_children_cons (front : Key) (rest : List Key) :
    (children entries priority).getChild comparator (front :: rest) =
      ((children entries priority).getImmediateChild comparator front).getChild
        comparator rest := by
  rw [getChild]

@[simp]
theorem getImmediateChild_emptyNode (childName : Key) :
    (emptyNode : FNode Key Value).getImmediateChild comparator childName =
      emptyNode :=
  rfl

@[simp]
theorem getChild_emptyNode (path : List Key) :
    (emptyNode : FNode Key Value).getChild comparator path = emptyNode := by
  induction path with
  | nil => exact getChild_nil _
  | cons front rest inductionHypothesis =>
      rw [emptyNode, getChild_children_cons]
      exact inductionHypothesis

theorem getChild_cons (node : FNode Key Value) (front : Key)
    (rest : List Key) :
    node.getChild comparator (front :: rest) =
      (node.getImmediateChild comparator front).getChild comparator rest := by
  cases node with
  | leaf value priority =>
      rw [getChild_leaf_cons, getImmediateChild, getChild_emptyNode]
  | children entries priority => exact getChild_children_cons front rest

theorem getChild_append (node : FNode Key Value) (first second : List Key) :
    node.getChild comparator (first ++ second) =
      (node.getChild comparator first).getChild comparator second := by
  induction first generalizing node with
  | nil => rw [List.nil_append, getChild_nil]
  | cons front rest inductionHypothesis =>
      rw [List.cons_append, getChild_cons, getChild_cons, inductionHypothesis]

/-- Below a leaf there is only the empty node. -/
theorem forall_getChild_leaf_iff {property : FNode Key Value → Prop}
    (empty : property emptyNode) {value : Value} :
    (∀ path, property ((leaf value priority).getChild comparator path)) ↔
      property (leaf value priority) := by
  constructor
  · intro everywhere
    have itself := everywhere []
    rw [getChild_nil] at itself
    exact itself
  · intro itself path
    cases path with
    | nil =>
        rw [getChild_nil]
        exact itself
    | cons front rest =>
        rw [getChild_leaf_cons]
        exact empty

@[simp]
theorem updateChild_nil (node new : FNode Key Value) :
    node.updateChild comparator [] new = new := by
  rw [updateChild.eq_def]

theorem updateChild_children_cons (front : Key) (rest : List Key) :
    (children entries priority).updateChild comparator (front :: rest) new =
      (children entries priority).updateImmediateChild comparator front
        (((children entries priority).getImmediateChild comparator
          front).updateChild comparator rest new) := by
  rw [updateChild]

/-- An empty update makes nothing. -/
theorem updateChild_emptyNode_of_isEmpty (empty : new.isEmpty = true)
    (front : Key) (rest : List Key) :
    (emptyNode : FNode Key Value).updateChild comparator (front :: rest) new =
      emptyNode := by
  have nothing (childName : Key) {child : FNode Key Value}
      (none : child.isEmpty = true) :
      updateEntries comparator [] (Option.none : Option Value) childName
        child = emptyNode := by
    rw [updateEntries, if_pos none]
    rfl
  induction rest generalizing front with
  | nil =>
      rw [emptyNode, updateChild_children_cons, updateChild_nil]
      exact nothing front empty
  | cons next rest inductionHypothesis =>
      rw [emptyNode, updateChild_children_cons]
      refine nothing front ?_
      exact congrArg isEmpty (inductionHypothesis next)

/-- An update of a leaf that is not empty is an update of the empty node,
apart from the priority. -/
theorem updateChild_leaf_cons (value : Value) (priority : Option Value)
    (front : Key) (rest : List Key) :
    (leaf value priority).updateChild comparator (front :: rest) new =
      if new.isEmpty then leaf value priority
      else
        (leaf value priority).updateImmediateChild comparator front
          (emptyNode.updateChild comparator rest new) := by
  rw [updateChild]

/-- An update with something leaves something. -/
theorem isEmpty_updateEntries (filled : new.isEmpty = false)
    (childName : Key) :
    (updateEntries comparator entries priority childName new).isEmpty =
      false := by
  have inserted : (insert comparator childName new entries).isEmpty =
      false := by
    simp [SortedAssoc.insert]
  have absent : ¬ new.isEmpty = true := by
    rw [filled]
    decide
  rw [updateEntries, if_neg absent, inserted]
  exact inserted

theorem isEmpty_updatePriority (priority : Option Value) :
    (node.updatePriority priority).isEmpty = node.isEmpty := by
  cases node with
  | leaf value old => rfl
  | children entries old =>
      cases entries <;> rfl

theorem isEmpty_updateImmediateChild (filled : new.isEmpty = false)
    (childName : Key) :
    (node.updateImmediateChild comparator childName new).isEmpty = false := by
  cases node with
  | children entries priority => exact isEmpty_updateEntries filled childName
  | leaf value priority =>
      rw [updateImmediateChild, if_neg (by rw [filled]; decide),
        isEmpty_updatePriority]
      exact isEmpty_updateEntries filled childName

theorem isEmpty_updateChild (filled : new.isEmpty = false)
    (path : List Key) :
    (node.updateChild comparator path new).isEmpty = false := by
  induction path generalizing node with
  | nil =>
      rw [updateChild_nil]
      exact filled
  | cons front rest inductionHypothesis =>
      cases node with
      | leaf value priority =>
          rw [updateChild_leaf_cons, if_neg (by rw [filled]; decide)]
          exact isEmpty_updateImmediateChild inductionHypothesis front
      | children entries priority =>
          rw [updateChild_children_cons]
          exact isEmpty_updateImmediateChild inductionHypothesis front

theorem WellFormed.getImmediateChild
    (wellFormed : WellFormed comparator named node) (childName : Key) :
    WellFormed comparator named
      (node.getImmediateChild comparator childName) := by
  cases wellFormed with
  | leaf value priority => exact .emptyNode
  | @children entries priority sorted names filled each plain =>
      rw [FNode.getImmediateChild]
      cases found : lookup comparator childName entries with
      | none => exact .emptyNode
      | some child =>
          rw [lookup, Option.map_eq_some_iff] at found
          obtain ⟨entry, there, rfl⟩ := found
          exact each entry (List.mem_of_find?_eq_some there)

theorem WellFormed.getChild (wellFormed : WellFormed comparator named node)
    (path : List Key) :
    WellFormed comparator named (node.getChild comparator path) := by
  induction path generalizing node with
  | nil =>
      rw [getChild_nil]
      exact wellFormed
  | cons front rest inductionHypothesis =>
      rw [getChild_cons]
      exact inductionHypothesis (wellFormed.getImmediateChild front)

theorem WellFormed.updatePriority
    (wellFormed : WellFormed comparator named node)
    (priority : Option Value) :
    WellFormed comparator named (node.updatePriority priority) := by
  cases wellFormed with
  | leaf value old => exact .leaf value priority
  | @children entries old sorted names filled each plain =>
      rw [FNode.updatePriority]
      split
      · exact .emptyNode
      · rename_i some
        refine .children sorted names filled each ?_
        exact fun nothing => absurd (List.isEmpty_iff.mpr nothing) some

theorem getImmediateChild_updatePriority (priority : Option Value)
    (wanted : Key) :
    (node.updatePriority priority).getImmediateChild comparator wanted =
      node.getImmediateChild comparator wanted := by
  cases node with
  | leaf value old => rfl
  | children entries old =>
      rw [updatePriority]
      cases entries with
      | nil => rfl
      | cons entry rest => rfl

variable [Std.TransCmp comparator]

/-- The nodes below are the node itself, those below its children, and the
empty node. -/
theorem forall_getChild_children_iff {property : FNode Key Value → Prop}
    (empty : property emptyNode) (sorted : Sorted comparator entries) :
    (∀ path, property
        ((children entries priority).getChild comparator path)) ↔
      property (children entries priority) ∧
        ∀ entry ∈ entries, ∀ path,
          property (entry.2.getChild comparator path) := by
  constructor
  · intro everywhere
    have itself := everywhere []
    rw [getChild_nil] at itself
    refine ⟨itself, fun entry member path => ?_⟩
    have further := everywhere (entry.1 :: path)
    rw [getChild_children_cons, getImmediateChild] at further
    obtain ⟨left, right, rfl⟩ := List.append_of_mem member
    rw [SortedAssoc.lookup_same sorted Std.ReflCmp.compare_self,
      Option.getD_some] at further
    exact further
  · rintro ⟨itself, below⟩ path
    cases path with
    | nil =>
        rw [getChild_nil]
        exact itself
    | cons front rest =>
        rw [getChild_children_cons, getImmediateChild]
        cases found : lookup comparator front entries with
        | none =>
            rw [Option.getD_none, getChild_emptyNode]
            exact empty
        | some childNode =>
            obtain ⟨entry, first, rfl⟩ := Option.map_eq_some_iff.mp found
            exact below entry (List.mem_of_find?_eq_some first) rest

theorem getD_lookup_insert (sorted : Sorted comparator entries)
    (childName wanted : Key) :
    (lookup comparator wanted
        (insert comparator childName new entries)).getD emptyNode =
      if comparator childName wanted = .eq then new
      else (lookup comparator wanted entries).getD emptyNode := by
  rw [SortedAssoc.lookup_insert sorted]
  by_cases same : comparator childName wanted = .eq
  · rw [if_pos same, if_pos (Std.OrientedCmp.eq_symm same)]
    rfl
  · rw [if_neg same, if_neg fun other =>
      same (Std.OrientedCmp.eq_symm other)]

theorem getD_lookup_erase (childName wanted : Key) :
    (lookup comparator wanted
        (erase comparator childName entries)).getD emptyNode =
      if comparator childName wanted = .eq then emptyNode
      else (lookup comparator wanted entries).getD emptyNode := by
  rw [SortedAssoc.lookup_erase]
  by_cases same : comparator childName wanted = .eq
  · rw [if_pos same, if_pos (Std.OrientedCmp.eq_symm same)]
    rfl
  · rw [if_neg same, if_neg fun other =>
      same (Std.OrientedCmp.eq_symm other)]

/-! ## What the methods keep -/

theorem WellFormed.updateEntries
    (wellFormed : WellFormed comparator named
      (FNode.children entries priority))
    (newWellFormed : WellFormed comparator named new) {childName : Key}
    (name : named childName) :
    WellFormed comparator named
      (updateEntries comparator entries priority childName new) := by
  cases wellFormed with
  | children sorted names filled each plain =>
      rw [FNode.updateEntries]
      split
      · have kept : ∀ entry ∈ erase comparator childName entries,
            entry ∈ entries := fun entry member =>
          (SortedAssoc.mem_select.mp member).1
        split
        · exact .emptyNode
        · rename_i some
          refine .children (sorted.erase childName) ?_ ?_ ?_ ?_
          · exact fun entry member => names entry (kept entry member)
          · exact fun entry member => filled entry (kept entry member)
          · exact fun entry member => each entry (kept entry member)
          · exact fun nothing => absurd (List.isEmpty_iff.mpr nothing) some
      · rename_i full
        have inserted (property : Key × FNode Key Value → Prop)
            (first : property (childName, new))
            (others : ∀ entry ∈ entries, property entry) :
            ∀ entry ∈ insert comparator childName new entries,
              property entry := by
          intro entry member
          rcases SortedAssoc.of_mem_insert member with rfl | old
          · exact first
          · exact others entry old
        split
        · exact .emptyNode
        · rename_i some
          refine .children (sorted.insert childName new) ?_ ?_ ?_ ?_
          · exact inserted _ name names
          · exact inserted (fun entry => entry.2.isEmpty = false)
              (Bool.not_eq_true _ ▸ full) filled
          · exact inserted _ newWellFormed each
          · exact fun nothing => absurd (List.isEmpty_iff.mpr nothing) some

theorem WellFormed.updateImmediateChild
    (wellFormed : WellFormed comparator named node)
    (newWellFormed : WellFormed comparator named new) {childName : Key}
    (name : named childName) :
    WellFormed comparator named
      (node.updateImmediateChild comparator childName new) := by
  cases node with
  | leaf value priority =>
      rw [FNode.updateImmediateChild]
      split
      · exact wellFormed
      · have alone : WellFormed comparator named
            (FNode.updateEntries comparator [] none childName new) :=
          WellFormed.emptyNode.updateEntries newWellFormed name
        exact alone.updatePriority priority
  | children entries priority =>
      exact wellFormed.updateEntries newWellFormed name

theorem WellFormed.updateChild
    (wellFormed : WellFormed comparator named node)
    (newWellFormed : WellFormed comparator named new) {path : List Key}
    (names : ∀ key ∈ path, named key) :
    WellFormed comparator named (node.updateChild comparator path new) := by
  induction path generalizing node with
  | nil =>
      rw [updateChild_nil]
      exact newWellFormed
  | cons front rest inductionHypothesis =>
      have name := names front List.mem_cons_self
      have others : ∀ key ∈ rest, named key := fun key member =>
        names key (List.mem_cons_of_mem front member)
      cases node with
      | leaf value priority =>
          rw [updateChild_leaf_cons]
          split
          · exact wellFormed
          · exact wellFormed.updateImmediateChild
              (inductionHypothesis .emptyNode others) name
      | children entries priority =>
          rw [updateChild_children_cons]
          exact wellFormed.updateImmediateChild
            (inductionHypothesis (wellFormed.getImmediateChild front) others)
            name

/-! ## What an update changes -/

theorem getImmediateChild_updateEntries
    (wellFormed : WellFormed comparator named (children entries priority))
    (newWellFormed : WellFormed comparator named new)
    (childName wanted : Key) :
    (updateEntries comparator entries priority childName
        new).getImmediateChild comparator wanted =
      if comparator childName wanted = .eq then new
      else (children entries priority).getImmediateChild comparator
        wanted := by
  have ofList (kept : List (Key × FNode Key Value)) :
      (if kept.isEmpty = true then emptyNode
        else children kept priority).getImmediateChild comparator wanted =
          (lookup comparator wanted kept).getD emptyNode := by
    cases kept with
    | nil => rfl
    | cons entry rest => rfl
  cases wellFormed with
  | children sorted names filled each plain =>
      rw [updateEntries, ofList]
      split
      · rename_i empty
        rw [getD_lookup_erase, newWellFormed.eq_emptyNode empty]
        rfl
      · rw [getD_lookup_insert sorted]
        rfl

theorem getImmediateChild_updateImmediateChild
    (wellFormed : WellFormed comparator named node)
    (newWellFormed : WellFormed comparator named new)
    (childName wanted : Key) :
    (node.updateImmediateChild comparator childName
        new).getImmediateChild comparator wanted =
      if comparator childName wanted = .eq then new
      else node.getImmediateChild comparator wanted := by
  cases node with
  | children entries priority =>
      exact getImmediateChild_updateEntries wellFormed newWellFormed childName
        wanted
  | leaf value priority =>
      rw [updateImmediateChild]
      by_cases empty : new.isEmpty = true
      · rw [if_pos empty, newWellFormed.eq_emptyNode empty]
        exact (ite_self _).symm
      · have nothing : WellFormed comparator named
            (FNode.emptyNode : FNode Key Value) :=
          .emptyNode
        rw [if_neg empty, getImmediateChild_updatePriority,
          getImmediateChild_updateEntries nothing newWellFormed]
        rfl

/-- An update on a path changes the first child on it. -/
theorem getImmediateChild_updateChild
    (wellFormed : WellFormed comparator named node)
    (newWellFormed : WellFormed comparator named new) (front : Key)
    {rest : List Key} (names : ∀ key ∈ rest, named key) (wanted : Key) :
    (node.updateChild comparator (front :: rest) new).getImmediateChild
        comparator wanted =
      if comparator front wanted = .eq then
        (node.getImmediateChild comparator front).updateChild comparator rest
          new
      else node.getImmediateChild comparator wanted := by
  have child := (wellFormed.getImmediateChild front).updateChild newWellFormed
    names
  cases node with
  | children entries priority =>
      rw [updateChild_children_cons]
      exact getImmediateChild_updateImmediateChild wellFormed child front
        wanted
  | leaf value priority =>
      rw [updateChild_leaf_cons]
      by_cases empty : new.isEmpty = true
      · have nothing : (emptyNode : FNode Key Value).updateChild comparator
            rest new = emptyNode := by
          cases rest with
          | nil =>
              rw [updateChild_nil]
              exact newWellFormed.eq_emptyNode empty
          | cons next rest =>
              exact updateChild_emptyNode_of_isEmpty empty next rest
        rw [if_pos empty]
        change emptyNode = if comparator front wanted = .eq then
          (emptyNode : FNode Key Value).updateChild comparator rest new
          else emptyNode
        rw [nothing, ite_self]
      · rw [if_neg empty]
        exact getImmediateChild_updateImmediateChild wellFormed child front
          wanted

theorem getImmediateChild_congr {first second : Key}
    (equal : comparator first second = .eq) (node : FNode Key Value) :
    node.getImmediateChild comparator first =
      node.getImmediateChild comparator second := by
  cases node with
  | leaf value priority => rfl
  | children entries priority =>
      rw [getImmediateChild, getImmediateChild, lookup, lookup,
        SortedAssoc.entryAt_congr equal]

/-- What a node has after an update: below the path what was put there, on the
way to it the update, and elsewhere what was there. -/
theorem getChild_updateChild
    (wellFormed : WellFormed comparator named node)
    (newWellFormed : WellFormed comparator named new) {path : List Key}
    (names : ∀ key ∈ path, named key) (other : List Key) :
    (node.updateChild comparator path new).getChild comparator other =
      match strip comparator path other with
      | some rest => new.getChild comparator rest
      | none =>
          match strip comparator other path with
          | some rest =>
              (node.getChild comparator other).updateChild comparator rest new
          | none => node.getChild comparator other := by
  induction path generalizing node other with
  | nil =>
      rw [updateChild_nil, strip_nil]
  | cons front rest inductionHypothesis =>
      cases other with
      | nil =>
          rw [strip_cons_nil, strip_nil, getChild_nil, getChild_nil]
      | cons key others =>
          have below : ∀ key ∈ rest, named key := fun key member =>
            names key (List.mem_cons_of_mem front member)
          rw [getChild_cons, getImmediateChild_updateChild wellFormed
            newWellFormed front below, strip_cons_cons, strip_cons_cons,
            getChild_cons node key]
          by_cases equal : comparator front key = .eq
          · have swapped : comparator key front = .eq :=
              Std.OrientedCmp.eq_symm equal
            rw [if_pos equal, if_pos equal, if_pos swapped,
              inductionHypothesis (wellFormed.getImmediateChild front) below,
              getImmediateChild_congr equal]
          · have swapped : comparator key front ≠ .eq := fun same =>
              equal (Std.OrientedCmp.eq_symm same)
            rw [if_neg equal, if_neg equal, if_neg swapped]

end FNode

end Firebase
end PocketChef
