import PocketChef.Library.SortedAssoc

/-!
# Trees with values on the way

A node of an `FImmutableTree` may have a value, and it has children in an
`FImmutableSortedDictionary`, whose entries `SortedAssoc` describes.
-/

namespace PocketChef
namespace Firebase

universe u v

open SortedAssoc (Sorted lookup insert erase)

inductive FImmutableTree (Key : Type u) (Value : Type v) where
  | mk (value : Option Value)
      (children : List (Key × FImmutableTree Key Value))

namespace FImmutableTree

variable {Key : Type u} {Value : Type v}

def value : FImmutableTree Key Value → Option Value
  | mk value _ => value

def children : FImmutableTree Key Value →
    List (Key × FImmutableTree Key Value)
  | mk _ children => children

/-- `initWithValue:`. -/
def ofValue (value : Option Value) : FImmutableTree Key Value :=
  mk value []

def empty : FImmutableTree Key Value :=
  ofValue none

def isEmpty (tree : FImmutableTree Key Value) : Bool :=
  tree.value.isNone && tree.children.isEmpty

section Methods

variable (comparator : Key → Key → Ordering)

/-- `[self.children get:front]`. -/
def child (tree : FImmutableTree Key Value) (front : Key) :
    Option (FImmutableTree Key Value) :=
  lookup comparator front tree.children

/-- The shortest path to a value on the given path, and the value. -/
def findRootMostValueAndPath (tree : FImmutableTree Key Value) :
    List Key → Option (List Key × Value)
  | [] => tree.value.map fun value => ([], value)
  | front :: rest =>
      match tree.value with
      | some value => some ([], value)
      | none =>
          match tree.child comparator front with
          | some child =>
              (findRootMostValueAndPath child rest).map fun found =>
                (front :: found.1, found.2)
          | none => none

def subtreeAtPath (tree : FImmutableTree Key Value) :
    List Key → FImmutableTree Key Value
  | [] => tree
  | front :: rest =>
      match tree.child comparator front with
      | some childTree => subtreeAtPath childTree rest
      | none => empty

def setValue (newValue : Value) (tree : FImmutableTree Key Value) :
    List Key → FImmutableTree Key Value
  | [] => mk (some newValue) tree.children
  | front :: rest =>
      let child := (tree.child comparator front).getD empty
      mk tree.value
        (insert comparator front (setValue newValue child rest) tree.children)

def setTree (newTree : FImmutableTree Key Value)
    (tree : FImmutableTree Key Value) :
    List Key → FImmutableTree Key Value
  | [] => newTree
  | front :: rest =>
      let child := (tree.child comparator front).getD empty
      let newChild := setTree newTree child rest
      mk tree.value
        (if newChild.isEmpty then erase comparator front tree.children
          else insert comparator front newChild tree.children)

end Methods

variable {comparator : Key → Key → Ordering}
variable {tree newTree : FImmutableTree Key Value} {front : Key}

@[simp]
theorem value_mk (value : Option Value)
    (children : List (Key × FImmutableTree Key Value)) :
    (mk value children).value = value :=
  rfl

@[simp]
theorem children_mk (value : Option Value)
    (children : List (Key × FImmutableTree Key Value)) :
    (mk value children).children = children :=
  rfl

/-- Induction over the children of trees. -/
theorem induct {motive : FImmutableTree Key Value → Prop}
    (mk : ∀ value children, (∀ entry ∈ children, motive entry.2) →
      motive (mk value children))
    (tree : FImmutableTree Key Value) : motive tree := by
  refine @FImmutableTree.rec Key Value motive
    (fun entries => ∀ entry ∈ entries, motive entry.2)
    (fun entry => motive entry.2) mk ?_ ?_ ?_ tree
  · exact fun entry member => absurd member List.not_mem_nil
  · intro head tail first others entry member
    rcases List.mem_cons.mp member with rfl | later
    · exact first
    · exact others entry later
  · exact fun key tree same => same

/-- The children of every node are sorted, and `holds` is true of all
values. -/
inductive WellFormed (comparator : Key → Key → Ordering)
    (holds : Value → Prop) : FImmutableTree Key Value → Prop
  | mk {value : Option Value}
      {children : List (Key × FImmutableTree Key Value)}
      (own : ∀ kept ∈ value, holds kept)
      (sorted : Sorted comparator children)
      (each : ∀ entry ∈ children, WellFormed comparator holds entry.2) :
      WellFormed comparator holds (mk value children)

variable {holds : Value → Prop}

namespace WellFormed

theorem ofValue {value : Option Value} (own : ∀ kept ∈ value, holds kept) :
    WellFormed comparator holds
      (FImmutableTree.ofValue value : FImmutableTree Key Value) :=
  .mk own List.Pairwise.nil fun _ member => absurd member List.not_mem_nil

theorem empty :
    WellFormed comparator holds
      (FImmutableTree.empty : FImmutableTree Key Value) :=
  ofValue fun _ member => absurd member (by simp)

theorem own (wellFormed : WellFormed comparator holds tree) :
    ∀ kept ∈ tree.value, holds kept := by
  cases wellFormed with
  | mk own sorted each => exact own

theorem sorted (wellFormed : WellFormed comparator holds tree) :
    Sorted comparator tree.children := by
  cases wellFormed with
  | mk own sorted each => exact sorted

theorem child (wellFormed : WellFormed comparator holds tree)
    {child : FImmutableTree Key Value}
    (found : tree.child comparator front = some child) :
    WellFormed comparator holds child := by
  cases wellFormed with
  | mk own sorted each =>
      obtain ⟨entry, first, rfl⟩ := Option.map_eq_some_iff.mp found
      exact each entry (List.mem_of_find?_eq_some first)

theorem getD_child (wellFormed : WellFormed comparator holds tree)
    (front : Key) :
    WellFormed comparator holds
      ((tree.child comparator front).getD .empty) := by
  cases found : tree.child comparator front with
  | none => exact empty
  | some child => exact wellFormed.child found

theorem findRootMostValueAndPath
    (wellFormed : WellFormed comparator holds tree) {path : List Key}
    {found : List Key × Value}
    (rootMost : tree.findRootMostValueAndPath comparator path =
      some found) : holds found.2 := by
  induction path generalizing tree found with
  | nil =>
      obtain ⟨kept, value, rfl⟩ := Option.map_eq_some_iff.mp rootMost
      exact wellFormed.own kept value
  | cons front rest inductionHypothesis =>
      rw [FImmutableTree.findRootMostValueAndPath] at rootMost
      split at rootMost
      · rename_i kept value
        rw [← Option.some.inj rootMost]
        exact wellFormed.own kept value
      · split at rootMost
        · rename_i child first
          obtain ⟨below, inside, same⟩ := Option.map_eq_some_iff.mp rootMost
          have kept : holds below.2 :=
            inductionHypothesis (wellFormed.child first) inside
          rw [← same]
          exact kept
        · cases rootMost

theorem erase (wellFormed : WellFormed comparator holds tree)
    (front : Key) :
    WellFormed comparator holds
      (.mk tree.value
        (SortedAssoc.erase comparator front tree.children)) := by
  cases wellFormed with
  | mk own sorted each =>
      refine .mk own (sorted.erase front) ?_
      intro entry member
      exact each entry (SortedAssoc.mem_select.mp member).1

variable [Std.TransCmp comparator]

theorem insert (wellFormed : WellFormed comparator holds tree)
    (newWellFormed : WellFormed comparator holds newTree) (front : Key) :
    WellFormed comparator holds
      (.mk tree.value
        (SortedAssoc.insert comparator front newTree tree.children)) := by
  cases wellFormed with
  | mk own sorted each =>
      refine .mk own (sorted.insert front newTree) ?_
      intro entry member
      rcases List.mem_append.mp member with before | after
      · exact each entry (SortedAssoc.mem_select.mp before).1
      · rcases List.mem_cons.mp after with rfl | larger
        · exact newWellFormed
        · exact each entry (SortedAssoc.mem_select.mp larger).1

theorem setValue (wellFormed : WellFormed comparator holds tree)
    {newValue : Value} (kept : holds newValue) (path : List Key) :
    WellFormed comparator holds
      (tree.setValue comparator newValue path) := by
  induction path generalizing tree with
  | nil =>
      cases wellFormed with
      | mk own sorted each =>
          refine .mk ?_ sorted each
          intro value member
          rw [← Option.some.inj member]
          exact kept
  | cons front rest inductionHypothesis =>
      exact wellFormed.insert
        (inductionHypothesis (wellFormed.getD_child front)) front

theorem setTree (wellFormed : WellFormed comparator holds tree)
    (newWellFormed : WellFormed comparator holds newTree)
    (path : List Key) :
    WellFormed comparator holds
      (setTree comparator newTree tree path) := by
  induction path generalizing tree with
  | nil => exact newWellFormed
  | cons front rest inductionHypothesis =>
      rw [FImmutableTree.setTree]
      split
      · exact wellFormed.erase front
      · exact wellFormed.insert
          (inductionHypothesis (wellFormed.getD_child front)) front

end WellFormed

/-! ## Children after an update -/

theorem child_insert [Std.TransCmp comparator]
    (sorted : Sorted comparator tree.children)
    (newChild : FImmutableTree Key Value) (front wanted : Key) :
    (mk tree.value (insert comparator front newChild tree.children)).child
        comparator wanted =
      if comparator wanted front = .eq then some newChild
      else tree.child comparator wanted :=
  SortedAssoc.lookup_insert sorted front newChild wanted

theorem child_erase [Std.TransCmp comparator] (front wanted : Key) :
    (mk tree.value (erase comparator front tree.children)).child comparator
        wanted =
      if comparator wanted front = .eq then none
      else tree.child comparator wanted :=
  SortedAssoc.lookup_erase tree.children front wanted

theorem isEmpty_insert (newChild : FImmutableTree Key Value)
    (front : Key) :
    (mk tree.value
      (insert comparator front newChild tree.children)).isEmpty = false := by
  rw [isEmpty, children_mk, SortedAssoc.insert]
  simp

/-- A tree does not become empty when another one is put into it. -/
theorem isEmpty_setTree (filled : newTree.isEmpty = false)
    (path : List Key) :
    (setTree comparator newTree tree path).isEmpty = false := by
  induction path generalizing tree with
  | nil => exact filled
  | cons front rest inductionHypothesis =>
      rw [setTree, if_neg (by rw [inductionHypothesis]; decide)]
      exact isEmpty_insert _ front

theorem eq_empty (nothing : tree.isEmpty = true) : tree = empty := by
  cases tree with
  | mk value children =>
      rw [isEmpty, Bool.and_eq_true] at nothing
      obtain ⟨noValue, noChildren⟩ := nothing
      rw [value_mk, Option.isNone_iff_eq_none] at noValue
      rw [children_mk, List.isEmpty_iff] at noChildren
      rw [noValue, noChildren]
      rfl

end FImmutableTree

end Firebase
end PocketChef
