import PocketChef.Firebase.FTreeSortedDictionary
import Mathlib.Data.Nat.Bitwise

/-!
# Building a tree from a dictionary

`fromDictionary` writes the number of entries in base {1, 2}.  For each digit,
from the most significant one, it cuts one or two chunks off the end of the
sorted entries.  The first entry of a chunk becomes a node whose right child is
a perfectly balanced tree of the others, and each such node is the left child
of the one before it.

The sizes are `unsigned int`; `log_base2` divides two logarithms, whose
quotient is exact enough for every such number.
-/

namespace PocketChef
namespace Firebase

universe u v

open SortedAssoc (Sorted)

variable {Key : Type u} {Value : Type v}

def log_base2 (num : Nat) : Nat :=
  num.log2

def bit_mask (x : Nat) : Nat :=
  2 ^ x - 1

structure Base1_2List where
  bits : Nat
  count : Nat
  current : Nat

namespace Base1_2List

def new (length : Nat) : Base1_2List :=
  let count := log_base2 (length + 1)
  { bits := (length + 1) &&& bit_mask count
    count := count
    current := count - 1 }

/-- Whether the next digit is a 1, and the list after it. -/
def next (list : Base1_2List) : Bool × Base1_2List :=
  (!list.bits.testBit list.current, { list with current := list.current - 1 })

end Base1_2List

namespace FTreeSortedDictionary

/-- The tree of the `length` keys from `startIndex` on. -/
def buildBalancedTree (keys : List (Key × Value)) (startIndex length : Nat) :
    FLLRBNode Key Value :=
  let bounded := min (keys.length - startIndex) length
  if _nothing : bounded = 0 then
    .empty
  else if _single : bounded = 1 then
    let entry := keys.get ⟨startIndex, by omega⟩
    .value entry.1 entry.2 false .empty .empty
  else
    let middle := bounded / 2
    let left := buildBalancedTree keys startIndex middle
    let right := buildBalancedTree keys (startIndex + middle + 1) middle
    let entry := keys.get ⟨startIndex + middle, by omega⟩
    .value entry.1 entry.2 false left right
termination_by length
decreasing_by
  · omega
  · omega

/-- The block `buildPennant` for the last `chunkSize` keys before `index`,
with the pennants after it as its left child. -/
def buildPennant (keys : List (Key × Value)) (color : Bool)
    (chunkSize index : Nat) (left : FLLRBNode Key Value) :
    FLLRBNode Key Value :=
  let startIndex := index - chunkSize + 1
  let index := index - chunkSize
  match keys[index]? with
  | some entry =>
      let childTree := buildBalancedTree keys startIndex (chunkSize - 1)
      .value entry.1 entry.2 color left childTree
  | none => .empty

/-- The loop of `rootFrom12List` over the last `digits` digits. -/
def rootFrom12List (keys : List (Key × Value)) :
    Nat → Base1_2List → Nat → FLLRBNode Key Value
  | 0, _, _ => .empty
  | digits + 1, list, index =>
      let chunkSize := 2 ^ digits
      if list.next.1 then
        buildPennant keys false chunkSize index
          (rootFrom12List keys digits list.next.2 (index - chunkSize))
      else
        buildPennant keys false chunkSize index
          (buildPennant keys true chunkSize (index - chunkSize)
            (rootFrom12List keys digits list.next.2
              (index - chunkSize - chunkSize)))

/-- The sorted entries of a dictionary; `none` is the exception for two keys
with the same ordering. -/
def sortedEntries (comparator : Key → Key → Ordering)
    (dictionary : List (Key × Value)) : Option (List (Key × Value)) :=
  let sorted := SortedAssoc.sort comparator dictionary
  if sorted.IsChain fun first second =>
      comparator first.1 second.1 = .lt then
    some sorted
  else
    none

def fromDictionary (comparator : Key → Key → Ordering)
    (dictionary : List (Key × Value)) :
    Option (FTreeSortedDictionary Key Value) := do
  let keys ← sortedEntries comparator dictionary
  let list := Base1_2List.new keys.length
  some { root := rootFrom12List keys list.count list keys.length }

variable {keys : List (Key × Value)} {startIndex length : Nat}

/-! ## The balanced trees -/

theorem buildBalancedTree_zero :
    buildBalancedTree keys startIndex 0 = .empty := by
  rw [buildBalancedTree]
  simp only [Nat.min_zero, dite_true]

theorem buildBalancedTree_pos {entry : Key × Value}
    (fits : startIndex + length ≤ keys.length) (positive : 0 < length)
    (found : keys[startIndex + length / 2]? = some entry) :
    buildBalancedTree keys startIndex length =
      .value entry.1 entry.2 false
        (buildBalancedTree keys startIndex (length / 2))
        (buildBalancedTree keys (startIndex + length / 2 + 1)
          (length / 2)) := by
  have bounded : min (keys.length - startIndex) length = length := by
    omega
  rcases List.getElem?_eq_some_iff.mp found with ⟨inRange, rfl⟩
  by_cases single : length = 1
  · subst single
    have half : 1 / 2 = 0 := rfl
    rw [buildBalancedTree]
    simp only [bounded, half, buildBalancedTree_zero, Nat.add_zero,
      List.get_eq_getElem, Nat.one_ne_zero, dite_true, dite_false]
  · rw [buildBalancedTree]
    simp only [bounded, Nat.ne_of_gt positive, single, List.get_eq_getElem,
      dite_false]

theorem take_drop_middle {entry : Key × Value} {half : Nat}
    (found : keys[startIndex + half]? = some entry) :
    (keys.drop startIndex).take (half + (half + 1)) =
      (keys.drop startIndex).take half ++
        entry :: (keys.drop (startIndex + half + 1)).take half := by
  rcases List.getElem?_eq_some_iff.mp found with ⟨inRange, rfl⟩
  rw [List.take_add, List.drop_drop, List.drop_eq_getElem_cons inRange,
    List.take_succ_cons]

/-- A chunk of `2 ^ depth - 1` keys has a tree in which every path has
`depth` black nodes. -/
theorem buildBalancedTree_spec (depth startIndex : Nat)
    (fits : startIndex + (2 ^ depth - 1) ≤ keys.length) :
    FLLRBNode.Balanced false depth
        (buildBalancedTree keys startIndex (2 ^ depth - 1)) ∧
      (buildBalancedTree keys startIndex (2 ^ depth - 1)).inorderTraversal =
        (keys.drop startIndex).take (2 ^ depth - 1) := by
  induction depth generalizing startIndex with
  | zero =>
      rw [Nat.pow_zero, Nat.sub_self, buildBalancedTree_zero]
      exact ⟨FLLRBNode.Balanced.empty, rfl⟩
  | succ depth inductionHypothesis =>
      have positive : 0 < 2 ^ depth := Nat.two_pow_pos depth
      have power : 2 ^ (depth + 1) = 2 * 2 ^ depth := by
        rw [Nat.pow_succ, Nat.mul_comm]
      have half : (2 ^ (depth + 1) - 1) / 2 = 2 ^ depth - 1 := by
        omega
      have whole : 2 ^ (depth + 1) - 1 =
          (2 ^ depth - 1) + ((2 ^ depth - 1) + 1) := by
        omega
      have inRange : startIndex + (2 ^ depth - 1) < keys.length := by
        omega
      have found : keys[startIndex + (2 ^ depth - 1)]? =
          some keys[startIndex + (2 ^ depth - 1)] :=
        List.getElem?_eq_getElem inRange
      rcases inductionHypothesis startIndex (by omega) with
        ⟨leftBalanced, leftEntries⟩
      rcases inductionHypothesis (startIndex + (2 ^ depth - 1) + 1)
        (by omega) with ⟨rightBalanced, rightEntries⟩
      rw [buildBalancedTree_pos fits (by omega) (by rw [half]; exact found),
        half]
      refine ⟨FLLRBNode.Balanced.black _ _ leftBalanced rightBalanced, ?_⟩
      rw [FLLRBNode.inorderTraversal, leftEntries, rightEntries, whole,
        take_drop_middle found]

/-! ## The pennants -/

theorem buildPennant_spec (color : Bool) (left : FLLRBNode Key Value)
    {depth : Nat} (index : Nat) (enough : 2 ^ depth ≤ index)
    (fits : index ≤ keys.length) :
    ∃ entry childTree,
      buildPennant keys color (2 ^ depth) index left =
        .value entry.1 entry.2 color left childTree ∧
      FLLRBNode.Balanced false depth childTree ∧
      keys.take index =
        keys.take (index - 2 ^ depth) ++
          entry :: childTree.inorderTraversal := by
  have positive : 0 < 2 ^ depth := Nat.two_pow_pos depth
  have inRange : index - 2 ^ depth < keys.length := by
    omega
  rcases @buildBalancedTree_spec _ _ keys depth (index - 2 ^ depth + 1)
    (by omega) with ⟨balanced, entries⟩
  refine ⟨keys[index - 2 ^ depth], _, ?_, balanced, ?_⟩
  · rw [buildPennant, List.getElem?_eq_getElem inRange]
  · have split : index = (index - 2 ^ depth) + ((2 ^ depth - 1) + 1) := by
      omega
    rw [entries]
    conv => lhs; rw [split]
    rw [List.take_add, List.drop_eq_getElem_cons inRange,
      List.take_succ_cons]

end FTreeSortedDictionary

namespace Base1_2List

/-- The number that the last `digits` digits stand for. -/
def value (bits : Nat) : Nat → Nat
  | 0 => 0
  | digits + 1 =>
      value bits digits +
        if bits.testBit digits then 2 ^ digits + 2 ^ digits else 2 ^ digits

theorem value_eq (bits digits : Nat) :
    value bits digits + 1 = 2 ^ digits + bits % 2 ^ digits := by
  induction digits with
  | zero =>
      rw [Nat.pow_zero, Nat.mod_one]
      rfl
  | succ digits inductionHypothesis =>
      have power : 2 ^ (digits + 1) = 2 * 2 ^ digits := by
        rw [Nat.pow_succ, Nat.mul_comm]
      have digit := @Nat.mod_pow_succ bits 2 digits
      have set : bits.testBit digits =
          decide (bits / 2 ^ digits % 2 = 1) :=
        Nat.testBit_eq_decide_div_mod_eq
      rw [value, power, set]
      rw [power] at digit
      by_cases one : bits / 2 ^ digits % 2 = 1
      · rw [one, Nat.mul_one] at digit
        rw [decide_eq_true one, if_pos rfl]
        omega
      · have zero : bits / 2 ^ digits % 2 = 0 := by
          omega
        rw [zero, Nat.mul_zero] at digit
        rw [decide_eq_false one, if_neg (by decide)]
        omega

/-- The digits of `new length` stand for `length`. -/
theorem value_new (length : Nat) :
    value (new length).bits (new length).count = length := by
  have lower : 2 ^ (length + 1).log2 ≤ length + 1 :=
    Nat.log2_self_le (Nat.succ_ne_zero length)
  have upper := @Nat.lt_log2_self (length + 1)
  have counted := value_eq (new length).bits (new length).count
  have bits : (new length).bits = (length + 1) % 2 ^ (length + 1).log2 :=
    Nat.and_two_pow_sub_one_eq_mod _ _
  have count : (new length).count = (length + 1).log2 := rfl
  rw [bits, count, Nat.mod_mod] at counted
  rw [bits, count]
  have rest : (length + 1) % 2 ^ (length + 1).log2 =
      length + 1 - 2 ^ (length + 1).log2 := by
    rw [Nat.mod_eq_sub_mod lower, Nat.mod_eq_of_lt]
    rw [Nat.pow_succ] at upper
    omega
  omega

end Base1_2List

namespace FTreeSortedDictionary

variable {keys : List (Key × Value)}

/-! ## The whole tree -/

theorem rootFrom12List_spec (digits : Nat) (list : Base1_2List)
    (current : list.current = digits - 1)
    (fits : Base1_2List.value list.bits digits ≤ keys.length) :
    FLLRBNode.Balanced false digits
        (rootFrom12List keys digits list
          (Base1_2List.value list.bits digits)) ∧
      (rootFrom12List keys digits list
        (Base1_2List.value list.bits digits)).inorderTraversal =
          keys.take (Base1_2List.value list.bits digits) := by
  induction digits generalizing list with
  | zero => exact ⟨FLLRBNode.Balanced.empty, rfl⟩
  | succ digits inductionHypothesis =>
      have rest (enough : Base1_2List.value list.bits digits ≤
          keys.length) :=
        inductionHypothesis list.next.2
          (by rw [Base1_2List.next, current]; rfl) enough
      have bits : list.next.2.bits = list.bits := rfl
      have positive : 0 < 2 ^ digits := Nat.two_pow_pos digits
      rw [bits] at rest
      have first : list.next.1 = !list.bits.testBit digits := by
        rw [Base1_2List.next, current, Nat.add_sub_cancel]
      cases set : list.bits.testBit digits with
      | false =>
          have size : Base1_2List.value list.bits (digits + 1) =
              Base1_2List.value list.bits digits + 2 ^ digits := by
            rw [Base1_2List.value, set]
            rfl
          rw [size] at fits ⊢
          rcases rest (by omega) with ⟨leftBalanced, leftEntries⟩
          rcases buildPennant_spec false
            (rootFrom12List keys digits list.next.2
              (Base1_2List.value list.bits digits)) _
            (Nat.le_add_left (2 ^ digits) _) fits with
              ⟨entry, childTree, pennant, balanced, entries⟩
          rw [rootFrom12List, first, set, if_pos (by rfl),
            Nat.add_sub_cancel, pennant]
          refine ⟨FLLRBNode.Balanced.black _ _ leftBalanced balanced, ?_⟩
          rw [entries, FLLRBNode.inorderTraversal, Nat.add_sub_cancel]
          exact congrArg (· ++ _) leftEntries
      | true =>
          have size : Base1_2List.value list.bits (digits + 1) =
              Base1_2List.value list.bits digits + 2 ^ digits +
                2 ^ digits := by
            rw [Base1_2List.value, set, Nat.add_assoc]
            rfl
          rw [size] at fits ⊢
          rcases rest (by omega) with ⟨leftBalanced, leftEntries⟩
          rcases buildPennant_spec true
            (rootFrom12List keys digits list.next.2
              (Base1_2List.value list.bits digits))
            (Base1_2List.value list.bits digits + 2 ^ digits)
            (Nat.le_add_left (2 ^ digits) _)
            (Nat.le_trans (Nat.le_add_right _ _) fits) with
              ⟨redEntry, redTree, redPennant, redBalanced, redEntries⟩
          rcases buildPennant_spec false
            (FLLRBNode.value redEntry.1 redEntry.2 true
              (rootFrom12List keys digits list.next.2
                (Base1_2List.value list.bits digits)) redTree) _
            (Nat.le_add_left (2 ^ digits) _) fits with
              ⟨entry, childTree, pennant, balanced, entries⟩
          rw [rootFrom12List, first, set, if_neg (by decide),
            Nat.add_sub_cancel, Nat.add_sub_cancel, redPennant, pennant]
          refine ⟨FLLRBNode.Balanced.black _ _
            (FLLRBNode.Balanced.red _ _ leftBalanced redBalanced)
            balanced, ?_⟩
          rw [entries, FLLRBNode.inorderTraversal,
            FLLRBNode.inorderTraversal, Nat.add_sub_cancel, redEntries,
            Nat.add_sub_cancel]
          exact congrArg (fun left => (left ++ _) ++ _) leftEntries

/-- A dictionary whose keys all differ has a balanced tree of its entries in
order. -/
theorem fromDictionary_spec {comparator : Key → Key → Ordering}
    [Std.TransCmp comparator] {dictionary : List (Key × Value)}
    (different : dictionary.Pairwise fun first second =>
      comparator first.1 second.1 ≠ .eq) :
    ∃ built : FTreeSortedDictionary Key Value,
      fromDictionary comparator dictionary = some built ∧
      Valid comparator built ∧
      built.root.inorderTraversal =
        SortedAssoc.sort comparator dictionary := by
  have sorted : Sorted comparator (SortedAssoc.sort comparator dictionary) :=
    SortedAssoc.sorted_sort different
  have entries : sortedEntries comparator dictionary =
      some (SortedAssoc.sort comparator dictionary) :=
    if_pos (List.Pairwise.isChain sorted)
  generalize SortedAssoc.sort comparator dictionary = keys at sorted entries
  have size := Base1_2List.value_new keys.length
  have spec := @rootFrom12List_spec _ _ keys
    (Base1_2List.new keys.length).count (Base1_2List.new keys.length) rfl
    (Nat.le_of_eq size)
  rw [size, List.take_length] at spec
  refine ⟨{ root := _ }, ?_, ⟨⟨_, spec.1⟩, ?_⟩, spec.2⟩
  · rw [fromDictionary, entries]
    rfl
  · rw [spec.2]
    exact sorted

end FTreeSortedDictionary

end Firebase
end PocketChef
