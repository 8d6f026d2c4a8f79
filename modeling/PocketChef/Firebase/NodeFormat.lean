import PocketChef.Firebase.FSnapshotUtilities

/-!
# The nodes that are made of objects

Whatever object passes the checks, the node made of it is well formed: its
keys are valid and sorted, its leaves hold values that may be stored, and it
is not too deep.
-/

namespace PocketChef
namespace Firebase

open SortedAssoc (Sorted)
open FUtilities (compareKey key)
open FValidation

namespace FSnapshotUtilities

variable {Number : Type} {foundation : Foundation Number}

/-- The nodes at a depth that can be stored. -/
inductive Storable (foundation : Foundation Number) : Nat → Node Number → Prop
  | emptyNode {depth : Nat} (shallow : depth ≤ kFirebaseMaxObjectDepth) :
      Storable foundation depth .emptyNode
  | leaf {depth : Nat} {value : NSObject Number}
      {priority : Option (NSObject Number)}
      (shallow : depth ≤ kFirebaseMaxObjectDepth)
      (kept : LeafValue foundation value)
      (ranked : ∀ rank ∈ priority, PriorityValue foundation rank) :
      Storable foundation depth (.leaf value priority)
  | children {depth : Nat} {entries : List (String × Node Number)}
      {priority : Option (NSObject Number)}
      (shallow : depth ≤ kFirebaseMaxObjectDepth)
      (ranked : ∀ rank ∈ priority, PriorityValue foundation rank)
      (some : entries ≠ []) (sorted : Sorted compareKey entries)
      (names : ∀ entry ∈ entries, isValidKey entry.1 = true)
      (filled : ∀ entry ∈ entries, entry.2.isEmpty = false)
      (each : ∀ entry ∈ entries, Storable foundation (depth + 1) entry.2) :
      Storable foundation depth (.children entries priority)

variable {fn : String} {depth : Nat} {path : List String}
variable {aPriority object : NSObject Number} {node : Node Number}
variable {priority : Option (NSObject Number)}

theorem Storable.shallow (storable : Storable foundation depth node) :
    depth ≤ kFirebaseMaxObjectDepth := by
  cases storable with
  | emptyNode shallow => exact shallow
  | leaf shallow kept ranked => exact shallow
  | children shallow => exact shallow

theorem Storable.wellFormed (storable : Storable foundation depth node) :
    FNode.WellFormed compareKey (fun key => isValidKey key = true) node := by
  induction storable with
  | emptyNode shallow => exact .emptyNode
  | leaf shallow kept ranked => exact .leaf _ _
  | children shallow ranked some sorted names filled each
      inductionHypothesis =>
      exact .children sorted names filled inductionHypothesis
        fun nothing => absurd nothing some

theorem ok_of_bind {First Second : Type} {first : Except NSException First}
    {next : First → Except NSException Second} {result : Second}
    (ran : (first >>= next) = .ok result) :
    ∃ value, first = .ok value ∧ next value = .ok result := by
  cases first with
  | error exception => cases ran
  | ok value => exact ⟨value, rfl, ran⟩

@[simp]
theorem ok_bind {First Second : Type} (value : First)
    (next : First → Except NSException Second) :
    (Except.ok value >>= next) = next value :=
  rfl

/-! ## The checks -/

theorem validDepth_eq_ok_iff {result : Unit} :
    validDepth fn depth path = .ok result ↔
      depth ≤ kFirebaseMaxObjectDepth := by
  rw [validDepth]
  split
  · simp only [reduceCtorEq, false_iff, not_le]
    assumption
  · simp only [true_iff]
    omega

theorem priorityFrom_spec
    (checked : isValidPriorityValue foundation fn path aPriority = .ok ())
    (made : priorityFrom foundation aPriority = .ok priority) :
    ∀ rank ∈ priority, PriorityValue foundation rank := by
  have ranked (some : aPriority ≠ .null)
      (made : (do
        if ← isValidLeafValue foundation "nodeFrom:priority:" [] aPriority then
          return Option.some aPriority
        else throw (cannotStore foundation "nodeFrom:priority:" aPriority [])) =
          Except.ok priority) :
      ∀ rank ∈ priority, PriorityValue foundation rank := by
    obtain ⟨leaf, valid, returned⟩ := ok_of_bind made
    cases leaf with
    | false => cases returned
    | true =>
        intro rank member
        have same : Option.some aPriority = priority :=
          Except.ok.inj returned
        rw [← same] at member
        rw [← Option.some.inj member]
        exact priorityValue_of_checks checked valid some
  cases aPriority with
  | null =>
      have same : none = priority := Except.ok.inj made
      rw [← same]
      exact fun rank member => absurd member (by simp)
  | string text => exact ranked (by simp) made
  | number value => exact ranked (by simp) made
  | dictionary members => exact ranked (by simp) made
  | array items => exact ranked (by simp) made
  | other className => exact ranked (by simp) made

theorem checkedPriority_spec
    (made : checkedPriority foundation fn aPriority depth path =
      .ok priority) :
    depth ≤ kFirebaseMaxObjectDepth ∧
      ∀ rank ∈ priority, PriorityValue foundation rank := by
  obtain ⟨_, shallow, rest⟩ := ok_of_bind made
  obtain ⟨_, checked, last⟩ := ok_of_bind rest
  exact ⟨validDepth_eq_ok_iff.mp shallow, priorityFrom_spec checked last⟩

theorem ownPriority_spec {passed : Option (NSObject Number)}
    {dict : List (String × NSObject Number)}
    (ranked : ∀ rank ∈ passed, PriorityValue foundation rank)
    (made : ownPriority foundation fn path passed dict = .ok priority) :
    ∀ rank ∈ priority, PriorityValue foundation rank := by
  rw [ownPriority] at made
  split at made
  · obtain ⟨_, checked, last⟩ := ok_of_bind made
    exact priorityFrom_spec checked last
  · rw [← Except.ok.inj made]
    exact ranked

theorem leafFrom_storable
    (made : leafFrom foundation fn aPriority depth path object = .ok node) :
    Storable foundation depth node := by
  obtain ⟨priority, checked, rest⟩ := ok_of_bind made
  obtain ⟨shallow, ranked⟩ := checkedPriority_spec checked
  obtain ⟨leaf, valid, returned⟩ := ok_of_bind rest
  cases leaf with
  | false => cases returned
  | true =>
      rw [← Except.ok.inj returned]
      exact .leaf shallow (isValidLeafValue_eq_true_iff.mp valid) ranked

/-! ## Children -/

/-- Children that can be put into a node. -/
def StorableChildren (foundation : Foundation Number) (depth : Nat)
    (children : List (String × Node Number)) : Prop :=
  ∀ entry ∈ children, isValidKey entry.1 = true ∧
    entry.2.isEmpty = false ∧ Storable foundation (depth + 1) entry.2

theorem StorableChildren.cons {children : List (String × Node Number)}
    (others : StorableChildren foundation depth children) {keyId : String}
    {childNode : Node Number} (name : isValidKey keyId = true)
    (storable : Storable foundation (depth + 1) childNode) :
    StorableChildren foundation depth
      (if childNode.isEmpty then children
        else (keyId, childNode) :: children) := by
  split
  · exact others
  · rename_i filled
    intro entry member
    rcases List.mem_cons.mp member with rfl | later
    · exact ⟨name, Bool.eq_false_iff.mpr filled, storable⟩
    · exact others entry later

theorem childrenNode_storable {children : List (String × Node Number)}
    (shallow : depth ≤ kFirebaseMaxObjectDepth)
    (ranked : ∀ rank ∈ priority, PriorityValue foundation rank)
    (each : StorableChildren foundation depth children)
    (made : childrenNode priority children = .ok node) :
    Storable foundation depth node := by
  rw [childrenNode] at made
  split at made
  · rw [← Except.ok.inj made]
    exact .emptyNode shallow
  · rename_i some
    split at made
    · rename_i childrenDict built
      obtain ⟨sorted, perm⟩ :=
        FImmutableSortedDictionary.fromDictionary_sorted built
      rw [← Except.ok.inj made]
      have same (entry : String × Node Number)
          (member : entry ∈ childrenDict.entries) :=
        each entry (perm.subset member)
      refine .children shallow ranked ?_ sorted
        (fun entry member => (same entry member).1)
        (fun entry member => (same entry member).2.1)
        fun entry member => (same entry member).2.2
      intro nothing
      rw [nothing] at perm
      exact some (List.isEmpty_iff.mpr perm.nil_eq.symm)
    · cases made

theorem childrenNode_of_perm {children kept : List (String × Node Number)}
    (sorted : Sorted compareKey kept) (perm : children.Perm kept) :
    childrenNode priority children =
      .ok (if kept.isEmpty then .emptyNode else .children kept priority) := by
  cases kept with
  | nil =>
      rw [perm.eq_nil]
      rfl
  | cons entry rest =>
      have different : children.Pairwise fun first second =>
          compareKey first.1 second.1 ≠ .eq := by
        have apart : (entry :: rest).Pairwise fun first second =>
            compareKey first.1 second.1 ≠ .eq := by
          refine sorted.imp ?_
          intro first second less same
          rw [less] at same
          cases same
        refine apart.perm perm.symm ?_
        intro first second unequal same
        exact unequal (Std.OrientedCmp.eq_symm same)
      obtain ⟨made, built, _, listed⟩ :=
        FImmutableSortedDictionary.fromDictionary_spec different
      have ordered : SortedAssoc.sort compareKey children = entry :: rest :=
        (SortedAssoc.sorted_sort different).eq_of_perm sorted
          ((SortedAssoc.sort_perm children).trans perm)
      have some : children.isEmpty = false := by
        cases children with
        | nil => cases perm.length_eq
        | cons first others => rfl
      rw [childrenNode, some, built]
      dsimp only
      rw [listed, ordered]
      rfl

theorem membersFrom_storable {dict : List (String × NSObject Number)}
    (each : ∀ pair ∈ dict, ∀ (place : List String) (child : Node Number),
      internalNodeFrom foundation fn .null (depth + 1) place pair.2 =
        .ok child → Storable foundation (depth + 1) child)
    {children : List (String × Node Number)}
    (made : membersFrom foundation fn depth path dict = .ok children) :
    StorableChildren foundation depth children := by
  induction dict generalizing children with
  | nil =>
      rw [membersFrom] at made
      rw [← Except.ok.inj made]
      exact fun entry member => absurd member List.not_mem_nil
  | cons pair rest inductionHypothesis =>
      obtain ⟨keyId, value⟩ := pair
      have others := @inductionHypothesis fun pair member =>
        each pair (List.mem_cons_of_mem _ member)
      rw [membersFrom] at made
      obtain ⟨_, checked, next⟩ := ok_of_bind made
      split at next
      · exact others next
      · rename_i plain
        obtain ⟨childNode, child, last⟩ := ok_of_bind next
        obtain ⟨kept, following, returned⟩ := ok_of_bind last
        rw [← Except.ok.inj returned]
        exact (others following).cons
          (isValidKey_of_validDictionaryKey checked plain)
          (each _ List.mem_cons_self _ _ child)

theorem isValidKey_key (index : Nat) : isValidKey (key index) = true := by
  have digits : ∀ c ∈ (key index).toList, c.isDigit = true := by
    rw [FUtilities.key_eq_repr, Nat.toList_repr]
    exact fun c member => Nat.isDigit_of_mem_toDigits (by decide) (by decide)
      member
  have some : (key index).toList ≠ [] := by
    rw [FUtilities.key_eq_repr, Nat.toList_repr]
    exact Nat.toDigits_ne_nil
  rw [isValidKey, Bool.and_eq_true, List.all_eq_true]
  refine ⟨by simpa using some, ?_⟩
  intro c member
  have digit := digits c member
  rw [Bool.not_eq_true', ← Bool.not_eq_true, List.contains_iff_mem]
  intro invalid
  have plain : kInvalidKeyCharacters.all (fun c => !c.isDigit) = true := by
    decide
  have other := List.all_eq_true.mp plain c invalid
  rw [digit] at other
  cases other

theorem itemsFrom_storable {aval : List (NSObject Number)} {i : Nat}
    (each : ∀ item ∈ aval, ∀ (place : List String) (child : Node Number),
      internalNodeFrom foundation fn .null (depth + 1) place item =
        .ok child → Storable foundation (depth + 1) child)
    {children : List (String × Node Number)}
    (made : itemsFrom foundation fn depth path i aval = .ok children) :
    StorableChildren foundation depth children := by
  induction aval generalizing i children with
  | nil =>
      rw [itemsFrom] at made
      rw [← Except.ok.inj made]
      exact fun entry member => absurd member List.not_mem_nil
  | cons item rest inductionHypothesis =>
      rw [itemsFrom] at made
      obtain ⟨childNode, child, next⟩ := ok_of_bind made
      obtain ⟨kept, following, returned⟩ := ok_of_bind next
      have others := inductionHypothesis (fun item member =>
        each item (List.mem_cons_of_mem _ member)) following
      rw [← Except.ok.inj returned]
      exact others.cons (isValidKey_key i)
        (each item List.mem_cons_self _ _ child)

theorem internalNodeFrom_storable
    (made : internalNodeFrom foundation fn aPriority depth path object =
      .ok node) : Storable foundation depth node := by
  induction object using NSObject.induct generalizing aPriority depth path
    node with
  | null =>
      rw [internalNodeFrom] at made
      obtain ⟨_, shallow, returned⟩ := ok_of_bind made
      rw [← Except.ok.inj returned]
      exact .emptyNode (validDepth_eq_ok_iff.mp shallow)
  | string text =>
      rw [internalNodeFrom] at made
      exact leafFrom_storable made
  | number value =>
      rw [internalNodeFrom] at made
      exact leafFrom_storable made
  | other className =>
      rw [internalNodeFrom] at made
      exact leafFrom_storable made
  | array aval inductionHypothesis =>
      rw [internalNodeFrom] at made
      obtain ⟨priority, checked, rest⟩ := ok_of_bind made
      obtain ⟨children, items, last⟩ := ok_of_bind rest
      obtain ⟨shallow, ranked⟩ := checkedPriority_spec checked
      refine childrenNode_storable shallow ranked ?_ last
      exact itemsFrom_storable
        (fun item member place child => inductionHypothesis item member) items
  | dictionary dict inductionHypothesis =>
      rw [internalNodeFrom] at made
      obtain ⟨passed, checked, rest⟩ := ok_of_bind made
      obtain ⟨priority, own, rest⟩ := ok_of_bind rest
      obtain ⟨shallow, passedRanked⟩ := checkedPriority_spec checked
      have ranked := ownPriority_spec passedRanked own
      split at rest
      · obtain ⟨leaf, valid, returned⟩ := ok_of_bind rest
        cases leaf with
        | false => cases returned
        | true =>
            rw [← Except.ok.inj returned]
            exact .leaf shallow (isValidLeafValue_eq_true_iff.mp valid) ranked
      · obtain ⟨leaf, valid, returned⟩ := ok_of_bind rest
        cases leaf with
        | true =>
            rw [← Except.ok.inj returned]
            exact .leaf shallow (isValidLeafValue_eq_true_iff.mp valid) ranked
        | false =>
            obtain ⟨children, members, last⟩ := ok_of_bind returned
            refine childrenNode_storable shallow ranked ?_ last
            exact membersFrom_storable
              (fun pair member place child =>
                inductionHypothesis pair member) members

/-- What is stored is well formed. -/
theorem nodeFrom_storable {val : NSObject Number}
    (made : nodeFrom foundation fn val aPriority = .ok node) :
    Storable foundation 0 node :=
  internalNodeFrom_storable made

/-- Whole numbers, and the ASCII digits. -/
def decimalFoundation : Foundation Int where
  isNotANumber _ := false
  isBoolean _ := false
  className _ := "NSObject"
  decimalDigit := Char.isDigit
  scanInteger text := FUtilities.parseDigits (FUtilities.utf16 text) 0

/-- A node with a child that has children and a priority, and a leaf with a
priority. -/
def rankedNode : Node Int :=
  .children
    [("a", .leaf (.number 5) (some (.string "p"))),
      ("b", .children [("c", .leaf (.string "x") none)] (some (.number 1)))]
    none

theorem nodeFrom_ranked :
    nodeFrom decimalFoundation "setValue:"
        (.dictionary
          [("b", .dictionary
            [("c", .string "x"), (kPayloadPriority, .number 1)]),
          ("a", .dictionary
            [(kPayloadValue, .number 5), (kPayloadPriority, .string "p")])])
        .null =
      .ok rankedNode := by
  have below : internalNodeFrom decimalFoundation "setValue:" .null 1 ["b"]
      (.dictionary [("c", .string "x"), (kPayloadPriority, .number 1)]) =
        .ok (.children [("c", .leaf (.string "x") none)]
          (some (.number 1))) := by
    have made : childrenNode (some (.number 1))
        [("c", (.leaf (.string "x") none : Node Int))] =
          .ok (.children [("c", .leaf (.string "x") none)]
            (some (.number 1))) :=
      childrenNode_of_perm (List.pairwise_singleton _ _) (List.Perm.refl _)
    exact made
  have members : membersFrom decimalFoundation "setValue:" 0 []
      [("b", .dictionary
          [("c", .string "x"), (kPayloadPriority, .number 1)]),
        ("a", .dictionary
          [(kPayloadValue, .number 5), (kPayloadPriority, .string "p")])] =
        .ok [("b", .children [("c", .leaf (.string "x") none)]
            (some (.number 1))),
          ("a", .leaf (.number 5) (some (.string "p")))] := by
    rw [membersFrom]
    change (internalNodeFrom decimalFoundation "setValue:" .null 1 ["b"] _
      >>= _) = _
    rw [below]
    rfl
  have sorted : Sorted compareKey
      [("a", (.leaf (.number 5) (some (.string "p")) : Node Int)),
        ("b", .children [("c", .leaf (.string "x") none)]
          (some (.number 1)))] :=
    SortedAssoc.sorted_pair (by decide +kernel)
  change (membersFrom decimalFoundation "setValue:" 0 [] _ >>=
    childrenNode none) = _
  rw [members]
  exact childrenNode_of_perm sorted (List.Perm.swap _ _ _)

theorem nodeFrom_storable_ranked :
    Storable decimalFoundation 0 rankedNode :=
  nodeFrom_storable nodeFrom_ranked

end FSnapshotUtilities

end Firebase
end PocketChef
