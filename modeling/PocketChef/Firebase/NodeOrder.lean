import Mathlib.Data.List.Perm.Basic
import Mathlib.Logic.Relation
import PocketChef.Firebase.NodeFormat

/-!
# Dictionaries in another order

An `NSDictionary` lists its members in any order.  The node that is made of an
object does not depend on it.
-/

namespace PocketChef
namespace Firebase

open SortedAssoc (Sorted)
open FUtilities (compareKey key)
open FValidation

namespace FSnapshotUtilities

variable {Number : Type} {foundation : Foundation Number}

/-- One of the dictionaries that `nodeFrom` goes through lists its members in
another order. -/
inductive Reorders : NSObject Number → NSObject Number → Prop
  | here {members others : List (String × NSObject Number)}
      (distinct : (members.map Prod.fst).Nodup)
      (perm : members.Perm others) :
      Reorders (.dictionary members) (.dictionary others)
  | member {name : String} {value other : NSObject Number}
      (before after : List (String × NSObject Number))
      (plain : name.toList.head? ≠ some kPayloadMetadataPrefix)
      (inner : Reorders value other) :
      Reorders (.dictionary (before ++ (name, value) :: after))
        (.dictionary (before ++ (name, other) :: after))
  | item {value other : NSObject Number} (before after : List (NSObject Number))
      (inner : Reorders value other) :
      Reorders (.array (before ++ value :: after))
        (.array (before ++ other :: after))

/-- Any number of the dictionaries list their members in another order. -/
abbrev Enumerates : NSObject Number → NSObject Number → Prop :=
  Relation.ReflTransGen Reorders

variable {fn : String} {depth : Nat} {path : List String}
variable {aPriority object value other : NSObject Number} {node : Node Number}
variable {priority : Option (NSObject Number)}
variable {members others before after : List (String × NSObject Number)}
variable {children reordered : List (String × Node Number)}

/-! ## Lookups -/

theorem lookup_eq_some_iff {Item : Type} {entries : List (String × Item)}
    (distinct : (entries.map Prod.fst).Nodup) (name : String) (item : Item) :
    entries.lookup name = some item ↔ (name, item) ∈ entries := by
  induction entries with
  | nil => simp
  | cons entry rest inductionHypothesis =>
      rw [List.map_cons, List.nodup_cons] at distinct
      rw [List.lookup_cons, List.mem_cons]
      by_cases same : name = entry.1
      · have absent : (name, item) ∉ rest := fun member =>
          distinct.1 (same ▸ List.mem_map_of_mem member)
        rw [beq_iff_eq.mpr same, or_iff_left absent, Option.some.injEq,
          Prod.ext_iff]
        exact ⟨fun value => ⟨same, value.symm⟩, fun both => both.2.symm⟩
      · rw [beq_eq_false_iff_ne.mpr same]
        simp [Prod.ext_iff, same, inductionHypothesis distinct.2]

theorem lookup_of_perm {Item : Type} {first second : List (String × Item)}
    (distinct : (first.map Prod.fst).Nodup) (perm : first.Perm second)
    (name : String) : second.lookup name = first.lookup name := by
  have others : (second.map Prod.fst).Nodup :=
    (perm.map Prod.fst).nodup_iff.mp distinct
  ext item
  rw [lookup_eq_some_iff others, lookup_eq_some_iff distinct, perm.mem_iff]

/-- Metadata are not among the members that are reordered. -/
theorem lookup_of_member {name metadata : String}
    (different : metadata ≠ name) :
    (before ++ (name, other) :: after).lookup metadata =
      (before ++ (name, value) :: after).lookup metadata := by
  rw [List.lookup_append, List.lookup_append, List.lookup_cons,
    List.lookup_cons, beq_eq_false_iff_ne.mpr different]

/-! ## Members and items -/

/-- The child that one member makes, if any. -/
def memberFrom (foundation : Foundation Number) (fn : String) (depth : Nat)
    (path : List String) (pair : String × NSObject Number) :
    Except NSException (Option (String × Node Number)) := do
  validDictionaryKey fn pair.1 path
  if pair.1.toList.head? = some kPayloadMetadataPrefix then
    return none
  else
    let childNode ← internalNodeFrom foundation fn .null (depth + 1)
      (path ++ [pair.1]) pair.2
    return if childNode.isEmpty then none else some (pair.1, childNode)

theorem membersFrom_cons (pair : String × NSObject Number) :
    membersFrom foundation fn depth path (pair :: members) =
      memberFrom foundation fn depth path pair >>= fun child =>
        membersFrom foundation fn depth path members >>= fun rest =>
          .ok (child.toList ++ rest) := by
  obtain ⟨keyId, value⟩ := pair
  rw [membersFrom, memberFrom]
  cases validDictionaryKey fn keyId path with
  | error exception => rfl
  | ok checked =>
      rw [ok_bind, ok_bind]
      by_cases front : keyId.toList.head? = some kPayloadMetadataPrefix
      · rw [if_pos front, if_pos front]
        cases membersFrom foundation fn depth path members <;> rfl
      · rw [if_neg front, if_neg front]
        cases internalNodeFrom foundation fn .null (depth + 1)
          (path ++ [keyId]) value with
        | error exception => rfl
        | ok childNode =>
            rw [ok_bind, ok_bind]
            cases membersFrom foundation fn depth path members <;>
              cases childNode.isEmpty <;> rfl

/-- What the members of a dictionary make, one by one. -/
theorem membersFrom_eq_ok_iff :
    membersFrom foundation fn depth path members = .ok children ↔
      ∃ made, List.Forall₂ (fun pair child =>
          memberFrom foundation fn depth path pair = .ok child)
        members made ∧ made.reduceOption = children := by
  induction members generalizing children with
  | nil =>
      rw [membersFrom]
      constructor
      · intro nothing
        exact ⟨[], .nil, Except.ok.inj nothing⟩
      · rintro ⟨made, each, rfl⟩
        cases each
        rfl
  | cons pair rest inductionHypothesis =>
      rw [membersFrom_cons]
      constructor
      · intro made
        obtain ⟨child, first, next⟩ := ok_of_bind made
        obtain ⟨others, following, returned⟩ := ok_of_bind next
        obtain ⟨kept, each, same⟩ := inductionHypothesis.mp following
        refine ⟨child :: kept, .cons first each, ?_⟩
        rw [← Except.ok.inj returned, ← same]
        cases child <;> rfl
      · rintro ⟨made, each, rfl⟩
        cases each with
        | @cons _ child _ kept first each =>
            rw [first, ok_bind, inductionHypothesis.mpr ⟨kept, each, rfl⟩,
              ok_bind]
            cases child <;> rfl

/-- The members make the same children in another order. -/
theorem membersFrom_perm (perm : members.Perm others)
    (made : membersFrom foundation fn depth path members = .ok children) :
    ∃ reordered, membersFrom foundation fn depth path others =
        .ok reordered ∧ reordered.Perm children := by
  obtain ⟨kept, each, rfl⟩ := membersFrom_eq_ok_iff.mp made
  obtain ⟨moved, others, same⟩ := List.perm_comp_forall₂ perm.symm each
  exact ⟨_, membersFrom_eq_ok_iff.mpr ⟨moved, others, rfl⟩,
    same.filterMap id⟩

/-- A member makes the same child where its value does. -/
theorem membersFrom_of_member {name : String}
    (each : ∀ child, internalNodeFrom foundation fn .null (depth + 1)
        (path ++ [name]) value = .ok child →
      internalNodeFrom foundation fn .null (depth + 1) (path ++ [name])
        other = .ok child)
    (made : membersFrom foundation fn depth path
      (before ++ (name, value) :: after) = .ok children) :
    membersFrom foundation fn depth path
      (before ++ (name, other) :: after) = .ok children := by
  induction before generalizing children with
  | nil =>
      rw [List.nil_append, membersFrom] at made ⊢
      obtain ⟨_, checked, next⟩ := ok_of_bind made
      rw [checked, ok_bind]
      split at next
      · next front =>
        rw [if_pos front]
        exact next
      · next plain =>
        obtain ⟨childNode, child, last⟩ := ok_of_bind next
        rw [if_neg plain, each childNode child, ok_bind]
        exact last
  | cons pair rest inductionHypothesis =>
      rw [List.cons_append, membersFrom_cons] at made ⊢
      obtain ⟨child, first, next⟩ := ok_of_bind made
      obtain ⟨others, following, returned⟩ := ok_of_bind next
      rw [first, ok_bind, inductionHypothesis following, ok_bind]
      exact returned

theorem itemsFrom_of_item {before after : List (NSObject Number)} {i : Nat}
    (each : ∀ place child, internalNodeFrom foundation fn .null (depth + 1)
        place value = .ok child →
      internalNodeFrom foundation fn .null (depth + 1) place other =
        .ok child)
    (made : itemsFrom foundation fn depth path i
      (before ++ value :: after) = .ok children) :
    itemsFrom foundation fn depth path i (before ++ other :: after) =
      .ok children := by
  induction before generalizing i children with
  | nil =>
      rw [List.nil_append, itemsFrom] at made ⊢
      obtain ⟨childNode, child, next⟩ := ok_of_bind made
      rw [each _ childNode child, ok_bind]
      exact next
  | cons item rest inductionHypothesis =>
      rw [List.cons_append, itemsFrom] at made ⊢
      obtain ⟨childNode, child, next⟩ := ok_of_bind made
      obtain ⟨others, following, returned⟩ := ok_of_bind next
      rw [child, ok_bind, inductionHypothesis following, ok_bind]
      exact returned

/-- The order in which the children are put into a node does not matter. -/
theorem childrenNode_perm (perm : reordered.Perm children)
    (made : childrenNode priority children = .ok node) :
    childrenNode priority reordered = .ok node := by
  rw [childrenNode] at made
  split at made
  · next nothing =>
    rw [List.isEmpty_iff.mp nothing] at perm
    rw [perm.eq_nil]
    exact made
  · next some =>
    split at made
    · next childrenDict built =>
      obtain ⟨sorted, listed⟩ :=
        FImmutableSortedDictionary.fromDictionary_sorted built
      have filled : childrenDict.entries.isEmpty = false := by
        rw [listed.isEmpty_eq]
        exact Bool.eq_false_iff.mpr some
      rw [childrenNode_of_perm sorted (perm.trans listed.symm), filled]
      exact made
    · cases made

/-! ## Objects -/

theorem eq_of_perm_of_few {Item : Type} {first second : List Item}
    (few : first.length ≤ 1) (perm : first.Perm second) : second = first := by
  cases first with
  | nil => exact perm.nil_eq.symm
  | cons item rest =>
      have nothing : rest = [] := by
        rw [List.length_cons] at few
        exact List.length_eq_zero_iff.mp (by omega)
      rw [nothing] at perm ⊢
      exact List.perm_singleton.mp perm.symm

/-- A dictionary is a server value in any order, and then it has one
member. -/
theorem isValidLeafValue_of_reorders
    (reorders : Reorders object other) {leaf : Bool}
    (valid : isValidLeafValue foundation fn path object = .ok leaf) :
    isValidLeafValue foundation fn path other = .ok leaf ∧
      (leaf = true → other = object) := by
  cases reorders with
  | @here members others distinct perm =>
      rw [isValidLeafValue] at valid ⊢
      rw [lookup_of_perm distinct perm, ← perm.length_eq]
      refine ⟨valid, ?_⟩
      rintro rfl
      split at valid
      · split at valid
        · cases valid
        · next few =>
          rw [eq_of_perm_of_few (Nat.le_of_not_lt few) perm]
      · cases valid
  | @member name value other before after plain inner =>
      have server : kServerValueSubKey ≠ name := by
        rintro rfl
        exact plain rfl
      rw [isValidLeafValue] at valid ⊢
      rw [lookup_of_member server, List.length_append, List.length_cons]
      rw [List.length_append, List.length_cons] at valid
      refine ⟨valid, ?_⟩
      rintro rfl
      split at valid
      · next found =>
        split at valid
        · cases valid
        · next few =>
          have front : before = [] :=
            List.length_eq_zero_iff.mp (by omega)
          have back : after = [] :=
            List.length_eq_zero_iff.mp (by omega)
          rw [front, back, List.nil_append, List.lookup_cons,
            beq_eq_false_iff_ne.mpr server] at found
          cases found
      · cases valid
  | item before after inner =>
      rw [isValidLeafValue] at valid ⊢
      refine ⟨valid, ?_⟩
      rintro rfl
      cases valid

/-- What the dictionaries of an object list under metadata. -/
theorem lookup_of_reorders
    (reorders : Reorders (.dictionary members) (.dictionary others))
    {metadata : String}
    (front : metadata.toList.head? = some kPayloadMetadataPrefix) :
    others.lookup metadata = members.lookup metadata := by
  cases reorders with
  | here distinct perm => exact lookup_of_perm distinct perm metadata
  | member before after plain inner =>
      refine lookup_of_member ?_
      rintro rfl
      exact plain front

theorem internalNodeFrom_dictionary
    (reorders : Reorders (.dictionary members) (.dictionary others))
    (same : ∀ children,
      membersFrom foundation fn depth path members = .ok children →
        ∃ reordered, membersFrom foundation fn depth path others =
          .ok reordered ∧ reordered.Perm children)
    (made : internalNodeFrom foundation fn aPriority depth path
      (.dictionary members) = .ok node) :
    internalNodeFrom foundation fn aPriority depth path
      (.dictionary others) = .ok node := by
  rw [internalNodeFrom] at made ⊢
  obtain ⟨passed, checked, rest⟩ := ok_of_bind made
  obtain ⟨priority, own, rest⟩ := ok_of_bind rest
  have ownOther : ownPriority foundation fn path passed others =
      .ok priority := by
    rw [ownPriority] at own ⊢
    rw [lookup_of_reorders reorders rfl]
    exact own
  rw [checked, ok_bind, ownOther, ok_bind, lookup_of_reorders reorders rfl]
  split at rest
  · exact rest
  · obtain ⟨leaf, valid, returned⟩ := ok_of_bind rest
    obtain ⟨validOther, equal⟩ := isValidLeafValue_of_reorders reorders valid
    rw [validOther, ok_bind]
    cases leaf with
    | true =>
        rw [equal rfl]
        exact returned
    | false =>
        obtain ⟨children, listed, last⟩ := ok_of_bind returned
        obtain ⟨reordered, listedOther, perm⟩ := same children listed
        rw [if_neg Bool.false_ne_true, listedOther, ok_bind]
        exact childrenNode_perm perm last

/-- The node does not depend on the order in which one dictionary lists its
members. -/
theorem internalNodeFrom_of_reorders (reorders : Reorders object other)
    (made : internalNodeFrom foundation fn aPriority depth path object =
      .ok node) :
    internalNodeFrom foundation fn aPriority depth path other =
      .ok node := by
  induction reorders generalizing aPriority depth path node with
  | here distinct perm =>
      refine internalNodeFrom_dictionary (.here distinct perm) ?_ made
      exact fun children listed => membersFrom_perm perm listed
  | member before after plain inner inductionHypothesis =>
      refine internalNodeFrom_dictionary (.member before after plain inner)
        ?_ made
      intro children listed
      refine ⟨children, ?_, List.Perm.refl _⟩
      exact membersFrom_of_member
        (fun child inside => inductionHypothesis inside) listed
  | item before after inner inductionHypothesis =>
      rw [internalNodeFrom] at made ⊢
      obtain ⟨priority, checked, rest⟩ := ok_of_bind made
      obtain ⟨children, items, last⟩ := ok_of_bind rest
      have same := itemsFrom_of_item
        (fun place child inside => inductionHypothesis inside) items
      rw [checked, ok_bind, same, ok_bind]
      exact last

/-- The node does not depend on the order in which the dictionaries of an
object list their members. -/
theorem nodeFrom_of_enumerates (enumerates : Enumerates object other)
    (made : nodeFrom foundation fn object aPriority = .ok node) :
    nodeFrom foundation fn other aPriority = .ok node := by
  induction enumerates with
  | refl => exact made
  | tail _ reorders inductionHypothesis =>
      exact internalNodeFrom_of_reorders reorders inductionHypothesis

end FSnapshotUtilities

end Firebase
end PocketChef
