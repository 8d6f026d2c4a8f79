import PocketChef.Firebase.Outcome
import PocketChef.SavedLists.FrequentListViewController

/-!
# A saved list across connections

The writes of `saveTapped` travel over connections that may close at any time,
and so does the read of the screen that opens next.  If the service accepts
the writes and answers the read, the screen has the list that was saved,
unless later writes have touched the node.
-/

namespace PocketChef
namespace SavedLists

open KeyedTree Firebase FUtilities Ingredient

/-- What a node holds depends on the leaves below it. -/
theorem Holds.of_below {database other : Database} {path : Path}
    {list : List Ingredient}
    (same : below other path = below database path)
    (holds : Holds database path list) : Holds other path list where
  keys := by
    intro name
    have inside : path <+: path ++ [name] := List.prefix_append _ _
    rw [← exists_below_iff inside, same, exists_below_iff inside]
    exact holds.keys name
  items := by
    intro index item found
    have decoded := holds.items index item found
    have fieldEq (name : String) :
        DataSnapshot.field ⟨other, path ++ [key index]⟩ name =
          DataSnapshot.field ⟨database, path ++ [key index]⟩ name := by
      have inside : path <+: path ++ [key index] ++ [name] := by
        rw [List.append_assoc]
        exact List.prefix_append _ _
      rw [DataSnapshot.field, DataSnapshot.field, ← lookup_below inside, same,
        lookup_below inside]
    rw [decodeItem, fieldEq, fieldEq, fieldEq]
    exact decoded

theorem Holds.apply {database : Database} {path : Path}
    {list : List Ingredient} (holds : Holds database path list)
    {write : Write} (apart : Apart write.path path) :
    Holds (write.apply database) path list := by
  cases write with
  | setValue set fields => exact holds.of_below (below_setFields apart)
  | removeValue removed => exact holds.of_below (below_remove apart)

theorem Holds.applyAll {path : Path} {list : List Ingredient}
    (writes : List Write) {database : Database}
    (holds : Holds database path list)
    (apart : ∀ write ∈ writes, Apart write.path path) :
    Holds (Write.applyAll database writes) path list := by
  induction writes generalizing database with
  | nil =>
      exact holds
  | cons write rest inductionHypothesis =>
      rw [Write.applyAll_cons]
      refine inductionHypothesis (holds.apply (apart write ?_)) ?_
      · exact List.mem_cons_self
      · intro later member
        exact apart later (List.mem_cons_of_mem write member)

end SavedLists
end PocketChef
