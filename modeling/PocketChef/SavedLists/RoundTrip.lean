import PocketChef.SavedLists.FrequentListViewController
import PocketChef.Shopping.ShoppingViewController

/-!
# From the shopping list to the frequent list and back

`ShoppingViewController.saveList` writes the node that a fresh
`FrequentListViewController` reads.  The list arrives unchanged unless it is
empty, where the loop traps, or shorter than what earlier saves left on the
node, whose tail it does not remove.  Under a uid with one of the characters
`.#$[]` neither screen gets as far as the node.
-/

namespace PocketChef
namespace SavedLists

open KeyedTree Firebase FUtilities Ingredient

/-- The databases that the app's writes to `SavedLists/<uid>` leave, starting
from any database without that node. -/
inductive SavedBefore (uid : String) : Database → Prop where
  | untouched {database : Database}
      (absent : ¬ Exists database (listPath uid)) :
      SavedBefore uid database
  | saveList {database : Database} (earlier : SavedBefore uid database)
      (shopping : ShoppingViewController)
      (own : shopping.currentUid = uid) :
      SavedBefore uid (Write.applyAll database shopping.saveList.issued)
  | saveTapped {database : Database} (earlier : SavedBefore uid database)
      (frequent : FrequentListViewController)
      (own : frequent.currentUid = uid) :
      SavedBefore uid (Write.applyAll database frequent.saveTapped.issued)
  | clearTapped {database : Database} (earlier : SavedBefore uid database)
      (frequent : FrequentListViewController)
      (own : frequent.currentUid = uid) :
      SavedBefore uid (Write.applyAll database frequent.clearTapped.issued)

/-- The number of entries stored on the node. -/
def storedCount (uid : String) (database : Database) : Nat :=
  (DataSnapshot.children ⟨database, listPath uid⟩).length

/-- `saveList` does not trap, and a fresh frequent list screen then loads
exactly the shopping list. -/
def RoundTrip (shopping : ShoppingViewController) (database : Database) :
    Prop :=
  shopping.saveList.result.isSome ∧
    FrequentListViewController.loaded shopping.currentUid
        (Write.applyAll database shopping.saveList.issued) =
      some shopping.list

theorem SavedBefore.exists_holds {uid : String} {database : Database}
    (known : uid ≠ "") (plain : FValidation.isPlain uid = true)
    (saved : SavedBefore uid database) :
    ∃ old, Holds database (listPath uid) old := by
  induction saved with
  | untouched absent =>
      exact ⟨[], holds_nil_of_not_exists absent⟩
  | saveList earlier shopping own inductionHypothesis =>
      obtain ⟨old, holds⟩ := inductionHypothesis
      subst own
      exact ⟨_, shopping.saveList_holds known plain holds⟩
  | @saveTapped before earlier frequent own inductionHypothesis =>
      subst own
      by_cases empty : frequent.list = []
      · rw [frequent.saveTapped_of_nil plain empty]
        exact ⟨[], holds_remove before _⟩
      · have valid := (FValidation.isValidPathString_iff known).mpr plain
        exact ⟨_, frequent.saveTapped_holds valid empty before⟩
  | @clearTapped before earlier frequent own _ =>
      subst own
      rw [frequent.clearTapped_eq plain]
      exact ⟨[], holds_remove before _⟩

theorem Holds.storedCount_eq {uid : String} {database : Database}
    {list : List Ingredient} (holds : Holds database (listPath uid) list) :
    storedCount uid database = list.length := by
  have enumerated :=
    sortedKeys_perm keyLE (fun _ _ _ _ => key_injective) holds.keys
  have size := enumerated.length_eq
  rw [List.length_map, List.length_range] at size
  rw [storedCount, DataSnapshot.children, List.length_map]
  exact size

/-- Under a uid whose text is no path the save raises, if it gets that far. -/
theorem not_roundTrip_of_not_plain (shopping : ShoppingViewController)
    (database : Database) (known : shopping.currentUid ≠ "")
    (special : FValidation.isPlain shopping.currentUid = false) :
    ¬ RoundTrip shopping database := by
  intro tripped
  have finished := tripped.1
  rw [shopping.saveList_of_not_plain known special] at finished
  cases finished

/-- The list comes back exactly when the uid can stand in a path, and the list
is non-empty and at least as long as the one stored before. -/
theorem roundTrip_iff (shopping : ShoppingViewController)
    (database : Database)
    (known : shopping.currentUid ≠ "")
    (saved : SavedBefore shopping.currentUid database)
    (numeric : KeysNumeric shopping.list.length) :
    RoundTrip shopping database ↔
      FValidation.isPlain shopping.currentUid = true ∧
        shopping.list ≠ [] ∧
        storedCount shopping.currentUid database ≤
          shopping.list.length := by
  by_cases plain : FValidation.isPlain shopping.currentUid = true
  · obtain ⟨old, before⟩ := saved.exists_holds known plain
    have after := shopping.saveList_holds known plain before
    rw [before.storedCount_eq]
    constructor
    · intro tripped
      refine ⟨plain, ?_, ?_⟩
      · intro empty
        have trapped := shopping.saveList_of_nil known empty
        have finished := tripped.1
        rw [trapped] at finished
        cases finished
      · -- a longer old list leaves entries that the reader finds
        obtain ⟨read, arrived, permuted⟩ :=
          FrequentListViewController.loaded_perm_of_holds plain after
        cases arrived.symm.trans tripped.2
        have size := permuted.length_eq
        rw [List.length_append, List.length_drop] at size
        omega
    · intro fits
      have nothingLeft : old.drop shopping.list.length = [] :=
        List.drop_eq_nil_of_le fits.2.2
      rw [nothingLeft, List.append_nil] at after
      constructor
      · rw [shopping.saveList_of_ne_nil known plain fits.2.1]
        rfl
      · exact FrequentListViewController.loaded_of_holds plain after numeric
  · have special := Bool.eq_false_iff.mpr plain
    exact iff_of_false
      (not_roundTrip_of_not_plain shopping database known special)
      (fun fits => plain fits.1)

/-! ## The frequent list screen -/

/-- Whatever was stored before, saving a non-empty list under a uid that can
stand in a path leaves one child for each ingredient, and a fresh screen loads
the same list. -/
theorem saveTapped_loaded (frequent : FrequentListViewController)
    (database : Database)
    (valid : FValidation.isValidPathString frequent.currentUid = true)
    (nonempty : frequent.list ≠ []) :
    let after := Write.applyAll database frequent.saveTapped.issued
    frequent.saveTapped.result = some frequent ∧
      storedCount frequent.currentUid after = frequent.list.length ∧
      (∃ read,
        FrequentListViewController.loaded frequent.currentUid after =
            some read ∧
          read.Perm frequent.list) ∧
      (KeysNumeric frequent.list.length →
        FrequentListViewController.loaded frequent.currentUid after =
          some frequent.list) := by
  have saved := frequent.saveTapped_holds valid nonempty database
  have plain := FValidation.isPlain_of_isValidPathString valid
  refine ⟨?_, ?_, ?_, ?_⟩
  · rw [frequent.saveTapped_of_ne_nil valid nonempty]
  · exact saved.storedCount_eq
  · exact FrequentListViewController.loaded_perm_of_holds plain saved
  · intro numeric
    exact FrequentListViewController.loaded_of_holds plain saved numeric

/-- A node that holds a number in place of a list, and a child that no
controller writes. -/
def overgrown : Database :=
  [(["SavedLists", "ann"], .number one),
    (["SavedLists", "ann", "1", "item"], .string "eggs"),
    (["SavedLists", "ann", "note"], .string "buy soon")]

theorem saveTapped_loaded_overgrown :
    FrequentListViewController.loaded "ann"
        (Write.applyAll overgrown
          (FrequentListViewController.mk [milk, flour] "ann").saveTapped.issued) =
      some [milk, flour] :=
  (saveTapped_loaded (FrequentListViewController.mk [milk, flour] "ann")
    overgrown (by decide) (by decide)).2.2.2 (keysNumeric_of_le (by decide))

/-- The list of a user whose uid has a dot. -/
def dottedFrequent : FrequentListViewController :=
  { list := [flour], currentUid := "a.b" }

/-- The first `child:` of the save raises, and so does that of the load. -/
theorem not_saveTapped_loaded_dotted :
    let after := Write.applyAll [] dottedFrequent.saveTapped.issued
    dottedFrequent.saveTapped = ⟨[], none⟩ ∧
      storedCount "a.b" after ≠ dottedFrequent.list.length ∧
      FrequentListViewController.loaded "a.b" after ≠
        some dottedFrequent.list := by
  have special : FValidation.isPlain "a.b" = false := by
    decide
  have raised := dottedFrequent.saveTapped_of_not_plain special
  have untouched : ¬ Exists ([] : Database) (listPath "a.b") := by
    decide
  have childless := (holds_nil_of_not_exists untouched).storedCount_eq
  rw [raised, Write.applyAll_nil]
  refine ⟨rfl, ?_, ?_⟩
  · rw [childless]
    decide
  · rw [FrequentListViewController.loaded_of_not_plain _ special]
    exact (Option.some_ne_none _).symm

/-! ## A list that comes back, and three that do not -/

def listOf (list : List Ingredient) : ShoppingViewController :=
  { currentUid := "ann", list := list }

/-- A shopping list of a user whose uid has a dot. -/
def dotted : ShoppingViewController :=
  { currentUid := "a.b", list := [flour] }

/-- The database after `list` was saved into an empty one. -/
def savedOnce (list : List Ingredient) : Database :=
  Write.applyAll [] (listOf list).saveList.issued

theorem savedOnce_savedBefore (list : List Ingredient) :
    SavedBefore "ann" (savedOnce list) :=
  .saveList (.untouched (by decide)) (listOf list) rfl

theorem savedOnce_holds (list : List Ingredient) :
    Holds (savedOnce list) (listPath "ann") list := by
  have untouched : ¬ Exists ([] : Database) (listPath "ann") := by
    decide
  have plain : FValidation.isPlain "ann" = true := by
    decide
  have written := (listOf list).saveList_holds
    (by decide : "ann" ≠ "") plain (holds_nil_of_not_exists untouched)
  rwa [List.drop_nil, List.append_nil] at written

theorem roundTrip_longer_list :
    RoundTrip (listOf [milk, flour]) (savedOnce [flour]) :=
  (roundTrip_iff (listOf [milk, flour]) (savedOnce [flour]) (by decide)
    (savedOnce_savedBefore [flour])
    (keysNumeric_of_le (by decide))).mpr
      ⟨by decide, by decide,
        (savedOnce_holds [flour]).storedCount_eq.trans_le (by decide)⟩

/-- The empty list traps, a shorter list comes back with the tail of the longer
one, and the list of a uid with a dot is not even written. -/
theorem not_roundTrip :
    (SavedBefore "ann" [] ∧
        (listOf []).saveList.result = none ∧
        ¬ RoundTrip (listOf []) []) ∧
      (SavedBefore "ann" (savedOnce [flour, milk]) ∧
        FrequentListViewController.loaded "ann"
            (Write.applyAll (savedOnce [flour, milk])
              (listOf [milk]).saveList.issued) =
          some [milk, milk] ∧
        ¬ RoundTrip (listOf [milk]) (savedOnce [flour, milk])) ∧
      SavedBefore "a.b" [] ∧
        dotted.saveList = ⟨[], none⟩ ∧
        ¬ RoundTrip dotted [] := by
  have resaved := (listOf [milk]).saveList_holds
    (by decide : "ann" ≠ "") (by decide) (savedOnce_holds [flour, milk])
  have back : FrequentListViewController.loaded "ann" _ = some _ :=
    FrequentListViewController.loaded_of_holds (by decide) resaved
      (keysNumeric_of_le (by decide))
  have trapped := (listOf []).saveList_of_nil (by decide) rfl
  have special : FValidation.isPlain dotted.currentUid = false := by
    decide
  have raised := dotted.saveList_of_not_plain (by decide) special
  refine ⟨⟨.untouched (by decide), by rw [trapped], ?_⟩,
    ⟨savedOnce_savedBefore _, back, ?_⟩, .untouched (by decide), raised, ?_⟩
  · intro tripped
    have finished := tripped.1
    rw [trapped] at finished
    cases finished
  · intro tripped
    have same := back.symm.trans tripped.2
    exact absurd same (by decide)
  · exact not_roundTrip_of_not_plain dotted [] (by decide) special

end SavedLists
end PocketChef
