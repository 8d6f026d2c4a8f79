import Mathlib.Data.List.InsertIdx
import PocketChef.Shopping.Mirror

/-!
# Deleting the record of a row

The list has no identities: a row is told by its position, and its record is
looked up by name.  The fetch answers in store order and its first result is
deleted, which is the record of the row when no earlier record has the name.
The entry of the row goes only if `deleteRows` returns, which it does in no
state that the screen reaches.
-/

namespace PocketChef
namespace ShoppingViewController

open ObjectStore Ingredient Mirror

/-- Entry `i` of the list was read from record `i` of `records`, and different
entries from different records.  The store may have more of them. -/
structure ReadFrom (screen : ShoppingViewController) (store : ItemToBuyStore)
    (records : List ItemToBuyObject) : Prop where
  list : screen.list = records.map fun record => record.attributes.ingredient
  distinct : records.Nodup
  stored : ∀ record ∈ records, record ∈ store.objects

/-- The delete commit of a row whose fetch answers in store order. -/
def commitDeleteInOrder (screen : ShoppingViewController)
    (store : ItemToBuyStore) (row : Nat) :
    Option (ShoppingViewController × ItemToBuyStore) := do
  let dump ← screen.list[row]?
  screen.commitDelete store row (some (store.fetch (hasName dump))) true

/-- The delete commit takes the row's record out of the store and its entry
out of the list, and what is left still corresponds. -/
def DeletesOwn (screen : ShoppingViewController) (store : ItemToBuyStore)
    (records : List ItemToBuyObject) (row : Nat) (record : ItemToBuyObject) :
    Prop :=
  ∃ after ∈ screen.commitDeleteInOrder store row,
    after.1.list = screen.list.eraseIdx row ∧
      after.2.objects = store.objects.filter (fun other => other ≠ record) ∧
      after.1.ReadFrom after.2 (records.eraseIdx row) ∧
      (records.Perm store.objects →
        (records.eraseIdx row).Perm after.2.objects)

/-- Every record that the store has before this one has another name. -/
def FirstOfName (store : ItemToBuyStore) (record : ItemToBuyObject) : Prop :=
  ∀ other ∈ store.objects.takeWhile (fun item => item ≠ record),
    other.attributes.name ≠ record.attributes.name

instance (store : ItemToBuyStore) : DecidablePred (FirstOfName store) :=
  fun record => inferInstanceAs <| Decidable <|
    ∀ other ∈ store.objects.takeWhile (fun item => item ≠ record),
      other.attributes.name ≠ record.attributes.name

section Delete

variable {screen : ShoppingViewController} {store : ItemToBuyStore}
variable {records : List ItemToBuyObject} {row : Nat}
variable {record : ItemToBuyObject}

theorem ReadFrom.shown (readFrom : screen.ReadFrom store records)
    (located : records[row]? = some record) :
    screen.list[row]? = some record.attributes.ingredient := by
  rw [readFrom.list, List.getElem?_map, located, Option.map_some]

/-- The fetch finds at least the record of the row. -/
theorem ReadFrom.exists_fetched (readFrom : screen.ReadFrom store records)
    (located : records[row]? = some record) :
    ∃ first others,
      store.fetch (hasName record.attributes.ingredient) = first :: others := by
  have found :
      record ∈ store.fetch (hasName record.attributes.ingredient) := by
    apply List.mem_filter.mpr
    have member := readFrom.stored record (List.mem_of_getElem? located)
    exact ⟨member, beq_self_eq_true _⟩
  exact List.exists_cons_of_ne_nil (List.ne_nil_of_mem found)

theorem ReadFrom.commitDeleteInOrder (readFrom : screen.ReadFrom store records)
    (located : records[row]? = some record) (gone : screen.OneRowGone)
    {first : ItemToBuyObject} {others : List ItemToBuyObject}
    (fetched :
      store.fetch (hasName record.attributes.ingredient) = first :: others) :
    screen.commitDeleteInOrder store row =
      some (screen.afterDelete row, store.delete first.objectID) := by
  have shown := readFrom.shown located
  rw [ShoppingViewController.commitDeleteInOrder, shown]
  change screen.commitDelete store row (some (store.fetch _)) true = _
  rw [screen.commitDelete_of_oneRowGone gone shown, fetched]
  rfl

theorem commitDeleteInOrder_of_not_oneRowGone
    (stays : ¬ screen.OneRowGone) :
    screen.commitDeleteInOrder store row = none := by
  rw [ShoppingViewController.commitDeleteInOrder]
  cases screen.list[row]? with
  | none => rfl
  | some dump =>
      exact screen.commitDelete_of_not_oneRowGone stays store row _ true

/-- A delete commit in store order is a delete of the mirror. -/
theorem ReadFrom.mirror_step (readFrom : screen.ReadFrom store records)
    (located : records[row]? = some record) :
    ∃ results,
      Mirror.machine.enabled ⟨screen, store, true⟩
          (.commitDelete row results) ∧
        Mirror.machine.step ⟨screen, store, true⟩
            (.commitDelete row results) =
          (screen.commitDeleteInOrder store row).map
            fun after => ⟨after.1, after.2, true⟩ := by
  have shown := readFrom.shown located
  refine ⟨store.fetch (hasName record.attributes.ingredient), ?_, ?_⟩
  · exact ⟨_, shown, Store.fetch_fetched store _⟩
  · rw [ShoppingViewController.commitDeleteInOrder, shown]
    rfl

theorem firstOfName_iff {first : ItemToBuyObject}
    {others : List ItemToBuyObject} (member : record ∈ store.objects)
    (fetched :
      store.fetch (hasName record.attributes.ingredient) = first :: others) :
    FirstOfName store record ↔ first = record := by
  have passes :
      hasName record.attributes.ingredient record.attributes = true :=
    beq_self_eq_true _
  have head := Store.head?_fetch_eq_some_iff member passes
  rw [fetched, List.head?_cons, Option.some.injEq] at head
  rw [head]
  refine forall_congr' fun other => forall_congr' fun _ => ?_
  exact beq_eq_false_iff_ne.symm

/-- Without the row, what is left is read from the records that are left. -/
theorem ReadFrom.eraseIdx (readFrom : screen.ReadFrom store records)
    (located : records[row]? = some record) :
    ReadFrom (screen.afterDelete row) (store.delete record.objectID)
      (records.eraseIdx row) where
  list := by
    change screen.list.eraseIdx row = _
    rw [readFrom.list, List.eraseIdx_map]
  distinct := readFrom.distinct.sublist (List.eraseIdx_sublist records row)
  stored := by
    intro kept member
    have split := SwiftArray.eraseIdx_perm located
    have apart := List.nodup_cons.mp (split.nodup_iff.mp readFrom.distinct)
    have different : kept ≠ record := by
      intro same
      rw [same] at member
      exact apart.1 member
    apply Store.mem_delete _ _ different
    · exact readFrom.stored kept
        ((List.eraseIdx_sublist records row).subset member)
    · exact readFrom.stored record (List.mem_of_getElem? located)

theorem perm_delete (member : record ∈ store.objects)
    (located : records[row]? = some record)
    (whole : records.Perm store.objects) :
    (records.eraseIdx row).Perm (store.delete record.objectID).objects := by
  have listed := (SwiftArray.eraseIdx_perm located).symm.trans whole
  have inStore := listed.trans (Store.objects_delete_perm member)
  exact inStore.cons_inv

theorem deletesOwn_iff_of_oneRowGone (readFrom : screen.ReadFrom store records)
    (located : records[row]? = some record) (gone : screen.OneRowGone) :
    screen.DeletesOwn store records row record ↔ FirstOfName store record := by
  have member := readFrom.stored record (List.mem_of_getElem? located)
  rcases readFrom.exists_fetched located with ⟨first, others, fetched⟩
  have committed := readFrom.commitDeleteInOrder located gone fetched
  rw [firstOfName_iff member fetched]
  constructor
  · intro own
    rcases own with ⟨after, same, _, removed, _, _⟩
    cases committed.symm.trans same
    have inFetch : first ∈ store.fetch
        (hasName record.attributes.ingredient) := by
      rw [fetched]
      exact List.mem_cons_self
    have inStore := (List.mem_filter.mp inFetch).1
    -- another object would have been kept
    by_contra different
    have kept :
        first ∈ store.objects.filter fun other => other ≠ record :=
      List.mem_filter.mpr ⟨inStore, decide_eq_true different⟩
    rw [← removed, Store.objects_delete inStore] at kept
    exact of_decide_eq_true (List.mem_filter.mp kept).2 rfl
  · intro same
    subst same
    exact ⟨_, committed, rfl, Store.objects_delete member,
      readFrom.eraseIdx located, perm_delete member located⟩

theorem not_deletesOwn_of_not_oneRowGone (stays : ¬ screen.OneRowGone) :
    ¬ screen.DeletesOwn store records row record := by
  rintro ⟨after, returned, _⟩
  cases (commitDeleteInOrder_of_not_oneRowGone stays).symm.trans returned

/-- The delete commit of a row deletes the row's own record and entry exactly
when the table view already misses a row and no record before this one in the
store has its name.  After no run of the screen does the table view miss a
row. -/
theorem deletesOwn_iff (screen : ShoppingViewController)
    (store : ItemToBuyStore) (records : List ItemToBuyObject) (row : Nat)
    (record : ItemToBuyObject) (readFrom : screen.ReadFrom store records)
    (located : records[row]? = some record) :
    (screen.DeletesOwn store records row record ↔
        screen.OneRowGone ∧ FirstOfName store record) ∧
      ∀ (opened : ShoppingViewController) (initial : ItemToBuyStore)
        (events : List Shopping) (loaded : Bool),
        Mirror.machine.Legal (start opened initial) events →
          Mirror.machine.run (start opened initial) events =
              some ⟨screen, store, loaded⟩ →
            ¬ screen.DeletesOwn store records row record := by
  constructor
  · by_cases gone : screen.OneRowGone
    · rw [deletesOwn_iff_of_oneRowGone readFrom located gone]
      exact (and_iff_right gone).symm
    · exact iff_of_false (not_deletesOwn_of_not_oneRowGone gone)
        fun both => gone both.1
  · intro opened initial events loaded legal arrived
    exact not_deletesOwn_of_not_oneRowGone
      (counted_of_run legal arrived).not_oneRowGone

end Delete

/-- The list over two records of flour, in different units, with a table view
that remembers `rows` rows. -/
def twinRows (rows : Nat) : ShoppingViewController :=
  { list := [flour, { flour with unit := "cup" }]
    shoppingList := { rows := rows } }

theorem twinRows_readFrom (rows : Nat) :
    (twinRows rows).ReadFrom twins [flourObject, cupObject] where
  list := rfl
  distinct := by decide
  stored := by decide

/-- The screen of the twins loads, and its table view with it. -/
def loadTwins : List Shopping :=
  [.loadShoppingList [flourObject, cupObject], .reloadData]

theorem run_loadTwins :
    Mirror.machine.run (start {} twins) loadTwins =
      some ⟨twinRows 2, twins, true⟩ :=
  rfl

/-- With a third row in the table view the first twin would be deleted, but
the screen has two. -/
theorem deletesOwn_first_twin :
    (twinRows 3).DeletesOwn twins [flourObject, cupObject] 0 flourObject ∧
      ¬ (twinRows 2).DeletesOwn twins [flourObject, cupObject] 0
        flourObject :=
  ⟨(deletesOwn_iff (twinRows 3) twins [flourObject, cupObject] 0 flourObject
      (twinRows_readFrom 3) rfl).1.mpr (by decide),
    (deletesOwn_iff (twinRows 2) twins [flourObject, cupObject] 0 flourObject
      (twinRows_readFrom 2) rfl).2 {} twins loadTwins true (by decide)
        run_loadTwins⟩

/-- Whichever row of the loaded screen is deleted, the record of the first is
gone from the store when `deleteRows` raises. -/
theorem not_deletesOwn_twins :
    Mirror.machine.Legal (start {} twins) loadTwins ∧
      Mirror.machine.run (start {} twins) loadTwins =
        some ⟨twinRows 2, twins, true⟩ ∧
      (twinRows 2).ReadFrom twins [flourObject, cupObject] ∧
      (∀ row < 2,
        deleteFetched twins (some (twins.fetch (hasName flour))) true =
            some (twins.delete flourObject.objectID) ∧
          (twinRows 2).commitDeleteInOrder twins row = none) ∧
      ¬ (twinRows 2).DeletesOwn twins [flourObject, cupObject] 0 flourObject ∧
        ¬ (twinRows 2).DeletesOwn twins [flourObject, cupObject] 1
          cupObject := by
  have stays : ¬ (twinRows 2).OneRowGone := by
    decide
  refine ⟨by decide, run_loadTwins, twinRows_readFrom 2, ?_, ?_, ?_⟩
  · intro row _
    exact ⟨rfl, commitDeleteInOrder_of_not_oneRowGone stays⟩
  · exact not_deletesOwn_of_not_oneRowGone stays
  · exact not_deletesOwn_of_not_oneRowGone stays

end ShoppingViewController
end PocketChef
