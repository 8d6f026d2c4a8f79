import PocketChef.Firebase.Auth
import PocketChef.Shopping.ItemToBuy
import PocketChef.Shopping.UITableView

/-!
# The shopping list screen

`ShoppingViewController` copies the `ItemToBuy` objects into `list` when it
loads, deletes single rows and the whole list from both, and saves the list
under the uid of the user.  A delete commit tells the table view of its row
while the row is still in the list.

A call of Core Data gives `none` when it throws.  `assertionFailure()` does
nothing, as in a release build.
-/

namespace PocketChef

open Firebase Issuing ObjectStore SavedLists

structure ShoppingViewController extends AuthScreen where
  list : List Ingredient := []
  shoppingList : UITableView := {}
  deriving DecidableEq

/-- How the batch delete of `clearList` ends: it throws, its result is not an
array of object identities, or it is one. -/
inductive BatchDelete where
  | throws
  | noIdentities
  | identities
  deriving DecidableEq

namespace ShoppingViewController

/-- `loadShoppingList` with the results of its fetch. -/
def loadShoppingList (self : ShoppingViewController)
    (results : Option (List ItemToBuyObject)) : ShoppingViewController :=
  match results with
  | none => self
  | some results =>
      { self with
        list :=
          results.foldl
            (fun list object => list ++ [object.attributes.ingredient])
            self.list }

/-- The predicate of the delete fetch: the name equals the row's name. -/
def hasName (dump : Ingredient) (record : ItemToBuy) : Bool :=
  record.name == dump.name

def numberOfRowsInSection (self : ShoppingViewController) : Nat :=
  self.list.length

/-- `shoppingList.reloadData()`. -/
def reloadData (self : ShoppingViewController) : ShoppingViewController :=
  { self with
    shoppingList := self.shoppingList.reloadData self.numberOfRowsInSection }

/-- `saveContext`, whose `fatalError` ends the process. -/
def saveContext (saves : Bool) : Option PUnit :=
  if saves then some ⟨⟩ else none

/-- The store part of the delete commit: the first result is deleted, and
nothing is when the fetch throws. -/
def deleteFetched (store : ItemToBuyStore)
    (results : Option (List ItemToBuyObject)) (saves : Bool) :
    Option ItemToBuyStore :=
  match results with
  | none => some store
  | some results => do
      let first ← SwiftArray.get results 0
      saveContext saves
      some (store.delete first.objectID)

/-- `tableView.deleteRows(at: [indexPath], with: .left)`. -/
def deleteRows (self : ShoppingViewController) :
    Option ShoppingViewController := do
  let shoppingList ← self.shoppingList.deleteRows self.numberOfRowsInSection
  some { self with shoppingList := shoppingList }

/-- `list.remove(at:)` in the delete commit. -/
def removeRow (self : ShoppingViewController) (row : Nat) :
    Option ShoppingViewController := do
  let list ← SwiftArray.remove self.list row
  some { self with list := list }

/-- `tableView(_:commit:forRowAt:)` for a delete, with the results of its
fetch. -/
def commitDelete (self : ShoppingViewController) (store : ItemToBuyStore)
    (row : Nat) (results : Option (List ItemToBuyObject))
    (saves : Bool) : Option (ShoppingViewController × ItemToBuyStore) := do
  let _dump ← self.list[row]?
  let store ← deleteFetched store results saves
  let self ← self.deleteRows
  let self ← self.removeRow row
  some (self, store)

def cellForRowAt (self : ShoppingViewController) (row : Nat) :
    Option (String × FiniteDouble × String) :=
  cellForRow self.list row

/-- The list is emptied before the store is asked, and the store changes
unless the batch delete throws. -/
def clearList (self : ShoppingViewController) (store : ItemToBuyStore)
    (outcome : BatchDelete) : ShoppingViewController × ItemToBuyStore :=
  let self := { self with list := [] }.reloadData
  match outcome with
  | .throws => (self, store)
  | .noIdentities => (self, store.clear)
  | .identities => (self, store.clear)

/-- The result is the tab that is selected instead of saving. -/
def saveList (self : ShoppingViewController) : Effect Write (Option Nat) :=
  if self.currentUid = "" then
    return some 3
  else do
    writeEntries self.currentUid self.list
    return none

/-! ## What each action does -/

section Actions

variable (self : ShoppingViewController)

theorem loadShoppingList_list (results : List ItemToBuyObject) :
    (self.loadShoppingList (some results)).list =
      self.list ++
        (results.map ManagedObject.attributes).map ItemToBuy.ingredient := by
  unfold loadShoppingList
  dsimp only
  induction results generalizing self with
  | nil =>
      simp
  | cons object rest inductionHypothesis =>
      have tail := inductionHypothesis
        { self with list := self.list ++ [object.attributes.ingredient] }
      simp only [List.foldl_cons, List.map_cons]
      rw [tail]
      simp

/-- The table view remembers one row more than there are, so that
`deleteRows` returns. -/
def OneRowGone : Prop :=
  self.list.length + 1 = self.shoppingList.rows

instance : DecidablePred OneRowGone := fun _ =>
  inferInstanceAs (Decidable (_ = _))

/-- The screen after a delete commit of a row that `deleteRows` accepts. -/
def afterDelete (row : Nat) : ShoppingViewController :=
  { self with
    list := self.list.eraseIdx row
    shoppingList := { rows := self.list.length } }

theorem deleteRows_of_not_oneRowGone (stays : ¬ self.OneRowGone) :
    self.deleteRows = none := by
  have raised :
      self.shoppingList.deleteRows self.numberOfRowsInSection = none :=
    if_neg stays
  rw [deleteRows, raised]
  rfl

/-- Before anything is removed from the list, the delete commit raises
unless the table view already misses a row. -/
theorem commitDelete_of_not_oneRowGone (stays : ¬ self.OneRowGone)
    (store : ItemToBuyStore) (row : Nat)
    (results : Option (List ItemToBuyObject)) (saves : Bool) :
    self.commitDelete store row results saves = none := by
  unfold commitDelete
  rw [self.deleteRows_of_not_oneRowGone stays]
  cases self.list[row]? with
  | none => rfl
  | some dump =>
      cases deleteFetched store results saves with
      | none => rfl
      | some store => rfl

theorem commitDelete_of_oneRowGone (gone : self.OneRowGone)
    {store : ItemToBuyStore} {row : Nat} {dump : Ingredient}
    (found : self.list[row]? = some dump)
    (results : Option (List ItemToBuyObject)) (saves : Bool) :
    self.commitDelete store row results saves =
      (deleteFetched store results saves).map fun store =>
        (self.afterDelete row, store) := by
  have inRange := (List.getElem?_eq_some_iff.mp found).1
  have counted :
      self.deleteRows =
        some { self with shoppingList := { rows := self.list.length } } := by
    have returned :
        self.shoppingList.deleteRows self.numberOfRowsInSection =
          some { rows := self.list.length } :=
      if_pos gone
    rw [deleteRows, returned]
    rfl
  unfold commitDelete
  rw [found, counted]
  cases deleteFetched store results saves with
  | none => rfl
  | some store =>
      simp [removeRow, SwiftArray.remove, inRange, afterDelete]

theorem saveList_of_no_uid (signedOut : self.currentUid = "") :
    self.saveList = ⟨[], some (some 3)⟩ := by
  rw [saveList, if_pos signedOut, Effect.pure_eq]

theorem saveList_of_nil (known : self.currentUid ≠ "")
    (empty : self.list = []) : self.saveList = ⟨[], none⟩ := by
  rw [saveList, if_neg known, empty, writeEntries_nil,
    Effect.bind_of_none _ rfl]

/-- Under a uid with a special character nothing is written. -/
theorem saveList_of_not_plain (known : self.currentUid ≠ "")
    (special : FValidation.isPlain self.currentUid = false) :
    self.saveList = ⟨[], none⟩ := by
  have invalid : FValidation.isValidPathString self.currentUid = false := by
    rw [FValidation.isValidPathString, special, Bool.and_false]
  rw [saveList, if_neg known, writeEntries_of_invalid _ _ invalid,
    Effect.bind_of_none _ rfl]

section Written

variable (known : self.currentUid ≠ "")
variable (plain : FValidation.isPlain self.currentUid = true)

include known plain

theorem saveList_of_ne_nil (nonempty : self.list ≠ []) :
    self.saveList =
      ⟨entryWrites (listPath self.currentUid) 0 self.list, some none⟩ := by
  have valid := (FValidation.isValidPathString_iff known).mpr plain
  rw [saveList, if_neg known, writeEntries_of_ne_nil _ nonempty valid,
    Effect.bind_of_some _ rfl, Effect.pure_eq, List.append_nil]

/-- Saving overwrites the first entries of the node and keeps the tail of a
longer list. -/
theorem saveList_holds
    {database : Database} {old : List Ingredient}
    (holds : Holds database (listPath self.currentUid) old) :
    Holds (Write.applyAll database self.saveList.issued)
      (listPath self.currentUid)
      (self.list ++ old.drop self.list.length) := by
  by_cases empty : self.list = []
  · rw [saveList_of_nil self known empty, empty]
    simpa using holds
  · rw [saveList_of_ne_nil self known plain empty]
    have written :=
      @Holds.writeEntries _ self.list _ old 0 holds (Nat.zero_le _)
    simpa using written

end Written

end Actions

end ShoppingViewController
end PocketChef
