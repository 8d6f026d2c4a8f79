import PocketChef.Library.Reactive
import PocketChef.SavedLists.RoundTrip
import PocketChef.Shopping.Mirror

/-!
# The rows of a table view and the list behind them

Both list screens call `deleteRows` before `list.remove(at:)`, so no delete
commit returns; and the frequent list screen clears its list without telling
the table, whose cells then are of rows that are no more.
-/

namespace PocketChef

open Reactive ObjectStore Ingredient

namespace FrequentListViewController

/-- The screen, its table view, and whether the load is under way. -/
structure Table where
  screen : FrequentListViewController
  frequentTable : UITableView := {}
  loading : Bool := true

inductive Request where
  | didGetData (response : Except String Firebase.DataSnapshot)
  | commitDelete (row : Nat)
  | clearTapped
  | cellForRowAt (row : Nat)

namespace Table

/-- The completion block of the load, which reloads the table if there is
data. -/
def didGetData (shown : Table)
    (response : Except String Firebase.DataSnapshot) : Table :=
  let screen := shown.screen.didGetData response
  let reloaded := shown.frequentTable.reloadData screen.numberOfRowsInSection
  let frequentTable :=
    match response with
    | .error _ => shown.frequentTable
    | .ok snapshot =>
        if snapshot.exists? then reloaded else shown.frequentTable
  { screen := screen, frequentTable := frequentTable, loading := false }

/-- `tableView(_:commit:forRowAt:)` for a delete. -/
def commitDelete (shown : Table) (row : Nat) : Option Table := do
  let frequentTable ←
    shown.frequentTable.deleteRows shown.screen.numberOfRowsInSection
  let screen ← shown.screen.removeRow row
  some { shown with screen := screen, frequentTable := frequentTable }

/-- The table view is not told. -/
def clearTapped (shown : Table) : Option Table := do
  let screen ← shown.screen.clearTapped.result
  some { shown with screen := screen }

def machine : Machine Table Request where
  enabled
    | shown, .didGetData _ => shown.loading = true
    | shown, .commitDelete row => row < shown.frequentTable.rows
    | _, .clearTapped => True
    | shown, .cellForRowAt row => row < shown.frequentTable.rows
  step
    | shown, .didGetData response => some (shown.didGetData response)
    | shown, .commitDelete row => shown.commitDelete row
    | shown, .clearTapped => shown.clearTapped
    | shown, .cellForRowAt row =>
        (shown.screen.cellForRowAt row).map fun _ => shown

instance (shown : Table) : DecidablePred (machine.enabled shown)
  | .didGetData _ => inferInstanceAs (Decidable (_ = _))
  | .commitDelete _ => inferInstanceAs (Decidable (_ < _))
  | .clearTapped => inferInstanceAs (Decidable True)
  | .cellForRowAt _ => inferInstanceAs (Decidable (_ < _))

/-- No row is deleted, and no cell is asked for while the list is empty. -/
def Fits (shown : Table) : Request → Prop
  | .didGetData _ => True
  | .commitDelete _ => False
  | .clearTapped => True
  | .cellForRowAt _ => shown.screen.list ≠ []

instance (shown : Table) : DecidablePred shown.Fits
  | .didGetData _ => inferInstanceAs (Decidable True)
  | .commitDelete _ => inferInstanceAs (Decidable False)
  | .clearTapped => inferInstanceAs (Decidable True)
  | .cellForRowAt _ => inferInstanceAs (Decidable (_ ≠ _))

/-- The uid can stand in a path, and the table remembers the length of the
list, unless the list has been cleared. -/
structure Counted (shown : Table) : Prop where
  plain : Firebase.FValidation.isPlain shown.screen.currentUid = true
  rows : shown.frequentTable.rows = shown.screen.list.length ∨
    shown.screen.list = []

/-- The screen opens for `currentUid` and asks for the stored list, unless
`child:` raises. -/
def start (currentUid : String) : Option Table :=
  let opened : FrequentListViewController := { currentUid := currentUid }
  opened.listReference.toOption.map fun _ => { screen := opened }

theorem start_of_plain {currentUid : String}
    (plain : Firebase.FValidation.isPlain currentUid = true) :
    start currentUid = some { screen := { currentUid := currentUid } } := by
  rw [start, listReference_eq, if_pos plain]
  rfl

variable {shown next : Table} {row : Nat}

theorem start_counted {currentUid : String}
    (opened : start currentUid = some shown) : shown.Counted := by
  rw [start, listReference_eq] at opened
  by_cases plain : Firebase.FValidation.isPlain currentUid = true
  · rw [if_pos plain] at opened
    cases opened
    exact ⟨plain, Or.inr rfl⟩
  · rw [if_neg plain] at opened
    cases opened

theorem didGetData_counted (counted : shown.Counted)
    (response : Except String Firebase.DataSnapshot) :
    (shown.didGetData response).Counted where
  plain := by
    have same : (shown.didGetData response).screen.currentUid =
        shown.screen.currentUid :=
      didGetData_currentUid shown.screen response
    rw [same]
    exact counted.plain
  rows := by
    cases response with
    | error message => exact counted.rows
    | ok snapshot =>
        by_cases present : snapshot.exists?
        · left
          simp [didGetData, present, UITableView.reloadData,
            numberOfRowsInSection]
        · have same :
              shown.screen.didGetData (.ok snapshot) = shown.screen := by
            simp [FrequentListViewController.didGetData, present]
          simpa [didGetData, present, same] using counted.rows

/-- `deleteRows` raises while the row is still in the list, and nothing can
be removed from a cleared list. -/
theorem commitDelete_eq_none (counted : shown.Counted) :
    shown.commitDelete row = none := by
  unfold commitDelete
  rcases counted.rows with same | cleared
  · have enough :
        shown.frequentTable.rows ≤ shown.screen.numberOfRowsInSection :=
      Nat.le_of_eq same
    rw [UITableView.deleteRows_of_le enough]
    rfl
  · have nothing : shown.screen.removeRow row = none := by
      simp [removeRow, cleared, SwiftArray.remove]
    rw [nothing]
    cases shown.frequentTable.deleteRows _ with
    | none => rfl
    | some table => rfl

theorem clearTapped_eq (counted : shown.Counted) :
    shown.clearTapped =
      some { shown with screen := { shown.screen with list := [] } } := by
  rw [clearTapped, shown.screen.clearTapped_eq counted.plain]
  rfl

theorem exists_cellForRowAt_iff (counted : shown.Counted)
    (offered : row < shown.frequentTable.rows) :
    (∃ cell, shown.screen.cellForRowAt row = some cell) ↔
      shown.screen.list ≠ [] := by
  refine (SavedLists.exists_cellForRow_iff shown.screen.list row).trans ?_
  rcases counted.rows with same | cleared
  · have nonempty : shown.screen.list ≠ [] := by
      intro cleared
      rw [same, cleared] at offered
      exact Nat.not_lt_zero row offered
    exact iff_of_true (same ▸ offered) nonempty
  · simp [cleared]

theorem step_counted (shown : Table) (request : Request) (next : Table)
    (counted : shown.Counted) (enabled : machine.enabled shown request)
    (handled : machine.step shown request = some next) :
    next.Counted := by
  cases request with
  | didGetData response =>
      cases handled
      exact didGetData_counted counted response
  | commitDelete row =>
      have raised : shown.commitDelete row = none :=
        commitDelete_eq_none counted
      cases raised.symm.trans handled
  | clearTapped =>
      cases (clearTapped_eq counted).symm.trans handled
      exact ⟨counted.plain, Or.inr rfl⟩
  | cellForRowAt row =>
      rcases Option.map_eq_some_iff.mp handled with ⟨cell, _, rfl⟩
      exact counted

theorem returns_iff_fits (shown : Table) (request : Request)
    (counted : shown.Counted) (enabled : machine.enabled shown request) :
    machine.Returns shown request ↔ shown.Fits request := by
  cases request with
  | didGetData response =>
      exact iff_of_true (Machine.returns_of_step rfl) trivial
  | commitDelete row =>
      have raised : shown.commitDelete row = none :=
        commitDelete_eq_none counted
      exact iff_of_false (Machine.not_returns_of_trap raised) id
  | clearTapped =>
      exact iff_of_true ⟨_, clearTapped_eq counted⟩ trivial
  | cellForRowAt row =>
      refine Iff.trans ?_ (exists_cellForRowAt_iff counted enabled)
      constructor
      · rintro ⟨next, handled⟩
        rcases Option.map_eq_some_iff.mp handled with ⟨cell, found, _⟩
        exact ⟨cell, found⟩
      · rintro ⟨cell, found⟩
        exact ⟨shown, Option.map_eq_some_iff.mpr ⟨cell, found, rfl⟩⟩

end Table
end FrequentListViewController

namespace ShoppingViewController

/-- The screen with its table view, and the store; `loaded` tells whether
`loadShoppingList` has run, and `reloading` whether its block is still to
come. -/
structure Table where
  screen : ShoppingViewController := {}
  store : ItemToBuyStore
  loaded : Bool := false
  reloading : Bool := false

/-- Fetches come with their results, which the store returns in any order. -/
inductive Request where
  | loadShoppingList (results : List ItemToBuyObject)
  | reloadData
  | commitDelete (row : Nat) (results : List ItemToBuyObject)
  | clearList
  | cellForRowAt (row : Nat)

namespace Table

/-- `tableView(_:commit:forRowAt:)` for a delete. -/
def commitDelete (shown : Table) (row : Nat)
    (results : List ItemToBuyObject) : Option Table :=
  (shown.screen.commitDelete shown.store row (some results) true).map
    fun after => { shown with screen := after.1, store := after.2 }

def clearList (shown : Table) : Table :=
  let after := shown.screen.clearList shown.store .identities
  { shown with screen := after.1, store := after.2 }

def machine : Machine Table Request where
  enabled
    | shown, .loadShoppingList results =>
        shown.loaded = false ∧ shown.store.Fetched (fun _ => true) results
    | shown, .reloadData => shown.reloading = true
    | shown, .commitDelete row results =>
        row < shown.screen.shoppingList.rows ∧
          ∀ dump ∈ shown.screen.list[row]?,
            shown.store.Fetched (hasName dump) results
    | _, .clearList => True
    | shown, .cellForRowAt row => row < shown.screen.shoppingList.rows
  step
    | shown, .loadShoppingList results =>
        some { shown with
          screen := shown.screen.loadShoppingList (some results)
          loaded := true
          reloading := true }
    | shown, .reloadData =>
        some { shown with
          screen := shown.screen.reloadData
          reloading := false }
    | shown, .commitDelete row results => shown.commitDelete row results
    | shown, .clearList => some shown.clearList
    | shown, .cellForRowAt row =>
        (shown.screen.cellForRowAt row).map fun _ => shown

instance (shown : Table) : DecidablePred (machine.enabled shown)
  | .loadShoppingList _ => inferInstanceAs (Decidable (_ ∧ _))
  | .reloadData => inferInstanceAs (Decidable (_ = _))
  | .commitDelete row results => inferInstanceAs <| Decidable <|
      row < shown.screen.shoppingList.rows ∧
        ∀ dump ∈ shown.screen.list[row]?,
          shown.store.Fetched (hasName dump) results
  | .clearList => inferInstanceAs (Decidable True)
  | .cellForRowAt _ => inferInstanceAs (Decidable (_ < _))

/-- No row is deleted. -/
def Fits (_shown : Table) : Request → Prop
  | .loadShoppingList _ => True
  | .reloadData => True
  | .commitDelete _ _ => False
  | .clearList => True
  | .cellForRowAt _ => True

instance (shown : Table) : DecidablePred shown.Fits
  | .loadShoppingList _ | .reloadData | .clearList | .cellForRowAt _ =>
      inferInstanceAs (Decidable True)
  | .commitDelete _ _ => inferInstanceAs (Decidable False)

/-- The table remembers no more rows than the list has. -/
def Counted (shown : Table) : Prop :=
  shown.screen.shoppingList.rows ≤ shown.screen.list.length

/-- A screen that has not loaded, over any store. -/
def start (store : ItemToBuyStore) : Table :=
  { store := store }

variable {shown next : Table} {row : Nat} {results : List ItemToBuyObject}

theorem commitDelete_eq_none (counted : shown.Counted) :
    shown.commitDelete row results = none := by
  have stays : ¬ shown.screen.OneRowGone := by
    unfold Counted at counted
    unfold OneRowGone
    omega
  rw [commitDelete, shown.screen.commitDelete_of_not_oneRowGone stays]
  rfl

theorem step_counted (shown : Table) (request : Request) (next : Table)
    (counted : shown.Counted) (_enabled : machine.enabled shown request)
    (handled : machine.step shown request = some next) :
    next.Counted := by
  cases request with
  | loadShoppingList results =>
      cases handled
      have grown := congrArg List.length
        (shown.screen.loadShoppingList_list results)
      rw [List.length_append] at grown
      exact counted.trans (grown ▸ Nat.le_add_right _ _)
  | reloadData =>
      cases handled
      exact Nat.le_refl _
  | commitDelete row results =>
      have raised : shown.commitDelete row results = none :=
        commitDelete_eq_none counted
      cases raised.symm.trans handled
  | clearList =>
      cases handled
      exact Nat.le_refl _
  | cellForRowAt row =>
      rcases Option.map_eq_some_iff.mp handled with ⟨cell, _, rfl⟩
      exact counted

theorem returns_iff_fits (shown : Table) (request : Request)
    (counted : shown.Counted) (enabled : machine.enabled shown request) :
    machine.Returns shown request ↔ shown.Fits request := by
  cases request with
  | loadShoppingList results =>
      exact iff_of_true (Machine.returns_of_step rfl) trivial
  | reloadData => exact iff_of_true (Machine.returns_of_step rfl) trivial
  | commitDelete row results =>
      have raised : shown.commitDelete row results = none :=
        commitDelete_eq_none counted
      exact iff_of_false (Machine.not_returns_of_trap raised) id
  | clearList => exact iff_of_true (Machine.returns_of_step rfl) trivial
  | cellForRowAt row =>
      have inRange : row < shown.screen.list.length :=
        Nat.lt_of_lt_of_le enabled counted
      rcases (SavedLists.exists_cellForRow_iff _ row).mpr inRange with
        ⟨cell, found⟩
      exact iff_of_true
        ⟨shown, Option.map_eq_some_iff.mpr ⟨cell, found, rfl⟩⟩ trivial

end Table
end ShoppingViewController

namespace RowCounts

open SavedLists ShoppingViewController

/-- Along a run of either screen nothing raises and no access is out of range
exactly when no row is deleted and, on the frequent list screen, no cell is
asked for while the list is empty. -/
theorem eachStep_returns_iff_fits (currentUid : String)
    (table : FrequentListViewController.Table)
    (opened : FrequentListViewController.Table.start currentUid = some table)
    (store : ItemToBuyStore)
    (frequent : List FrequentListViewController.Request)
    (shopping : List ShoppingViewController.Request)
    (legalFrequent :
      FrequentListViewController.Table.machine.Legal table frequent)
    (legalShopping :
      ShoppingViewController.Table.machine.Legal (.start store) shopping) :
    (FrequentListViewController.Table.machine.EachStep
          FrequentListViewController.Table.machine.Returns
          table frequent ↔
        FrequentListViewController.Table.machine.EachStep
          FrequentListViewController.Table.Fits table frequent) ∧
      (ShoppingViewController.Table.machine.EachStep
          ShoppingViewController.Table.machine.Returns
          (.start store) shopping ↔
        ShoppingViewController.Table.machine.EachStep
          ShoppingViewController.Table.Fits (.start store) shopping) :=
  ⟨Machine.eachStep_congr FrequentListViewController.Table.step_counted
      FrequentListViewController.Table.returns_iff_fits
      (FrequentListViewController.Table.start_counted opened) legalFrequent,
    Machine.eachStep_congr ShoppingViewController.Table.step_counted
      ShoppingViewController.Table.returns_iff_fits (Nat.le_refl 0)
      legalShopping⟩

/-- The screen of ann before her list has arrived. -/
def annTable : FrequentListViewController.Table :=
  { screen := { currentUid := "ann" } }

theorem start_annTable :
    FrequentListViewController.Table.start "ann" = some annTable :=
  FrequentListViewController.Table.start_of_plain (by decide)

/-- A clear, with no cell asked for afterwards. -/
def loadedAndCleared : List FrequentListViewController.Request :=
  [.didGetData (.ok ⟨savedOnce [flour], listPath "ann"⟩), .cellForRowAt 0,
    .clearTapped]

def loadedAndScrolled : List ShoppingViewController.Request :=
  [.loadShoppingList [Mirror.flourObject, Mirror.milkObject], .reloadData,
    .cellForRowAt 1, .clearList]

theorem eachStep_returns_loaded :
    FrequentListViewController.Table.machine.EachStep
        FrequentListViewController.Table.machine.Returns
        annTable loadedAndCleared ∧
      ShoppingViewController.Table.machine.EachStep
        ShoppingViewController.Table.machine.Returns
        (.start Mirror.pantry) loadedAndScrolled :=
  have exact_runs :=
    eachStep_returns_iff_fits "ann" annTable start_annTable Mirror.pantry
      loadedAndCleared loadedAndScrolled (by decide +kernel)
      (by decide +kernel)
  ⟨exact_runs.1.mpr (by decide +kernel), exact_runs.2.mpr (by decide +kernel)⟩

/-- The row is deleted in the table before it leaves the list. -/
def frequentDelete : List FrequentListViewController.Request :=
  [.didGetData (.ok ⟨savedOnce [flour], listPath "ann"⟩), .commitDelete 0]

/-- The table still offers the row of the cleared list. -/
def clearedScroll : List FrequentListViewController.Request :=
  [.didGetData (.ok ⟨savedOnce [flour], listPath "ann"⟩), .clearTapped,
    .cellForRowAt 0]

def shoppingDelete : List ShoppingViewController.Request :=
  [.loadShoppingList [Mirror.flourObject, Mirror.milkObject], .reloadData,
    .commitDelete 0 [Mirror.flourObject]]

theorem not_eachStep_returns :
    FrequentListViewController.Table.start "ann" = some annTable ∧
      (FrequentListViewController.Table.machine.Legal
          annTable frequentDelete ∧
        ¬ FrequentListViewController.Table.machine.EachStep
          FrequentListViewController.Table.machine.Returns
          annTable frequentDelete) ∧
      (FrequentListViewController.Table.machine.Legal
          annTable clearedScroll ∧
        ¬ FrequentListViewController.Table.machine.EachStep
          FrequentListViewController.Table.machine.Returns
          annTable clearedScroll) ∧
      ShoppingViewController.Table.machine.Legal
          (.start Mirror.pantry) shoppingDelete ∧
        ¬ ShoppingViewController.Table.machine.EachStep
          ShoppingViewController.Table.machine.Returns
          (.start Mirror.pantry) shoppingDelete := by
  refine ⟨start_annTable, ?_⟩
  decide +kernel

end RowCounts
end PocketChef
