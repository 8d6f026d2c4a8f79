import PocketChef.Library.Reactive
import PocketChef.Shopping.IngredientsViewController
import PocketChef.Shopping.ShoppingViewController

/-!
# The shopping list and the store

The shopping list screen shows a copy of the `ItemToBuy` objects, which it
makes once, and the ingredients screens insert objects without telling it.
Clearing changes the list and the store together.  Deleting a row deletes the
first object of the same name, which may be another one, and then raises: the
table view never remembers more rows than the list has.
-/

namespace PocketChef
namespace ShoppingViewController

open Reactive ObjectStore Ingredient

/-- The screen, the store, and whether the screen has loaded. -/
structure Mirror where
  screen : ShoppingViewController
  store : ItemToBuyStore
  loaded : Bool

/-- What happens to the list and the store.  Fetches come with their results,
which the store returns in any order; all calls of Core Data succeed.  The
table view reloads when the block of the load runs or when it is laid out. -/
inductive Shopping where
  | addToShopping (ingredients : IngredientsViewController)
      (cellForRow : Cells)
  | loadShoppingList (results : List ItemToBuyObject)
  | reloadData
  | commitDelete (row : Nat) (results : List ItemToBuyObject)
  | clearList

namespace Mirror

/-- A screen that has not loaded, over any store. -/
def start (screen : ShoppingViewController) (store : ItemToBuyStore) :
    Mirror where
  screen := { screen with list := [], shoppingList := {} }
  store := store
  loaded := false

def machine : Machine Mirror Shopping where
  enabled
    | _, .addToShopping _ _ => True
    | mirror, .loadShoppingList results =>
        mirror.loaded = false ∧ mirror.store.Fetched (fun _ => true) results
    | _, .reloadData => True
    | mirror, .commitDelete row results =>
        ∃ dump ∈ mirror.screen.list[row]?,
          mirror.store.Fetched (hasName dump) results
    | _, .clearList => True
  step
    | mirror, .addToShopping ingredients cellForRow =>
        some { mirror with
          store := ingredients.addToShopping cellForRow mirror.store }
    | mirror, .loadShoppingList results =>
        some { mirror with
          screen := mirror.screen.loadShoppingList (some results)
          loaded := true }
    | mirror, .reloadData =>
        some { mirror with screen := mirror.screen.reloadData }
    | mirror, .commitDelete row results =>
        (mirror.screen.commitDelete mirror.store row (some results) true).map
          fun next => { mirror with screen := next.1, store := next.2 }
    | mirror, .clearList =>
        let next := mirror.screen.clearList mirror.store .identities
        some { mirror with screen := next.1, store := next.2 }

instance : ∀ mirror event, Decidable (machine.enabled mirror event)
  | _, .addToShopping _ _ => inferInstanceAs (Decidable True)
  | _, .loadShoppingList _ => inferInstanceAs (Decidable (_ ∧ _))
  | _, .reloadData => inferInstanceAs (Decidable True)
  | mirror, .commitDelete row results =>
      inferInstanceAs <| Decidable <|
        ∃ dump ∈ mirror.screen.list[row]?,
          mirror.store.Fetched (hasName dump) results
  | _, .clearList => inferInstanceAs (Decidable True)

/-- Once the screen has loaded, the list and the store have the same entries
with the same multiplicities. -/
def InStep (mirror : Mirror) : Prop :=
  mirror.loaded = true → mirror.screen.list.Perm (stored mirror.store)

instance : DecidablePred InStep := fun mirror =>
  inferInstanceAs <| Decidable <|
    mirror.loaded = true → mirror.screen.list.Perm (stored mirror.store)

/-- No row is deleted, and nothing is added once the screen has loaded. -/
def Undisturbed (mirror : Mirror) : Shopping → Prop
  | .addToShopping ingredients cellForRow =>
      mirror.loaded = true → ingredients.checkedEntries cellForRow = []
  | .loadShoppingList _ => True
  | .reloadData => True
  | .commitDelete _ _ => False
  | .clearList => True

instance (mirror : Mirror) : DecidablePred mirror.Undisturbed
  | .addToShopping _ _ => inferInstanceAs (Decidable (_ → _))
  | .loadShoppingList _ | .reloadData | .clearList =>
      inferInstanceAs (Decidable True)
  | .commitDelete _ _ => inferInstanceAs (Decidable False)

/-- Before it has loaded, the screen lists nothing, and its table view never
remembers more rows than the list has. -/
structure Counted (mirror : Mirror) : Prop where
  emptyBeforeLoad : mirror.loaded = false → mirror.screen.list = []
  rows : mirror.screen.shoppingList.rows ≤ mirror.screen.list.length

/-! ## One step -/

theorem stored_delete_perm {store : ItemToBuyStore}
    {object : ItemToBuyObject} (member : object ∈ store.objects) :
    (stored store).Perm
      (object.attributes.ingredient ::
        stored (store.delete object.objectID)) :=
  (Store.attributes_delete_perm member).map ItemToBuy.ingredient

theorem exists_fetched {mirror : Mirror} {dump : Ingredient} {row : Nat}
    {results : List ItemToBuyObject}
    (same : mirror.screen.list.Perm (stored mirror.store))
    (shown : mirror.screen.list[row]? = some dump)
    (fetched : mirror.store.Fetched (hasName dump) results) :
    ∃ first others, results = first :: others := by
  have listed : dump ∈ stored mirror.store :=
    same.mem_iff.mp (List.mem_of_getElem? shown)
  rcases List.mem_map.mp listed with ⟨record, inStore, rfl⟩
  rcases List.mem_map.mp inStore with ⟨object, member, rfl⟩
  have found : object ∈ results := by
    apply fetched.mem_iff.mpr
    apply List.mem_filter.mpr
    exact ⟨member, beq_self_eq_true _⟩
  exact List.exists_cons_of_ne_nil (List.ne_nil_of_mem found)

/-- Taking one entry off each side keeps two lists equal up to order exactly
when the two entries are equal. -/
theorem perm_tails_iff {left right : List Ingredient}
    {first second : Ingredient} {leftRest rightRest : List Ingredient}
    (same : left.Perm right)
    (leftSplit : left.Perm (first :: leftRest))
    (rightSplit : right.Perm (second :: rightRest)) :
    leftRest.Perm rightRest ↔ first = second := by
  have whole := (leftSplit.symm.trans same).trans rightSplit
  constructor
  · intro rests
    have swapped := whole.trans (rests.symm.cons second)
    have counts := swapped.count_eq first
    by_contra different
    rw [List.count_cons_self, List.count_cons_of_ne (Ne.symm different)]
      at counts
    omega
  · intro equal
    subst equal
    exact (List.perm_cons first).mp whole

theorem start_counted (screen : ShoppingViewController)
    (store : ItemToBuyStore) : (start screen store).Counted where
  emptyBeforeLoad := fun _ => rfl
  rows := Nat.le_refl 0

theorem Counted.not_oneRowGone {mirror : Mirror}
    (counted : mirror.Counted) : ¬ mirror.screen.OneRowGone := by
  have rows := counted.rows
  unfold OneRowGone
  omega

/-- No delete commit returns. -/
theorem Counted.commitDelete_eq_none {mirror : Mirror}
    (counted : mirror.Counted) (row : Nat)
    (results : List ItemToBuyObject) :
    machine.step mirror (.commitDelete row results) = none := by
  have raised := mirror.screen.commitDelete_of_not_oneRowGone
    counted.not_oneRowGone mirror.store row (some results) true
  simp only [machine, raised, Option.map_none]

theorem step_counted (mirror : Mirror) (event : Shopping)
    (next : Mirror) (counted : mirror.Counted)
    (_enabled : machine.enabled mirror event)
    (handled : machine.step mirror event = some next) :
    next.Counted := by
  cases event with
  | addToShopping ingredients cellForRow =>
      cases handled
      exact ⟨counted.emptyBeforeLoad, counted.rows⟩
  | loadShoppingList results =>
      cases handled
      constructor
      · intro notLoaded
        cases notLoaded
      · have grown := congrArg List.length
          (mirror.screen.loadShoppingList_list results)
        rw [List.length_append] at grown
        exact counted.rows.trans (grown ▸ Nat.le_add_right _ _)
  | reloadData =>
      cases handled
      exact ⟨counted.emptyBeforeLoad, Nat.le_refl _⟩
  | commitDelete row results =>
      cases (counted.commitDelete_eq_none row results).symm.trans handled
  | clearList =>
      cases handled
      exact ⟨fun _ => rfl, Nat.le_refl 0⟩

theorem addToShopping_inStep_iff {mirror : Mirror}
    (inStep : mirror.InStep) (ingredients : IngredientsViewController)
    (cellForRow : Cells) :
    (mirror.loaded = true → ingredients.checkedEntries cellForRow = []) ↔
      InStep { mirror with
        store := ingredients.addToShopping cellForRow mirror.store } := by
  apply forall_congr'
  intro loaded
  have same := inStep loaded
  rw [ingredients.stored_addToShopping]
  constructor
  · intro nothing
    rw [nothing, List.map_nil, List.append_nil]
    exact same
  · intro grown
    have size := same.length_eq.symm.trans grown.length_eq
    rw [List.length_append, List.length_map] at size
    apply List.eq_nil_of_length_eq_zero
    omega

theorem loadShoppingList_inStep {mirror : Mirror}
    {results : List ItemToBuyObject}
    (empty : mirror.screen.list = [])
    (fetched : mirror.store.Fetched (fun _ => true) results) :
    (mirror.screen.loadShoppingList (some results)).list.Perm
      (stored mirror.store) := by
  rw [loadShoppingList_list, empty, List.nil_append]
  exact fetched.attributes_perm.map ItemToBuy.ingredient

theorem step_inStep_iff (mirror : Mirror) (event : Shopping)
    (counted : mirror.Counted) (inStep : mirror.InStep)
    (enabled : machine.enabled mirror event) :
    mirror.Undisturbed event ↔
      ∃ next ∈ machine.step mirror event, next.InStep := by
  cases event with
  | addToShopping ingredients cellForRow =>
      have grown := addToShopping_inStep_iff inStep ingredients cellForRow
      simpa [Undisturbed, machine] using grown
  | loadShoppingList results =>
      have empty := counted.emptyBeforeLoad enabled.1
      have listed := loadShoppingList_inStep empty enabled.2
      exact iff_of_true trivial ⟨_, rfl, fun _ => listed⟩
  | reloadData =>
      exact iff_of_true trivial ⟨_, rfl, inStep⟩
  | commitDelete row results =>
      refine iff_of_false id ?_
      rintro ⟨next, handled, _⟩
      cases (counted.commitDelete_eq_none row results).symm.trans handled
  | clearList =>
      exact iff_of_true trivial ⟨_, rfl, fun _ => List.Perm.refl _⟩

/-! ## Whole runs -/

theorem counted_of_run {screen : ShoppingViewController}
    {store : ItemToBuyStore} {events : List Shopping} {final : Mirror}
    (legal : machine.Legal (start screen store) events)
    (arrived : machine.run (start screen store) events = some final) :
    final.Counted :=
  Machine.invariant_of_run step_counted (start_counted screen store) legal
    arrived

/-- A run raises nothing and has the list and the store agree in every state
after the load exactly when no row is deleted and nothing is added after the
load. -/
theorem always_inStep_iff_undisturbed
    (screen : ShoppingViewController) (store : ItemToBuyStore)
    (events : List Shopping)
    (legal : machine.Legal (start screen store) events) :
    machine.Always InStep (start screen store) events ↔
      machine.EachStep Undisturbed (start screen store) events :=
  Machine.always_iff_eachStep step_counted step_inStep_iff
    (start_counted screen store) (fun loaded => nomatch loaded) legal

/-- The store after one recipe with both ingredients checked. -/
def pantry : ItemToBuyStore :=
  IngredientsViewController.addToShopping ⟨[flour, milk]⟩
    (fun _ => some .checkmark) .empty

def flourObject : ItemToBuyObject :=
  ⟨0, .ofIngredient flour⟩

def milkObject : ItemToBuyObject :=
  ⟨1, .ofIngredient milk⟩

theorem always_inStep_pantry :
    machine.Always InStep (start {} .empty)
      [.addToShopping ⟨[flour, milk]⟩ fun _ => some .checkmark,
        .loadShoppingList [flourObject, milkObject], .reloadData,
        .addToShopping ⟨[milk]⟩ fun _ => none, .clearList] :=
  (always_inStep_iff_undisturbed {} .empty _ (by decide)).mpr (by decide)

def addedAfterLoad : List Shopping :=
  [.loadShoppingList [flourObject, milkObject],
    .addToShopping ⟨[milk]⟩ fun _ => some .checkmark]

/-- The first row of the table is deleted. -/
def deletedRow : List Shopping :=
  [.loadShoppingList [flourObject, milkObject], .reloadData,
    .commitDelete 0 [flourObject]]

/-- The delete of the first row takes its object out of the store and then
raises. -/
theorem out_of_step :
    (machine.Legal (start {} pantry) addedAfterLoad ∧
        ¬ machine.Always InStep (start {} pantry) addedAfterLoad) ∧
      machine.Legal (start {} pantry) deletedRow ∧
        deleteFetched pantry (some [flourObject]) true =
          some (pantry.delete flourObject.objectID) ∧
        machine.run (start {} pantry) deletedRow = none ∧
        ¬ machine.Always InStep (start {} pantry) deletedRow := by
  refine ⟨by decide, by decide, rfl, rfl, by decide⟩

/-- Two objects of flour, in different units. -/
def twins : ItemToBuyStore :=
  IngredientsViewController.addToShopping
    ⟨[flour, { flour with unit := "cup" }]⟩ (fun _ => some .checkmark) .empty

def cupObject : ItemToBuyObject :=
  ⟨1, .ofIngredient { flour with unit := "cup" }⟩

end Mirror
end ShoppingViewController
end PocketChef
