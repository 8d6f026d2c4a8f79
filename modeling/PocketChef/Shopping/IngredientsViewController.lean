import PocketChef.Shopping.ItemToBuy

/-!
# The ingredients screen

Every ingredient of a recipe has a row whose cell starts with a check mark;
tapping a row switches the mark.  `addToShopping` asks the table for the cell
of each row and inserts an `ItemToBuy` object where it finds a mark.

The table only has cells for the rows it shows, so a `Cells` is a partial
function; it is what `cellForRow(at:)` answers.
-/

namespace PocketChef

open ObjectStore

inductive AccessoryType where
  | none
  | checkmark
  deriving DecidableEq

/-- The accessory of the cell of each row that has a cell. -/
abbrev Cells := Nat → Option AccessoryType

structure IngredientsViewController where
  ingredientList : List Ingredient
  deriving DecidableEq

namespace IngredientsViewController

/-- The accessory that `tableView(_:cellForRowAt:)` gives every cell. -/
def cellForRowAt : AccessoryType :=
  .checkmark

/-- `tableView(_:didSelectRowAt:)`. -/
def didSelectRowAt (cells : Cells) (row : Nat) : Cells :=
  if cells row = some .checkmark then
    Function.update cells row (some .none)
  else if cells row = some .none then
    Function.update cells row (some .checkmark)
  else
    cells

/-- The loop visits every index of `ingredientList` with its ingredient. -/
def addToShopping (self : IngredientsViewController) (cellForRow : Cells)
    (store : ItemToBuyStore) : ItemToBuyStore :=
  self.ingredientList.zipIdx.foldl
    (fun store entry =>
      if cellForRow entry.2 = some .checkmark then
        store.insert (.ofIngredient entry.1)
      else
        store)
    store

/-- The rows for which `addToShopping` inserts an object, with the
ingredient of each. -/
def checkedEntries (self : IngredientsViewController) (cellForRow : Cells) :
    List (Ingredient × Nat) :=
  self.ingredientList.zipIdx.filter fun entry =>
    cellForRow entry.2 = some .checkmark

/-- The objects are those of the checked rows, one for each, in list
order. -/
theorem addToShopping_attributes (self : IngredientsViewController)
    (cellForRow : Cells) (store : ItemToBuyStore) :
    (self.addToShopping cellForRow store).attributes =
      store.attributes ++
        (self.checkedEntries cellForRow).map fun entry =>
          ItemToBuy.ofIngredient entry.1 := by
  have inserted :
      self.addToShopping cellForRow store =
        ((self.checkedEntries cellForRow).map fun entry =>
          ItemToBuy.ofIngredient entry.1).foldl Store.insert store := by
    rw [List.foldl_map, checkedEntries, List.foldl_filter]
    simp only [decide_eq_true_eq]
    rfl
  rw [inserted, Store.attributes_foldl_insert]

theorem stored_addToShopping (self : IngredientsViewController)
    (cellForRow : Cells) (store : ItemToBuyStore) :
    stored (self.addToShopping cellForRow store) =
      stored store ++ (self.checkedEntries cellForRow).map Prod.fst := by
  rw [stored, addToShopping_attributes, List.map_append, List.map_map]
  rfl

end IngredientsViewController
end PocketChef
