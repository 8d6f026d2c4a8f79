import PocketChef.Library.ObjectStore
import PocketChef.SavedLists.Node

/-!
# The Core Data entity `ItemToBuy`

The ingredients screen inserts one object for each ingredient to buy, and the
shopping list screen reads and deletes them.
-/

namespace PocketChef

/-- The attributes of an object; `addToShopping` sets all three. -/
structure ItemToBuy where
  amount : FiniteDouble
  name : String
  unit : String
  deriving DecidableEq

abbrev ItemToBuyStore := ObjectStore.Store ItemToBuy

abbrev ItemToBuyObject := ObjectStore.ManagedObject ItemToBuy

namespace ItemToBuy

def ofIngredient (item : Ingredient) : ItemToBuy where
  amount := item.amount
  name := item.name
  unit := item.unit

def ingredient (record : ItemToBuy) : Ingredient where
  name := record.name
  amount := record.amount
  unit := record.unit

end ItemToBuy

/-- The name, amount and unit of every object of a store. -/
def stored (store : ItemToBuyStore) : List Ingredient :=
  store.attributes.map ItemToBuy.ingredient

end PocketChef
