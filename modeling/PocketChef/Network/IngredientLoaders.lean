import PocketChef.Network.Reply
import PocketChef.Shopping.IngredientsViewController

/-!
# The loaders of the ingredients screen

`loadIngredients` appends to `ingredientList`.  `loadNutrition` collects
fifteen amounts in local variables, which its block copies to the labels.
-/

namespace PocketChef
namespace IngredientsViewController

/-- The body of the loop of `loadIngredients`; the unit may be missing. -/
def decodeIngredient (item : AnyJson) : Option Ingredient := do
  let ingredient ← item.asObject
  let name ← AnyJson.field Json.asString ingredient "name"
  let amount ← AnyJson.field Json.asObject ingredient "amount"
  let metric ← AnyJson.field Json.asObject amount "metric"
  let value ← AnyJson.field AnyJson.asDouble metric "value"
  match AnyJson.field Json.asString metric "unit" with
  | some unit => some { name := name, amount := value, unit := unit }
  | none => some { name := name, amount := value, unit := "" }

/-- The loop of `loadIngredients`. -/
def appendIngredients (self : IngredientsViewController)
    (ingredients : List AnyJson) : IngredientsViewController :=
  ingredients.foldl
    (fun self item =>
      match decodeIngredient item with
      | none => self
      | some ingredient =>
          { self with
            ingredientList := self.ingredientList ++ [ingredient] })
    self

/-- The block reloads the table. -/
def ingredientsLoader : Loader IngredientsViewController PUnit where
  completionHandler self reply :=
    completion self reply (fun body => some (entriesOf "ingredients" body))
      fun ingredients =>
        some ⟨self.appendIngredients ingredients, some ⟨⟩⟩
  mainBlock _ self := some self

theorem appendIngredients_eq (self : IngredientsViewController)
    (ingredients : List AnyJson) :
    self.appendIngredients ingredients =
      { self with
        ingredientList :=
          self.ingredientList ++ ingredients.filterMap decodeIngredient } := by
  apply SwiftArray.foldl_append_decoded decodeIngredient
    fun (self : IngredientsViewController) decoded =>
      { self with ingredientList := self.ingredientList ++ decoded }
  · intro self
    simp
  · intro self item decoded
    cases decodeIngredient item with
    | none => simp
    | some ingredient => simp

end IngredientsViewController

/-- The local variables of `loadNutrition`. -/
structure Nutrition where
  calories : Option String := none
  carbs : Option String := none
  fat : Option String := none
  protein : Option String := none
  satfat : Option String := none
  sugar : Option String := none
  cholest : Option String := none
  sodium : Option String := none
  vc : Option String := none
  va : Option String := none
  fiber : Option String := none
  calcium : Option String := none
  iron : Option String := none
  pota : Option String := none
  zinc : Option String := none
  deriving DecidableEq

/-- The texts of the fifteen labels. -/
structure NutritionLabels where
  cal : Option String := none
  carb : Option String := none
  sugar : Option String := none
  fat : Option String := none
  sat : Option String := none
  chol : Option String := none
  prot : Option String := none
  fib : Option String := none
  sod : Option String := none
  pota : Option String := none
  «calc» : Option String := none
  iron : Option String := none
  z : Option String := none
  va : Option String := none
  vc : Option String := none
  deriving DecidableEq

namespace Nutrition

/-- The guard of both loops, with the amount that the switch reads. -/
def titleAndAmount (entry : AnyJson) : Option (String × Option String) := do
  let nutrition ← entry.asObject
  let title ← AnyJson.field Json.asString nutrition "title"
  some (title, AnyJson.field Json.asString nutrition "amount")

/-- The body of the loop over `bad`. -/
def addBad (self : Nutrition) (entry : AnyJson) : Nutrition :=
  match titleAndAmount entry with
  | none => self
  | some (title, amount) =>
      if title = "Saturated Fat" then { self with satfat := amount }
      else if title = "Sugar" then { self with sugar := amount }
      else if title = "Cholesterol" then { self with cholest := amount }
      else if title = "Sodium" then { self with sodium := amount }
      else self

/-- The body of the loop over `good`. -/
def addGood (self : Nutrition) (entry : AnyJson) : Nutrition :=
  match titleAndAmount entry with
  | none => self
  | some (title, amount) =>
      if title = "Vitamin C" then { self with vc := amount }
      else if title = "Vitamin A" then { self with va := amount }
      else if title = "Fiber" then { self with fiber := amount }
      else if title = "Calcium" then { self with calcium := amount }
      else if title = "Iron" then { self with iron := amount }
      else if title = "Potassium" then { self with pota := amount }
      else if title = "Zinc" then { self with zinc := amount }
      else self

/-- What is read from the data; the handler returns where one of the two
arrays is missing in an object. -/
def ofBody : Body → Option Nutrition
  | .error _ => some {}
  | .ok json =>
      match json.asObject with
      | none => some {}
      | some members => do
          let top : Nutrition :=
            { calories := AnyJson.field Json.asString members "calories"
              carbs := AnyJson.field Json.asString members "carbs"
              fat := AnyJson.field Json.asString members "fat"
              protein := AnyJson.field Json.asString members "protein" }
          let bad ← AnyJson.field Json.asArray members "bad"
          let good ← AnyJson.field Json.asArray members "good"
          some (good.foldl addGood (bad.foldl addBad top))

/-- The block of `loadNutrition`. -/
def labels (self : Nutrition) : NutritionLabels where
  cal := self.calories
  carb := self.carbs
  sugar := self.sugar
  fat := self.fat
  sat := self.satfat
  chol := self.cholest
  prot := self.protein
  fib := self.fiber
  sod := self.sodium
  pota := self.pota
  «calc» := self.calcium
  iron := self.iron
  z := self.zinc
  va := self.va
  vc := self.vc

end Nutrition

/-- The block sets every label, whatever it showed before. -/
def NutritionLabels.nutritionLoader : Loader NutritionLabels Nutrition where
  completionHandler self reply :=
    completion self reply (fun body => some (Nutrition.ofBody body))
      fun nutrition => some ⟨self, some nutrition⟩
  mainBlock nutrition _self := some nutrition.labels

end PocketChef
