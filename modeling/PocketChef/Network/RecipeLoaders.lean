import PocketChef.Network.Reply
import PocketChef.Recipes.ListScreens

/-!
# The loaders of recipes

`loadRandomRecipes` and `loadSearchResults` read the same kind of element out
of two arrays of different names.  Both loops are written twice in the source;
their bodies differ in what they append to.

`types[0]` is guarded by `types.count != 0`, so the loops never trap and do
what `decodeRecipe` says about the casts of each element.
-/

namespace PocketChef

/-- The guard of both loops: the members, id, title and image of a recipe. -/
def recipeGuard (item : AnyJson) :
    Option (List (String × AnyJson) × Int × String × String) := do
  let recipe ← item.asObject
  let id ← AnyJson.field AnyJson.asInt recipe "id"
  let title ← AnyJson.field Json.asString recipe "title"
  let imageURL ← AnyJson.field Json.asString recipe "image"
  some (recipe, id, title, imageURL)

/-- What an iteration appends, with the access `types[0]`; the loop continues
where it is `none` inside. -/
def recipeCard (fetch : String → Option UIImage) (item : AnyJson) :
    Option (Option (RecipeCard × String)) :=
  match recipeGuard item with
  | none => some none
  | some (recipe, id, title, imageURL) =>
      match AnyJson.field Json.asStrings recipe "dishTypes" with
      | none => some (some (.init fetch id title imageURL "", imageURL))
      | some types =>
          if types.length ≠ 0 then do
            let type ← SwiftArray.get types 0
            some (some (.init fetch id title imageURL type, imageURL))
          else
            some (some (.init fetch id title imageURL "", imageURL))

/-- The casts of an element; a value that is no object has no fields. -/
def RecipeEntry.ofAny (item : AnyJson) : RecipeEntry :=
  match item.asObject with
  | none => {}
  | some recipe =>
      { id := AnyJson.field AnyJson.asInt recipe "id"
        title := AnyJson.field Json.asString recipe "title"
        image := AnyJson.field Json.asString recipe "image"
        dishTypes := AnyJson.field Json.asStrings recipe "dishTypes" }

/-- An object with an integer id, a string title and a string image. -/
def WellFormedRecipe (item : AnyJson) : Prop :=
  ∃ recipe, item = .object recipe ∧
    (∃ id, AnyJson.field AnyJson.asInt recipe "id" = some id) ∧
    (∃ title, AnyJson.field Json.asString recipe "title" = some title) ∧
    ∃ imageURL,
      AnyJson.field Json.asString recipe "image" = some imageURL

instance : DecidablePred WellFormedRecipe := fun item =>
  decidable_of_iff
    (∃ recipe ∈ item.asObject,
      (AnyJson.field AnyJson.asInt recipe "id").isSome ∧
        (AnyJson.field Json.asString recipe "title").isSome ∧
          (AnyJson.field Json.asString recipe "image").isSome)
    (by
      simp only [WellFormedRecipe, Option.isSome_iff_exists, Option.mem_def,
        Json.asObject_eq_some_iff])

/-- An element for a dish, without dish types. -/
def recipeOf (dish : String) : AnyJson :=
  .object [("id", .number { asInt := some 1 }), ("title", .string dish),
    ("image", .string "dish.jpg")]

section Elements

variable (fetch : String → Option UIImage)

/-- The access `types[0]` never traps. -/
theorem recipeCard_eq (item : AnyJson) :
    recipeCard fetch item =
      some (decodeRecipe fetch (RecipeEntry.ofAny item)) := by
  unfold recipeCard recipeGuard RecipeEntry.ofAny decodeRecipe
  cases item.asObject with
  | none => rfl
  | some recipe =>
      cases idCast : AnyJson.field AnyJson.asInt recipe "id" with
      | none => simp [idCast]
      | some id =>
          cases titleCast : AnyJson.field Json.asString recipe "title" with
          | none => simp [idCast, titleCast]
          | some title =>
              cases urlCast : AnyJson.field Json.asString recipe "image" with
              | none => simp [idCast, titleCast, urlCast]
              | some imageURL =>
                  cases typesCast :
                      AnyJson.field Json.asStrings recipe "dishTypes" with
                  | none => simp [idCast, titleCast, urlCast, typesCast]
                  | some types =>
                      cases types <;>
                        simp [idCast, titleCast, urlCast, typesCast]

theorem decodeRecipe_isSome_iff (item : AnyJson) :
    (decodeRecipe fetch (RecipeEntry.ofAny item)).isSome ↔
      WellFormedRecipe item := by
  unfold decodeRecipe RecipeEntry.ofAny WellFormedRecipe
  simp only [← Json.asObject_eq_some_iff]
  cases item.asObject with
  | none => simp
  | some recipe =>
      cases idCast : AnyJson.field AnyJson.asInt recipe "id" with
      | none => simp [idCast]
      | some id =>
          cases titleCast : AnyJson.field Json.asString recipe "title" with
          | none => simp [idCast, titleCast]
          | some title =>
              cases urlCast : AnyJson.field Json.asString recipe "image" with
              | none => simp [idCast, titleCast, urlCast]
              | some imageURL =>
                  simp only [idCast, titleCast, urlCast,
                    Option.bind_eq_bind, Option.bind_some]
                  split <;> simp [idCast, titleCast, urlCast]

/-- The cards of the elements of an array, each with its image URL. -/
def cardsOf (recipes : List AnyJson) : List (RecipeCard × String) :=
  builtFrom fetch (recipes.map RecipeEntry.ofAny)

theorem cardsOf_eq_nil_iff (recipes : List AnyJson) :
    cardsOf fetch recipes = [] ↔
      ∀ item ∈ recipes, ¬ WellFormedRecipe item := by
  simp only [cardsOf, builtFrom, List.filterMap_map,
    List.filterMap_eq_nil_iff, ← decodeRecipe_isSome_iff fetch,
    Bool.not_eq_true, Option.isSome_eq_false_iff, Option.isNone_iff_eq_none,
    Function.comp_apply]

end Elements

namespace ViewController

/-- The loop of `loadRandomRecipes` over the array `recipes`. -/
def appendSamples (fetch : String → Option UIImage) (self : ViewController)
    (recipes : List AnyJson) : Option ViewController :=
  recipes.foldlM
    (fun self item => do
      match ← recipeCard fetch item with
      | none => some self
      | some (card, _) =>
          some { self with sampleRecipes := self.sampleRecipes ++ [card] })
    self

/-- The block reloads the collection view. -/
def randomRecipesLoader (fetch : String → Option UIImage) :
    Loader ViewController PUnit where
  completionHandler self reply :=
    completion self reply (fun body => some (entriesOf "recipes" body))
      fun recipes => do
        let self ← self.appendSamples fetch recipes
        some ⟨self, some ⟨⟩⟩
  mainBlock _ self := some self

theorem appendSamples_eq (fetch : String → Option UIImage)
    (self : ViewController) (recipes : List AnyJson) :
    self.appendSamples fetch recipes =
      some (self.loadRandomRecipes fetch (recipes.map RecipeEntry.ofAny)) := by
  rw [appendSamples, loadRandomRecipes, List.foldl_map]
  apply SwiftArray.foldlM_of_total
  intro self item
  rw [recipeCard_eq]
  cases decodeRecipe fetch (RecipeEntry.ofAny item) with
  | none => simp
  | some built => simp

theorem completionHandler_of_entries
    {fetch : String → Option UIImage} {reply : Reply} {body : Body}
    {recipes : List AnyJson} (self : ViewController)
    (delivers : reply.Delivers body)
    (found : entriesOf "recipes" body = some recipes) :
    (randomRecipesLoader fetch).completionHandler self reply =
      some ⟨self.loadRandomRecipes fetch (recipes.map RecipeEntry.ofAny),
        some ⟨⟩⟩ := by
  refine (completion_of_entries delivers (congrArg some found)).trans ?_
  rw [appendSamples_eq]
  rfl

end ViewController

namespace SearchResultsViewController

/-- The loop of `loadSearchResults` over the array `results`. -/
def appendEntries (fetch : String → Option UIImage)
    (self : SearchResultsViewController) (recipes : List AnyJson) :
    Option SearchResultsViewController :=
  recipes.foldlM
    (fun self item => do
      match ← recipeCard fetch item with
      | none => some self
      | some (card, imageURL) =>
          some { self with
            returnedRecipes := self.returnedRecipes ++ [card]
            urlArray := self.urlArray ++ [imageURL] })
    self

/-- The block shows the first recipe. -/
def searchResultsLoader (fetch : String → Option UIImage) :
    Loader SearchResultsViewController PUnit where
  completionHandler self reply :=
    completion self reply (fun body => some (entriesOf "results" body))
      fun recipes => do
        let self ← self.appendEntries fetch recipes
        some ⟨self, some ⟨⟩⟩
  mainBlock _ self := self.highlight 0

theorem appendEntries_eq (fetch : String → Option UIImage)
    (self : SearchResultsViewController) (recipes : List AnyJson) :
    self.appendEntries fetch recipes =
      some (self.appendResults fetch (recipes.map RecipeEntry.ofAny)) := by
  rw [appendEntries, appendResults, List.foldl_map]
  apply SwiftArray.foldlM_of_total
  intro self item
  rw [recipeCard_eq]
  cases decodeRecipe fetch (RecipeEntry.ofAny item) with
  | none => simp
  | some built => simp

section Handled

variable {fetch : String → Option UIImage} {reply : Reply} {body : Body}
variable {recipes : List AnyJson}

theorem completionHandler_of_entries (self : SearchResultsViewController)
    (delivers : reply.Delivers body)
    (found : entriesOf "results" body = some recipes) :
    (searchResultsLoader fetch).completionHandler self reply =
      some ⟨self.appendResults fetch (recipes.map RecipeEntry.ofAny),
        some ⟨⟩⟩ := by
  refine (completion_of_entries delivers (congrArg some found)).trans ?_
  rw [appendEntries_eq]
  rfl

/-- A reply with entries does what `loadSearchResults` says about their
casts. -/
theorem handle_of_entries (self : SearchResultsViewController)
    (delivers : reply.Delivers body)
    (found : entriesOf "results" body = some recipes) :
    (searchResultsLoader fetch).handle self reply =
      self.loadSearchResults fetch (recipes.map RecipeEntry.ofAny) := by
  rw [Loader.handle, completionHandler_of_entries self delivers found]
  rfl

end Handled

end SearchResultsViewController

end PocketChef
