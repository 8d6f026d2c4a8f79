import PocketChef.Library.Decimal
import PocketChef.Library.SwiftArray
import PocketChef.Recipes.RecipeDetailViewController

/-!
# The three screens that list recipes

`ViewController` shows sample recipes, `SearchResultsViewController` the
results of a search and `FavRecipesCollectionViewController` the favourites.
Each fills its arrays from a source, notes the tapped item and hands a recipe
over to the detail screen, which opens with what `prepare(for:sender:)` sets.

Entries of a response are seen through the casts of the loaders: a field that
is missing or fails its cast is `none`.
-/

namespace PocketChef

open KeyedTree Firebase

/-- An element of the `recipes` or `results` array of a response. -/
structure RecipeEntry where
  id : Option Int := none
  title : Option String := none
  image : Option String := none
  dishTypes : Option (List String) := none
  deriving DecidableEq

/-- The body of the loops of `loadRandomRecipes` and `loadSearchResults`: the
card of an entry with its image URL, or `none` where the loop continues. -/
def decodeRecipe (fetch : String → Option UIImage) (recipe : RecipeEntry) :
    Option (RecipeCard × String) := do
  let id ← recipe.id
  let title ← recipe.title
  let imageURL ← recipe.image
  match recipe.dishTypes with
  | some (type :: _) => some (.init fetch id title imageURL type, imageURL)
  | _ => some (.init fetch id title imageURL "", imageURL)

/-! ## The sample recipes -/

structure ViewController where
  sampleRecipes : List RecipeCard := []
  selectedIndex : Nat := 0
  deriving DecidableEq

namespace ViewController

/-- The loop of `loadRandomRecipes`. -/
def loadRandomRecipes (fetch : String → Option UIImage)
    (self : ViewController) (recipes : List RecipeEntry) : ViewController :=
  recipes.foldl
    (fun self recipe =>
      match decodeRecipe fetch recipe with
      | none => self
      | some (card, _) =>
          { self with sampleRecipes := self.sampleRecipes ++ [card] })
    self

/-- The segue is performed at once. -/
def didSelectItemAt (self : ViewController) (item : Nat) : ViewController :=
  { self with selectedIndex := item }

/-- The detail screen that the segue opens; `photoURL` is not set. -/
def prepare (self : ViewController) : Option RecipeDetailViewController := do
  let card ← SwiftArray.get self.sampleRecipes self.selectedIndex
  some { displayingRecipe := card }

end ViewController

/-! ## The results of a search -/

structure SearchResultsViewController where
  returnedRecipes : List RecipeCard := []
  urlArray : List String := []
  selectedIndex : Nat := 0
  largePhoto : Option UIImage := none
  highlightName : String := "Label"
  dishTypeLabel : String := "Label"
  deriving DecidableEq

namespace SearchResultsViewController

/-- The large picture and both labels show the recipe at `item`. -/
def highlight (self : SearchResultsViewController) (item : Nat) :
    Option SearchResultsViewController := do
  let card ← SwiftArray.get self.returnedRecipes item
  some { self with
    largePhoto := some card.image
    highlightName := card.title
    dishTypeLabel := card.type }

theorem highlight_of_cons {self : SearchResultsViewController}
    {card : RecipeCard} {others : List RecipeCard}
    (listed : self.returnedRecipes = card :: others) :
    self.highlight 0 =
      some { self with
        largePhoto := some card.image
        highlightName := card.title
        dishTypeLabel := card.type } := by
  rw [highlight, listed]
  rfl

/-- Highlighting a recipe changes what is shown, not what is listed. -/
theorem highlight_arrays {self next : SearchResultsViewController}
    {item : Nat} (shown : self.highlight item = some next) :
    next.returnedRecipes = self.returnedRecipes ∧
      next.urlArray = self.urlArray ∧
      next.selectedIndex = self.selectedIndex := by
  rcases Option.bind_eq_some_iff.mp shown with ⟨card, _, same⟩
  cases same
  exact ⟨rfl, rfl, rfl⟩

/-- The loop of `loadSearchResults`. -/
def appendResults (fetch : String → Option UIImage)
    (self : SearchResultsViewController) (recipes : List RecipeEntry) :
    SearchResultsViewController :=
  recipes.foldl
    (fun self recipe =>
      match decodeRecipe fetch recipe with
      | none => self
      | some (card, imageURL) =>
          { self with
            returnedRecipes := self.returnedRecipes ++ [card]
            urlArray := self.urlArray ++ [imageURL] })
    self

/-- The completion handler of `loadSearchResults` with its block on the main
queue, which highlights the first recipe. -/
def loadSearchResults (fetch : String → Option UIImage)
    (self : SearchResultsViewController) (recipes : List RecipeEntry) :
    Option SearchResultsViewController :=
  (self.appendResults fetch recipes).highlight 0

def didSelectItemAt (self : SearchResultsViewController) (item : Nat) :
    Option SearchResultsViewController := do
  let shown ← self.highlight item
  some { shown with selectedIndex := item }

/-- The large picture performs the segue. -/
def prepare (self : SearchResultsViewController) :
    Option RecipeDetailViewController := do
  let card ← SwiftArray.get self.returnedRecipes self.selectedIndex
  let url ← SwiftArray.get self.urlArray self.selectedIndex
  some { displayingRecipe := card, photoURL := url }

end SearchResultsViewController

/-! ## The favourites -/

structure FavRecipesCollectionViewController where
  favRecipes : List RecipeCard := []
  urlArray : List String := []
  selectedIndex : Nat := 0
  currentUid : String := ""
  deriving DecidableEq

namespace FavRecipesCollectionViewController

/-- What the `getData` of `loadFavRecipes` reads at
`FavRecipes/<currentUid>`, unless `child:` raises. -/
def getData (self : FavRecipesCollectionViewController)
    (database : Database) : Option DataSnapshot := do
  let favourites ← Except.toOption <|
    reference.child ("FavRecipes" ++ "/" ++ self.currentUid)
  some ⟨database, favourites.path⟩

/-- `Int(item.key)`, which fails outside 64 bits. -/
def intOfKey (key : String) : Option Int := do
  let value ← Decimal.parse key
  if -2 ^ 63 ≤ value ∧ value < 2 ^ 63 then some value else none

/-- The body of the loop of `loadFavRecipes`. -/
def decodeFavourite (fetch : String → Option UIImage)
    (item : String × DataSnapshot) : Option (RecipeCard × String) := do
  let key ← intOfKey item.1
  let name ← (← item.2.field "name").asString
  let type ← (← item.2.field "type").asString
  let url ← (← item.2.field "imageURL").asString
  some (.init fetch key name url type, url)

/-- The loop of `loadFavRecipes`. -/
def appendFavourites (fetch : String → Option UIImage)
    (self : FavRecipesCollectionViewController)
    (children : List (String × DataSnapshot)) :
    FavRecipesCollectionViewController :=
  children.foldl
    (fun self item =>
      match decodeFavourite fetch item with
      | none => self
      | some (card, url) =>
          { self with
            favRecipes := self.favRecipes ++ [card]
            urlArray := self.urlArray ++ [url] })
    self

/-- The completion block of `loadFavRecipes`. -/
def loadFavRecipes (fetch : String → Option UIImage)
    (self : FavRecipesCollectionViewController)
    (response : Except String DataSnapshot) :
    FavRecipesCollectionViewController :=
  match response with
  | .error _ => self
  | .ok snapshot =>
      if snapshot.exists? then
        self.appendFavourites fetch snapshot.children
      else
        self

/-- The segue is performed at once; the item is not noted. -/
def didSelectItemAt (self : FavRecipesCollectionViewController)
    (_item : Nat) : FavRecipesCollectionViewController :=
  self

def prepare (self : FavRecipesCollectionViewController) :
    Option RecipeDetailViewController := do
  let card ← SwiftArray.get self.favRecipes self.selectedIndex
  let url ← SwiftArray.get self.urlArray self.selectedIndex
  some { displayingRecipe := card, photoURL := url }

end FavRecipesCollectionViewController

/-! ## What the loops add -/

section Loops

variable (fetch : String → Option UIImage)

/-- The cards of a response, each with the URL it was built from. -/
def builtFrom (recipes : List RecipeEntry) : List (RecipeCard × String) :=
  recipes.filterMap (decodeRecipe fetch)

/-- The cards of a snapshot, each with the URL it was built from. -/
def favouritesFrom (response : Except String DataSnapshot) :
    List (RecipeCard × String) :=
  match response with
  | .error _ => []
  | .ok snapshot =>
      if snapshot.exists? then
        snapshot.children.filterMap
          (FavRecipesCollectionViewController.decodeFavourite fetch)
      else
        []

theorem loadRandomRecipes_eq (self : ViewController)
    (recipes : List RecipeEntry) :
    self.loadRandomRecipes fetch recipes =
      { self with
        sampleRecipes :=
          self.sampleRecipes ++ (builtFrom fetch recipes).map Prod.fst } := by
  apply SwiftArray.foldl_append_decoded (decodeRecipe fetch)
    fun (self : ViewController) cards =>
      { self with
        sampleRecipes := self.sampleRecipes ++ cards.map Prod.fst }
  · intro self
    simp
  · intro self recipe cards
    cases decodeRecipe fetch recipe with
    | none => simp
    | some built => simp

theorem appendResults_eq (self : SearchResultsViewController)
    (recipes : List RecipeEntry) :
    self.appendResults fetch recipes =
      { self with
        returnedRecipes :=
          self.returnedRecipes ++ (builtFrom fetch recipes).map Prod.fst
        urlArray :=
          self.urlArray ++ (builtFrom fetch recipes).map Prod.snd } := by
  apply SwiftArray.foldl_append_decoded (decodeRecipe fetch)
    fun (self : SearchResultsViewController) cards =>
      { self with
        returnedRecipes := self.returnedRecipes ++ cards.map Prod.fst
        urlArray := self.urlArray ++ cards.map Prod.snd }
  · intro self
    simp
  · intro self recipe cards
    cases decodeRecipe fetch recipe with
    | none => simp
    | some built => simp

theorem appendFavourites_eq (self : FavRecipesCollectionViewController)
    (children : List (String × DataSnapshot)) :
    self.appendFavourites fetch children =
      let cards := children.filterMap
        (FavRecipesCollectionViewController.decodeFavourite fetch)
      { self with
        favRecipes := self.favRecipes ++ cards.map Prod.fst
        urlArray := self.urlArray ++ cards.map Prod.snd } := by
  apply SwiftArray.foldl_append_decoded
    (FavRecipesCollectionViewController.decodeFavourite fetch)
    fun (self : FavRecipesCollectionViewController) cards =>
      { self with
        favRecipes := self.favRecipes ++ cards.map Prod.fst
        urlArray := self.urlArray ++ cards.map Prod.snd }
  · intro self
    simp
  · intro self item cards
    cases FavRecipesCollectionViewController.decodeFavourite fetch item with
    | none => simp
    | some built => simp

theorem loadFavRecipes_eq (self : FavRecipesCollectionViewController)
    (response : Except String DataSnapshot) :
    self.loadFavRecipes fetch response =
      { self with
        favRecipes :=
          self.favRecipes ++ (favouritesFrom fetch response).map Prod.fst
        urlArray :=
          self.urlArray ++ (favouritesFrom fetch response).map Prod.snd } := by
  unfold FavRecipesCollectionViewController.loadFavRecipes favouritesFrom
  cases response with
  | error message =>
      simp
  | ok snapshot =>
      by_cases present : snapshot.exists? = true
      · simp only [present, if_true]
        exact appendFavourites_eq fetch self snapshot.children
      · simp [present]

end Loops

end PocketChef
