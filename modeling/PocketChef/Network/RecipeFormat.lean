import PocketChef.Network.RecipeLoaders

/-!
# The format of recipes

What the service sends for a recipe, read off an element by its shape alone:
an object with an integer id, a string title and a string image, whose dish
types count only when they are a non-empty array of strings.

Both loaders append a card for each element of this format, in order, and
pass over every other element.
-/

namespace PocketChef

/-- A recipe of the format. -/
structure FormatRecipe where
  id : Int
  title : String
  imageURL : String
  type : String
  deriving DecidableEq

/-- The card that shows the recipe: the picture of its URL, or the app's own
where that cannot be fetched. -/
def FormatRecipe.card (fetch : String → Option UIImage)
    (recipe : FormatRecipe) : RecipeCard where
  id := recipe.id
  title := recipe.title
  image := (fetch recipe.imageURL).getD (.imageLiteral "PocketChef")
  type := recipe.type

namespace RecipeFormat

def IsString : AnyJson → Prop
  | .string _ => True
  | _ => False

instance : DecidablePred IsString
  | .null | .number _ | .array _ | .object _ => .isFalse id
  | .string _ => .isTrue trivial

/-- The first dish type, or the empty string where the dish types are no
non-empty array of strings. -/
def typeIn (members : List (String × AnyJson)) : String :=
  match Json.member members "dishTypes" with
  | some (.array (.string first :: others)) =>
      if ∀ other ∈ others, IsString other then first else ""
  | _ => ""

/-- The recipe that an element of the format describes. -/
def recipeIn : AnyJson → Option FormatRecipe
  | .object members =>
      match Json.member members "id", Json.member members "title",
        Json.member members "image" with
      | some (.number number), some (.string title),
        some (.string imageURL) =>
          number.asInt.map fun id =>
            { id := id, title := title, imageURL := imageURL
              type := typeIn members }
      | _, _, _ => none
  | _ => none

/-- The recipes of an array, in order. -/
def recipesIn (elements : List AnyJson) : List FormatRecipe :=
  elements.filterMap recipeIn

/-! ## The decoder follows the format -/

theorem isSome_mapM_asString_iff (items : List AnyJson) :
    (items.mapM Json.asString).isSome = true ↔
      ∀ item ∈ items, IsString item := by
  induction items with
  | nil =>
      simp
  | cons head tail inductionHypothesis =>
      rw [List.mapM_cons, List.forall_mem_cons, ← inductionHypothesis]
      cases head with
      | string text =>
          cases tail.mapM Json.asString <;> simp [Json.asString, IsString]
      | _ => simp [Json.asString, IsString]

theorem typeIn_eq (members : List (String × AnyJson)) :
    typeIn members =
      match AnyJson.field Json.asStrings members "dishTypes" with
      | some (type :: _) => type
      | _ => "" := by
  unfold typeIn AnyJson.field
  cases Json.member members "dishTypes" with
  | none => rfl
  | some value =>
      cases value with
      | array items =>
          cases items with
          | nil => rfl
          | cons head tail =>
              cases head with
              | string first =>
                  have strings := isSome_mapM_asString_iff tail
                  cases casts : tail.mapM Json.asString with
                  | none =>
                      rw [casts] at strings
                      simp [← strings, Json.asStrings, Json.asArray,
                        Json.asString, casts]
                  | some others =>
                      rw [casts] at strings
                      simp [← strings, Json.asStrings, Json.asArray,
                        Json.asString, casts]
              | _ => simp [Json.asStrings, Json.asArray, Json.asString]
      | _ => rfl

/-- The shape of an object decides what the three casts of the guard do. -/
theorem recipeIn_object (members : List (String × AnyJson)) :
    recipeIn (.object members) =
      (AnyJson.field AnyJson.asInt members "id").bind fun id =>
        (AnyJson.field Json.asString members "title").bind fun title =>
          (AnyJson.field Json.asString members "image").map fun imageURL =>
            { id := id, title := title, imageURL := imageURL
              type := typeIn members } := by
  simp only [recipeIn, AnyJson.field, AnyJson.asInt]
  rcases Json.member members "id" with _ | idValue
  · rfl
  cases idValue with
  | number number =>
      rcases Json.member members "title" with _ | titleValue
      · simp
      cases titleValue with
      | string title =>
          rcases Json.member members "image" with _ | imageValue
          · simp
          cases imageValue with
          | string imageURL => exact Option.map_eq_bind
          | _ => simp [Json.asString]
      | _ => simp [Json.asString]
  | _ => rfl

/-- An iteration appends the card of the recipe that the format sees in its
element. -/
theorem decodeRecipe_eq (fetch : String → Option UIImage) (item : AnyJson) :
    decodeRecipe fetch (RecipeEntry.ofAny item) =
      (recipeIn item).map fun recipe =>
        (recipe.card fetch, recipe.imageURL) := by
  cases item with
  | object members =>
      rw [recipeIn_object, typeIn_eq]
      simp only [decodeRecipe, RecipeEntry.ofAny, Json.asObject]
      cases AnyJson.field AnyJson.asInt members "id" with
      | none => rfl
      | some id =>
          cases AnyJson.field Json.asString members "title" with
          | none => rfl
          | some title =>
              cases AnyJson.field Json.asString members "image" with
              | none => rfl
              | some imageURL =>
                  cases AnyJson.field Json.asStrings members "dishTypes" with
                  | none => rfl
                  | some types => cases types <;> rfl
  | _ => rfl

theorem cardsOf_eq (fetch : String → Option UIImage)
    (elements : List AnyJson) :
    cardsOf fetch elements =
      (recipesIn elements).map fun recipe =>
        (recipe.card fetch, recipe.imageURL) := by
  rw [cardsOf, builtFrom, List.filterMap_map, recipesIn,
    List.map_filterMap]
  apply List.filterMap_congr
  intro item _
  exact decodeRecipe_eq fetch item

theorem entriesOf_eq {name : String} {members : List (String × AnyJson)}
    {elements : List AnyJson}
    (present : Json.member members name = some (.array elements)) :
    entriesOf name (.ok (.object members)) = some elements := by
  simp only [entriesOf, Json.asObject, AnyJson.field, present]
  rfl

/-- For the same elements both loaders append the cards of the recipes that
the format sees, in order, and the search also their URLs. -/
theorem loaders_follow_format (fetch : String → Option UIImage)
    (elements : List AnyJson)
    (samples : ViewController) (search : SearchResultsViewController)
    {sampleReply searchReply : Reply}
    {sampleMembers searchMembers : List (String × AnyJson)}
    (sampleDelivers : sampleReply.Delivers (.ok (.object sampleMembers)))
    (sampleArray :
      Json.member sampleMembers "recipes" = some (.array elements))
    (searchDelivers : searchReply.Delivers (.ok (.object searchMembers)))
    (searchArray :
      Json.member searchMembers "results" = some (.array elements)) :
    (∃ handled ∈
        (ViewController.randomRecipesLoader fetch).completionHandler
          samples sampleReply,
      handled.screen.sampleRecipes =
        samples.sampleRecipes ++
          (recipesIn elements).map (FormatRecipe.card fetch)) ∧
      ∃ handled ∈
        (SearchResultsViewController.searchResultsLoader
            fetch).completionHandler search searchReply,
        handled.screen.returnedRecipes =
            search.returnedRecipes ++
              (recipesIn elements).map (FormatRecipe.card fetch) ∧
          handled.screen.urlArray =
            search.urlArray ++
              (recipesIn elements).map FormatRecipe.imageURL := by
  have cards :
      (cardsOf fetch elements).map Prod.fst =
        (recipesIn elements).map (FormatRecipe.card fetch) := by
    rw [cardsOf_eq, List.map_map]
    rfl
  have urls :
      (cardsOf fetch elements).map Prod.snd =
        (recipesIn elements).map FormatRecipe.imageURL := by
    rw [cardsOf_eq, List.map_map]
    rfl
  constructor
  · refine ⟨_, ViewController.completionHandler_of_entries samples
      sampleDelivers (entriesOf_eq sampleArray), ?_⟩
    rw [loadRandomRecipes_eq, ← cards]
    rfl
  · refine ⟨_, SearchResultsViewController.completionHandler_of_entries
      search searchDelivers (entriesOf_eq searchArray), ?_⟩
    rw [appendResults_eq, ← cards, ← urls]
    exact ⟨rfl, rfl⟩

/-- One complete recipe, one without a title, and one whose dish types are
not all strings. -/
def menu : List AnyJson :=
  [.object [("id", .number { asInt := some 7 }),
      ("title", .string "Pancakes"), ("image", .string "pancakes.png"),
      ("dishTypes", .array [.string "breakfast", .string "dessert"])],
    .object [("id", .number { asInt := some 8 }),
      ("image", .string "soup.png")],
    .object [("id", .number { asInt := some 9 }),
      ("title", .string "Stew"), ("image", .string "stew.png"),
      ("dishTypes", .array [.string "dinner", .null])]]

def menuReply (name : String) : Reply where
  data := some (.ok (.object [(name, .array menu)]))
  statusCode := some 200

theorem menuReply_delivers (name : String) :
    (menuReply name).Delivers (.ok (.object [(name, .array menu)])) :=
  ⟨rfl, rfl, rfl⟩

/-- Only one picture can be fetched. -/
def pancakesPicture (url : String) : Option UIImage :=
  if url = "pancakes.png" then some (.data [1]) else none

/-- The cards of the two elements of the format. -/
def menuCards : List RecipeCard :=
  [{ id := 7, title := "Pancakes", image := .data [1], type := "breakfast" },
    { id := 9, title := "Stew", image := .imageLiteral "PocketChef"
      type := "" }]

theorem loaders_follow_format_menu :
    (∃ handled ∈
        (ViewController.randomRecipesLoader
          pancakesPicture).completionHandler {} (menuReply "recipes"),
        handled.screen.sampleRecipes = menuCards) ∧
      ∃ handled ∈
        (SearchResultsViewController.searchResultsLoader
          pancakesPicture).completionHandler {} (menuReply "results"),
        handled.screen.returnedRecipes = menuCards ∧
          handled.screen.urlArray = ["pancakes.png", "stew.png"] := by
  have agree := loaders_follow_format pancakesPicture menu {} {}
    (menuReply_delivers "recipes") rfl (menuReply_delivers "results") rfl
  have cards :
      (recipesIn menu).map (FormatRecipe.card pancakesPicture) =
        menuCards := by
    decide
  rw [cards] at agree
  rcases agree.2 with ⟨handled, finished, listed, urls⟩
  exact ⟨agree.1, handled, finished, listed, urls⟩

end RecipeFormat
end PocketChef
