import PocketChef.Network.IngredientLoaders
import PocketChef.Network.InstructionTableViewController
import PocketChef.Network.RecipeLoaders

/-!
# Which replies trap a loader

Three of the five loaders return on every reply.  `loadSearchResults` shows
`returnedRecipes[0]` after any body that does not make its handler return, and
`loadInstructions` reads `json[0]` of any top-level array.
-/

namespace PocketChef

open SearchResultsViewController

/-- The block may run in any state. -/
def anyState {Screen : Type} (_handled _reached : Screen) : Prop :=
  True

/-- Until the block runs, recipes are only appended. -/
def Grown (handled reached : SearchResultsViewController) : Prop :=
  handled.returnedRecipes <+: reached.returnedRecipes

/-- The body does not make the search handler return, and it has no recipe
that can be read: data that is not JSON, a top-level value that is no object,
or a `results` array without a well-formed element. -/
def BareResults : Body → Prop
  | .error _ => True
  | .ok (.object members) =>
      ∃ recipes ∈ AnyJson.field Json.asArray members "results",
        ∀ item ∈ recipes, ¬ WellFormedRecipe item
  | .ok _ => True

theorem bareResults_iff (body : Body) :
    BareResults body ↔
      ∃ recipes, entriesOf "results" body = some recipes ∧
        ∀ item ∈ recipes, ¬ WellFormedRecipe item := by
  have nothing :
      ∃ recipes : List AnyJson, some [] = some recipes ∧
        ∀ item ∈ recipes, ¬ WellFormedRecipe item :=
    ⟨[], rfl, fun item absent => nomatch absent⟩
  cases body with
  | error message => exact iff_of_true trivial nothing
  | ok json =>
      cases json with
      | object members => exact Iff.rfl
      | null => exact iff_of_true trivial nothing
      | number value => exact iff_of_true trivial nothing
      | string text => exact iff_of_true trivial nothing
      | array items => exact iff_of_true trivial nothing

/-- The screen has a recipe already, or the body does not leave it without
one. -/
def HasRecipe (screen : SearchResultsViewController) (reply : Reply) : Prop :=
  ∀ body, reply.Delivers body →
    screen.returnedRecipes ≠ [] ∨ ¬ BareResults body

section Returns

variable (fetch : String → Option UIImage) (reply : Reply)

theorem randomRecipesLoader_returns (screen : ViewController) :
    (ViewController.randomRecipesLoader fetch).Returns anyState screen
      reply := by
  rw [Loader.returns_iff rfl]
  intro body _
  refine ⟨_, rfl, fun recipes _ => ?_⟩
  rw [ViewController.appendSamples_eq]
  exact ⟨_, rfl, fun captured _ reached _ => ⟨reached, rfl⟩⟩

theorem ingredientsLoader_returns (screen : IngredientsViewController) :
    IngredientsViewController.ingredientsLoader.Returns anyState screen
      reply := by
  rw [Loader.returns_iff rfl]
  intro body _
  exact ⟨_, rfl, fun ingredients _ =>
    ⟨_, rfl, fun captured _ reached _ => ⟨reached, rfl⟩⟩⟩

theorem nutritionLoader_returns (labels : NutritionLabels) :
    NutritionLabels.nutritionLoader.Returns anyState labels reply := by
  rw [Loader.returns_iff rfl]
  intro body _
  exact ⟨_, rfl, fun nutrition _ =>
    ⟨_, rfl, fun captured _ reached _ => ⟨captured.labels, rfl⟩⟩⟩

/-- `returnedRecipes[0]` returns in all later states when it returns in the
state that the handler leaves. -/
theorem highlight_returns_iff (screen : SearchResultsViewController) :
    (∀ reached, Grown screen reached →
        ∃ next, reached.highlight 0 = some next) ↔
      screen.returnedRecipes ≠ [] := by
  constructor
  · intro returns empty
    rcases returns screen (List.prefix_refl _) with ⟨next, shown⟩
    rw [highlight, empty] at shown
    cases shown
  · intro nonempty reached grown
    have still : reached.returnedRecipes ≠ [] := by
      intro empty
      rw [Grown, empty] at grown
      exact nonempty (List.prefix_nil.mp grown)
    rcases List.exists_cons_of_ne_nil still with ⟨card, others, listed⟩
    exact ⟨_, highlight_of_cons listed⟩

theorem searchResultsLoader_returns_iff
    (screen : SearchResultsViewController) :
    (searchResultsLoader fetch).Returns Grown screen reply ↔
      HasRecipe screen reply := by
  rw [Loader.returns_iff rfl]
  refine forall_congr' fun body => forall_congr' fun _ => ?_
  rw [bareResults_iff]
  cases found : entriesOf "results" body with
  | none => simp
  | some recipes =>
      have block :
          (∀ reached,
              Grown (screen.appendResults fetch
                (recipes.map RecipeEntry.ofAny)) reached →
              ∃ next, reached.highlight 0 = some next) ↔
            screen.returnedRecipes ≠ [] ∨ cardsOf fetch recipes ≠ [] := by
        rw [highlight_returns_iff, appendResults_eq]
        simp [cardsOf, Classical.or_iff_not_imp_left]
      rw [ne_eq (cardsOf fetch recipes), cardsOf_eq_nil_iff] at block
      simp only [appendEntries_eq, Option.bind_eq_bind, Option.bind_some]
      simpa [searchResultsLoader] using block

theorem instructionsLoader_returns_iff
    (screen : InstructionTableViewController) :
    InstructionTableViewController.instructionsLoader.Returns anyState screen
        reply ↔
      ¬ reply.Delivers (.ok (.array [])) := by
  rw [Loader.returns_iff rfl]
  have block (reached : InstructionTableViewController) :
      reached.keepInstructions.result = some reached := by
    rw [InstructionTableViewController.keepInstructions_eq]
  constructor
  · intro returns empty
    rcases returns _ empty with ⟨found, read, _⟩
    cases read
  · intro nonempty body delivers
    have read : InstructionTableViewController.readSteps body ≠ none := by
      intro trapped
      rw [InstructionTableViewController.readSteps_eq_none_iff] at trapped
      exact nonempty (trapped ▸ delivers)
    rcases Option.ne_none_iff_exists'.mp read with ⟨found, read⟩
    exact ⟨found, read, fun steps _ =>
      ⟨_, rfl, fun captured _ reached _ => ⟨reached, block reached⟩⟩⟩

end Returns

/-- On no reply does a loader of samples, ingredients or nutrition trap; the
search loader traps exactly where it is left without a recipe to show, and the
instructions loader exactly on an empty top-level array. -/
theorem loaders_return_iff (fetch : String → Option UIImage)
    (home : ViewController) (results : SearchResultsViewController)
    (ingredients : IngredientsViewController) (labels : NutritionLabels)
    (instructions : InstructionTableViewController) (reply : Reply) :
    (ViewController.randomRecipesLoader fetch).Returns anyState home reply ∧
      ((searchResultsLoader fetch).Returns Grown results reply ↔
        HasRecipe results reply) ∧
      IngredientsViewController.ingredientsLoader.Returns anyState
        ingredients reply ∧
      NutritionLabels.nutritionLoader.Returns anyState labels reply ∧
      (InstructionTableViewController.instructionsLoader.Returns anyState
          instructions reply ↔
        ¬ reply.Delivers (.ok (.array []))) :=
  ⟨randomRecipesLoader_returns fetch reply home,
    searchResultsLoader_returns_iff fetch reply results,
    ingredientsLoader_returns reply ingredients,
    nutritionLoader_returns reply labels,
    instructionsLoader_returns_iff reply instructions⟩

/-- The reply to a search that finds nothing. -/
def noResults : Reply where
  data := some (.ok (.object [("results", .array [])]))
  statusCode := some 200

/-- The reply for a recipe without instructions. -/
def noInstructions : Reply where
  data := some (.ok (.array []))
  statusCode := some 200

theorem loaders_trap :
    ¬ (searchResultsLoader fun _ => none).Returns Grown {} noResults ∧
      ¬ InstructionTableViewController.instructionsLoader.Returns anyState {}
        noInstructions := by
  constructor
  · rw [searchResultsLoader_returns_iff]
    intro hasRecipe
    have bare : BareResults (.ok (.object [("results", .array [])])) :=
      ⟨[], rfl, fun item absent => nomatch absent⟩
    rcases hasRecipe _ ⟨rfl, rfl, rfl⟩ with listed | full
    · exact listed rfl
    · exact full bare
  · rw [instructionsLoader_returns_iff]
    exact not_not_intro ⟨rfl, rfl, rfl⟩

end PocketChef
