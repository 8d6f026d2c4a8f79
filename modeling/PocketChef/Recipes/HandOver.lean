import PocketChef.Library.Reactive
import PocketChef.Recipes.Favourites
import PocketChef.Recipes.ListScreens

/-!
# The recipe that opens

A list screen should open the recipe that was tapped last, with the image URL
its card was built from.  The search results do.  The sample recipes open the
right card without a URL, and the favourites always open their first entry.
-/

namespace PocketChef

open Reactive Firebase RecipeDetailViewController

/-- What the three list screens have in common: they load, note taps and hand
a recipe over.  `built` is the list of cards that a source gives, each with
the URL it was built from. -/
structure ListScreen (Screen Source : Type) where
  fresh : Screen
  load : Screen → Source → Option Screen
  didSelectItemAt : Screen → Nat → Option Screen
  prepare : Screen → Option RecipeDetailViewController
  built : Source → List (RecipeCard × String)

namespace ListScreen

inductive Event (Source : Type) where
  | load (source : Source)
  | didSelectItemAt (item : Nat)

/-- A screen with everything it has loaded and the item tapped last. -/
structure Use (Screen : Type) where
  screen : Screen
  built : List (RecipeCard × String)
  tapped : Option Nat
  deriving DecidableEq

variable {Screen Source : Type} (kind : ListScreen Screen Source)

def start : Use Screen where
  screen := kind.fresh
  built := []
  tapped := none

/-- Sources arrive at any time, and any item of the list can be tapped. -/
def machine : Machine (Use Screen) (Event Source) where
  enabled
    | _, .load _ => True
    | use, .didSelectItemAt item => item < use.built.length
  step
    | use, .load source =>
        (kind.load use.screen source).map fun screen =>
          { use with screen := screen, built := use.built ++ kind.built source }
    | use, .didSelectItemAt item =>
        (kind.didSelectItemAt use.screen item).map fun screen =>
          { use with screen := screen, tapped := some item }

instance : ∀ use event, Decidable (kind.machine.enabled use event)
  | _, .load _ => inferInstanceAs (Decidable True)
  | use, .didSelectItemAt item =>
      inferInstanceAs (Decidable (item < use.built.length))

/-- The segue opens the card's recipe with the URL. -/
def Opens (screen : Screen) (card : RecipeCard) (url : String) : Prop :=
  ∃ detail ∈ kind.prepare screen,
    detail.displayingRecipe.SameRecipe card ∧ detail.photoURL = url

instance (screen : Screen) (card : RecipeCard) (url : String) :
    Decidable (kind.Opens screen card url) :=
  inferInstanceAs <| Decidable <| ∃ detail ∈ kind.prepare screen,
    detail.displayingRecipe.SameRecipe card ∧ detail.photoURL = url

/-- A use that a run from a fresh screen reaches, whose last tap was on an
item with this card and URL. -/
def Tapped (use : Use Screen) (card : RecipeCard) (url : String) : Prop :=
  ∃ events item,
    kind.machine.Legal kind.start events ∧
      kind.machine.run kind.start events = some use ∧
      use.tapped = some item ∧ use.built[item]? = some (card, url)

/-- A property that loads and taps keep holds of every use reached. -/
theorem Tapped.invariant {kind : ListScreen Screen Source}
    {use : Use Screen} {card : RecipeCard} {url : String}
    {invariant : Use Screen → Prop}
    (start : invariant kind.start)
    (loads :
      ∀ use source screen, invariant use →
        kind.load use.screen source = some screen →
          invariant { use with
            screen := screen, built := use.built ++ kind.built source })
    (taps :
      ∀ use item screen, invariant use → item < use.built.length →
        kind.didSelectItemAt use.screen item = some screen →
          invariant { use with screen := screen, tapped := some item })
    (tapped : kind.Tapped use card url) : invariant use := by
  rcases tapped with ⟨events, item, legal, arrived, _⟩
  refine Machine.invariant_of_run ?_ start legal arrived
  intro before event after holds enabled handled
  cases event with
  | load source =>
      rcases Option.map_eq_some_iff.mp handled with ⟨screen, loaded, rfl⟩
      exact loads before source screen holds loaded
  | didSelectItemAt item =>
      rcases Option.map_eq_some_iff.mp handled with ⟨screen, noted, rfl⟩
      exact taps before item screen holds enabled noted

end ListScreen

/-! ## The three screens -/

section Screens

variable (fetch : String → Option UIImage)

def sampleScreen : ListScreen ViewController (List RecipeEntry) where
  fresh := {}
  load screen recipes := some (screen.loadRandomRecipes fetch recipes)
  didSelectItemAt screen item := some (screen.didSelectItemAt item)
  prepare := ViewController.prepare
  built := builtFrom fetch

def searchScreen :
    ListScreen SearchResultsViewController (List RecipeEntry) where
  fresh := {}
  load := SearchResultsViewController.loadSearchResults fetch
  didSelectItemAt := SearchResultsViewController.didSelectItemAt
  prepare := SearchResultsViewController.prepare
  built := builtFrom fetch

def favouriteScreen :
    ListScreen FavRecipesCollectionViewController
      (Except String DataSnapshot) where
  fresh := {}
  load screen response := some (screen.loadFavRecipes fetch response)
  didSelectItemAt screen item := some (screen.didSelectItemAt item)
  prepare := FavRecipesCollectionViewController.prepare
  built := favouritesFrom fetch

/-- The sample recipes are the cards built, and the selected one was tapped
last. -/
def SampleReady (use : ListScreen.Use ViewController) : Prop :=
  use.screen.sampleRecipes = use.built.map Prod.fst ∧
    ∀ item ∈ use.tapped, use.screen.selectedIndex = item

theorem sampleReady {use : ListScreen.Use ViewController}
    {card : RecipeCard} {url : String}
    (tapped : (sampleScreen fetch).Tapped use card url) :
    SampleReady use := by
  apply ListScreen.Tapped.invariant _ _ _ tapped
  · exact ⟨rfl, fun _ none => nomatch none⟩
  · intro before recipes screen ready loaded
    cases loaded
    rw [SampleReady, loadRandomRecipes_eq]
    refine ⟨?_, ready.2⟩
    rw [List.map_append, ← ready.1]
    rfl
  · intro before item screen ready _ noted
    cases noted
    refine ⟨ready.1, ?_⟩
    intro last same
    exact Option.some.inj same

theorem sample_opens_iff {use : ListScreen.Use ViewController}
    {card : RecipeCard} {url : String}
    (tapped : (sampleScreen fetch).Tapped use card url) :
    (sampleScreen fetch).Opens use.screen card url ↔ url = "" := by
  have ready := sampleReady fetch tapped
  rcases tapped with ⟨_, item, _, _, last, found⟩
  have selected := ready.2 item last
  have opened :
      use.screen.prepare = some { displayingRecipe := card } := by
    rw [ViewController.prepare, ready.1, selected, SwiftArray.get_natCast,
      List.getElem?_map, found]
    rfl
  constructor
  · intro opens
    rcases opens with ⟨detail, passed, _, sameURL⟩
    cases opened.symm.trans passed
    exact sameURL.symm
  · intro empty
    exact ⟨_, opened, ⟨rfl, rfl, rfl⟩, empty.symm⟩

/-- The two arrays of the search screen are the cards built and their URLs,
and the selected one was tapped last. -/
def SearchReady (use : ListScreen.Use SearchResultsViewController) : Prop :=
  use.screen.returnedRecipes = use.built.map Prod.fst ∧
    use.screen.urlArray = use.built.map Prod.snd ∧
    ∀ item ∈ use.tapped, use.screen.selectedIndex = item

theorem searchReady {use : ListScreen.Use SearchResultsViewController}
    {card : RecipeCard} {url : String}
    (tapped : (searchScreen fetch).Tapped use card url) :
    SearchReady use := by
  apply ListScreen.Tapped.invariant _ _ _ tapped
  · exact ⟨rfl, rfl, fun _ none => nomatch none⟩
  · intro before recipes screen ready loaded
    have arrays := SearchResultsViewController.highlight_arrays loaded
    rw [appendResults_eq] at arrays
    refine ⟨?_, ?_, ?_⟩
    · rw [List.map_append, ← ready.1]
      exact arrays.1
    · rw [List.map_append, ← ready.2.1]
      exact arrays.2.1
    · intro last noted
      exact arrays.2.2.trans (ready.2.2 last noted)
  · intro before item screen ready _ noted
    rcases Option.bind_eq_some_iff.mp noted with ⟨shown, highlighted, same⟩
    cases same
    have arrays := SearchResultsViewController.highlight_arrays highlighted
    refine ⟨arrays.1.trans ready.1, arrays.2.1.trans ready.2.1, ?_⟩
    intro last sameItem
    exact Option.some.inj sameItem

theorem search_opens {use : ListScreen.Use SearchResultsViewController}
    {card : RecipeCard} {url : String}
    (tapped : (searchScreen fetch).Tapped use card url) :
    (searchScreen fetch).Opens use.screen card url := by
  have ready := searchReady fetch tapped
  rcases tapped with ⟨_, item, _, _, last, found⟩
  have selected := ready.2.2 item last
  have opened :
      use.screen.prepare =
        some { displayingRecipe := card, photoURL := url } := by
    rw [SearchResultsViewController.prepare, ready.1, ready.2.1, selected,
      SwiftArray.get_natCast, SwiftArray.get_natCast, List.getElem?_map,
      List.getElem?_map, found]
    rfl
  exact ⟨_, opened, ⟨rfl, rfl, rfl⟩, rfl⟩

/-- The two arrays of the favourites are the cards built and their URLs, and
nothing is ever selected. -/
def FavouritesReady
    (use : ListScreen.Use FavRecipesCollectionViewController) : Prop :=
  use.screen.favRecipes = use.built.map Prod.fst ∧
    use.screen.urlArray = use.built.map Prod.snd ∧
    use.screen.selectedIndex = 0

theorem favouritesReady
    {use : ListScreen.Use FavRecipesCollectionViewController}
    {card : RecipeCard} {url : String}
    (tapped : (favouriteScreen fetch).Tapped use card url) :
    FavouritesReady use := by
  apply ListScreen.Tapped.invariant _ _ _ tapped
  · exact ⟨rfl, rfl, rfl⟩
  · intro before response screen ready loaded
    cases loaded
    rw [FavouritesReady, loadFavRecipes_eq]
    refine ⟨?_, ?_, ready.2.2⟩
    · rw [List.map_append, ← ready.1]
      rfl
    · rw [List.map_append, ← ready.2.1]
      rfl
  · intro before item screen ready _ noted
    cases noted
    exact ready

theorem favourite_opens_iff
    {use : ListScreen.Use FavRecipesCollectionViewController}
    {card : RecipeCard} {url : String}
    (tapped : (favouriteScreen fetch).Tapped use card url) :
    (favouriteScreen fetch).Opens use.screen card url ↔
      ∃ first ∈ use.built.head?,
        first.1.SameRecipe card ∧ first.2 = url := by
  have ready := favouritesReady fetch tapped
  rcases tapped with ⟨_, item, _, _, _, found⟩
  have nonempty : use.built ≠ [] := by
    intro empty
    rw [empty] at found
    cases found
  rcases List.exists_cons_of_ne_nil nonempty with ⟨first, rest, shape⟩
  have opened :
      use.screen.prepare =
        some { displayingRecipe := first.1, photoURL := first.2 } := by
    rw [FavRecipesCollectionViewController.prepare, ready.1, ready.2.1,
      ready.2.2, shape]
    rfl
  rw [shape]
  constructor
  · intro opens
    rcases opens with ⟨detail, passed, same⟩
    cases opened.symm.trans passed
    exact ⟨first, rfl, same⟩
  · intro alike
    rcases alike with ⟨other, head, same⟩
    cases head
    exact ⟨_, opened, same⟩

/-- The search results always open what was tapped.  The sample recipes do
when the card has the empty URL, and the favourites when their first entry
is the same recipe with the same URL. -/
theorem opens_tapped_iff (card : RecipeCard) (url : String) :
    (∀ use, (sampleScreen fetch).Tapped use card url →
        ((sampleScreen fetch).Opens use.screen card url ↔ url = "")) ∧
      (∀ use, (searchScreen fetch).Tapped use card url →
        (searchScreen fetch).Opens use.screen card url) ∧
      ∀ use, (favouriteScreen fetch).Tapped use card url →
        ((favouriteScreen fetch).Opens use.screen card url ↔
          ∃ first ∈ use.built.head?,
            first.1.SameRecipe card ∧ first.2 = url) :=
  ⟨fun _ => sample_opens_iff fetch, fun _ => search_opens fetch,
    fun _ => favourite_opens_iff fetch⟩

end Screens

section Examples

open ListScreen
open Visit (pancakes soup)

def offline (_url : String) : Option UIImage :=
  none

def pancakesEntry (imageURL : String) : RecipeEntry :=
  { id := some 7, title := some "Pancakes", image := some imageURL,
    dishTypes := some ["breakfast"] }

def soupEntry : RecipeEntry :=
  { id := some 8, title := some "Soup", image := some "soup.png",
    dishTypes := some ["dinner"] }

/-- The sample screen after a tap on its only card. -/
def sampleUse (imageURL : String) : Use ViewController where
  screen := { sampleRecipes := [pancakes], selectedIndex := 0 }
  built := [(pancakes, imageURL)]
  tapped := some 0

theorem sampleUse_tapped (imageURL : String) :
    (sampleScreen offline).Tapped (sampleUse imageURL) pancakes imageURL :=
  ⟨[.load [pancakesEntry imageURL], .didSelectItemAt 0], 0,
    ⟨trivial, fun _ loaded => by
      cases loaded
      exact ⟨Nat.zero_lt_one, fun _ _ => trivial⟩⟩, rfl, rfl, rfl⟩

/-- The search screen after a tap on the second of two results. -/
def searchUse : Use SearchResultsViewController where
  screen :=
    { returnedRecipes := [pancakes, soup]
      urlArray := ["cake.png", "soup.png"]
      selectedIndex := 1
      largePhoto := some soup.image
      highlightName := "Soup"
      dishTypeLabel := "dinner" }
  built := [(pancakes, "cake.png"), (soup, "soup.png")]
  tapped := some 1

theorem searchUse_tapped :
    (searchScreen offline).Tapped searchUse soup "soup.png" :=
  ⟨[.load [pancakesEntry "cake.png", soupEntry], .didSelectItemAt 1], 1,
    by decide, rfl, rfl, rfl⟩

def twoFavourites : DataSnapshot where
  database :=
    Write.applyAll []
      [.setValue (favouritesPath "ann" ++ ["7"])
          (fields { displayingRecipe := pancakes, photoURL := "cake.png" }),
        .setValue (favouritesPath "ann" ++ ["8"])
          (fields { displayingRecipe := soup, photoURL := "soup.png" })]
  path := favouritesPath "ann"

theorem twoFavourites_children :
    favouritesFrom offline (.ok twoFavourites) =
      [(pancakes, "cake.png"), (soup, "soup.png")] := by
  have sorted :
      KeyedTree.sortedKeys FUtilities.keyLE twoFavourites.database
          twoFavourites.path =
        ["7", "8"] := by
    have unsorted :
        KeyedTree.childKeys twoFavourites.database twoFavourites.path =
          ["7", "8"] := by
      decide
    rw [KeyedTree.sortedKeys, unsorted]
    exact List.mergeSort_of_pairwise (by decide)
  have present : twoFavourites.exists? = true := by
    decide
  rw [favouritesFrom]
  simp only [present, if_true, DataSnapshot.children, sorted]
  decide

/-- The favourites after a tap on the given item. -/
def favouriteUse (item : Nat) : Use FavRecipesCollectionViewController where
  screen :=
    { favRecipes := [pancakes, soup]
      urlArray := ["cake.png", "soup.png"]
      selectedIndex := 0 }
  built := [(pancakes, "cake.png"), (soup, "soup.png")]
  tapped := some item

theorem favouriteUse_tapped {item : Nat} {card : RecipeCard} {url : String}
    (found : (favouriteUse item).built[item]? = some (card, url)) :
    (favouriteScreen offline).Tapped (favouriteUse item) card url := by
  have inRange : item < 2 := (List.getElem?_eq_some_iff.mp found).1
  have loaded :
      (favouriteScreen offline).machine.step (favouriteScreen offline).start
          (.load (.ok twoFavourites)) =
        some { (favouriteUse item) with tapped := none } := by
    simp only [machine, favouriteScreen, start, loadFavRecipes_eq,
      twoFavourites_children]
    rfl
  refine ⟨[.load (.ok twoFavourites), .didSelectItemAt item], item,
    ⟨trivial, ?_⟩, ?_, rfl, found⟩
  · intro use handled
    cases loaded.symm.trans handled
    exact ⟨inRange, fun _ _ => trivial⟩
  · rw [Machine.run, loaded]
    rfl

theorem opens_what_was_tapped :
    (sampleScreen offline).Opens (sampleUse "").screen pancakes "" ∧
      (searchScreen offline).Opens searchUse.screen soup "soup.png" ∧
      (favouriteScreen offline).Opens (favouriteUse 0).screen pancakes
        "cake.png" :=
  ⟨((opens_tapped_iff offline pancakes "").1 _ (sampleUse_tapped "")).mpr
      rfl,
    (opens_tapped_iff offline soup "soup.png").2.1 _ searchUse_tapped,
    ((opens_tapped_iff offline pancakes "cake.png").2.2 _
      (favouriteUse_tapped rfl)).mpr (by decide)⟩

/-- The sample screen passes no URL, and the favourites pass the first entry
when the second was tapped. -/
theorem opens_another_recipe :
    ((sampleScreen offline).Tapped (sampleUse "cake.png") pancakes
        "cake.png" ∧
        ¬ (sampleScreen offline).Opens (sampleUse "cake.png").screen pancakes
          "cake.png") ∧
      (favouriteScreen offline).Tapped (favouriteUse 1) soup "soup.png" ∧
        ¬ (favouriteScreen offline).Opens (favouriteUse 1).screen soup
          "soup.png" :=
  ⟨⟨sampleUse_tapped "cake.png", by decide⟩,
    favouriteUse_tapped rfl, by decide⟩

end Examples

end PocketChef
