import PocketChef.Library.RecordNode
import PocketChef.Recipes.ListScreens

/-!
# Favourites written and read back

Taps on hearts set and remove children of `FavRecipes/<uid>`, and the screen
of favourites reads them back.  Each recipe whose last tap set it comes back
once, with what that tap wrote, and no other recipe does.
-/

namespace PocketChef

open KeyedTree Firebase FUtilities Issuing

/-- What is stored for a favourite. -/
structure Favourite where
  title : String
  type : String
  imageURL : String
  deriving DecidableEq

def Favourite.fields (favourite : Favourite) : List (String × Value) :=
  [("name", .string favourite.title), ("type", .string favourite.type),
    ("imageURL", .string favourite.imageURL)]

theorem Favourite.fields_ne_nil (favourite : Favourite) :
    favourite.fields ≠ [] :=
  List.cons_ne_nil _ _

/-- A tap of the user `uid` on the heart of a recipe, whose id is an `Int` of
64 bits. -/
structure HeartTap (uid : String) where
  screen : RecipeDetailViewController
  own : screen.currentUid = uid
  fits :
    -2 ^ 63 ≤ screen.displayingRecipe.id ∧
      screen.displayingRecipe.id < 2 ^ 63

namespace HeartTap

variable {uid : String}

/-- What the tap leaves at the id of its recipe: a favourite, or nothing. -/
def leaves (tap : HeartTap uid) : Int × Option Favourite :=
  (tap.screen.displayingRecipe.id,
    match tap.screen.favButton with
    | .normal => none
    | .selected =>
        some
          { title := tap.screen.displayingRecipe.title
            type := tap.screen.displayingRecipe.type
            imageURL := tap.screen.photoURL })

/-- The writes of the taps, in the order of the taps. -/
def writes (taps : List (HeartTap uid)) : List Write :=
  taps.flatMap fun tap => tap.screen.heartTapped.issued

/-- The favourite that the last tap on a recipe set, unless that tap removed
it or there was none. -/
def lastSet (taps : List (HeartTap uid)) (id : Int) : Option Favourite :=
  lastWrite (taps.map leaves) id

theorem issued_applyAll (tap : HeartTap uid)
    (valid : FValidation.isValidPathString uid = true)
    (database : Database) :
    Write.applyAll database tap.screen.heartTapped.issued =
      writeRecord (RecipeDetailViewController.favouritesPath uid)
        (fun id : Int => toString id) Favourite.fields database tap.leaves := by
  rcases tap with ⟨screen, rfl, fits⟩
  cases state : screen.favButton with
  | normal =>
      have plain := FValidation.isPlain_of_isValidPathString valid
      rw [screen.heartTapped_of_normal state plain]
      simp only [leaves, state]
      rfl
  | selected =>
      rw [screen.heartTapped_of_selected state valid]
      simp only [leaves, state]
      rfl

theorem writes_applyAll (valid : FValidation.isValidPathString uid = true)
    (taps : List (HeartTap uid)) (database : Database) :
    Write.applyAll database (writes taps) =
      (taps.map leaves).foldl
        (writeRecord (RecipeDetailViewController.favouritesPath uid)
          (fun id : Int => toString id) Favourite.fields) database := by
  induction taps generalizing database with
  | nil =>
      rfl
  | cons tap later inductionHypothesis =>
      rw [writes, List.flatMap_cons, Write.applyAll, List.foldl_append,
        List.map_cons, List.foldl_cons]
      have first := tap.issued_applyAll valid database
      rw [Write.applyAll] at first
      rw [first]
      exact inductionHypothesis _

theorem fits_of_lastSet {taps : List (HeartTap uid)} {id : Int}
    {favourite : Favourite} (set : lastSet taps id = some favourite) :
    -2 ^ 63 ≤ id ∧ id < 2 ^ 63 := by
  rcases List.mem_map.mp (mem_of_lastWrite set) with ⟨tap, _, left⟩
  have same : tap.screen.displayingRecipe.id = id :=
    congrArg Prod.fst left
  rw [← same]
  exact tap.fits

end HeartTap

namespace FavRecipesCollectionViewController

open RecipeDetailViewController (favouritesPath)

variable (fetch : String → Option UIImage)

/-- A screen that opens for `uid` and whose load then completes. -/
def loaded (uid : String) (database : Database) :
    Option FavRecipesCollectionViewController :=
  let opened : FavRecipesCollectionViewController := { currentUid := uid }
  (opened.getData database).map fun snapshot =>
    opened.loadFavRecipes fetch (.ok snapshot)

theorem getData_of_plain (self : FavRecipesCollectionViewController)
    (database : Database)
    (plain : FValidation.isPlain self.currentUid = true) :
    self.getData database =
      some ⟨database, favouritesPath self.currentUid⟩ := by
  rw [getData, RecipeDetailViewController.favourites_eq, if_pos plain]
  rfl

theorem loaded_of_plain {uid : String} (database : Database)
    (plain : FValidation.isPlain uid = true) :
    loaded fetch uid database =
      some (loadFavRecipes fetch { currentUid := uid }
        (.ok ⟨database, favouritesPath uid⟩)) := by
  unfold loaded
  dsimp only
  rw [getData_of_plain _ _ plain, Option.map_some]

theorem favouritesFrom_ok (snapshot : DataSnapshot) :
    favouritesFrom fetch (.ok snapshot) =
      snapshot.children.filterMap (decodeFavourite fetch) := by
  by_cases present : Exists snapshot.database snapshot.path
  · simp [favouritesFrom, DataSnapshot.exists?, present]
  · have childless := DataSnapshot.children_of_not_exists present
    simp [favouritesFrom, DataSnapshot.exists?, present, childless]

/-- The key of a recipe is read back as its id. -/
theorem intOfKey_toString {id : Int} (fits : -2 ^ 63 ≤ id ∧ id < 2 ^ 63) :
    intOfKey (toString id) = some id := by
  rw [intOfKey, Decimal.parse_toString]
  exact if_pos fits

def cardOf (id : Int) (favourite : Favourite) : RecipeCard :=
  .init fetch id favourite.title favourite.imageURL favourite.type

theorem decodeFavourite_stored {snapshot : DataSnapshot} {id : Int}
    {favourite : Favourite}
    (fits : -2 ^ 63 ≤ id ∧ id < 2 ^ 63)
    (stored :
      ∀ name, snapshot.field name = favourite.fields.lookup name) :
    decodeFavourite fetch (toString id, snapshot) =
      some (cardOf fetch id favourite, favourite.imageURL) := by
  simp only [decodeFavourite, intOfKey_toString fits, stored]
  rfl

section Codec

variable {uid : String} {database : Database}
variable (valid : FValidation.isValidPathString uid = true)

include valid

/-- The loaded arrays list the stored favourites, each once. -/
theorem exists_ids_loaded
    (absent : ¬ Exists database (favouritesPath uid))
    (taps : List (HeartTap uid)) :
    ∃ (ids : List Int) (favourite : Int → Favourite),
      ids.Nodup ∧
        (∀ id, id ∈ ids ↔ (HeartTap.lastSet taps id).isSome = true) ∧
        (∀ id ∈ ids, HeartTap.lastSet taps id = some (favourite id)) ∧
        loaded fetch uid
            (Write.applyAll database (HeartTap.writes taps)) =
          some
            { favRecipes := ids.map fun id => cardOf fetch id (favourite id)
              urlArray := ids.map fun id => (favourite id).imageURL
              currentUid := uid } := by
  have represents :
      Represents (favouritesPath uid) (fun id : Int => toString id)
        Favourite.fields
        (Write.applyAll database (HeartTap.writes taps))
        (HeartTap.lastSet taps) := by
    rw [HeartTap.writes_applyAll valid]
    exact represents_lastWrite (fun _ _ => Decimal.toString_injective)
      Favourite.fields_ne_nil absent (taps.map HeartTap.leaves)
  rcases represents.exists_ids (fun _ _ => Decimal.toString_injective)
      keyLE with ⟨ids, listed, unrepeated, stored⟩
  have set :
      ∀ id ∈ ids, HeartTap.lastSet taps id =
        some ((HeartTap.lastSet taps id).getD ⟨"", "", ""⟩) := by
    intro id member
    rcases Option.isSome_iff_exists.mp ((stored id).mp member) with
      ⟨favourite, found⟩
    rw [found]
    rfl
  refine ⟨ids, _, unrepeated, stored, set, ?_⟩
  have decoded :
      favouritesFrom fetch
          (.ok ⟨Write.applyAll database (HeartTap.writes taps),
            favouritesPath uid⟩) =
        ids.map fun id =>
          (cardOf fetch id ((HeartTap.lastSet taps id).getD ⟨"", "", ""⟩),
            ((HeartTap.lastSet taps id).getD ⟨"", "", ""⟩).imageURL) := by
    rw [favouritesFrom_ok, DataSnapshot.children, listed, List.map_map,
      List.filterMap_map, ← List.filterMap_eq_map]
    apply List.filterMap_congr
    intro id member
    apply decodeFavourite_stored
    · exact HeartTap.fits_of_lastSet (set id member)
    · intro name
      exact represents.fields id _ (set id member) name
  have plain := FValidation.isPlain_of_isValidPathString valid
  rw [loaded_of_plain fetch _ plain, loadFavRecipes_eq, decoded,
    List.map_map, List.map_map]
  rfl

/-- After any taps under a uid that can stand in a path, a fresh screen loads
one card for each recipe whose last tap set it, with the id and the title and
type that this tap wrote, the picture of the URL it wrote, and that URL at the
same index. -/
theorem loaded_lastSet
    (absent : ¬ Exists database (favouritesPath uid))
    (taps : List (HeartTap uid)) :
    ∃ screen,
      loaded fetch uid (Write.applyAll database (HeartTap.writes taps)) =
          some screen ∧
        (screen.favRecipes.map RecipeCard.id).Nodup ∧
        (∀ id, id ∈ screen.favRecipes.map RecipeCard.id ↔
          (HeartTap.lastSet taps id).isSome = true) ∧
        screen.favRecipes.length = screen.urlArray.length ∧
        ∀ (index : Nat) (card : RecipeCard),
          screen.favRecipes[index]? = some card →
            ∃ favourite,
              HeartTap.lastSet taps card.id = some favourite ∧
                card.title = favourite.title ∧
                card.type = favourite.type ∧
                card.image =
                  (fetch favourite.imageURL).getD
                    (.imageLiteral "PocketChef") ∧
                screen.urlArray[index]? = some favourite.imageURL := by
  rcases exists_ids_loaded fetch valid absent taps with
    ⟨ids, favourite, unrepeated, stored, set, screen⟩
  refine ⟨_, screen, ?_⟩
  have sameIds :
      (ids.map fun id => cardOf fetch id (favourite id)).map RecipeCard.id =
        ids := by
    rw [List.map_map]
    exact List.map_id ids
  refine ⟨?_, ?_, ?_, ?_⟩
  · rw [sameIds]
    exact unrepeated
  · intro id
    rw [sameIds]
    exact stored id
  · rw [List.length_map, List.length_map]
  · intro index card found
    rw [List.getElem?_map] at found
    rcases Option.map_eq_some_iff.mp found with ⟨id, here, rfl⟩
    refine ⟨favourite id, set id (List.mem_of_getElem? here), rfl, rfl, rfl,
      ?_⟩
    rw [List.getElem?_map, here]
    rfl

end Codec

def heartOf (state : ControlState) (photoURL : String) (id : Int)
    (fits : -2 ^ 63 ≤ id ∧ id < 2 ^ 63) : HeartTap "ann" where
  screen :=
    { currentUid := "ann"
      displayingRecipe :=
        { id := id, title := "Pancakes", type := "breakfast"
          image := .imageLiteral "PocketChef" }
      photoURL := photoURL
      favButton := state }
  own := rfl
  fits := fits

/-- The recipes 7 and 8 are set, then 7 again with another picture, and 8 is
removed. -/
def changesOfHeart : List (HeartTap "ann") :=
  [heartOf .selected "old.png" 7 (by decide),
    heartOf .selected "soup.png" 8 (by decide),
    heartOf .selected "new.png" 7 (by decide),
    heartOf .normal "soup.png" 8 (by decide)]

/-- Only the picture of the last tap can be fetched. -/
def newPicture (url : String) : Option UIImage :=
  if url = "new.png" then some (.data [1]) else none

theorem lastSet_changesOfHeart (id : Int) :
    HeartTap.lastSet changesOfHeart id =
      if id = 7 then some ⟨"Pancakes", "breakfast", "new.png"⟩ else none := by
  by_cases seven : id = 7
  · subst seven
    rfl
  by_cases eight : id = 8
  · subst eight
    rfl
  rw [if_neg seven, HeartTap.lastSet, lastWrite]
  have nothing : (changesOfHeart.map HeartTap.leaves).filter
      (fun write => write.1 = id) = [] := by
    simp [changesOfHeart, HeartTap.leaves, heartOf, Ne.symm seven,
      Ne.symm eight]
  rw [nothing]
  rfl

theorem loaded_lastSet_changesOfHeart :
    ∃ screen,
      loaded newPicture "ann"
          (Write.applyAll [] (HeartTap.writes changesOfHeart)) =
        some screen ∧
        screen.favRecipes.map RecipeCard.id = [7] ∧
        ∀ card ∈ screen.favRecipes,
          card.title = "Pancakes" ∧ card.type = "breakfast" ∧
            card.image = .data [1] ∧ "new.png" ∈ screen.urlArray := by
  have valid : FValidation.isValidPathString "ann" = true := by
    decide
  rcases loaded_lastSet newPicture valid
      (by decide : ¬ Exists ([] : Database) (favouritesPath "ann"))
      changesOfHeart with ⟨screen, arrived, unrepeated, listed, _, shows⟩
  simp only [lastSet_changesOfHeart] at listed shows
  refine ⟨screen, arrived, ?_, ?_⟩
  · apply List.perm_singleton.mp
    refine (List.perm_ext_iff_of_nodup unrepeated
      (List.nodup_singleton 7)).mpr ?_
    intro id
    rw [listed id, List.mem_singleton]
    by_cases seven : id = 7
    · simp [seven]
    · simp [seven]
  · intro card member
    rcases List.getElem?_of_mem member with ⟨index, here⟩
    rcases shows index card here with
      ⟨favourite, set, title, type, image, url⟩
    by_cases seven : card.id = 7
    · rw [if_pos seven] at set
      cases set
      exact ⟨title, type, image, List.mem_of_getElem? url⟩
    · rw [if_neg seven] at set
      cases set

end FavRecipesCollectionViewController
end PocketChef
