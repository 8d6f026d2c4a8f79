import PocketChef.Firebase.Auth
import PocketChef.Firebase.Database
import PocketChef.Library.Issuing
import PocketChef.Recipes.RecipeCard

/-!
# The recipe detail screen

`RecipeDetailViewController` shows one recipe.  Its heart button writes the
recipe to `FavRecipes/<uid>/<id>` or removes it from there, depending on the
state of the button, which nothing in the app ever changes.  The exception of
`child:` for a uid with one of the characters `.#$[]` is not caught.
-/

namespace PocketChef

open KeyedTree Firebase Issuing

/-- `UIControl.State` of a button that is not being touched. -/
inductive ControlState where
  | normal
  | selected
  deriving DecidableEq

/-- The button has the state of the storyboard when the screen opens. -/
structure RecipeDetailViewController extends AuthScreen where
  displayingRecipe : RecipeCard
  photoURL : String := ""
  favButton : ControlState := .normal
  deriving DecidableEq

namespace RecipeDetailViewController

def viewWillAppear (self : RecipeDetailViewController)
    (user : Option FirebaseUser) : RecipeDetailViewController :=
  { self with toAuthScreen := self.toAuthScreen.viewWillAppear user }

def viewWillDisappear (self : RecipeDetailViewController) :
    Option RecipeDetailViewController :=
  self.toAuthScreen.viewWillDisappear.map fun screen =>
    { self with toAuthScreen := screen }

/-- The dictionary that is stored for a favourite. -/
def fields (self : RecipeDetailViewController) : List (String × Value) :=
  [("name", .string self.displayingRecipe.title),
    ("type", .string self.displayingRecipe.type),
    ("imageURL", .string self.photoURL)]

def heartTapped (self : RecipeDetailViewController) :
    Effect Write Unit :=
  if self.favButton = .normal then do
    let favourite ← Effect.check <| Except.toOption <|
      reference.child
        ("FavRecipes" ++ "/" ++ self.currentUid ++ "/" ++
          toString self.displayingRecipe.id)
    Effect.issue (.removeValue favourite.path)
  else if self.favButton = .selected then do
    let favourite ← Effect.check <| Except.toOption <| do
      let favourites ← reference.child "FavRecipes"
      let own ← favourites.child self.currentUid
      own.child (toString self.displayingRecipe.id)
    Effect.issue (.setValue favourite.path self.fields)
  else
    return

def favouritesPath (currentUid : String) : Path :=
  "FavRecipes" :: pathWithString currentUid

theorem viewWillAppear_some (screen : RecipeDetailViewController)
    (user : FirebaseUser) :
    (screen.viewWillAppear (some user)).currentUid = user.uid ∧
      (screen.viewWillAppear (some user)).handle.isSome = true ∧
      (screen.viewWillAppear (some user)).favButton = screen.favButton :=
  ⟨rfl, rfl, rfl⟩

theorem viewWillDisappear_of_handle {screen : RecipeDetailViewController}
    (registered : screen.handle.isSome = true) :
    ∃ hidden,
      screen.viewWillDisappear = some hidden ∧
        hidden.favButton = screen.favButton := by
  rcases Option.isSome_iff_exists.mp registered with ⟨handle, present⟩
  refine ⟨{ screen with handle := some ⟨false⟩ }, ?_, rfl⟩
  simp [viewWillDisappear, AuthScreen.viewWillDisappear, present]

theorem isCollection : IsCollection "FavRecipes" where
  piece := by decide
  plain := by decide
  front := ⟨'F', by decide⟩

/-- `child("FavRecipes/\(currentUid)")`. -/
theorem favourites_eq (currentUid : String) :
    (reference.child ("FavRecipes" ++ "/" ++ currentUid)).toOption =
      if FValidation.isPlain currentUid then
        some ⟨favouritesPath currentUid⟩
      else none :=
  isCollection.child_slash currentUid

section Taps

variable (self : RecipeDetailViewController)

/-- The reference of a favourite that is removed. -/
theorem removed_eq :
    (reference.child
        ("FavRecipes" ++ "/" ++ self.currentUid ++ "/" ++
          toString self.displayingRecipe.id)).toOption =
      if FValidation.isPlain self.currentUid then
        some ⟨favouritesPath self.currentUid ++
          [toString self.displayingRecipe.id]⟩
      else none := by
  have text :
      "FavRecipes" ++ "/" ++ self.currentUid ++ "/" ++
          toString self.displayingRecipe.id =
        "FavRecipes" ++ "/" ++
          (self.currentUid ++ "/" ++ toString self.displayingRecipe.id) := by
    simp only [String.append_assoc]
  have slash : FValidation.isPlain "/" = true := by
    decide
  rw [text, favourites_eq, FValidation.isPlain_append,
    FValidation.isPlain_append, slash, isPlain_toString, Bool.and_true,
    Bool.and_true, favouritesPath, pathWithString_append_slash,
    pathWithString_toString]
  rfl

theorem heartTapped_of_normal (state : self.favButton = .normal)
    (plain : FValidation.isPlain self.currentUid = true) :
    self.heartTapped =
      Effect.issue (.removeValue
        (favouritesPath self.currentUid ++
          [toString self.displayingRecipe.id])) := by
  rw [heartTapped, if_pos state, removed_eq, if_pos plain,
    Effect.check_some_bind]

theorem heartTapped_of_selected (state : self.favButton = .selected)
    (valid : FValidation.isValidPathString self.currentUid = true) :
    self.heartTapped =
      Effect.issue (.setValue
        (favouritesPath self.currentUid ++
          [toString self.displayingRecipe.id])
        self.fields) := by
  rw [heartTapped, state, if_neg (by decide), if_pos rfl,
    isCollection.child_child, if_pos valid, Effect.check_some_bind]
  rfl

/-- Under a uid with a special character nothing is written. -/
theorem heartTapped_of_not_plain
    (special : FValidation.isPlain self.currentUid = false) :
    self.heartTapped = ⟨[], none⟩ := by
  have invalid : FValidation.isValidPathString self.currentUid = false := by
    rw [FValidation.isValidPathString, special, Bool.and_false]
  cases state : self.favButton with
  | normal =>
      rw [heartTapped, if_pos state, removed_eq, if_neg (by simp [special]),
        Effect.check_none_bind]
  | selected =>
      rw [heartTapped, state, if_neg (by decide), if_pos rfl,
        isCollection.child_child, if_neg (by simp [invalid]),
        Effect.check_none_bind]

end Taps

end RecipeDetailViewController
end PocketChef
