/-!
# Recipe cards

A card fetches its picture when it is built.  The fetch is a parameter: it
gives the decoded image of a URL, or `none` where the string is no URL, the
data cannot be read or is no image.
-/

namespace PocketChef

inductive UIImage where
  | imageLiteral (resourceName : String)
  | data (bytes : List UInt8)
  deriving DecidableEq

structure RecipeCard where
  id : Int
  title : String
  image : UIImage
  type : String
  deriving DecidableEq

namespace RecipeCard

def init (fetch : String → Option UIImage) (id : Int)
    (title imageURL type : String) : RecipeCard where
  id := id
  title := title
  image := (fetch imageURL).getD (.imageLiteral "PocketChef")
  type := type

/-- Two cards are about the same recipe. -/
def SameRecipe (first second : RecipeCard) : Prop :=
  first.id = second.id ∧ first.title = second.title ∧
    first.type = second.type

instance (first second : RecipeCard) :
    Decidable (first.SameRecipe second) :=
  inferInstanceAs (Decidable (_ ∧ _ ∧ _))

end RecipeCard
end PocketChef
