import PocketChef.Library.StoredInteger
import PocketChef.Network.RecipeFormat
import PocketChef.Network.StepsTrace
import PocketChef.Startup.CoreDataScreens

/-!
# The ids of the stored recipes

The id of a recipe passes from the reply of the service to a card, to the
detail screen, to the instructions screen and into an `Instruction` object.
Everything on the way has 64 bits except the attribute of the data model,
which has 16.
-/

namespace PocketChef
namespace InstructionTableViewController

open Issuing

/-- A recipe on its way from an element of a reply into the store: the card
that a decoder builds from the element, the detail screen that opens for the
card, and an object that the embedded instructions screen inserts. -/
structure SavedRecipe (fetch : String → Option UIImage) where
  item : AnyJson
  card : RecipeCard
  url : String
  decoded : decodeRecipe fetch (RecipeEntry.ofAny item) = some (card, url)
  detail : RecipeDetailViewController
  shown : detail.displayingRecipe.SameRecipe card
  session : Option WCSession
  reply : Reply
  object : Instruction
  saved :
    Trace.insert object ∈
      ({ detail.prepareInstructions with
        session := session }.loadInstructions reply).issued

namespace SavedRecipe

variable {fetch : String → Option UIImage}

/-- The object gives back the id that the element has. -/
def KeepsId (recipe : SavedRecipe fetch) : Prop :=
  ∃ members, recipe.item = .object members ∧
    AnyJson.field AnyJson.asInt members "id" =
      some recipe.object.id.toInt

end SavedRecipe

theorem mem_permitted {session : Option WCSession} {steps : List String}
    {object : Instruction} : .insert object ∉ permitted session steps := by
  unfold permitted
  cases session with
  | none => exact List.not_mem_nil
  | some session =>
      by_cases isOpen : session.Open
      · simp [isOpen]
      · simp [isOpen]

/-- Whatever the reply, an object that is inserted has the screen's id, as far
as the attribute holds it. -/
theorem id_of_inserted {self : InstructionTableViewController}
    {reply : Reply} {object : Instruction}
    (inserted : .insert object ∈ (self.loadInstructions reply).issued) :
    object.id = BitVec.ofInt 16 self.id := by
  by_cases arrives : ∃ body, reply.Delivers body
  · rcases arrives with ⟨body, delivers⟩
    cases read : readSteps body with
    | none =>
        rw [loadInstructions_of_trap _ delivers read] at inserted
        cases inserted
    | some found =>
        cases found with
        | none =>
            rw [loadInstructions_of_return _ delivers read] at inserted
            cases inserted
        | some items =>
            rw [loadInstructions_of_read _ delivers read,
              keepInstructions_eq, appendSteps_eq] at inserted
            rcases List.mem_cons.mp inserted with new | sent
            · cases new
              rfl
            · exact absurd sent mem_permitted
  · rw [loadInstructions_of_not_delivers _ (not_exists.mp arrives)]
      at inserted
    cases inserted

/-- The card has the id of the element it was built from. -/
theorem exists_id_of_decoded {fetch : String → Option UIImage}
    {item : AnyJson} {card : RecipeCard} {url : String}
    (decoded :
      decodeRecipe fetch (RecipeEntry.ofAny item) = some (card, url)) :
    ∃ members, item = .object members ∧
      AnyJson.field AnyJson.asInt members "id" = some card.id := by
  rw [RecipeFormat.decodeRecipe_eq] at decoded
  rcases Option.map_eq_some_iff.mp decoded with ⟨recipe, found, same⟩
  cases same
  cases item with
  | object members =>
      rw [RecipeFormat.recipeIn_object] at found
      rcases Option.bind_eq_some_iff.mp found with ⟨id, idCast, found⟩
      rcases Option.bind_eq_some_iff.mp found with ⟨title, _, found⟩
      rcases Option.map_eq_some_iff.mp found with ⟨imageURL, _, same⟩
      cases same
      exact ⟨members, rfl, idCast⟩
  | _ => cases found

namespace SavedRecipe

variable {fetch : String → Option UIImage}

theorem object_id (recipe : SavedRecipe fetch) :
    recipe.object.id = BitVec.ofInt 16 recipe.card.id := by
  have inserted := id_of_inserted recipe.saved
  have sameId : recipe.detail.displayingRecipe.id = recipe.card.id :=
    recipe.shown.1
  rw [← sameId]
  exact inserted

theorem keepsId_iff (recipe : SavedRecipe fetch) :
    recipe.KeepsId ↔
      -2 ^ 15 ≤ recipe.card.id ∧ recipe.card.id < 2 ^ 15 := by
  rcases exists_id_of_decoded recipe.decoded with ⟨members, shape, idCast⟩
  rw [← StoredInteger.toInt_ofInt_eq_self_iff (by decide : 0 < 16),
    ← recipe.object_id]
  constructor
  · rintro ⟨others, sameItem, kept⟩
    rw [shape] at sameItem
    cases sameItem
    rw [idCast] at kept
    exact (Option.some.inj kept).symm
  · intro same
    exact ⟨members, shape, by rw [idCast, same]⟩

/-- The object of a recipe gives back the recipe's id exactly when that fits
the attribute, and two recipes are told apart by their objects exactly when
their ids do not differ by a multiple of the attribute's size. -/
theorem storedIds_iff (first second : SavedRecipe fetch) :
    (first.KeepsId ↔
        -2 ^ 15 ≤ first.card.id ∧ first.card.id < 2 ^ 15) ∧
      ((first.card.id ≠ second.card.id →
          first.object.id ≠ second.object.id) ↔
        (2 ^ 16 ∣ first.card.id - second.card.id →
          first.card.id = second.card.id)) := by
  have sameObject :
      first.object.id = second.object.id ↔
        2 ^ 16 ∣ first.card.id - second.card.id := by
    rw [first.object_id, second.object_id]
    exact StoredInteger.ofInt_eq_ofInt_iff _ _
  refine ⟨first.keepsId_iff, ?_⟩
  rw [← sameObject]
  exact not_imp_not

end SavedRecipe

/-- The way of a recipe with the given id. -/
def savedWith (id : Int) (fits : -2 ^ 63 ≤ id ∧ id < 2 ^ 63) :
    SavedRecipe fun _ => none where
  item :=
    .object [("id", .number
        { asInt := some id
          inRange := fun _ same => Option.some.inj same ▸ fits }),
      ("title", .string "Toast"), ("image", .string "toast.png")]
  card := .init (fun _ => none) id "Toast" "toast.png" ""
  url := "toast.png"
  decoded := rfl
  detail :=
    { displayingRecipe := .init (fun _ => none) id "Toast" "toast.png" "" }
  shown := ⟨rfl, rfl, rfl⟩
  session := none
  reply :=
    accepted (.ok (.array [.object
      [("steps", .array [.object [("step", .string "Toast it.")]])]]))
  object :=
    { id := BitVec.ofInt 16 id, steps := ["Toast it."], title := "Toast" }
  saved := List.mem_cons_self

/-- A recipe with an id of six digits gets another id, and shares it with a
second recipe. -/
theorem not_keepsId :
    ¬ (savedWith 715538 (by decide)).KeepsId ∧
      (savedWith 715538 (by decide)).object.id =
        (savedWith 781074 (by decide)).object.id := by
  constructor
  · intro keeps
    have fits := (savedWith 715538 (by decide)).keepsId_iff.mp keeps
    exact absurd fits.2 (by decide)
  · decide

end InstructionTableViewController
end PocketChef
