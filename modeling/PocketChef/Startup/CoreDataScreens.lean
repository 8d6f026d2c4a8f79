import PocketChef.Network.InstructionTableViewController
import PocketChef.Recipes.RecipeDetailViewController
import PocketChef.Shopping.IngredientsViewController
import PocketChef.Shopping.ShoppingViewController

/-!
# How the screens with a managed context start up

Four screens declare `managedContext` as implicitly unwrapped, so that a use
before the assignment traps.  Three of them assign it in `viewDidLoad`, the
shopping list only after its fetch.  The instructions screen leaves it to
whoever opens it, and it is a tab that no `prepare(for:sender:)` leads to.
-/

namespace PocketChef

open Issuing

/-- The view context, as what its two fetches answer. -/
structure ManagedContext where
  instructions : List Instruction
  itemsToBuy : List ItemToBuyObject

structure AppDelegate where
  viewContext : ManagedContext

/-- The implicitly unwrapped fields of a screen. -/
structure CoreDataFields where
  appDelegate : Option AppDelegate := none
  managedContext : Option ManagedContext := none

/-- The two assignments of `viewDidLoad`, from the delegate of the shared
application. -/
def CoreDataFields.assign (delegate : AppDelegate) : Option CoreDataFields := do
  let appDelegate := some delegate
  let unwrapped ← appDelegate
  some
    { appDelegate := appDelegate
      managedContext := some unwrapped.viewContext }

/-- `prepare(for:sender:)` where the segue embeds the instructions. -/
def RecipeDetailViewController.prepareInstructions
    (self : RecipeDetailViewController) : InstructionTableViewController where
  id := self.displayingRecipe.id
  recipeName := self.displayingRecipe.title

/-- `viewDidLoad`; the fetch of `loadCoreInstruction` unwraps the context. -/
def InstructionsViewController.viewDidLoadOn
    (self : InstructionsViewController) (fields : CoreDataFields)
    (session : Option WCSession) : Option InstructionsViewController := do
  let context ← fields.managedContext
  self.viewDidLoad (some context.instructions) session

/-- `viewDidLoad`; the fetch of `loadShoppingList` unwraps the context, which
is assigned afterwards. -/
def ShoppingViewController.viewDidLoadOn (self : ShoppingViewController)
    (fields : CoreDataFields) (delegate : AppDelegate) :
    Option (ShoppingViewController × CoreDataFields) := do
  let context ← fields.managedContext
  let self := self.loadShoppingList (some context.itemsToBuy)
  let fields ← CoreDataFields.assign delegate
  some (self, fields)

/-- `viewDidLoad` after the two requests are issued. -/
def IngredientsViewController.viewDidLoadOn
    (self : IngredientsViewController) (delegate : AppDelegate) :
    Option (IngredientsViewController × CoreDataFields) := do
  let fields ← CoreDataFields.assign delegate
  some (self, fields)

/-- `viewDidLoad`, which issues its request between the assignments and the
session. -/
def InstructionTableViewController.viewDidLoadOn
    (self : InstructionTableViewController) (delegate : AppDelegate)
    (session : Option WCSession) :
    Option (InstructionTableViewController × CoreDataFields) := do
  let fields ← CoreDataFields.assign delegate
  some ({ self with session := session }, fields)

/-- The block of `loadInstructions`, which unwraps both fields. -/
def InstructionTableViewController.keepInstructionsOn
    (self : InstructionTableViewController) (fields : CoreDataFields) :
    Option InstructionTableViewController := do
  let _managedContext ← fields.managedContext
  let _appDelegate ← fields.appDelegate
  self.keepInstructions.result

inductive CoreDataScreen where
  | instructions
  | shopping
  | ingredients
  | instructionTable
  deriving DecidableEq

/-- A freshly instantiated screen gets through `viewDidLoad` and the blocks
that it leaves on the main queue, and shows what the store has.  The blocks of
the recipe's screens run whatever the service has answered. -/
def StartsSafely (context : ManagedContext) (opener : RecipeDetailViewController)
    (session : Option WCSession) : CoreDataScreen → Prop
  | .instructions =>
      ∃ loaded shown,
        InstructionsViewController.viewDidLoadOn {} {} session =
            some loaded ∧
          loaded.deferredBlock.result = some shown ∧
          shown.instructions = context.instructions.map Instruction.steps ∧
          shown.titles = context.instructions.map Instruction.title
  | .shopping =>
      ∃ loaded fields,
        ShoppingViewController.viewDidLoadOn {} {} ⟨context⟩ =
            some (loaded, fields) ∧
          loaded.list =
            context.itemsToBuy.map fun item => item.attributes.ingredient
  | .ingredients =>
      ∃ loaded fields,
        IngredientsViewController.viewDidLoadOn ⟨[]⟩ ⟨context⟩ =
            some (loaded, fields) ∧
          fields.managedContext = some context
  | .instructionTable =>
      ∃ loaded fields,
        opener.prepareInstructions.viewDidLoadOn ⟨context⟩ session =
            some (loaded, fields) ∧
          ∀ answered : InstructionTableViewController,
            answered.keepInstructionsOn fields = some answered

section Screens

variable {fields : CoreDataFields} {context : ManagedContext}

theorem instructions_viewDidLoad_unassigned
    (unassigned : fields.managedContext = none)
    (self : InstructionsViewController) (session : Option WCSession) :
    self.viewDidLoadOn fields session = none := by
  rw [InstructionsViewController.viewDidLoadOn, unassigned]
  rfl

theorem shopping_viewDidLoad_unassigned
    (unassigned : fields.managedContext = none)
    (self : ShoppingViewController) (delegate : AppDelegate) :
    self.viewDidLoadOn fields delegate = none := by
  rw [ShoppingViewController.viewDidLoadOn, unassigned]
  rfl

/-- Had someone assigned the context, the instructions screen would start up
with the store's records, but only if there are any. -/
theorem instructions_start_assigned_iff
    (assigned : fields.managedContext = some context)
    (session : Option WCSession) :
    (∃ loaded shown,
        InstructionsViewController.viewDidLoadOn {} fields session =
            some loaded ∧
          loaded.deferredBlock.result = some shown ∧
          shown.instructions = context.instructions.map Instruction.steps ∧
          shown.titles = context.instructions.map Instruction.title) ↔
      context.instructions ≠ [] := by
  have fetched :
      InstructionsViewController.viewDidLoadOn {} fields session =
        InstructionsViewController.viewDidLoad {}
          (some context.instructions) session := by
    rw [InstructionsViewController.viewDidLoadOn, assigned]
    rfl
  rw [fetched]
  cases records : context.instructions with
  | nil =>
      refine iff_of_false ?_ (not_not_intro rfl)
      intro started
      rcases started with ⟨loaded, _, opened, _⟩
      cases opened
  | cons first rest =>
      refine iff_of_true ?_ (List.cons_ne_nil first rest)
      have opened :=
        InstructionsViewController.viewDidLoad_cons first rest session
      have inRange := InstructionsViewController.viewDidLoad_inRange opened
      rcases InstructionsViewController.deferredBlock_movesTo _ inRange with
        ⟨_, steps, moves⟩
      have block := InstructionsViewController.deferredBlock_eq _ moves.found
      refine ⟨_, _, opened, congrArg Effect.result block, ?_, ?_⟩
      · simp
      · simp

/-- Had the context been assigned before the fetch, the shopping list would
start up with the store's items. -/
theorem shopping_start_assigned
    (assigned : fields.managedContext = some context)
    (delegate : AppDelegate) :
    ∃ loaded after,
      ShoppingViewController.viewDidLoadOn {} fields delegate =
          some (loaded, after) ∧
        loaded.list =
          context.itemsToBuy.map fun item => item.attributes.ingredient := by
  have started :
      ShoppingViewController.viewDidLoadOn {} fields delegate =
        some (({} : ShoppingViewController).loadShoppingList
            (some context.itemsToBuy),
          { appDelegate := some delegate
            managedContext := some delegate.viewContext }) := by
    rw [ShoppingViewController.viewDidLoadOn, assigned]
    rfl
  refine ⟨_, _, started, ?_⟩
  rw [ShoppingViewController.loadShoppingList_list, List.map_map]
  rfl

theorem keepInstructionsOn_assign (delegate : AppDelegate)
    (self : InstructionTableViewController) :
    self.keepInstructionsOn
        { appDelegate := some delegate
          managedContext := some delegate.viewContext } =
      some self := by
  change self.keepInstructions.result = some self
  rw [InstructionTableViewController.keepInstructions_eq]

end Screens

/-- Whatever the store has, the two screens of a recipe start up safely, and
the instructions tab and the shopping tab never do. -/
theorem startsSafely_iff (context : ManagedContext)
    (opener : RecipeDetailViewController) (session : Option WCSession)
    (screen : CoreDataScreen) :
    StartsSafely context opener session screen ↔
      screen = .ingredients ∨ screen = .instructionTable := by
  cases screen with
  | instructions =>
      refine iff_of_false ?_ (by decide)
      intro started
      rcases started with ⟨loaded, _, opened, _⟩
      rw [instructions_viewDidLoad_unassigned rfl] at opened
      cases opened
  | shopping =>
      refine iff_of_false ?_ (by decide)
      intro started
      rcases started with ⟨loaded, _, opened, _⟩
      rw [shopping_viewDidLoad_unassigned rfl] at opened
      cases opened
  | ingredients =>
      exact iff_of_true ⟨_, _, rfl, rfl⟩ (Or.inl rfl)
  | instructionTable =>
      exact iff_of_true
        ⟨_, _, rfl, fun answered => keepInstructionsOn_assign _ answered⟩
        (Or.inr rfl)

/-- A store with one recipe and one item to buy. -/
def oneOfEach : ManagedContext where
  instructions := [{ id := 7, steps := ["Toast it."], title := "Toast" }]
  itemsToBuy := [⟨0, .ofIngredient .flour⟩]

/-- The detail screen of the recipe. -/
def toastDetails : RecipeDetailViewController where
  displayingRecipe := .init (fun _ => none) 7 "Toast" "toast.jpg" ""

theorem not_startsSafely :
    ¬ StartsSafely oneOfEach toastDetails none .instructions ∧
      ¬ StartsSafely oneOfEach toastDetails none .shopping := by
  constructor
  · intro started
    rcases started with ⟨loaded, _, opened, _⟩
    cases opened
  · intro started
    rcases started with ⟨loaded, _, opened, _⟩
    cases opened

end PocketChef
