import Mathlib.Algebra.Group.Nat.Even
import PocketChef.Library.Reactive
import PocketChef.Recipes.RecipeDetailViewController

/-!
# Toggling favourites

A user opens recipe screens, goes back, and taps hearts.  Every screen opens
with the button in its normal state and the state never changes, so a tap
always removes the recipe.  The favourites are toggled exactly when no
favourite was tapped an even number of times, other than never, and no other
recipe an odd number of times.  The first tap of a user whose uid cannot stand
in a path raises.
-/

namespace PocketChef
namespace RecipeDetailViewController

open Reactive KeyedTree Firebase Issuing

/-- The screens that are open, the visible one first, with the number of taps
on the heart of each recipe. -/
structure Visit where
  screens : List RecipeDetailViewController
  database : Database
  taps : Int → Nat

inductive VisitEvent where
  | openRecipe (card : RecipeCard) (photoURL : String)
  | back
  | heartTapped
  deriving DecidableEq

namespace Visit

def start (database : Database) : Visit where
  screens := []
  database := database
  taps := fun _ => 0

/-- A screen is pushed: the visible one disappears and the new one
appears. -/
def push (visit : Visit) (user : FirebaseUser)
    (screen : RecipeDetailViewController) : Option Visit :=
  let opened := screen.viewWillAppear (some user)
  match visit.screens with
  | [] => some { visit with screens := [opened] }
  | top :: rest => do
      let hidden ← top.viewWillDisappear
      some { visit with screens := opened :: hidden :: rest }

/-- The visible screen is popped and the one below it appears again. -/
def pop (visit : Visit) (user : FirebaseUser) : Option Visit :=
  match visit.screens with
  | [] => none
  | [top] => do
      let _ ← top.viewWillDisappear
      some { visit with screens := [] }
  | top :: below :: rest => do
      let _ ← top.viewWillDisappear
      some { visit with
        screens := below.viewWillAppear (some user) :: rest }

def tap (visit : Visit) : Option Visit :=
  match visit.screens with
  | [] => none
  | top :: _ =>
      let id := top.displayingRecipe.id
      top.heartTapped.result.map fun _ =>
        { visit with
          database :=
            Write.applyAll visit.database top.heartTapped.issued
          taps := Function.update visit.taps id (visit.taps id + 1) }

/-- The visits of one user, who stays signed in. -/
def machine (user : FirebaseUser) : Machine Visit VisitEvent where
  enabled
    | _, .openRecipe _ _ => True
    | visit, .back => visit.screens ≠ []
    | visit, .heartTapped => visit.screens ≠ []
  step
    | visit, .openRecipe card photoURL =>
        visit.push user { displayingRecipe := card, photoURL := photoURL }
    | visit, .back => visit.pop user
    | visit, .heartTapped => visit.tap

instance (user : FirebaseUser) :
    ∀ visit event, Decidable ((machine user).enabled visit event)
  | _, .openRecipe _ _ => inferInstanceAs (Decidable True)
  | visit, .back => inferInstanceAs (Decidable (visit.screens ≠ []))
  | visit, .heartTapped => inferInstanceAs (Decidable (visit.screens ≠ []))

/-- The recipe is stored among the favourites of the user. -/
def Stored (user : FirebaseUser) (database : Database) (id : Int) : Prop :=
  Exists database (favouritesPath user.uid ++ [toString id])

instance (user : FirebaseUser) (database : Database) :
    DecidablePred (Stored user database) := fun id =>
  inferInstanceAs <| Decidable <|
    Exists database (favouritesPath user.uid ++ [toString id])

/-- Each recipe is stored as at the beginning, toggled once for each tap. -/
def Toggled (user : FirebaseUser) (initial : Database) (visit : Visit) :
    Prop :=
  ∀ id, Stored user visit.database id ↔
    (Stored user initial id ↔ Even (visit.taps id))

/-- The heart of the visible screen is filled for a stored recipe. -/
def HeartShows (user : FirebaseUser) (visit : Visit) : Prop :=
  ∀ top ∈ visit.screens.head?,
    top.favButton = .selected ↔
      Stored user visit.database top.displayingRecipe.id

/-- A favourite was tapped never or an odd number of times, any other recipe
an even number of times. -/
def OnlyRemovals (user : FirebaseUser) (initial : Database)
    (visit : Visit) : Prop :=
  ∀ id,
    (Stored user initial id → visit.taps id = 0 ∨ Odd (visit.taps id)) ∧
      (¬ Stored user initial id → Even (visit.taps id))

/-- The recipe on the visible screen was no favourite, or was tapped. -/
def NotFavourite (user : FirebaseUser) (initial : Database)
    (visit : Visit) : Prop :=
  ∀ top ∈ visit.screens.head?,
    Stored user initial top.displayingRecipe.id →
      visit.taps top.displayingRecipe.id ≠ 0

/-- What every run maintains: hearts are empty, the visible screen belongs to
the user, and exactly the recipes that were tapped are gone. -/
structure Emptied (user : FirebaseUser) (initial : Database)
    (visit : Visit) : Prop where
  normal : ∀ screen ∈ visit.screens, screen.favButton = .normal
  current :
    ∀ top ∈ visit.screens.head?,
      top.currentUid = user.uid ∧ top.handle.isSome = true
  stored :
    ∀ id, Stored user visit.database id ↔
      Stored user initial id ∧ visit.taps id = 0

theorem start_emptied (user : FirebaseUser) (initial : Database) :
    Emptied user initial (start initial) where
  normal := by
    intro screen member
    cases member
  current := by
    intro top visible
    cases visible
  stored := by
    intro id
    exact (and_iff_left rfl).symm

theorem Emptied.hide {user : FirebaseUser} {initial : Database}
    {visit : Visit} (emptied : Emptied user initial visit)
    {top : RecipeDetailViewController}
    {rest : List RecipeDetailViewController}
    (shape : visit.screens = top :: rest) :
    ∃ hidden,
      top.viewWillDisappear = some hidden ∧
        hidden.favButton = .normal := by
  have visible : top ∈ visit.screens.head? := by
    rw [shape]
    rfl
  have member : top ∈ visit.screens := by
    rw [shape]
    exact List.mem_cons_self
  rcases viewWillDisappear_of_handle (emptied.current top visible).2 with
    ⟨hidden, gone, button⟩
  exact ⟨hidden, gone, button.trans (emptied.normal top member)⟩

/-- Showing other screens keeps the favourites as they are. -/
theorem Emptied.show {user : FirebaseUser} {initial : Database}
    {visit : Visit} (emptied : Emptied user initial visit)
    {opened : RecipeDetailViewController}
    {below : List RecipeDetailViewController}
    (openedNormal : opened.favButton = .normal)
    (belowNormal : ∀ screen ∈ below, screen.favButton = .normal) :
    Emptied user initial
      { visit with
        screens := opened.viewWillAppear (some user) :: below } where
  normal := by
    intro screen member
    rcases List.mem_cons.mp member with new | old
    · rw [new]
      exact openedNormal
    · exact belowNormal screen old
  current := by
    intro top visible
    cases visible
    have appeared := opened.viewWillAppear_some user
    exact ⟨appeared.1, appeared.2.1⟩
  stored := emptied.stored

theorem push_emptied {user : FirebaseUser} {initial : Database}
    {visit : Visit} {screen : RecipeDetailViewController}
    (emptied : Emptied user initial visit)
    (normal : screen.favButton = .normal) :
    ∃ next,
      visit.push user screen = some next ∧ Emptied user initial next := by
  cases shape : visit.screens with
  | nil =>
      refine ⟨_, by rw [push, shape], ?_⟩
      exact emptied.show normal (List.forall_mem_nil _)
  | cons top rest =>
      rcases emptied.hide shape with ⟨hidden, gone, hiddenNormal⟩
      refine ⟨_, by rw [push, shape]; simp only [gone]; rfl, ?_⟩
      apply emptied.show normal
      intro other member
      rcases List.mem_cons.mp member with last | older
      · rw [last]
        exact hiddenNormal
      · apply emptied.normal
        rw [shape]
        exact List.mem_cons_of_mem top older

theorem pop_emptied {user : FirebaseUser} {initial : Database}
    {visit : Visit} (emptied : Emptied user initial visit)
    (open_ : visit.screens ≠ []) :
    ∃ next, visit.pop user = some next ∧ Emptied user initial next := by
  rcases List.exists_cons_of_ne_nil open_ with ⟨top, rest, shape⟩
  rcases emptied.hide shape with ⟨hidden, gone, _⟩
  have below : ∀ screen ∈ rest, screen.favButton = .normal := by
    intro screen member
    apply emptied.normal
    rw [shape]
    exact List.mem_cons_of_mem top member
  cases rest with
  | nil =>
      refine ⟨_, by rw [pop, shape]; simp only [gone]; rfl, ?_⟩
      refine ⟨List.forall_mem_nil _, ?_, emptied.stored⟩
      intro last visible
      cases visible
  | cons next others =>
      refine ⟨_, by rw [pop, shape]; simp only [gone]; rfl, ?_⟩
      exact emptied.show (below next List.mem_cons_self) fun screen member =>
        below screen (List.mem_cons_of_mem next member)

theorem tap_of_normal {visit : Visit} {top : RecipeDetailViewController}
    {rest : List RecipeDetailViewController}
    (shape : visit.screens = top :: rest) (normal : top.favButton = .normal)
    (plain : FValidation.isPlain top.currentUid = true) :
    visit.tap =
      some
        { visit with
          database :=
            remove visit.database
              (favouritesPath top.currentUid ++
                [toString top.displayingRecipe.id])
          taps :=
            Function.update visit.taps top.displayingRecipe.id
              (visit.taps top.displayingRecipe.id + 1) } := by
  simp only [tap, shape, top.heartTapped_of_normal normal plain]
  rfl

/-- A tap removes the visible recipe, favourite or not. -/
theorem tap_emptied {user : FirebaseUser} {initial : Database}
    {visit : Visit} (plain : FValidation.isPlain user.uid = true)
    (emptied : Emptied user initial visit) (open_ : visit.screens ≠ []) :
    ∃ next, visit.tap = some next ∧ Emptied user initial next := by
  rcases List.exists_cons_of_ne_nil open_ with ⟨top, rest, shape⟩
  have visible : top ∈ visit.screens.head? := by
    rw [shape]
    rfl
  have normal := emptied.normal top (List.mem_of_mem_head? visible)
  have own := (emptied.current top visible).1
  have tapped := tap_of_normal shape normal (own ▸ plain)
  refine ⟨_, tapped, emptied.normal, emptied.current, ?_⟩
  intro id
  have before := emptied.stored id
  unfold Stored at *
  rw [own, exists_remove_child_iff]
  by_cases same : id = top.displayingRecipe.id
  · subst same
    simp
  · have different :
        toString id ≠ toString top.displayingRecipe.id := fun equal =>
      same (Decimal.toString_injective equal)
    dsimp only at before ⊢
    rw [Function.update_of_ne same, ← before]
    exact and_iff_right different

theorem tap_of_not_plain {user : FirebaseUser} {initial : Database}
    {visit : Visit} (special : FValidation.isPlain user.uid = false)
    (emptied : Emptied user initial visit) : visit.tap = none := by
  rcases visit with ⟨screens, database, taps⟩
  cases screens with
  | nil => rfl
  | cons top rest =>
      have own := (emptied.current top rfl).1
      have raised := top.heartTapped_of_not_plain (own ▸ special)
      simp only [tap, raised, Option.map_none]

/-- The event can be handled under the uid of the user. -/
def Allowed (user : FirebaseUser) (event : VisitEvent) : Prop :=
  event = .heartTapped → FValidation.isPlain user.uid = true

theorem step_emptied (user : FirebaseUser) (initial : Database)
    (visit : Visit) (event : VisitEvent)
    (emptied : Emptied user initial visit)
    (enabled : (machine user).enabled visit event)
    (allowed : Allowed user event) :
    ∃ next ∈ (machine user).step visit event,
      Emptied user initial next := by
  cases event with
  | openRecipe card photoURL =>
      exact push_emptied emptied rfl
  | back =>
      exact pop_emptied emptied enabled
  | heartTapped =>
      exact tap_emptied (allowed rfl) emptied enabled

theorem step_keeps_emptied (user : FirebaseUser) (initial : Database)
    (visit : Visit) (event : VisitEvent) (next : Visit)
    (emptied : Emptied user initial visit)
    (enabled : (machine user).enabled visit event)
    (handled : (machine user).step visit event = some next) :
    Emptied user initial next := by
  have allowed : Allowed user event := by
    rintro rfl
    by_contra special
    have raised : (machine user).step visit .heartTapped = none :=
      tap_of_not_plain (Bool.eq_false_iff.mpr special) emptied
    cases raised.symm.trans handled
  obtain ⟨other, same, kept⟩ :=
    step_emptied user initial visit event emptied enabled allowed
  cases Option.mem_unique same handled
  exact kept

/-! ## Whole runs -/

theorem Emptied.toggled_iff {user : FirebaseUser} {initial : Database}
    {visit : Visit} (emptied : Emptied user initial visit) :
    Toggled user initial visit ↔ OnlyRemovals user initial visit := by
  apply forall_congr'
  intro id
  rw [emptied.stored id]
  by_cases favourite : Stored user initial id
  · simp only [favourite, true_and, true_iff, forall_const,
      not_true_eq_false, false_implies, and_true]
    constructor
    · intro toggled
      by_cases even : Even (visit.taps id)
      · exact Or.inl (toggled.mpr even)
      · exact Or.inr (Nat.not_even_iff_odd.mp even)
    · intro taps
      rcases taps with never | odd
      · rw [never]
        exact iff_of_true rfl Even.zero
      · refine iff_of_false ?_ (Nat.not_even_iff_odd.mpr odd)
        intro never
        rw [never] at odd
        exact Nat.not_odd_zero odd
  · simp only [favourite, false_and, false_iff, false_implies,
      not_false_eq_true, forall_const, true_and, not_not]

theorem Emptied.heartShows_iff {user : FirebaseUser} {initial : Database}
    {visit : Visit} (emptied : Emptied user initial visit) :
    HeartShows user visit ↔ NotFavourite user initial visit := by
  apply forall_congr'
  intro top
  apply forall_congr'
  intro visible
  have normal := emptied.normal top (List.mem_of_mem_head? visible)
  rw [normal, emptied.stored]
  simp

/-- A run returns exactly when no heart is tapped or the uid of the user can
stand in a path. -/
theorem returns_iff (user : FirebaseUser) (initial : Database)
    {visit : Visit} {events : List VisitEvent}
    (emptied : Emptied user initial visit)
    (legal : (machine user).Legal visit events) :
    (∃ final, (machine user).run visit events = some final) ↔
      ∀ event ∈ events, Allowed user event := by
  induction events generalizing visit with
  | nil =>
      exact iff_of_true ⟨visit, rfl⟩ (List.forall_mem_nil _)
  | cons event rest inductionHypothesis =>
      rw [List.forall_mem_cons]
      constructor
      · rintro ⟨final, arrived⟩
        obtain ⟨next, handled, remaining⟩ :=
          Option.bind_eq_some_iff.mp arrived
        have kept := step_keeps_emptied user initial visit event next emptied
          legal.1 handled
        refine ⟨?_, (inductionHypothesis kept (legal.2 next handled)).mp
          ⟨final, remaining⟩⟩
        rintro rfl
        by_contra special
        have raised : (machine user).step visit .heartTapped = none :=
          tap_of_not_plain (Bool.eq_false_iff.mpr special) emptied
        cases raised.symm.trans handled
      · rintro ⟨allowed, others⟩
        obtain ⟨next, handled, kept⟩ :=
          step_emptied user initial visit event emptied legal.1 allowed
        obtain ⟨final, remaining⟩ :=
          (inductionHypothesis kept (legal.2 next handled)).mpr others
        refine ⟨final, ?_⟩
        rw [Machine.run, Option.mem_def.mp handled]
        exact remaining

/-- A run returns with the favourites toggled and the visible heart right
exactly when the uid of a user who taps can stand in a path, taps only ever
had to remove, and the visible recipe is not a favourite that was never
tapped. -/
theorem toggled_and_shown_iff (user : FirebaseUser) (initial : Database)
    (events : List VisitEvent)
    (legal : (machine user).Legal (start initial) events) :
    (∃ final,
        (machine user).run (start initial) events = some final ∧
          Toggled user initial final ∧ HeartShows user final) ↔
      (∀ event ∈ events, Allowed user event) ∧
        ∀ final, (machine user).run (start initial) events = some final →
          OnlyRemovals user initial final ∧
            NotFavourite user initial final := by
  have arrives := returns_iff user initial (start_emptied user initial) legal
  have exact_final (final : Visit)
      (arrived : (machine user).run (start initial) events = some final) :
      (Toggled user initial final ∧ HeartShows user final) ↔
        OnlyRemovals user initial final ∧ NotFavourite user initial final := by
    have emptied : Emptied user initial final :=
      Machine.invariant_of_run (step_keeps_emptied user initial)
        (start_emptied user initial) legal arrived
    exact and_congr emptied.toggled_iff emptied.heartShows_iff
  constructor
  · rintro ⟨final, arrived, meets⟩
    refine ⟨arrives.mp ⟨final, arrived⟩, ?_⟩
    intro other same
    cases arrived.symm.trans same
    exact (exact_final final arrived).mp meets
  · rintro ⟨allowed, meets⟩
    obtain ⟨final, arrived⟩ := arrives.mpr allowed
    exact ⟨final, arrived, (exact_final final arrived).mpr
      (meets final arrived)⟩

def ann : FirebaseUser :=
  { uid := "ann" }

def pancakes : RecipeCard :=
  { id := 7, title := "Pancakes", image := .imageLiteral "PocketChef",
    type := "breakfast" }

def soup : RecipeCard :=
  { id := 8, title := "Soup", image := .imageLiteral "PocketChef",
    type := "dinner" }

def lovesPancakes : Database :=
  setFields [] (favouritesPath "ann" ++ ["7"])
    (fields { displayingRecipe := pancakes })

/-- The favourite is tapped once, and the other recipe only looked at. -/
def oneTap : List VisitEvent :=
  [.openRecipe pancakes "", .heartTapped, .openRecipe soup ""]

/-- A screen that `user` has open. -/
def screenOf (user : FirebaseUser) (card : RecipeCard) :
    RecipeDetailViewController :=
  viewWillAppear { displayingRecipe := card } (some user)

/-- The recipe 7 is open. -/
def openedPancakes (user : FirebaseUser) (initial : Database) : Visit where
  screens := [screenOf user pancakes]
  database := initial
  taps := fun _ => 0

/-- The heart of the recipe 7 was tapped as well. -/
def tappedPancakes (user : FirebaseUser) (initial : Database) : Visit where
  screens := [screenOf user pancakes]
  database := remove initial (favouritesPath user.uid ++ [toString (7 : Int)])
  taps := Function.update (fun _ => 0) 7 1

theorem run_tappedPancakes {user : FirebaseUser} (initial : Database)
    (plain : FValidation.isPlain user.uid = true) (events : List VisitEvent) :
    (machine user).run (start initial)
        (.openRecipe pancakes "" :: .heartTapped :: events) =
      (machine user).run (tappedPancakes user initial) events := by
  have opens :
      (machine user).step (start initial) (.openRecipe pancakes "") =
        some (openedPancakes user initial) :=
    rfl
  have taps :
      (machine user).step (openedPancakes user initial) .heartTapped =
        some (tappedPancakes user initial) :=
    @tap_of_normal (openedPancakes user initial) (screenOf user pancakes) []
      rfl rfl plain
  rw [Machine.run, opens, Option.bind_some, Machine.run, taps,
    Option.bind_some]

theorem taps_of_ne {id : Int} (other : id ≠ 7) :
    Function.update (fun _ => 0) (7 : Int) 1 id = 0 :=
  Function.update_of_ne other 1 _

theorem toggled_pancakes :
    ∃ final,
      (machine ann).run (start lovesPancakes) oneTap = some final ∧
        Toggled ann lovesPancakes final ∧ HeartShows ann final := by
  have plain : FValidation.isPlain ann.uid = true := by
    decide
  refine (toggled_and_shown_iff ann lovesPancakes oneTap
    (by decide +kernel)).mpr ⟨fun _ _ _ => plain, ?_⟩
  intro final arrived
  rw [oneTap, run_tappedPancakes lovesPancakes plain] at arrived
  cases arrived
  constructor
  · intro id
    by_cases same : id = 7
    · subst same
      exact ⟨fun _ => Or.inr (by decide), fun absent =>
        absurd (by decide +kernel) absent⟩
    · have untouched := taps_of_ne same
      have even : Even (Function.update (fun _ => 0) (7 : Int) 1 id) := by
        rw [untouched]
        exact Even.zero
      exact ⟨fun _ => Or.inl untouched, fun _ => even⟩
  · intro top visible
    cases visible
    intro stored
    exact absurd stored (by decide +kernel)

def firstLove : List VisitEvent :=
  [.openRecipe pancakes "", .heartTapped]

/-- A user whose uid has a dot taps the heart of a recipe twice. -/
def dotted : FirebaseUser :=
  { uid := "a.b" }

def secondThoughts : List VisitEvent :=
  [.openRecipe pancakes "", .heartTapped, .heartTapped]

theorem never_stored :
    ((machine ann).Legal (start []) firstLove ∧
        ∀ final ∈ (machine ann).run (start []) firstLove,
          ¬ Toggled ann [] final) ∧
      (∀ final ∈ (machine ann).run (start lovesPancakes)
          [.openRecipe pancakes ""],
        ¬ HeartShows ann final) ∧
      (machine dotted).Legal (start []) secondThoughts ∧
        (machine dotted).run (start []) secondThoughts = none := by
  have legal : (machine dotted).Legal (start []) secondThoughts := by
    decide +kernel
  refine ⟨⟨by decide +kernel, ?_⟩, ?_, legal, ?_⟩
  · intro final arrived toggled
    rw [firstLove, run_tappedPancakes [] (by decide)] at arrived
    cases arrived
    exact absurd (toggled 7) (by decide +kernel)
  · intro final arrived shows
    cases arrived
    exact absurd (shows _ rfl) (by decide +kernel)
  · rw [← Option.not_isSome_iff_eq_none, Option.isSome_iff_exists,
      returns_iff dotted [] (start_emptied dotted []) legal]
    intro allowed
    have tapped := allowed .heartTapped (by decide) rfl
    exact absurd tapped (by decide)

end Visit
end RecipeDetailViewController
end PocketChef
