import PocketChef.Accounts.LoginViewController
import PocketChef.Library.Reactive
import PocketChef.Recipes.RecipeDetailViewController
import PocketChef.Shopping.ShoppingViewController

/-!
# Whose data is written

Three screens write to Firebase below a uid that each of them keeps.  The
recipe and shopping screens refresh it while they are visible and someone is
signed in; the frequent list keeps the uid it was opened with.  None of them
forgets a uid when its user signs out.  Under a uid with one of the characters
`.#$[]` a tap raises before it writes.
-/

namespace PocketChef
namespace Accounts

open Reactive Firebase FUtilities Issuing SavedLists
open RecipeDetailViewController

/-- The sign-in state and the screens that depend on it. -/
structure World where
  auth : Option FirebaseUser
  login : LoginViewController := {}
  settings : Option SettingsViewController := none
  details : List RecipeDetailViewController := []
  shopping : ShoppingViewController := {}
  frequent : Option FrequentListViewController := none

/-- The events `shoppingList` and `frequentList` stand for everything else
that changes the lists of the two screens. -/
inductive Event where
  | signIn (user : FirebaseUser)
  | signOut
  | loginAppears
  | loginDisappears
  | didSignIn (error : Option String)
  | settingsAppears
  | settingsDisappears
  | openDetail (card : RecipeCard) (photoURL : String)
  | detailAppears (position : Nat)
  | detailDisappears (position : Nat)
  | shoppingAppears
  | shoppingDisappears
  | shoppingList (list : List Ingredient)
  | openFrequentList
  | frequentList (list : List Ingredient)
  | heartTapped (position : Nat)
  | saveList
  | saveTapped
  | clearTapped

/-- The events that can write. -/
def Event.isTap : Event → Bool
  | .heartTapped _ => true
  | .saveList => true
  | .saveTapped => true
  | .clearTapped => true
  | _ => false

namespace World

def notifySettings (user : Option FirebaseUser) :
    Option SettingsViewController → Option (Option SettingsViewController)
  | none => some none
  | some settings => (settings.notify user).map some

/-- Every registered block runs with the new user. -/
def changeAuth (world : World) (user : Option FirebaseUser) :
    Option World := do
  let login ← world.login.notify user
  let settings ← notifySettings user world.settings
  some { world with
    auth := user
    login := login
    settings := settings
    details := world.details.map fun detail =>
      { detail with toAuthScreen := detail.toAuthScreen.notify user }
    shopping :=
      { world.shopping with
        toAuthScreen := world.shopping.toAuthScreen.notify user } }

def setDetail (world : World) (position : Nat)
    (detail : RecipeDetailViewController) : World :=
  { world with details := world.details.set position detail }

/-- The events that write nothing. -/
def advance (world : World) : Event → Option World
  | .signIn user => world.changeAuth (some user)
  | .signOut => world.changeAuth none
  | .loginAppears => do
      let login ← world.login.viewWillAppear world.auth
      some { world with login := login }
  | .loginDisappears => do
      let login ← world.login.viewWillDisappear
      some { world with login := login }
  | .didSignIn error => do
      let opened ← world.login.didSignIn error
      some { world with settings := opened.or world.settings }
  | .settingsAppears => do
      let settings ← world.settings
      let settings ← settings.viewWillAppear world.auth
      some { world with settings := some settings }
  | .settingsDisappears => do
      let settings ← world.settings
      let settings ← settings.viewWillDisappear
      some { world with settings := some settings }
  | .openDetail card photoURL =>
      some { world with
        details := world.details ++
          [{ displayingRecipe := card, photoURL := photoURL }] }
  | .detailAppears position => do
      let detail ← world.details[position]?
      some (world.setDetail position (detail.viewWillAppear world.auth))
  | .detailDisappears position => do
      let detail ← world.details[position]?
      let detail ← detail.viewWillDisappear
      some (world.setDetail position detail)
  | .shoppingAppears =>
      some { world with
        shopping :=
          { world.shopping with
            toAuthScreen :=
              world.shopping.toAuthScreen.viewWillAppear world.auth } }
  | .shoppingDisappears => do
      let screen ← world.shopping.toAuthScreen.viewWillDisappear
      some { world with
        shopping := { world.shopping with toAuthScreen := screen } }
  | .shoppingList list =>
      some { world with shopping := { world.shopping with list := list } }
  | .openFrequentList => do
      let settings ← world.settings
      let frequent ← settings.prepare
      some { world with frequent := some frequent }
  | .frequentList list =>
      some { world with
        frequent :=
          world.frequent.map fun frequent => { frequent with list := list } }
  | _ => some world

/-- What an event writes and what it leaves. -/
def perform (world : World) : Event → Effect Write World
  | .heartTapped position => do
      let detail ← Effect.check world.details[position]?
      detail.heartTapped
      return world
  | .saveList => do
      let _tab ← world.shopping.saveList
      return world
  | .saveTapped => do
      let frequent ← Effect.check world.frequent
      let frequent ← frequent.saveTapped
      return { world with frequent := some frequent }
  | .clearTapped => do
      let frequent ← Effect.check world.frequent
      let frequent ← frequent.clearTapped
      return { world with frequent := some frequent }
  | event => Effect.check (world.advance event)

/-- Screens appear and disappear in turn, and only what is visible can be
tapped.  Users sign in and out at any time. -/
def machine : Machine World Event where
  enabled
    | world, .loginAppears => ¬ world.login.Listening
    | world, .loginDisappears => world.login.Listening
    | world, .settingsAppears =>
        ∃ settings ∈ world.settings, ¬ settings.Listening
    | world, .settingsDisappears =>
        ∃ settings ∈ world.settings, settings.Listening
    | world, .detailAppears position =>
        ∃ detail ∈ world.details[position]?, ¬ detail.Listening
    | world, .detailDisappears position =>
        ∃ detail ∈ world.details[position]?, detail.Listening
    | world, .shoppingAppears => ¬ world.shopping.Listening
    | world, .shoppingDisappears => world.shopping.Listening
    | world, .openFrequentList => world.settings ≠ none
    | world, .heartTapped position =>
        ∃ detail ∈ world.details[position]?, detail.Listening
    | world, .saveList => world.shopping.Listening
    | world, .saveTapped => world.frequent ≠ none
    | world, .clearTapped => world.frequent ≠ none
    | _, _ => True
  step world event := (world.perform event).result

/-- The path is `<collection>/<uid>`, or lies below it, for the user who is
signed in. -/
def Confined (auth : Option FirebaseUser) : Path → Prop
  | [] => False
  | _ :: rest => ∃ user ∈ auth, pathWithString user.uid <+: rest

/-- Every write that the event issues is confined to the user who is signed in
at that moment. -/
def WritesConfined (world : World) (event : Event) : Prop :=
  ∀ write ∈ (world.perform event).issued, Confined world.auth write.path

/-- The uid names the node of the user who is signed in, or one below it. -/
def Owns (auth : Option FirebaseUser) (uid : String) : Prop :=
  ∃ user ∈ auth, pathWithString user.uid <+: pathWithString uid

/-- Hearts are tapped while someone is signed in; the shopping list is saved
while someone is signed in, or has no uid or nothing to save; the frequent
list is saved and cleared while its own user is signed in.  A screen whose uid
cannot stand in a path may be tapped at any time. -/
def TapsAuthorized (world : World) : Event → Prop
  | .heartTapped position => ∀ detail ∈ world.details[position]?,
      FValidation.isPlain detail.currentUid = true → world.auth ≠ none
  | .saveList =>
      FValidation.isPlain world.shopping.currentUid = true →
        world.auth ≠ none ∨ world.shopping.currentUid = "" ∨
          world.shopping.list = []
  | .saveTapped => ∀ frequent ∈ world.frequent,
      FValidation.isPlain frequent.currentUid = true →
        Owns world.auth frequent.currentUid
  | .clearTapped => ∀ frequent ∈ world.frequent,
      FValidation.isPlain frequent.currentUid = true →
        Owns world.auth frequent.currentUid
  | _ => True

/-- The uids of visible screens are those of the user who is signed in, and
no heart is filled. -/
structure Current (world : World) : Prop where
  details : ∀ detail ∈ world.details,
    AuthScreen.Current world.auth detail.toAuthScreen
  shopping : AuthScreen.Current world.auth world.shopping.toAuthScreen
  normal : ∀ detail ∈ world.details, detail.favButton = .normal

instance (auth : Option FirebaseUser) : DecidablePred (Confined auth)
  | [] => inferInstanceAs (Decidable False)
  | _ :: rest => inferInstanceAs <|
      Decidable (∃ user ∈ auth, pathWithString user.uid <+: rest)

instance (world : World) : DecidablePred (WritesConfined world) :=
  fun event => inferInstanceAs <| Decidable <|
    ∀ write ∈ (world.perform event).issued, Confined world.auth write.path

instance (auth : Option FirebaseUser) : DecidablePred (Owns auth) :=
  fun uid => inferInstanceAs <| Decidable <|
    ∃ user ∈ auth, pathWithString user.uid <+: pathWithString uid

instance (world : World) : DecidablePred (TapsAuthorized world)
  | .heartTapped position => inferInstanceAs <| Decidable <|
      ∀ detail ∈ world.details[position]?,
        FValidation.isPlain detail.currentUid = true → ¬ (world.auth = none)
  | .saveList =>
      inferInstanceAs (Decidable (_ = _ → ¬ (_ = _) ∨ _ = _ ∨ _ = _))
  | .saveTapped | .clearTapped => inferInstanceAs <| Decidable <|
      ∀ frequent ∈ world.frequent,
        FValidation.isPlain frequent.currentUid = true →
          Owns world.auth frequent.currentUid
  | .signIn _ | .signOut | .loginAppears | .loginDisappears | .didSignIn _
  | .settingsAppears | .settingsDisappears | .openDetail _ _
  | .detailAppears _ | .detailDisappears _ | .shoppingAppears
  | .shoppingDisappears | .shoppingList _ | .openFrequentList
  | .frequentList _ => inferInstanceAs (Decidable True)

instance (world : World) : DecidablePred (machine.enabled world)
  | .loginAppears => inferInstanceAs (Decidable (¬ world.login.Listening))
  | .loginDisappears => inferInstanceAs (Decidable world.login.Listening)
  | .settingsAppears => inferInstanceAs <| Decidable <|
      ∃ settings ∈ world.settings, ¬ settings.Listening
  | .settingsDisappears => inferInstanceAs <| Decidable <|
      ∃ settings ∈ world.settings, settings.Listening
  | .detailAppears position => inferInstanceAs <| Decidable <|
      ∃ detail ∈ world.details[position]?, ¬ detail.Listening
  | .detailDisappears position | .heartTapped position =>
      inferInstanceAs <| Decidable <|
        ∃ detail ∈ world.details[position]?, detail.Listening
  | .shoppingAppears =>
      inferInstanceAs (Decidable (¬ world.shopping.Listening))
  | .shoppingDisappears | .saveList =>
      inferInstanceAs (Decidable world.shopping.Listening)
  | .openFrequentList => inferInstanceAs (Decidable (world.settings ≠ none))
  | .saveTapped | .clearTapped =>
      inferInstanceAs (Decidable (world.frequent ≠ none))
  | .signIn _ | .signOut | .didSignIn _ | .openDetail _ _ | .shoppingList _
  | .frequentList _ => inferInstanceAs (Decidable True)

/-! ## The uids of visible screens -/

theorem changeAuth_current {world next : World} {user : Option FirebaseUser}
    (current : world.Current)
    (changed : world.changeAuth user = some next) : next.Current := by
  rcases Option.bind_eq_some_iff.mp changed with ⟨login, _, rest⟩
  rcases Option.bind_eq_some_iff.mp rest with ⟨settings, _, same⟩
  cases same
  constructor
  · intro detail member
    rcases List.mem_map.mp member with ⟨before, _, rfl⟩
    exact AuthScreen.notify_current _ user
  · exact AuthScreen.notify_current _ user
  · intro detail member
    rcases List.mem_map.mp member with ⟨before, old, rfl⟩
    exact current.normal before old

theorem Current.setDetail {world : World} (current : world.Current)
    (position : Nat) {detail : RecipeDetailViewController}
    (fresh : AuthScreen.Current world.auth detail.toAuthScreen)
    (normal : detail.favButton = .normal) :
    (world.setDetail position detail).Current where
  details := by
    intro other member
    rcases List.mem_or_eq_of_mem_set member with old | rfl
    · exact current.details other old
    · exact fresh
  shopping := current.shopping
  normal := by
    intro other member
    rcases List.mem_or_eq_of_mem_set member with old | rfl
    · exact current.normal other old
    · exact normal

theorem Current.advance {world next : World} {event : Event}
    (current : world.Current) (handled : world.advance event = some next) :
    next.Current := by
  cases event with
  | signIn user => exact changeAuth_current current handled
  | signOut => exact changeAuth_current current handled
  | loginAppears =>
      rcases Option.bind_eq_some_iff.mp handled with ⟨login, _, same⟩
      cases same
      exact ⟨current.details, current.shopping, current.normal⟩
  | loginDisappears =>
      rcases Option.bind_eq_some_iff.mp handled with ⟨login, _, same⟩
      cases same
      exact ⟨current.details, current.shopping, current.normal⟩
  | didSignIn error =>
      rcases Option.bind_eq_some_iff.mp handled with ⟨opened, _, same⟩
      cases same
      exact ⟨current.details, current.shopping, current.normal⟩
  | settingsAppears =>
      rcases Option.bind_eq_some_iff.mp handled with ⟨before, _, rest⟩
      rcases Option.bind_eq_some_iff.mp rest with ⟨settings, _, same⟩
      cases same
      exact ⟨current.details, current.shopping, current.normal⟩
  | settingsDisappears =>
      rcases Option.bind_eq_some_iff.mp handled with ⟨before, _, rest⟩
      rcases Option.bind_eq_some_iff.mp rest with ⟨settings, _, same⟩
      cases same
      exact ⟨current.details, current.shopping, current.normal⟩
  | openDetail card photoURL =>
      cases handled
      refine ⟨?_, current.shopping, ?_⟩
      · intro detail member
        rcases List.mem_append.mp member with old | opened
        · exact current.details detail old
        · -- a screen that has not appeared does not listen
          rw [List.mem_singleton.mp opened]
          intro listening
          cases listening
      · intro detail member
        rcases List.mem_append.mp member with old | opened
        · exact current.normal detail old
        · rw [List.mem_singleton.mp opened]
  | detailAppears position =>
      rcases Option.bind_eq_some_iff.mp handled with ⟨detail, shown, same⟩
      cases same
      have normal := current.normal detail (List.mem_of_getElem? shown)
      exact current.setDetail position
        (AuthScreen.viewWillAppear_current _ world.auth) normal
  | detailDisappears position =>
      rcases Option.bind_eq_some_iff.mp handled with ⟨detail, shown, rest⟩
      rcases Option.bind_eq_some_iff.mp rest with ⟨hidden, gone, same⟩
      cases same
      rcases Option.map_eq_some_iff.mp gone with ⟨screen, disappeared, rfl⟩
      have normal := current.normal detail (List.mem_of_getElem? shown)
      exact current.setDetail position
        (AuthScreen.viewWillDisappear_current world.auth disappeared) normal
  | shoppingAppears =>
      cases handled
      exact ⟨current.details,
        AuthScreen.viewWillAppear_current _ world.auth, current.normal⟩
  | shoppingDisappears =>
      rcases Option.bind_eq_some_iff.mp handled with
        ⟨screen, disappeared, same⟩
      cases same
      exact ⟨current.details,
        AuthScreen.viewWillDisappear_current world.auth disappeared,
        current.normal⟩
  | shoppingList list =>
      cases handled
      exact ⟨current.details, current.shopping, current.normal⟩
  | openFrequentList =>
      rcases Option.bind_eq_some_iff.mp handled with ⟨settings, _, rest⟩
      rcases Option.bind_eq_some_iff.mp rest with ⟨frequent, _, same⟩
      cases same
      exact ⟨current.details, current.shopping, current.normal⟩
  | frequentList list =>
      cases handled
      exact ⟨current.details, current.shopping, current.normal⟩
  | _ =>
      cases handled
      exact current

/-! ## What the writing events write -/

theorem perform_of_not_isTap (world : World) {event : Event}
    (silent : event.isTap = false) :
    world.perform event = Effect.check (world.advance event) := by
  cases event with
  | heartTapped | saveList | saveTapped | clearTapped => cases silent
  | _ => rfl

theorem perform_heartTapped_issued {world : World} {position : Nat}
    {detail : RecipeDetailViewController}
    (shown : world.details[position]? = some detail) :
    (world.perform (.heartTapped position)).issued =
      detail.heartTapped.issued := by
  change (Effect.check world.details[position]? >>= _).issued = _
  rw [shown, Effect.check_some_bind]
  exact Effect.issued_bind_pure detail.heartTapped fun _ => world

theorem perform_saveList_issued (world : World) :
    (world.perform .saveList).issued = world.shopping.saveList.issued :=
  Effect.issued_bind_pure world.shopping.saveList fun _tab => world

theorem perform_saveTapped_issued {world : World}
    {frequent : FrequentListViewController}
    (opened : world.frequent = some frequent) :
    (world.perform .saveTapped).issued = frequent.saveTapped.issued := by
  change (Effect.check world.frequent >>= _).issued = _
  rw [opened, Effect.check_some_bind]
  exact Effect.issued_bind_pure _ _

theorem perform_clearTapped_issued {world : World}
    {frequent : FrequentListViewController}
    (opened : world.frequent = some frequent) :
    (world.perform .clearTapped).issued = frequent.clearTapped.issued := by
  change (Effect.check world.frequent >>= _).issued = _
  rw [opened, Effect.check_some_bind]
  exact Effect.issued_bind_pure _ _

/-- A button of the frequent list changes nothing but its screen. -/
theorem Current.frequentTapped {world next : World} (current : world.Current)
    (tapped : FrequentListViewController →
      Effect Write FrequentListViewController)
    (handled :
      (Effect.check world.frequent >>= fun frequent =>
        tapped frequent >>= fun after =>
          pure { world with frequent := some after }).result =
        some next) :
    next.Current := by
  rw [Effect.result_bind] at handled
  rcases Option.bind_eq_some_iff.mp handled with ⟨frequent, _, rest⟩
  rw [Effect.result_bind] at rest
  rcases Option.bind_eq_some_iff.mp rest with ⟨after, _, same⟩
  cases same
  exact ⟨current.details, current.shopping, current.normal⟩

theorem Current.step {world next : World} {event : Event}
    (current : world.Current)
    (handled : (world.perform event).result = some next) :
    next.Current := by
  by_cases tap : event.isTap = true
  · cases event with
    | heartTapped position =>
        change (Effect.check world.details[position]? >>= _).result = _
          at handled
        rw [Effect.result_bind] at handled
        rcases Option.bind_eq_some_iff.mp handled with ⟨detail, _, rest⟩
        rw [Effect.result_bind] at rest
        rcases Option.bind_eq_some_iff.mp rest with ⟨_, _, same⟩
        cases same
        exact current
    | saveList =>
        change (world.shopping.saveList >>= _).result = _ at handled
        rw [Effect.result_bind] at handled
        rcases Option.bind_eq_some_iff.mp handled with ⟨tab, _, same⟩
        cases same
        exact current
    | saveTapped =>
        exact current.frequentTapped FrequentListViewController.saveTapped
          handled
    | clearTapped =>
        exact current.frequentTapped FrequentListViewController.clearTapped
          handled
    | _ => cases tap
  · rw [perform_of_not_isTap world (Bool.not_eq_true _ ▸ tap)] at handled
    exact current.advance handled

/-! ## When the writes are confined -/

section Exactness

variable {world : World}

/-- A listening screen whose user is signed in writes below its own node. -/
theorem confined_of_listening {screen : AuthScreen}
    (current : screen.Current world.auth) (listening : screen.Listening)
    (collection : String) (rest : Path) :
    Confined world.auth
        (collection :: (pathWithString screen.currentUid ++ rest)) ↔
      world.auth ≠ none := by
  constructor
  · intro confined absent
    rcases confined with ⟨user, signedIn, _⟩
    rw [absent] at signedIn
    cases signedIn
  · intro someone
    rcases Option.ne_none_iff_exists'.mp someone with ⟨user, signedIn⟩
    refine ⟨user, signedIn, ?_⟩
    rw [current listening user signedIn]
    exact List.prefix_append _ rest

theorem heartTapped_confined_iff {position : Nat} (current : world.Current)
    (visible : machine.enabled world (.heartTapped position)) :
    WritesConfined world (.heartTapped position) ↔
      world.TapsAuthorized (.heartTapped position) := by
  rcases visible with ⟨detail, shown, listening⟩
  have found := List.mem_of_getElem? (Option.mem_def.mp shown)
  rw [WritesConfined, perform_heartTapped_issued shown]
  simp only [TapsAuthorized, Option.mem_def.mp shown, Option.mem_some_iff,
    forall_eq']
  by_cases plain : FValidation.isPlain detail.currentUid = true
  · rw [detail.heartTapped_of_normal (current.normal detail found) plain,
      Effect.issue, List.forall_mem_singleton]
    have exact_write := confined_of_listening (current.details detail found)
      listening "FavRecipes" [toString detail.displayingRecipe.id]
    exact exact_write.trans ⟨fun someone _ => someone, fun able => able plain⟩
  · have special := Bool.eq_false_iff.mpr plain
    rw [detail.heartTapped_of_not_plain special]
    exact iff_of_true (List.forall_mem_nil _) fun able => absurd able plain

theorem saveList_confined_iff (current : world.Current)
    (visible : world.shopping.Listening) :
    WritesConfined world .saveList ↔ world.TapsAuthorized .saveList := by
  rw [WritesConfined, perform_saveList_issued]
  by_cases unknown : world.shopping.currentUid = ""
  · rw [ShoppingViewController.saveList_of_no_uid _ unknown]
    exact iff_of_true (List.forall_mem_nil _) fun _ => .inr (.inl unknown)
  by_cases empty : world.shopping.list = []
  · rw [ShoppingViewController.saveList_of_nil _ unknown empty]
    exact iff_of_true (List.forall_mem_nil _) fun _ => .inr (.inr empty)
  by_cases plain : FValidation.isPlain world.shopping.currentUid = true
  · rw [ShoppingViewController.saveList_of_ne_nil _ unknown plain empty]
    have below (index : Nat) :=
      confined_of_listening current.shopping visible "SavedLists" [key index]
    constructor
    · intro confined _
      -- the first entry is written
      rcases List.exists_cons_of_ne_nil empty with ⟨first, others, entries⟩
      rw [entries] at confined
      exact .inl ((below 0).mp (confined _ List.mem_cons_self))
    · intro allowed write member
      have someone :=
        (allowed plain).resolve_right (not_or.mpr ⟨unknown, empty⟩)
      rcases path_of_mem_entryWrites member with ⟨index, path⟩
      rw [path]
      exact (below index).mpr someone
  · have special := Bool.eq_false_iff.mpr plain
    rw [ShoppingViewController.saveList_of_not_plain _ unknown special]
    exact iff_of_true (List.forall_mem_nil _) fun able => absurd able plain

theorem Owns.confined {uid : String} (owns : Owns world.auth uid)
    (rest : Path) : Confined world.auth (listPath uid ++ rest) := by
  rcases owns with ⟨user, signedIn, own⟩
  exact ⟨user, signedIn, own.trans (List.prefix_append _ rest)⟩

/-- For uids without a slash, only the user's own uid will do. -/
theorem owns_iff_of_plain {user : FirebaseUser} {uid : String}
    (plainUser : '/' ∉ user.uid.toList) (plain : '/' ∉ uid.toList) :
    Owns (some user) uid ↔ uid = user.uid := by
  have single := pathWithString_single user.uid_ne plainUser
  constructor
  · intro owns
    rcases owns with ⟨owner, signedIn, own⟩
    cases signedIn
    rw [single] at own
    by_cases empty : uid = ""
    · rw [empty, pathWithString_empty] at own
      cases List.prefix_nil.mp own
    · rw [pathWithString_single empty plain] at own
      exact (List.head_eq_of_cons_eq (own.eq_of_length rfl)).symm
  · intro same
    refine ⟨user, rfl, ?_⟩
    rw [same]

variable {frequent : FrequentListViewController}

theorem saveTapped_confined_iff (opened : world.frequent = some frequent) :
    WritesConfined world .saveTapped ↔
      (FValidation.isPlain frequent.currentUid = true →
        Owns world.auth frequent.currentUid) := by
  rw [WritesConfined, perform_saveTapped_issued opened]
  by_cases plain : FValidation.isPlain frequent.currentUid = true
  · rw [forall_prop_of_true plain, frequent.saveTapped_eq plain,
      List.forall_mem_cons]
    constructor
    · intro confined
      exact confined.1
    · intro owns
      refine ⟨owns, ?_⟩
      intro write member
      rcases path_of_mem_writeEntries member with ⟨index, path⟩
      rw [path]
      exact owns.confined [key index]
  · have special := Bool.eq_false_iff.mpr plain
    rw [frequent.saveTapped_of_not_plain special]
    exact iff_of_true (List.forall_mem_nil _) fun able => absurd able plain

theorem clearTapped_confined_iff (opened : world.frequent = some frequent) :
    WritesConfined world .clearTapped ↔
      (FValidation.isPlain frequent.currentUid = true →
        Owns world.auth frequent.currentUid) := by
  rw [WritesConfined, perform_clearTapped_issued opened]
  by_cases plain : FValidation.isPlain frequent.currentUid = true
  · rw [forall_prop_of_true plain, frequent.clearTapped_eq plain,
      List.forall_mem_singleton]
    exact Iff.rfl
  · have special := Bool.eq_false_iff.mpr plain
    rw [frequent.clearTapped_of_not_plain special]
    exact iff_of_true (List.forall_mem_nil _) fun able => absurd able plain

theorem writesConfined_iff {event : Event} (current : world.Current)
    (enabled : machine.enabled world event) :
    WritesConfined world event ↔ TapsAuthorized world event := by
  by_cases tap : event.isTap = true
  · cases event with
    | heartTapped position =>
        exact heartTapped_confined_iff current enabled
    | saveList =>
        exact saveList_confined_iff current enabled
    | saveTapped =>
        rcases Option.ne_none_iff_exists'.mp enabled with ⟨frequent, opened⟩
        rw [saveTapped_confined_iff opened]
        simp [TapsAuthorized, opened]
    | clearTapped =>
        rcases Option.ne_none_iff_exists'.mp enabled with ⟨frequent, opened⟩
        rw [clearTapped_confined_iff opened]
        simp [TapsAuthorized, opened]
    | _ => cases tap
  · have silent : event.isTap = false := Bool.not_eq_true _ ▸ tap
    have nothing : (world.perform event).issued = [] := by
      rw [perform_of_not_isTap world silent]
      rfl
    rw [WritesConfined, nothing]
    refine iff_of_true (List.forall_mem_nil _) ?_
    cases event with
    | heartTapped | saveList | saveTapped | clearTapped => cases silent
    | _ => trivial

end Exactness

/-! ## Whole runs -/

def start (auth : Option FirebaseUser) : World :=
  { auth := auth }

theorem start_current (auth : Option FirebaseUser) : (start auth).Current where
  details := by
    intro detail member
    cases member
  shopping := by
    intro listening
    cases listening
  normal := by
    intro detail member
    cases member

/-- The writes of a run are confined exactly when each tap that writes finds
its user signed in. -/
theorem eachStep_writesConfined_iff (auth : Option FirebaseUser)
    {events : List Event} (legal : machine.Legal (start auth) events) :
    machine.EachStep WritesConfined (start auth) events ↔
      machine.EachStep TapsAuthorized (start auth) events := by
  exact Machine.eachStep_congr
    (fun _ _ _ current _ handled => Current.step current handled)
    (fun _ _ current enabled => writesConfined_iff current enabled)
    (start_current auth) legal

def amy : FirebaseUser :=
  { uid := "amy", displayName := some "Amy", email := some "amy@a" }

def bob : FirebaseUser :=
  { uid := "bob", displayName := some "Bob", email := some "bob@b" }

def tea : RecipeCard :=
  { id := 7, title := "Tea", image := .imageLiteral "PocketChef"
    type := "drink" }

def opened (user : FirebaseUser) : List Event :=
  [.loginAppears, .signIn user, .didSignIn none, .loginDisappears,
    .settingsAppears, .openFrequentList, .settingsDisappears]

/-- Amy uses all three screens, and bob after her the recipe screen. -/
def evening : List Event :=
  opened amy ++
    [.frequentList [.flour], .saveTapped, .openDetail tea "",
      .detailAppears 0, .heartTapped 0, .shoppingAppears,
      .shoppingList [.milk], .saveList, .signOut, .signIn bob,
      .heartTapped 0]

theorem confined_evening :
    machine.EachStep WritesConfined (start none) evening :=
  (eachStep_writesConfined_iff none (by decide +kernel)).mpr
    (by decide +kernel)

def early : List Event :=
  [.openDetail tea "", .detailAppears 0, .heartTapped 0]

/-- The shopping list is saved after its user has signed out. -/
def late : List Event :=
  [.shoppingAppears, .signIn amy, .shoppingList [.milk], .signOut,
    .saveList]

/-- The frequent list of one user is cleared while another is signed in. -/
def stale : List Event :=
  opened amy ++ [.signOut, .signIn bob, .clearTapped]

theorem not_confined :
    (machine.Legal (start none) early ∧
        ¬ machine.EachStep WritesConfined (start none) early) ∧
      (machine.Legal (start none) late ∧
        ¬ machine.EachStep WritesConfined (start none) late) ∧
      machine.Legal (start none) stale ∧
        ¬ machine.EachStep WritesConfined (start none) stale := by
  decide +kernel

end World
end Accounts
end PocketChef
