import Mathlib.Data.Option.Basic

/-!
# Signing in, and the screens that follow it

`Auth.auth()` holds the user who is signed in.  A screen registers a block in
`viewWillAppear` and removes it in `viewWillDisappear`.  The block runs at
once with the current user, or with `nil`, and again on each change until it
is removed; it copies the uid of a user and ignores `nil`.
-/

namespace PocketChef

/-- A user of `FirebaseAuth`, of whom the screens read three fields. -/
structure FirebaseUser where
  uid : String
  displayName : Option String := none
  email : Option String := none
  uid_ne : uid ≠ "" := by decide

/-- What `addStateDidChangeListener` returns; the flag is cleared when the
block is removed. -/
structure AuthStateDidChangeListenerHandle where
  registered : Bool
  deriving DecidableEq

/-- The part that `RecipeDetailViewController` and `ShoppingViewController`
have in common: both register the same block. -/
structure AuthScreen where
  currentUid : String := ""
  handle : Option AuthStateDidChangeListenerHandle := none
  deriving DecidableEq

namespace AuthScreen

/-- The block is registered, that is, the screen is visible. -/
def Listening (screen : AuthScreen) : Prop :=
  screen.handle = some ⟨true⟩

instance : DecidablePred Listening := fun _ =>
  inferInstanceAs (Decidable (_ = _))

def stateDidChange (screen : AuthScreen) : Option FirebaseUser → AuthScreen
  | none => screen
  | some user => { screen with currentUid := user.uid }

/-- A change of the signed-in user reaches the block while it is
registered. -/
def notify (screen : AuthScreen) (user : Option FirebaseUser) : AuthScreen :=
  if screen.Listening then screen.stateDidChange user else screen

def viewWillAppear (screen : AuthScreen) (user : Option FirebaseUser) :
    AuthScreen :=
  { screen with handle := some ⟨true⟩ }.stateDidChange user

/-- `handle!` traps on a screen that never registered. -/
def viewWillDisappear (screen : AuthScreen) : Option AuthScreen :=
  screen.handle.map fun _ => { screen with handle := some ⟨false⟩ }

/-- While a screen listens and a user is signed in, the copy of the uid is
up to date. -/
def Current (user : Option FirebaseUser) (screen : AuthScreen) : Prop :=
  screen.Listening → ∀ signedIn ∈ user, screen.currentUid = signedIn.uid

/-- Whoever signs in or out, a listening screen follows. -/
theorem notify_current (screen : AuthScreen) (user : Option FirebaseUser) :
    (screen.notify user).Current user := by
  unfold notify
  split
  · intro _ signedIn present
    rw [Option.mem_def.mp present]
    rfl
  · rename_i silent
    intro listening
    exact absurd listening silent

theorem viewWillAppear_current
    (screen : AuthScreen) (user : Option FirebaseUser) :
    (screen.viewWillAppear user).Current user := by
  intro _ signedIn present
  rw [Option.mem_def.mp present]
  rfl

theorem viewWillDisappear_current {screen gone : AuthScreen}
    (user : Option FirebaseUser)
    (disappeared : screen.viewWillDisappear = some gone) :
    gone.Current user := by
  unfold viewWillDisappear at disappeared
  rw [Option.map_eq_some_iff] at disappeared
  obtain ⟨handle, _, rfl⟩ := disappeared
  intro listening
  cases listening

end AuthScreen
end PocketChef
