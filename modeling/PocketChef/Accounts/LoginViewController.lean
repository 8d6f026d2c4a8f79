import PocketChef.Firebase.Auth
import PocketChef.SavedLists.FrequentListViewController

/-!
# Login and settings

`LoginViewController` waits for the user who signs in and hands a copy over to
`SettingsViewController`, which hands the uid on to the frequent list.  Both
screens follow the sign-in state while they are visible; their blocks unwrap
fields that a user may lack, and `none` is the trap.
-/

namespace PocketChef

/-- The app's own copy of a user. -/
structure User where
  user_ID : String
  name : String
  email : String
  deriving DecidableEq

structure LoginViewController where
  currentUser : Option User := none
  handle : Option AuthStateDidChangeListenerHandle := none
  deriving DecidableEq

structure SettingsViewController where
  currentUser : Option User := none
  handle : Option AuthStateDidChangeListenerHandle := none
  deriving DecidableEq

namespace LoginViewController

def Listening (self : LoginViewController) : Prop :=
  self.handle = some ⟨true⟩

instance : DecidablePred Listening := fun _ =>
  inferInstanceAs (Decidable (_ = _))

/-- The listener's block, with `displayName!` and `email!`. -/
def stateDidChange (self : LoginViewController) :
    Option FirebaseUser → Option LoginViewController
  | none => some self
  | some user => do
      let name ← user.displayName
      let email ← user.email
      some { self with
        currentUser :=
          some { user_ID := user.uid, name := name, email := email } }

def notify (self : LoginViewController) (user : Option FirebaseUser) :
    Option LoginViewController :=
  if self.Listening then self.stateDidChange user else some self

def viewWillAppear (self : LoginViewController)
    (user : Option FirebaseUser) : Option LoginViewController :=
  { self with handle := some ⟨true⟩ }.stateDidChange user

def viewWillDisappear (self : LoginViewController) :
    Option LoginViewController :=
  self.handle.map fun _ => { self with handle := some ⟨false⟩ }

/-- `prepare(for:sender:)` of the segue `ToSettings`, with `currentUser!`. -/
def prepare (self : LoginViewController) : Option SettingsViewController :=
  self.currentUser.map fun user => { currentUser := some user }

/-- `authUI(_:didSignInWith:error:)`: the settings screen, if the segue is
performed.  Without an error and without a user, `error!` traps. -/
def didSignIn (self : LoginViewController) (error : Option String) :
    Option (Option SettingsViewController) :=
  if error = none ∧ self.currentUser ≠ none then
    self.prepare.map some
  else
    error.map fun _ => none

end LoginViewController

namespace SettingsViewController

def Listening (self : SettingsViewController) : Prop :=
  self.handle = some ⟨true⟩

instance : DecidablePred Listening := fun _ =>
  inferInstanceAs (Decidable (_ = _))

/-- The listener's block, with `email!`. -/
def stateDidChange (self : SettingsViewController) :
    Option FirebaseUser → Option SettingsViewController
  | none => some self
  | some user => do
      let email ← user.email
      some { self with
        currentUser :=
          some { user_ID := user.uid, name := user.displayName.getD ""
                 email := email } }

def notify (self : SettingsViewController) (user : Option FirebaseUser) :
    Option SettingsViewController :=
  if self.Listening then self.stateDidChange user else some self

def viewWillAppear (self : SettingsViewController)
    (user : Option FirebaseUser) : Option SettingsViewController :=
  { self with handle := some ⟨true⟩ }.stateDidChange user

def viewWillDisappear (self : SettingsViewController) :
    Option SettingsViewController :=
  self.handle.map fun _ => { self with handle := some ⟨false⟩ }

/-- `prepare(for:sender:)` for the frequent list; `currentUser` is implicitly
unwrapped. -/
def prepare (self : SettingsViewController) :
    Option FrequentListViewController :=
  self.currentUser.map fun user => { currentUid := user.user_ID }

end SettingsViewController
end PocketChef
