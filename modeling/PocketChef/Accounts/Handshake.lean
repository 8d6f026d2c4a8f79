import PocketChef.Accounts.LoginViewController
import PocketChef.Library.Reactive

/-!
# The login handshake

Two callbacks tell the login screen about a sign-in: the listener's block,
which copies the user, and `authUI(_:didSignInWith:error:)`, which hands the
copy over to the settings screen.  They come in any order, the block only
between appearing and disappearing, and the copy outlives a sign-out.
-/

namespace PocketChef
namespace LoginViewController

open Reactive

/-- The login screen and the sign-in state.  `heard` is the user whom the
block last received. -/
structure Handshake where
  auth : Option FirebaseUser
  login : LoginViewController := {}
  heard : Option FirebaseUser := none

/-- `viewWillAppear` carries the first call of the block; where that call
comes later, its user is `none` and a `stateDidChange` follows. -/
inductive HandshakeEvent where
  | signIn (user : FirebaseUser)
  | unwindToLogin (error : Option String)
  | viewWillAppear (called : Option FirebaseUser)
  | viewWillDisappear
  | stateDidChange (called : Option FirebaseUser)
  | didSignIn (error : Option String)

namespace Handshake

/-- A call of the block. -/
def hear (handshake : Handshake) (called : Option FirebaseUser)
    (login : LoginViewController) : Handshake :=
  { handshake with login := login, heard := called.or handshake.heard }

/-- The next state and the settings screen that a segue opens. -/
def perform (handshake : Handshake) :
    HandshakeEvent → Option (Handshake × Option SettingsViewController)
  | .signIn user => some ({ handshake with auth := some user }, none)
  | .unwindToLogin error =>
      -- `signOut` throws and changes nothing, or signs out
      match error with
      | some _ => some (handshake, none)
      | none => some ({ handshake with auth := none }, none)
  | .viewWillAppear called => do
      let login ← handshake.login.viewWillAppear called
      some (handshake.hear called login, none)
  | .viewWillDisappear => do
      let login ← handshake.login.viewWillDisappear
      some ({ handshake with login := login }, none)
  | .stateDidChange called => do
      let login ← handshake.login.stateDidChange called
      some (handshake.hear called login, none)
  | .didSignIn error => do
      let opened ← handshake.login.didSignIn error
      some (handshake, opened)

/-- The block is called while it is registered; everything else comes at any
time. -/
def machine : Machine Handshake HandshakeEvent where
  enabled
    | handshake, .viewWillAppear _ => ¬ handshake.login.Listening
    | handshake, .viewWillDisappear => handshake.login.Listening
    | handshake, .stateDidChange _ => handshake.login.Listening
    | _, .signIn _ => True
    | _, .unwindToLogin _ => True
    | _, .didSignIn _ => True
  step handshake event := (handshake.perform event).map Prod.fst

instance (handshake : Handshake) : DecidablePred (machine.enabled handshake)
  | .viewWillAppear _ =>
      inferInstanceAs (Decidable (¬ handshake.login.Listening))
  | .viewWillDisappear | .stateDidChange _ =>
      inferInstanceAs (Decidable handshake.login.Listening)
  | .signIn _ | .unwindToLogin _ | .didSignIn _ =>
      inferInstanceAs (Decidable True)

/-- The settings screen gets the user who is signed in. -/
def HandsOver (auth : Option FirebaseUser)
    (settings : SettingsViewController) : Prop :=
  ∃ user ∈ auth, settings.currentUser.map User.user_ID = some user.uid

/-- The event unwraps no `nil`, and a segue hands over the user who is signed
in. -/
def Sound (handshake : Handshake) (event : HandshakeEvent) : Prop :=
  ∃ outcome ∈ handshake.perform event,
    ∀ settings ∈ outcome.2, HandsOver handshake.auth settings

/-- The user, if there is one, has a name and an email. -/
def Complete (called : Option FirebaseUser) : Prop :=
  ∀ user ∈ called, user.displayName ≠ none ∧ user.email ≠ none

/-- Every user whom the block receives is complete, and when the delegate
reports a success the block has last received the user who is signed in. -/
def Heard (handshake : Handshake) : HandshakeEvent → Prop
  | .viewWillAppear called => Complete called
  | .stateDidChange called => Complete called
  | .didSignIn none =>
      ∃ user ∈ handshake.auth, ∃ last ∈ handshake.heard, last.uid = user.uid
  | .didSignIn (some _) => True
  | .signIn _ => True
  | .unwindToLogin _ => True
  | .viewWillDisappear => True

instance (auth : Option FirebaseUser) : DecidablePred (HandsOver auth) :=
  fun settings => inferInstanceAs <| Decidable <|
    ∃ user ∈ auth, settings.currentUser.map User.user_ID = some user.uid

instance (handshake : Handshake) : DecidablePred handshake.Sound :=
  fun event => inferInstanceAs <| Decidable <|
    ∃ outcome ∈ handshake.perform event,
      ∀ settings ∈ outcome.2, HandsOver handshake.auth settings

instance : DecidablePred Complete := fun called =>
  inferInstanceAs <| Decidable <|
    ∀ user ∈ called, user.displayName ≠ none ∧ user.email ≠ none

instance (handshake : Handshake) : DecidablePred handshake.Heard
  | .viewWillAppear called | .stateDidChange called =>
      inferInstanceAs (Decidable (Complete called))
  | .didSignIn none => inferInstanceAs <| Decidable <|
      ∃ user ∈ handshake.auth, ∃ last ∈ handshake.heard, last.uid = user.uid
  | .didSignIn (some _) | .signIn _ | .unwindToLogin _ | .viewWillDisappear =>
      inferInstanceAs (Decidable True)

/-- The screen's copy has the uid of the user last received. -/
def Linked (handshake : Handshake) : Prop :=
  handshake.login.currentUser.map User.user_ID =
    handshake.heard.map FirebaseUser.uid

/-! ## The two callbacks -/

section Callbacks

variable {login next : LoginViewController} {called : Option FirebaseUser}

theorem exists_stateDidChange_iff :
    (∃ next, login.stateDidChange called = some next) ↔ Complete called := by
  cases called with
  | none =>
      exact iff_of_true ⟨login, rfl⟩ (fun user absent => nomatch absent)
  | some user =>
      rcases user with ⟨uid, displayName, email, nonempty⟩
      cases displayName with
      | none => simp [LoginViewController.stateDidChange, Complete]
      | some name =>
          cases email with
          | none => simp [LoginViewController.stateDidChange, Complete]
          | some address =>
              simp [LoginViewController.stateDidChange, Complete]

theorem stateDidChange_user_ID
    (handled : login.stateDidChange called = some next) :
    next.currentUser.map User.user_ID =
      (called.map FirebaseUser.uid).or
        (login.currentUser.map User.user_ID) := by
  cases called with
  | none =>
      cases handled
      rfl
  | some user =>
      rcases Option.bind_eq_some_iff.mp handled with ⟨name, _, rest⟩
      rcases Option.bind_eq_some_iff.mp rest with ⟨email, _, same⟩
      cases same
      rfl

theorem hear_linked {handshake : Handshake} (linked : handshake.Linked)
    (same : login.currentUser = handshake.login.currentUser)
    (handled : login.stateDidChange called = some next) :
    (handshake.hear called next).Linked := by
  have copied := stateDidChange_user_ID handled
  rw [same, linked] at copied
  refine copied.trans ?_
  cases called <;> rfl

/-- With no copy of a user, a reported success traps on `error!`. -/
theorem didSignIn_success (login : LoginViewController) :
    login.didSignIn none =
      login.currentUser.map fun user => some { currentUser := some user } := by
  cases present : login.currentUser with
  | none => simp [didSignIn, present]
  | some user => simp [didSignIn, prepare, present]

theorem didSignIn_error (login : LoginViewController) (error : String) :
    login.didSignIn (some error) = some none := by
  simp [didSignIn]

end Callbacks

/-! ## One event -/

theorem step_linked (handshake : Handshake) (event : HandshakeEvent)
    (next : Handshake) (linked : handshake.Linked)
    (_enabled : machine.enabled handshake event)
    (handled : machine.step handshake event = some next) :
    next.Linked := by
  rcases Option.map_eq_some_iff.mp handled with ⟨outcome, performed, rfl⟩
  cases event with
  | signIn user =>
      cases performed
      exact linked
  | unwindToLogin error =>
      cases error with
      | none =>
          cases performed
          exact linked
      | some message =>
          cases performed
          exact linked
  | viewWillAppear called =>
      rcases Option.bind_eq_some_iff.mp performed with ⟨login, block, same⟩
      cases same
      exact @hear_linked { handshake.login with handle := some ⟨true⟩ } _ _ _
        linked rfl block
  | viewWillDisappear =>
      rcases Option.bind_eq_some_iff.mp performed with ⟨login, gone, same⟩
      cases same
      rcases Option.map_eq_some_iff.mp gone with ⟨handle, _, rfl⟩
      exact linked
  | stateDidChange called =>
      rcases Option.bind_eq_some_iff.mp performed with ⟨login, block, same⟩
      cases same
      exact hear_linked linked rfl block
  | didSignIn error =>
      rcases Option.bind_eq_some_iff.mp performed with ⟨opened, _, same⟩
      cases same
      exact linked

/-- An event that returns and opens nothing is sound. -/
theorem sound_of_returns {handshake next : Handshake}
    {event : HandshakeEvent}
    (performed : handshake.perform event = some (next, none)) :
    handshake.Sound event := by
  refine ⟨_, performed, ?_⟩
  intro settings opened
  cases opened

/-- A call of the block opens nothing, so it is sound when it returns. -/
theorem sound_of_block {handshake : Handshake} {login : LoginViewController}
    {called : Option FirebaseUser} {event : HandshakeEvent}
    (performed :
      handshake.perform event =
        (login.stateDidChange called).bind fun next =>
          some (handshake.hear called next, none)) :
    handshake.Sound event ↔ Complete called := by
  rw [← @exists_stateDidChange_iff login called]
  constructor
  · intro sound
    rcases sound with ⟨outcome, handled, _⟩
    rw [performed] at handled
    rcases Option.bind_eq_some_iff.mp handled with ⟨next, block, _⟩
    exact ⟨next, block⟩
  · intro returns
    rcases returns with ⟨next, block⟩
    rw [block] at performed
    exact sound_of_returns performed

/-- A reported success is sound when the copy is of the user signed in. -/
theorem didSignIn_sound_iff {handshake : Handshake}
    (linked : handshake.Linked) :
    handshake.Sound (.didSignIn none) ↔ handshake.Heard (.didSignIn none) := by
  have performed :
      handshake.perform (.didSignIn none) =
        (handshake.login.didSignIn none).bind fun opened =>
          some (handshake, opened) :=
    rfl
  rw [Sound, performed, didSignIn_success]
  unfold Linked at linked
  cases present : handshake.login.currentUser with
  | none =>
      rw [present] at linked
      have silent : handshake.heard = none :=
        Option.map_eq_none_iff.mp linked.symm
      simp [Heard, silent]
  | some user =>
      rw [present] at linked
      rcases Option.map_eq_some_iff.mp linked.symm with
        ⟨last, heard, sameID⟩
      simp [Heard, HandsOver, heard, ← sameID]

theorem sound_iff_heard (handshake : Handshake) (event : HandshakeEvent)
    (linked : handshake.Linked)
    (enabled : machine.enabled handshake event) :
    handshake.Sound event ↔ handshake.Heard event := by
  cases event with
  | viewWillAppear called => exact sound_of_block rfl
  | stateDidChange called => exact sound_of_block rfl
  | didSignIn error =>
      cases error with
      | none => exact didSignIn_sound_iff linked
      | some message =>
          have performed :
              handshake.perform (.didSignIn (some message)) =
                (handshake.login.didSignIn (some message)).bind
                  fun opened => some (handshake, opened) :=
            rfl
          rw [didSignIn_error] at performed
          exact iff_of_true (sound_of_returns performed) trivial
  | viewWillDisappear =>
      have gone :
          handshake.login.viewWillDisappear =
            some { handshake.login with handle := some ⟨false⟩ } :=
        Option.map_eq_some_iff.mpr ⟨⟨true⟩, enabled, rfl⟩
      have performed :
          handshake.perform .viewWillDisappear =
            handshake.login.viewWillDisappear.bind fun login =>
              some ({ handshake with login := login }, none) :=
        rfl
      rw [gone] at performed
      exact iff_of_true (sound_of_returns performed) trivial
  | signIn user =>
      exact iff_of_true (sound_of_returns rfl) trivial
  | unwindToLogin error =>
      cases error with
      | none =>
          exact iff_of_true (sound_of_returns rfl) trivial
      | some message =>
          exact iff_of_true (sound_of_returns rfl) trivial

/-! ## Whole runs -/

/-- A login screen that has not appeared yet. -/
def start (auth : Option FirebaseUser) : Handshake :=
  { auth := auth }

/-- Along a run no event traps and every segue hands over the user who is
signed in exactly when all users heard are complete and every success comes
after the block has heard of its user. -/
theorem eachStep_sound_iff_heard (auth : Option FirebaseUser)
    (events : List HandshakeEvent)
    (legal : machine.Legal (start auth) events) :
    machine.EachStep Sound (start auth) events ↔
      machine.EachStep Heard (start auth) events :=
  Machine.eachStep_congr step_linked sound_iff_heard rfl legal

def ada : FirebaseUser :=
  { uid := "ada", displayName := some "Ada", email := some "ada@a" }

def ben : FirebaseUser :=
  { uid := "ben", displayName := some "Ben", email := some "ben@b" }

def nameless : FirebaseUser :=
  { uid := "zoe", email := some "zoe@z" }

theorem sound_second_login :
    machine.EachStep Sound (start none)
      [.viewWillAppear none, .didSignIn (some "cancelled"), .signIn ada,
        .stateDidChange (some ada), .didSignIn none, .viewWillDisappear,
        .unwindToLogin none, .signIn ben, .viewWillAppear (some ben),
        .didSignIn none] :=
  (eachStep_sound_iff_heard none _ (by decide)).mpr (by decide)

/-- The delegate comes before the block, at the first login. -/
def delegateFirst : List HandshakeEvent :=
  [.viewWillAppear none, .signIn ada, .didSignIn none]

/-- The delegate comes before the block, at a login after another user's. -/
def secondUser : List HandshakeEvent :=
  [.signIn ada, .viewWillAppear (some ada), .unwindToLogin none,
    .signIn ben, .didSignIn none]

/-- A user without a name signs in. -/
def noName : List HandshakeEvent :=
  [.viewWillAppear none, .signIn nameless, .stateDidChange (some nameless)]

theorem unsound_handshakes :
    (machine.Legal (start none) delegateFirst ∧
        ¬ machine.EachStep Sound (start none) delegateFirst) ∧
      (machine.Legal (start none) secondUser ∧
        ¬ machine.EachStep Sound (start none) secondUser) ∧
      machine.Legal (start none) noName ∧
        ¬ machine.EachStep Sound (start none) noName := by
  decide

end Handshake
end LoginViewController
end PocketChef
