/-!
# The watch connectivity session

The phone and the watch each have a `WCSession` and exchange `[String: Any]`
messages through it.  A message travels only while the sender's session is
activated and its peer reachable.
-/

namespace PocketChef

/-- A message of the session.  A key whose value is missing or fails the cast
is `none`. -/
structure Message where
  passingInstructionArray : Option (List String) := none
  watchReady : Option Bool := none
  deriving DecidableEq, Repr

inductive WCSessionActivationState where
  | notActivated
  | inactive
  | activated
  deriving DecidableEq

structure WCSession where
  activationState : WCSessionActivationState := .notActivated
  isReachable : Bool := false
  deriving DecidableEq

def WCSession.Open (session : WCSession) : Prop :=
  session.activationState = .activated ∧ session.isReachable = true

instance : DecidablePred WCSession.Open := fun _ =>
  inferInstanceAs (Decidable (_ ∧ _))

end PocketChef
