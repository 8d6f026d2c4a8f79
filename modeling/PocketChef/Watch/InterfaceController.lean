import PocketChef.Connectivity.WCSession
import PocketChef.Library.Cursor
import PocketChef.Library.Reactive

/-!
# The watch's instruction screen

`InterfaceController` keeps the steps of one recipe, a signed `stepIndex`, two
labels and the enabled flags of its two buttons.  Messages from the phone
replace the steps; the Previous and Next buttons move `stepIndex`.

The handlers follow the source: `none` is a trap of the Swift array subscript.
-/

namespace PocketChef

open Reactive

structure InterfaceController where
  instructions : List String
  stepIndex : Int
  stepNum : String
  detail : String
  previousButton : Bool
  nextButton : Bool
  deriving DecidableEq, Repr

namespace InterfaceController

/-- Both labels start with the text of the storyboard. -/
def init : InterfaceController where
  instructions := []
  stepIndex := 0
  stepNum := "Label"
  detail := "Label"
  previousButton := false
  nextButton := false

def checkButtons (self : InterfaceController) : InterfaceController :=
  { self with
    previousButton := if self.stepIndex ≤ 0 then false else true
    nextButton :=
      if self.stepIndex > (self.instructions.length : Int) - 2 then
        false
      else
        true }

/-- The title of the step at `index`, counted from one. -/
def stepTitle (index : Int) : String :=
  "Step " ++ toString (index + 1)

/-- `session(_:activationDidCompleteWith:error:)`: what the watch sends. -/
def activationDidComplete (session : Option WCSession)
    (activationState : WCSessionActivationState) : List Message :=
  if activationState = .activated then
    match session with
    | none => []
    | some session =>
        if session.isReachable then [{ watchReady := some true }] else []
  else
    []

/-- `session(_:didReceiveMessage:)`.  The buttons are not checked when the
array is empty, and `stepIndex` is not touched at all. -/
def didReceiveMessage (self : InterfaceController) (message : Message) :
    Option InterfaceController :=
  match message.passingInstructionArray with
  | none => some self
  | some getArray =>
      let received := { self with instructions := getArray }
      if getArray.isEmpty then
        some received
      else do
        let first ← SwiftArray.get received.instructions 0
        some
          { received with stepNum := "Step 1", detail := first }.checkButtons

/-- The common body of the two button actions. -/
def stepBy (self : InterfaceController) (offset : Int) :
    Option InterfaceController := do
  let stepIndex := self.stepIndex + offset
  let detail ← SwiftArray.get self.instructions stepIndex
  some
    { self with
      stepIndex := stepIndex
      stepNum := stepTitle stepIndex
      detail := detail }.checkButtons

def previousTapped (self : InterfaceController) :
    Option InterfaceController :=
  self.stepBy (-1)

def nextTapped (self : InterfaceController) :
    Option InterfaceController :=
  self.stepBy 1

inductive Event where
  | didReceiveMessage (message : Message)
  | previousTapped
  | nextTapped
  deriving DecidableEq, Repr

def recipeMessage (steps : List String) : Event :=
  .didReceiveMessage { passingInstructionArray := some steps }

/-- Messages can arrive at any time; a button can be tapped while it is
enabled. -/
def machine : Machine InterfaceController Event where
  enabled
    | _, .didReceiveMessage _ => True
    | self, .previousTapped => self.previousButton
    | self, .nextTapped => self.nextButton
  step
    | self, .didReceiveMessage message => self.didReceiveMessage message
    | self, .previousTapped => self.previousTapped
    | self, .nextTapped => self.nextTapped

instance : ∀ state event, Decidable (machine.enabled state event)
  | _, .didReceiveMessage _ => inferInstanceAs (Decidable True)
  | self, .previousTapped =>
      inferInstanceAs (Decidable (self.previousButton = true))
  | self, .nextTapped => inferInstanceAs (Decidable (self.nextButton = true))

/-! ## What each handler does -/

section Handlers

variable (self : InterfaceController)

@[simp]
theorem checkButtons_instructions :
    self.checkButtons.instructions = self.instructions :=
  rfl

@[simp]
theorem checkButtons_stepIndex :
    self.checkButtons.stepIndex = self.stepIndex :=
  rfl

@[simp]
theorem checkButtons_stepNum :
    self.checkButtons.stepNum = self.stepNum :=
  rfl

@[simp]
theorem checkButtons_detail :
    self.checkButtons.detail = self.detail :=
  rfl

@[simp]
theorem checkButtons_previousButton :
    self.checkButtons.previousButton = true ↔ 0 < self.stepIndex := by
  simp [checkButtons]

@[simp]
theorem checkButtons_nextButton :
    self.checkButtons.nextButton = true ↔
      self.stepIndex < (self.instructions.length : Int) - 1 := by
  simp only [checkButtons, ite_eq_right_iff, Bool.false_eq_true,
    imp_false, Int.not_lt, gt_iff_lt]
  omega

theorem didReceiveMessage_absent {message : Message}
    (absent : message.passingInstructionArray = none) :
    self.didReceiveMessage message = some self := by
  simp [didReceiveMessage, absent]

theorem didReceiveMessage_empty {message : Message}
    (empty : message.passingInstructionArray = some []) :
    self.didReceiveMessage message =
      some { self with instructions := [] } := by
  simp [didReceiveMessage, empty]

/-- The screen that a non-empty array leaves: both labels are about its first
step, the buttons about the old `stepIndex`. -/
def showFirst (first : String) (rest : List String) : InterfaceController :=
  { self with
    instructions := first :: rest
    stepNum := "Step 1"
    detail := first }.checkButtons

theorem didReceiveMessage_cons {message : Message}
    {first : String} {rest : List String}
    (received : message.passingInstructionArray = some (first :: rest)) :
    self.didReceiveMessage message = some (self.showFirst first rest) := by
  simp [didReceiveMessage, received, showFirst]

/-- A message never traps, and the array in it becomes the list. -/
theorem exists_didReceiveMessage (message : Message) :
    ∃ next, self.didReceiveMessage message = some next ∧
      next.instructions =
        message.passingInstructionArray.getD self.instructions := by
  cases received : message.passingInstructionArray with
  | none =>
      exact ⟨_, self.didReceiveMessage_absent received, rfl⟩
  | some getArray =>
      cases getArray with
      | nil =>
          exact ⟨_, self.didReceiveMessage_empty received, rfl⟩
      | cons first rest =>
          exact ⟨_, self.didReceiveMessage_cons received, rfl⟩

theorem stepBy_eq_some_iff (offset : Int) (next : InterfaceController) :
    self.stepBy offset = some next ↔
      ∃ detail,
        SwiftArray.get self.instructions (self.stepIndex + offset) =
            some detail ∧
          { self with
            stepIndex := self.stepIndex + offset
            stepNum := stepTitle (self.stepIndex + offset)
            detail := detail }.checkButtons = next := by
  simp [stepBy, Option.bind_eq_some_iff]

end Handlers

end InterfaceController

end PocketChef
