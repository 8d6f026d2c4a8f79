import PocketChef.Connectivity.WCSession
import PocketChef.Library.Issuing
import PocketChef.Library.SwiftArray

/-!
# The phone's instructions screen

`InstructionsViewController` loads the stored recipes, shows the steps of the
one at `index` and sends them to the watch.  A block that `loadCoreInstruction`
leaves on the main queue moves `index` to the last recipe.

Handlers that send are actions: they record the messages handed to
`sendMessage`.
-/

namespace PocketChef

open Issuing

/-- The attributes of the Core Data entity `Instruction`. -/
structure Instruction where
  id : BitVec 16
  steps : List String
  title : String
  deriving DecidableEq

structure InstructionsViewController where
  instructions : List (List String) := []
  titles : List String := []
  index : Int := 0
  titleLabel : String := "Title"
  previousButton : Bool := true
  nextButton : Bool := true
  session : Option WCSession := none
  deriving DecidableEq

namespace InstructionsViewController

def Connected (self : InstructionsViewController) : Prop :=
  ∃ session ∈ self.session, session.Open

instance : DecidablePred Connected := fun self =>
  inferInstanceAs (Decidable (∃ session ∈ self.session, session.Open))

/-- Nothing is sent, and nothing is reported, unless the session is activated
and the watch reachable. -/
def sendInstruction (self : InstructionsViewController) :
    Effect Message PUnit :=
  match self.session with
  | none => return
  | some session =>
      if session.activationState = .activated then do
        let steps ← Effect.check
          (SwiftArray.get self.instructions self.index)
        if session.isReachable then
          Effect.issue { passingInstructionArray := some steps }
      else
        return

/-- The fetch of `loadCoreInstruction` with its results; a fetch that throws
leaves both arrays alone. -/
def loadCoreInstruction (self : InstructionsViewController)
    (results : Option (List Instruction)) : InstructionsViewController :=
  match results with
  | none => self
  | some results =>
      results.foldl
        (fun self object =>
          { self with
            instructions := self.instructions ++ [object.steps]
            titles := self.titles ++ [object.title] })
        self

def checkButtons (self : InstructionsViewController) :
    InstructionsViewController :=
  if self.instructions.isEmpty then
    { self with previousButton := false, nextButton := false }
  else
    { self with
      previousButton := if self.index ≤ 0 then false else true
      nextButton :=
        if self.index ≥ (self.instructions.length : Int) - 1 then
          false
        else
          true }

/-- The last part of the deferred block and of both button actions. -/
def sendUnlessEmpty (self : InstructionsViewController) :
    Effect Message PUnit := do
  let steps ← Effect.check (SwiftArray.get self.instructions self.index)
  if !steps.isEmpty then
    self.sendInstruction

/-- The block of `loadCoreInstruction` on the main queue. -/
def deferredBlock (self : InstructionsViewController) :
    Effect Message InstructionsViewController := do
  let self :=
    { self with index := (self.instructions.length : Int) - 1 }.checkButtons
  self.sendUnlessEmpty
  return self

/-- `session` is `none` where `WCSession` is not supported. -/
def viewDidLoad (self : InstructionsViewController)
    (results : Option (List Instruction)) (session : Option WCSession) :
    Option InstructionsViewController := do
  let self := self.loadCoreInstruction results
  let title ← SwiftArray.get self.titles self.index
  let self := { self with titleLabel := title }.checkButtons
  some { self with session := session }

/-- The common body of the two button actions. -/
def turnBy (self : InstructionsViewController) (offset : Int) :
    Effect Message InstructionsViewController := do
  let self := { self with index := self.index + offset }
  let title ← Effect.check (SwiftArray.get self.titles self.index)
  let self := { self with titleLabel := title }.checkButtons
  self.sendUnlessEmpty
  return self

def previousTapped (self : InstructionsViewController) :
    Effect Message InstructionsViewController :=
  self.turnBy (-1)

def nextTapped (self : InstructionsViewController) :
    Effect Message InstructionsViewController :=
  self.turnBy 1

def shownSteps (self : InstructionsViewController) : Option (List String) :=
  SwiftArray.get self.instructions self.index

def numberOfRowsInSection (self : InstructionsViewController) :
    Option Nat := do
  let steps ← SwiftArray.get self.instructions self.index
  some steps.length

/-- The two texts of the cell in the given row. -/
def cellForRowAt (self : InstructionsViewController) (row : Nat) :
    Option (String × String) := do
  let steps ← SwiftArray.get self.instructions self.index
  let step ← SwiftArray.get steps row
  some ("Step " ++ toString (row + 1), step)

/-! ## What each handler does -/

/-- `index` is in range, and each button is enabled exactly where it leads to
another recipe. -/
structure InRange (phone : InstructionsViewController) : Prop where
  titles : phone.titles.length = phone.instructions.length
  lower : 0 ≤ phone.index
  upper : phone.index < phone.instructions.length
  previous : phone.previousButton = true ↔ 0 < phone.index
  next :
    phone.nextButton = true ↔
      phone.index < (phone.instructions.length : Int) - 1

/-- The session plays no part in the range. -/
theorem InRange.setSession {phone : InstructionsViewController}
    (inRange : phone.InRange) (session : Option WCSession) :
    InRange { phone with session := session } :=
  ⟨inRange.titles, inRange.lower, inRange.upper, inRange.previous,
    inRange.next⟩

section Handlers

variable (self : InstructionsViewController)

@[simp]
theorem checkButtons_instructions :
    self.checkButtons.instructions = self.instructions := by
  unfold checkButtons
  split <;> rfl

@[simp]
theorem checkButtons_titles : self.checkButtons.titles = self.titles := by
  unfold checkButtons
  split <;> rfl

@[simp]
theorem checkButtons_index : self.checkButtons.index = self.index := by
  unfold checkButtons
  split <;> rfl

@[simp]
theorem checkButtons_titleLabel :
    self.checkButtons.titleLabel = self.titleLabel := by
  unfold checkButtons
  split <;> rfl

@[simp]
theorem checkButtons_session : self.checkButtons.session = self.session := by
  unfold checkButtons
  split <;> rfl

theorem checkButtons_inRange
    (titles : self.titles.length = self.instructions.length)
    (lower : 0 ≤ self.index) (upper : self.index < self.instructions.length) :
    self.checkButtons.InRange := by
  have nonempty : self.instructions.isEmpty = false := by
    cases shape : self.instructions with
    | nil =>
        rw [shape] at upper
        exact absurd upper (Int.not_lt.mpr lower)
    | cons first rest => rfl
  rw [checkButtons, if_neg (by simp [nonempty])]
  refine ⟨titles, lower, upper, ?_, ?_⟩
  · simp
  · simp only [ge_iff_le, ite_eq_right_iff, Bool.false_eq_true, imp_false,
      Int.not_le]

theorem loadCoreInstruction_eq (results : List Instruction) :
    self.loadCoreInstruction (some results) =
      { self with
        instructions := self.instructions ++ results.map Instruction.steps
        titles := self.titles ++ results.map Instruction.title } := by
  unfold loadCoreInstruction
  dsimp only
  induction results generalizing self with
  | nil =>
      simp
  | cons object rest inductionHypothesis =>
      rw [List.foldl_cons, inductionHypothesis]
      simp

theorem viewDidLoad_cons (first : Instruction) (rest : List Instruction)
    (session : Option WCSession) :
    viewDidLoad {} (some (first :: rest)) session =
      some { checkButtons
          { instructions := (first :: rest).map Instruction.steps
            titles := (first :: rest).map Instruction.title
            titleLabel := first.title } with
        session := session } := by
  rw [viewDidLoad, loadCoreInstruction_eq]
  rfl

theorem viewDidLoad_inRange {first : Instruction} {rest : List Instruction}
    {session : Option WCSession} {phone : InstructionsViewController}
    (loaded :
      viewDidLoad {} (some (first :: rest)) session = some phone) :
    phone.InRange := by
  rw [viewDidLoad_cons] at loaded
  cases loaded
  have checked := checkButtons_inRange
    { instructions := (first :: rest).map Instruction.steps
      titles := (first :: rest).map Instruction.title
      titleLabel := first.title }
    (by simp) (Int.le_refl 0) (by simp)
  exact checked.setSession session

theorem sendInstruction_of_connected {steps : List String}
    (shown : self.shownSteps = some steps) (connected : self.Connected) :
    self.sendInstruction =
      Effect.issue { passingInstructionArray := some steps } := by
  rcases connected with ⟨session, present, activated, reachable⟩
  unfold shownSteps at shown
  simp [sendInstruction, Option.mem_def.mp present, activated, reachable,
    shown, Effect.check_some_bind]

theorem sendInstruction_of_not_connected {steps : List String}
    (shown : self.shownSteps = some steps) (silent : ¬ self.Connected) :
    self.sendInstruction = pure ⟨⟩ := by
  unfold shownSteps at shown
  unfold sendInstruction
  cases present : self.session with
  | none =>
      rfl
  | some session =>
      by_cases activated : session.activationState = .activated
      · have unreachable : ¬ session.isReachable = true := fun reachable =>
          silent ⟨session, present, activated, reachable⟩
        simp only [activated, if_true, shown, unreachable]
        rfl
      · simp [activated]

/-- The messages of an action that ends by sending the steps shown. -/
def messagesFor (self : InstructionsViewController) (steps : List String) :
    List Message :=
  if steps ≠ [] ∧ self.Connected then
    [{ passingInstructionArray := some steps }]
  else
    []

/-- At an index in range, the steps are handed over unless they are empty or
the session does not let them through. -/
theorem sendUnlessEmpty_eq {steps : List String}
    (shown : self.shownSteps = some steps) :
    self.sendUnlessEmpty = ⟨self.messagesFor steps, some ⟨⟩⟩ := by
  have read : SwiftArray.get self.instructions self.index = some steps :=
    shown
  unfold sendUnlessEmpty messagesFor
  rw [read, Effect.check_some_bind]
  cases steps with
  | nil =>
      rfl
  | cons first rest =>
      change self.sendInstruction = _
      by_cases connected : self.Connected
      · rw [self.sendInstruction_of_connected shown connected]
        simp [connected, Effect.issue]
      · rw [self.sendInstruction_of_not_connected shown connected]
        simp [connected, Effect.pure_eq]

theorem messagesFor_congr {other : InstructionsViewController}
    (sameSession : other.session = self.session) (steps : List String) :
    other.messagesFor steps = self.messagesFor steps := by
  have connected : other.Connected ↔ self.Connected := by
    unfold Connected
    rw [sameSession]
  simp only [messagesFor, connected]

theorem checkAndSend_eq {steps : List String}
    (shown : self.shownSteps = some steps) :
    (do
      self.checkButtons.sendUnlessEmpty
      return self.checkButtons :
      Effect Message InstructionsViewController) =
      ⟨self.messagesFor steps, some self.checkButtons⟩ := by
  have shownAfter : self.checkButtons.shownSteps = some steps := by
    simpa [shownSteps] using shown
  rw [sendUnlessEmpty_eq _ shownAfter, Effect.bind_of_some _ rfl,
    Effect.pure_eq, List.append_nil,
    messagesFor_congr self self.checkButtons_session]

/-- How a handler ends that moves to the record `target`: it shows the
record, and the messages are those for its steps. -/
structure MovesTo (target : Int) (phone : InstructionsViewController)
    (action : Effect Message InstructionsViewController)
    (moved : InstructionsViewController) (steps : List String) : Prop where
  found : SwiftArray.get phone.instructions target = some steps
  action_eq : action = ⟨phone.messagesFor steps, some moved⟩
  shown : moved.shownSteps = some steps
  inRange : moved.InRange
  index : moved.index = target
  instructions : moved.instructions = phone.instructions
  session : moved.session = phone.session

theorem exists_steps_at {target : Int} (lower : 0 ≤ target)
    (upper : target < self.instructions.length) :
    ∃ steps, SwiftArray.get self.instructions target = some steps :=
  (SwiftArray.exists_get_iff self.instructions target).mpr ⟨lower, upper⟩

theorem deferredBlock_eq {steps : List String}
    (found :
      SwiftArray.get self.instructions
          ((self.instructions.length : Int) - 1) =
        some steps) :
    self.deferredBlock =
      ⟨self.messagesFor steps,
        some { self with
          index := (self.instructions.length : Int) - 1 }.checkButtons⟩ :=
  checkAndSend_eq
    { self with index := (self.instructions.length : Int) - 1 } found

theorem turnBy_eq {offset : Int} {steps : List String} {title : String}
    (found :
      SwiftArray.get self.instructions (self.index + offset) = some steps)
    (titled :
      SwiftArray.get self.titles (self.index + offset) = some title) :
    self.turnBy offset =
      ⟨self.messagesFor steps,
        some { self with
          index := self.index + offset
          titleLabel := title }.checkButtons⟩ := by
  rw [turnBy, titled, Effect.check_some_bind]
  exact checkAndSend_eq _ found

theorem deferredBlock_movesTo (inRange : self.InRange) :
    ∃ moved steps,
      MovesTo ((self.instructions.length : Int) - 1) self
        self.deferredBlock moved steps := by
  have lower : 0 ≤ (self.instructions.length : Int) - 1 := by
    have := inRange.lower
    have := inRange.upper
    omega
  have upper :
      (self.instructions.length : Int) - 1 < self.instructions.length := by
    omega
  rcases self.exists_steps_at lower upper with ⟨steps, found⟩
  refine ⟨_, steps, found, self.deferredBlock_eq found, ?_, ?_, ?_, ?_, ?_⟩
  · simpa [shownSteps] using found
  · exact checkButtons_inRange _ inRange.titles lower upper
  · simp
  · simp
  · simp

theorem turnBy_movesTo {offset : Int} (inRange : self.InRange)
    (lower : 0 ≤ self.index + offset)
    (upper : self.index + offset < self.instructions.length) :
    ∃ moved steps,
      MovesTo (self.index + offset) self (self.turnBy offset) moved
        steps := by
  rcases self.exists_steps_at lower upper with ⟨steps, found⟩
  rcases (SwiftArray.exists_get_iff self.titles _).mpr
    ⟨lower, inRange.titles ▸ upper⟩ with ⟨title, titled⟩
  refine ⟨_, steps, found, self.turnBy_eq found titled, ?_, ?_, ?_, ?_, ?_⟩
  · simpa [shownSteps] using found
  · exact checkButtons_inRange _ inRange.titles lower upper
  · simp
  · simp
  · simp

end Handlers

end InstructionsViewController
end PocketChef
