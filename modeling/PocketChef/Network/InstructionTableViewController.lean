import PocketChef.Network.Reply
import PocketChef.Phone.InstructionsViewController

/-!
# The instructions of one recipe

`InstructionTableViewController` loads the steps of a recipe, shows them,
keeps them as an `Instruction` object and sends them to the watch.  Storing and
sending are in the block that the completion handler leaves on the main queue.
-/

namespace PocketChef

open Issuing

/-- `NSEntityDescription.entity(forEntityName:in:)` over the entities of the
data model. -/
def entityDescription (name : String) : Option String :=
  ["Instruction", "ItemToBuy"].find? fun entity => entity = name

/-- What the screen does to the store and to the watch. -/
inductive Trace where
  | insert (object : Instruction)
  | sendMessage (message : Message)
  deriving DecidableEq

structure InstructionTableViewController where
  id : Int := 0
  instructions : List String := []
  recipeName : String := ""
  session : Option WCSession := none
  deriving DecidableEq

namespace InstructionTableViewController

def sendInstruction (self : InstructionTableViewController) :
    Effect Trace PUnit :=
  match self.session with
  | none => return
  | some session =>
      if session.activationState = .activated then
        if session.isReachable then
          Effect.issue
            (.sendMessage { passingInstructionArray := some self.instructions })
        else
          return
      else
        return

/-- The object that keeps the instructions; the attribute `id` has 16 bits. -/
def newInstruction (self : InstructionTableViewController) : Instruction where
  id := BitVec.ofInt 16 self.id
  steps := self.instructions
  title := self.recipeName

/-- The block of `loadInstructions` on the main queue. -/
def keepInstructions (self : InstructionTableViewController) :
    Effect Trace InstructionTableViewController := do
  let _entityInstruction ← Effect.check (entityDescription "Instruction")
  Effect.issue (.insert self.newInstruction)
  self.sendInstruction
  return self

/-- The guard of the loop of `loadInstructions`. -/
def decodeStep (item : AnyJson) : Option String := do
  let step ← item.asObject
  AnyJson.field Json.asString step "step"

/-- The steps array of the first element of the top-level array, whose access
`json[0]` traps where there is none. -/
def readSteps : Body → Option (Option (List AnyJson))
  | .error _ => some (some [])
  | .ok json =>
      match json.asArray with
      | none => some (some [])
      | some json => do
          let first ← SwiftArray.get json 0
          some (first.asObject.bind fun instruction =>
            AnyJson.field Json.asArray instruction "steps")

/-- The loop of `loadInstructions`. -/
def appendSteps (self : InstructionTableViewController)
    (steps : List AnyJson) : InstructionTableViewController :=
  steps.foldl
    (fun self item =>
      match decodeStep item with
      | none => self
      | some verbal =>
          { self with instructions := self.instructions ++ [verbal] })
    self

def instructionsLoader : Loader InstructionTableViewController PUnit where
  completionHandler self reply :=
    completion self reply readSteps fun steps =>
      some ⟨self.appendSteps steps, some ⟨⟩⟩
  mainBlock _ self := self.keepInstructions.result

/-- The completion handler with its block. -/
def loadInstructions (self : InstructionTableViewController)
    (reply : Reply) : Effect Trace InstructionTableViewController := do
  let handled ← Effect.check (instructionsLoader.completionHandler self reply)
  match handled.block with
  | none => return handled.screen
  | some _ => handled.screen.keepInstructions

theorem readSteps_eq_none_iff (body : Body) :
    readSteps body = none ↔ body = .ok (.array []) := by
  cases body with
  | error message => simp [readSteps]
  | ok json =>
      have shape := @Json.asArray_eq_some_iff _ json []
      cases found : json.asArray with
      | none =>
          rw [found] at shape
          simpa [readSteps, found] using shape
      | some items =>
          rw [Json.asArray_eq_some_iff] at found
          subst found
          cases items with
          | nil => simp [readSteps, Json.asArray, SwiftArray.get]
          | cons first rest => simp [readSteps, Json.asArray]

theorem appendSteps_eq (self : InstructionTableViewController)
    (steps : List AnyJson) :
    self.appendSteps steps =
      { self with
        instructions := self.instructions ++ steps.filterMap decodeStep } := by
  apply SwiftArray.foldl_append_decoded decodeStep
    fun (self : InstructionTableViewController) decoded =>
      { self with instructions := self.instructions ++ decoded }
  · intro self
    simp
  · intro self item decoded
    cases decodeStep item with
    | none => simp
    | some verbal => simp

/-- The message that the session lets through. -/
def permitted (session : Option WCSession) (steps : List String) :
    List Trace :=
  match session with
  | none => []
  | some session =>
      if session.Open then
        [.sendMessage { passingInstructionArray := some steps }]
      else
        []

theorem sendInstruction_eq (self : InstructionTableViewController) :
    self.sendInstruction =
      ⟨permitted self.session self.instructions, some ⟨⟩⟩ := by
  unfold sendInstruction permitted
  cases self.session with
  | none => rfl
  | some session =>
      by_cases activated : session.activationState = .activated
      · by_cases reachable : session.isReachable = true
        · simp [WCSession.Open, activated, reachable, Effect.issue]
        · simp [WCSession.Open, activated, reachable, Effect.pure_eq]
      · simp [WCSession.Open, activated, Effect.pure_eq]

/-- The block never traps: the entity is in the data model. -/
theorem keepInstructions_eq (self : InstructionTableViewController) :
    self.keepInstructions =
      ⟨.insert self.newInstruction ::
          permitted self.session self.instructions, some self⟩ := by
  have known : entityDescription "Instruction" = some "Instruction" := by
    decide
  rw [keepInstructions, known, Effect.check_some_bind, Effect.issue_bind,
    sendInstruction_eq, Effect.bind_of_some _ rfl, Effect.pure_eq,
    List.append_nil]

end InstructionTableViewController

end PocketChef
