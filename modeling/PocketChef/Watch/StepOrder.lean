import PocketChef.Watch.InterfaceController

/-!
# The steps the watch shows

The abstract screen is a cursor over the last array received: it restarts at
the first step and follows the taps.  The controller agrees with it as long as
every array arrives while `stepIndex` is zero, because a message rewrites the
labels for the first step without moving `stepIndex`.
-/

namespace PocketChef
namespace InterfaceController

open Reactive Browsing

/-- The screen together with the cursor of the last array received. -/
structure Session where
  screen : InterfaceController
  cursor : Option (Cursor String)

/-- How the abstract cursor follows an event. -/
def follow (cursor : Option (Cursor String)) : Event → Option (Cursor String)
  | .didReceiveMessage message =>
      match message.passingInstructionArray with
      | none => cursor
      | some getArray => some (Cursor.restart getArray)
  | .previousTapped => cursor.map Cursor.back
  | .nextTapped => cursor.map Cursor.forward

/-- Every array in the message has at least one step. -/
def HasSteps : Event → Prop
  | .didReceiveMessage message =>
      ∀ getArray ∈ message.passingInstructionArray, getArray ≠ []
  | .previousTapped => True
  | .nextTapped => True

instance : DecidablePred HasSteps
  | .didReceiveMessage message =>
      inferInstanceAs <| Decidable <|
        ∀ getArray ∈ message.passingInstructionArray, getArray ≠ []
  | .previousTapped => inferInstanceAs (Decidable True)
  | .nextTapped => inferInstanceAs (Decidable True)

namespace Session

def init : Session :=
  ⟨InterfaceController.init, none⟩

/-- The watch receives non-empty arrays and taps on enabled buttons. -/
def machine : Machine Session Event where
  enabled session event :=
    InterfaceController.machine.enabled session.screen event ∧
      HasSteps event
  step session event :=
    (InterfaceController.machine.step session.screen event).map fun screen =>
      ⟨screen, follow session.cursor event⟩

instance (session : Session) (event : Event) :
    Decidable (machine.enabled session event) :=
  inferInstanceAs (Decidable (_ ∧ _))

end Session

/-- The screen shows the step at the cursor: `stepIndex`, both labels and
both buttons agree with it. -/
structure Shows
    (screen : InterfaceController) (cursor : Cursor String) : Prop where
  stepIndex : screen.stepIndex = cursor.offset
  stepNum : screen.stepNum = "Step " ++ toString (cursor.offset + 1)
  detail : cursor.current = some screen.detail
  previous : screen.previousButton = true ↔ cursor.HasPrevious
  next : screen.nextButton = true ↔ cursor.HasNext

namespace Session

/-- Once an array has arrived, the screen shows the step at the cursor. -/
def InStep (session : Session) : Prop :=
  ∀ cursor ∈ session.cursor, Shows session.screen cursor

/-- An array arrives while the screen is at its first step. -/
def ArrivesAtFirst (session : Session) : Event → Prop
  | .didReceiveMessage message =>
      message.passingInstructionArray.isSome → session.screen.stepIndex = 0
  | .previousTapped => True
  | .nextTapped => True

instance (session : Session) :
    ∀ event, Decidable (session.ArrivesAtFirst event)
  | .didReceiveMessage _ => inferInstanceAs (Decidable (_ → _))
  | .previousTapped => inferInstanceAs (Decidable True)
  | .nextTapped => inferInstanceAs (Decidable True)

/-- Before the first array nothing can be tapped; afterwards the cursor is
over the controller's own array. -/
structure Linked (session : Session) : Prop where
  waiting :
    session.cursor = none → session.screen = InterfaceController.init
  items :
    ∀ cursor ∈ session.cursor, cursor.items = session.screen.instructions

/-- A button is enabled only once an array has arrived. -/
theorem Linked.exists_cursor {session : Session} (linked : session.Linked)
    (tapped :
      session.screen.previousButton = true ∨
        session.screen.nextButton = true) :
    ∃ cursor, session.cursor = some cursor := by
  cases started : session.cursor with
  | none =>
      rw [linked.waiting started] at tapped
      rcases tapped with back | forward
      · cases back
      · cases forward
  | some cursor => exact ⟨cursor, rfl⟩

theorem init_linked : init.Linked where
  waiting := fun _ => rfl
  items := by simp [init]

end Session

/-! ## One step -/

theorem stepBy_shows {screen : InterfaceController}
    {cursor : Cursor String} (moved : Cursor String) (offset : Int)
    (shows : Shows screen cursor)
    (items : cursor.items = screen.instructions)
    (sameItems : moved.items = cursor.items)
    (shifted : moved.offset = cursor.offset + offset)
    (inRange : moved.InRange) :
    ∃ next ∈ screen.stepBy offset, Shows next moved := by
  obtain ⟨item, found⟩ := Cursor.exists_current inRange
  have index : screen.stepIndex + offset = moved.offset := by
    rw [shifted, shows.stepIndex]
  have read :
      SwiftArray.get screen.instructions (screen.stepIndex + offset) =
        some item := by
    rw [index, ← items, ← sameItems]
    exact found
  refine ⟨_, (screen.stepBy_eq_some_iff offset _).mpr ⟨item, read, rfl⟩, ?_⟩
  constructor
  · exact index
  · simp [stepTitle, index]
  · exact found
  · simp [Cursor.HasPrevious, index]
  · simp [Cursor.HasNext, index, sameItems, items]

/-- A delivered array is shown from its first step exactly when `stepIndex`
is zero. -/
theorem received_shows_iff (screen : InterfaceController)
    (first : String) (rest : List String) :
    Shows (screen.showFirst first rest) (Cursor.restart (first :: rest)) ↔
      screen.stepIndex = 0 := by
  constructor
  · intro shows
    exact shows.stepIndex
  · intro atFirst
    constructor
    · exact atFirst
    · rfl
    · rfl
    · simp [showFirst, Cursor.HasPrevious, Cursor.restart, atFirst]
    · simp [showFirst, Cursor.HasNext, Cursor.restart, atFirst]

namespace Session

theorem step_linked (session : Session) (event : Event) (next : Session)
    (linked : session.Linked) (enabled : machine.enabled session event)
    (handled : machine.step session event = some next) :
    next.Linked := by
  obtain ⟨screen, moved, rfl⟩ := Option.map_eq_some_iff.mp handled
  cases event with
  | didReceiveMessage message =>
      change session.screen.didReceiveMessage message = some screen at moved
      cases received : message.passingInstructionArray with
      | none =>
          rw [didReceiveMessage_absent _ received] at moved
          cases moved
          simpa [follow, received] using linked
      | some getArray =>
          have instructions : screen.instructions = getArray := by
            cases getArray with
            | nil =>
                rw [didReceiveMessage_empty _ received] at moved
                cases moved
                rfl
            | cons first rest =>
                rw [didReceiveMessage_cons _ received] at moved
                cases moved
                rfl
          constructor
          · simp [follow, received]
          · simp [follow, received, Cursor.restart, instructions]
  | previousTapped =>
      rcases linked.exists_cursor (Or.inl enabled.1) with ⟨cursor, started⟩
      obtain ⟨_, _, rfl⟩ := (stepBy_eq_some_iff _ _ _).mp moved
      have items := linked.items cursor started
      exact
        ⟨by simp [follow, started],
          by simp [follow, started, Cursor.back, items]⟩
  | nextTapped =>
      rcases linked.exists_cursor (Or.inr enabled.1) with ⟨cursor, started⟩
      obtain ⟨_, _, rfl⟩ := (stepBy_eq_some_iff _ _ _).mp moved
      have items := linked.items cursor started
      exact
        ⟨by simp [follow, started],
          by simp [follow, started, Cursor.forward, items]⟩

theorem step_inStep_iff (session : Session) (event : Event)
    (linked : session.Linked) (inStep : session.InStep)
    (enabled : machine.enabled session event) :
    session.ArrivesAtFirst event ↔
      ∃ next ∈ machine.step session event, next.InStep := by
  cases event with
  | didReceiveMessage message =>
      cases received : message.passingInstructionArray with
      | none =>
          have handled :=
            session.screen.didReceiveMessage_absent received
          simp only [ArrivesAtFirst, received, Session.machine,
            InterfaceController.machine, handled, follow, Option.map_some,
            Option.mem_some_iff, exists_eq_left']
          simpa using inStep
      | some getArray =>
          cases getArray with
          | nil =>
              exact absurd rfl (enabled.2 [] received)
          | cons first rest =>
              have handled :=
                session.screen.didReceiveMessage_cons received
              have shows := received_shows_iff session.screen first rest
              simp only [ArrivesAtFirst, received, Session.machine,
                InterfaceController.machine, handled, follow,
                Option.map_some, Option.mem_some_iff, exists_eq_left',
                InStep, forall_eq', Option.isSome_some, true_imp_iff]
              exact shows.symm
  | previousTapped =>
      rcases linked.exists_cursor (Or.inl enabled.1) with ⟨cursor, started⟩
      have shows := inStep cursor started
      have possible := shows.previous.mp enabled.1
      have inRange := Cursor.inRange_of_current shows.detail
      obtain ⟨screen, moved, showsNext⟩ :=
        stepBy_shows cursor.back (-1) shows
          (linked.items cursor started) rfl rfl
          (Cursor.back_inRange inRange possible)
      have handled : session.screen.previousTapped = some screen := moved
      refine iff_of_true trivial
        ⟨⟨screen, some cursor.back⟩, ?_, ?_⟩
      · simp [Session.machine, InterfaceController.machine, handled,
          follow, started]
      · simpa [InStep] using showsNext
  | nextTapped =>
      rcases linked.exists_cursor (Or.inr enabled.1) with ⟨cursor, started⟩
      have shows := inStep cursor started
      have possible := shows.next.mp enabled.1
      have inRange := Cursor.inRange_of_current shows.detail
      obtain ⟨screen, moved, showsNext⟩ :=
        stepBy_shows cursor.forward 1 shows
          (linked.items cursor started) rfl rfl
          (Cursor.forward_inRange inRange possible)
      have handled : session.screen.nextTapped = some screen := moved
      refine iff_of_true trivial
        ⟨⟨screen, some cursor.forward⟩, ?_, ?_⟩
      · simp [Session.machine, InterfaceController.machine, handled,
          follow, started]
      · simpa [InStep] using showsNext

theorem always_inStep_iff (events : List Event)
    (legal : machine.Legal init events) :
    machine.Always InStep init events ↔
      machine.EachStep ArrivesAtFirst init events :=
  Machine.always_iff_eachStep step_linked step_inStep_iff
    init_linked (by simp [InStep, init]) legal

end Session

/-! ## Tapping Next through a recipe -/

/-- `NextWalk screen shown`: tapping Next until it is disabled shows the
texts `shown`, the one already on display first. -/
inductive NextWalk : InterfaceController → List String → Prop
  | stop (screen : InterfaceController) :
      screen.nextButton = false →
      NextWalk screen [screen.detail]
  | tap (screen next : InterfaceController) (shown : List String) :
      screen.nextButton = true →
      screen.nextTapped = some next →
      NextWalk next shown →
      NextWalk screen (screen.detail :: shown)

theorem NextWalk.unique {screen : InterfaceController}
    {first second : List String}
    (left : NextWalk screen first) (right : NextWalk screen second) :
    first = second := by
  induction left generalizing second with
  | stop screen disabled =>
      cases right with
      | stop => rfl
      | tap _ next shown enabled =>
          rw [disabled] at enabled
          cases enabled
  | tap screen next shown enabled moved _ inductionHypothesis =>
      cases right with
      | stop _ disabled =>
          rw [disabled] at enabled
          cases enabled
      | tap _ other rest _ movedOther remaining =>
          rw [moved] at movedOther
          cases movedOther
          rw [inductionHypothesis remaining]

private theorem detail_eq_of_drop
    {screen : InterfaceController} {steps rest : List String}
    {shown : String} {index : Nat}
    (shows : Shows screen ⟨steps, index⟩)
    (remaining : steps.drop index = shown :: rest) :
    screen.detail = shown := by
  have read := shows.detail
  simp only [Cursor.current, SwiftArray.get_natCast] at read
  rw [← List.head?_drop, remaining] at read
  exact (Option.some.inj read).symm

theorem nextWalk_of_shows {steps : List String} :
    ∀ {screen : InterfaceController} {rest : List String} {shown : String}
      (index : Nat),
      Shows screen ⟨steps, index⟩ →
      steps = screen.instructions →
      steps.drop index = shown :: rest →
      NextWalk screen (shown :: rest)
  | screen, [], shown, index, shows, _, remaining => by
      have size : steps.length = index + 1 := by
        have lengths := congrArg List.length remaining
        simp only [List.length_drop, List.length_singleton] at lengths
        omega
      have disabled : screen.nextButton = false := by
        rw [Bool.eq_false_iff]
        intro enabled
        have possible := shows.next.mp enabled
        simp only [Cursor.HasNext] at possible
        omega
      have detail := detail_eq_of_drop shows remaining
      rw [← detail]
      exact NextWalk.stop screen disabled
  | screen, following :: rest, shown, index, shows, items, remaining => by
      have size : index + 1 < steps.length := by
        have lengths := congrArg List.length remaining
        simp only [List.length_drop, List.length_cons] at lengths
        omega
      have possible : Cursor.HasNext ⟨steps, (index : Int)⟩ := by
        simp only [Cursor.HasNext]
        omega
      have detail := detail_eq_of_drop shows remaining
      have inRange := Cursor.inRange_of_current shows.detail
      obtain ⟨next, moved, showsNext⟩ :=
        stepBy_shows ⟨steps, ((index + 1 : Nat) : Int)⟩ 1 shows items rfl
          rfl (Cursor.forward_inRange inRange possible)
      have itemsNext : steps = next.instructions := by
        obtain ⟨_, _, rfl⟩ := (stepBy_eq_some_iff _ _ _).mp moved
        exact items
      have remainingNext : steps.drop (index + 1) = following :: rest := by
        rw [← List.tail_drop, remaining, List.tail_cons]
      rw [← detail]
      exact NextWalk.tap screen next (following :: rest)
        (shows.next.mpr possible) moved
        (nextWalk_of_shows (index + 1) showsNext itemsNext remainingNext)

/-- Right after an array arrives on the first step, tapping Next until it is
disabled shows exactly the array. -/
theorem nextWalk_received_iff {screen : InterfaceController}
    (first : String) (rest shown : List String)
    (atFirst : screen.stepIndex = 0) :
    NextWalk (screen.showFirst first rest) shown ↔
      shown = first :: rest := by
  have shows := (received_shows_iff screen first rest).mpr atFirst
  have walk := nextWalk_of_shows 0 shows rfl List.drop_zero
  constructor
  · intro other
    exact other.unique walk
  · intro equality
    rw [equality]
    exact walk

/-- Along a run the screen keeps showing the step `k` of the last array
exactly when every array arrives on the first step; in such a run, tapping
Next right after an array shows its steps, each once and in order. -/
theorem shows_last_recipe_iff (events : List Event)
    (legal : Session.machine.Legal Session.init events) :
    (Session.machine.Always Session.InStep Session.init events ↔
      Session.machine.EachStep Session.ArrivesAtFirst
        Session.init events) ∧
    (Session.machine.EachStep Session.ArrivesAtFirst Session.init events →
      ∀ initial rest message getArray,
        initial ++ .didReceiveMessage message :: rest = events →
        message.passingInstructionArray = some getArray →
        ∃ session,
          Session.machine.run Session.init
              (initial ++ [.didReceiveMessage message]) = some session ∧
            ∀ shown,
              NextWalk session.screen shown ↔ shown = getArray) := by
  refine ⟨Session.always_inStep_iff events legal, ?_⟩
  intro atFirst initial rest message getArray shape received
  subst shape
  have kept := (Session.always_inStep_iff _ legal).mpr atFirst
  obtain ⟨before, arrived, _⟩ := kept.left.reached
  rw [List.append_cons] at legal atFirst
  have first := atFirst.left.last arrived
  have stepIndex : before.screen.stepIndex = 0 :=
    first (by simp [received])
  have steps := (legal.left.last arrived).2 getArray received
  cases getArray with
  | nil =>
      exact absurd rfl steps
  | cons head tail =>
      have handled := before.screen.didReceiveMessage_cons received
      refine
        ⟨⟨before.screen.showFirst head tail,
            some (Cursor.restart (head :: tail))⟩,
          ?_, fun shown => nextWalk_received_iff head tail shown stepIndex⟩
      rw [Machine.run_append, arrived]
      simp [Machine.run, Session.machine, machine, handled, follow,
        received]

theorem shows_last_recipe_two_recipes :
    Session.machine.Always Session.InStep Session.init
      [recipeMessage ["Chop", "Fry"], .nextTapped, .previousTapped,
        recipeMessage ["Boil", "Serve"], .nextTapped] :=
  (shows_last_recipe_iff _ (by decide)).1.mpr (by decide)

/-- The second recipe arrives while the second step of the first one is on
display. -/
def carriedOverRun : List Event :=
  [recipeMessage ["Chop", "Fry"], .nextTapped,
    recipeMessage ["Boil", "Serve"]]

/-- The labels then read `Step 1` and `Boil`, but Next is disabled and the
second step cannot be reached. -/
theorem carried_over_cursor :
    Session.machine.Legal Session.init carriedOverRun ∧
      ∃ session,
        Session.machine.run Session.init carriedOverRun = some session ∧
          session.cursor = some (Cursor.restart ["Boil", "Serve"]) ∧
          session.screen.stepIndex = 1 ∧
          session.screen.nextButton = false ∧
          ¬ session.InStep := by
  refine ⟨by decide, _, rfl, rfl, rfl, rfl, ?_⟩
  intro inStep
  have shown := (inStep _ rfl).stepIndex
  revert shown
  decide

end InterfaceController
end PocketChef
