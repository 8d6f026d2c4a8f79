import PocketChef.Library.Reactive
import PocketChef.Phone.InstructionsViewController
import PocketChef.Watch.InterfaceController

/-!
# The phone and the watch

The two screens run side by side, each with its session, and messages travel
between them in order.  The phone sends a recipe when it moves to it and at no
other time: it has no answer to `watchReady`, to its own activation or to a
change of reachability.  What the watch ends up with is therefore the last
recipe that was handed over, which is the one on the phone unless a later send
was dropped.
-/

namespace PocketChef
namespace Connectivity

open Reactive Issuing InstructionsViewController

/-- Both screens and everything between them.  `deferred` tells that the block
of `loadCoreInstruction` has not run; `announced` is the list that was last
handed to `sendMessage`, or the one the watch started with. -/
structure System where
  phone : InstructionsViewController
  watch : InterfaceController
  watchSession : Option WCSession
  toWatch : List Message
  toPhone : List Message
  deferred : Bool
  announced : List String

inductive Event where
  | phoneActivation (activationState : WCSessionActivationState)
  | phoneReachability (isReachable : Bool)
  | watchActivation (activationState : WCSessionActivationState)
  | watchReachability (isReachable : Bool)
  | deferredBlock
  | previousTapped
  | nextTapped
  | deliverToWatch
  | deliverToPhone
  deriving DecidableEq

def heard (shown : List String) (message : Message) : List String :=
  message.passingInstructionArray.getD shown

namespace System

/-- The phone's screen has just loaded and nothing is in flight. -/
def start (phone : InstructionsViewController) (watch : InterfaceController)
    (watchSession : Option WCSession) : System where
  phone := phone
  watch := watch
  watchSession := watchSession
  toWatch := []
  toPhone := []
  deferred := true
  announced := watch.instructions

/-- The messages that a handler of the phone sends join the queue. -/
def send (system : System)
    (action : Effect Message InstructionsViewController) : Option System :=
  action.result.map fun phone =>
    { system with
      phone := phone
      toWatch := system.toWatch ++ action.issued
      announced := action.issued.foldl heard system.announced }

/-- `session(_:activationDidCompleteWith:error:)` of the phone does nothing;
the session itself is in its new state. -/
def phoneActivation (system : System)
    (activationState : WCSessionActivationState) : System :=
  { system with
    phone :=
      { system.phone with
        session := system.phone.session.map fun session =>
          { session with activationState := activationState } } }

def phoneReachability (system : System) (isReachable : Bool) : System :=
  { system with
    phone :=
      { system.phone with
        session := system.phone.session.map fun session =>
          { session with isReachable := isReachable } } }

def watchActivation (system : System)
    (activationState : WCSessionActivationState) : System :=
  let watchSession := system.watchSession.map fun session =>
    { session with activationState := activationState }
  { system with
    watchSession := watchSession
    toPhone := system.toPhone ++
      InterfaceController.activationDidComplete watchSession
        activationState }

def watchReachability (system : System) (isReachable : Bool) : System :=
  { system with
    watchSession := system.watchSession.map fun session =>
      { session with isReachable := isReachable } }

/-- The phone has no `session(_:didReceiveMessage:)`, so a message to it is
dropped. -/
def machine : Machine System Event where
  enabled
    | system, .deferredBlock => system.deferred
    | system, .previousTapped => system.phone.previousButton
    | system, .nextTapped => system.phone.nextButton
    | system, .deliverToWatch => system.toWatch ≠ []
    | system, .deliverToPhone => system.toPhone ≠ []
    | _, .phoneActivation _ => True
    | _, .phoneReachability _ => True
    | _, .watchActivation _ => True
    | _, .watchReachability _ => True
  step
    | system, .phoneActivation activationState =>
        some (system.phoneActivation activationState)
    | system, .phoneReachability isReachable =>
        some (system.phoneReachability isReachable)
    | system, .watchActivation activationState =>
        some (system.watchActivation activationState)
    | system, .watchReachability isReachable =>
        some (system.watchReachability isReachable)
    | system, .deferredBlock =>
        { system with deferred := false }.send system.phone.deferredBlock
    | system, .previousTapped => system.send system.phone.previousTapped
    | system, .nextTapped => system.send system.phone.nextTapped
    | system, .deliverToWatch =>
        match system.toWatch with
        | [] => some system
        | message :: rest =>
            (system.watch.didReceiveMessage message).map fun watch =>
              { system with watch := watch, toWatch := rest }
    | system, .deliverToPhone =>
        some { system with toPhone := system.toPhone.tail }

instance : ∀ system event, Decidable (machine.enabled system event)
  | system, .deferredBlock =>
      inferInstanceAs (Decidable (system.deferred = true))
  | system, .previousTapped =>
      inferInstanceAs (Decidable (system.phone.previousButton = true))
  | system, .nextTapped =>
      inferInstanceAs (Decidable (system.phone.nextButton = true))
  | system, .deliverToWatch =>
      inferInstanceAs (Decidable (system.toWatch ≠ []))
  | system, .deliverToPhone =>
      inferInstanceAs (Decidable (system.toPhone ≠ []))
  | _, .phoneActivation _ => inferInstanceAs (Decidable True)
  | _, .phoneReachability _ => inferInstanceAs (Decidable True)
  | _, .watchActivation _ => inferInstanceAs (Decidable True)
  | _, .watchReachability _ => inferInstanceAs (Decidable True)

def WatchActivated (system : System) : Prop :=
  ∃ session ∈ system.watchSession, session.activationState = .activated

instance : DecidablePred WatchActivated := fun system =>
  inferInstanceAs <| Decidable <|
    ∃ session ∈ system.watchSession, session.activationState = .activated

/-- Nothing is in flight or deferred, both sessions are activated and the
phone reaches the watch. -/
def Settled (system : System) : Prop :=
  system.toWatch = [] ∧ system.toPhone = [] ∧ system.deferred = false ∧
    system.phone.Connected ∧ system.WatchActivated

instance : DecidablePred Settled := fun _ =>
  inferInstanceAs (Decidable (_ ∧ _ ∧ _ ∧ _ ∧ _))

/-- Once everything has settled, the watch has the steps that the phone
shows, unless those are empty. -/
def Agreed (system : System) : Prop :=
  system.Settled →
    ∀ steps ∈ system.phone.shownSteps, steps ≠ [] →
      system.watch.instructions = steps

instance : DecidablePred Agreed := fun system =>
  inferInstanceAs <| Decidable <|
    system.Settled → ∀ steps ∈ system.phone.shownSteps, steps ≠ [] →
      system.watch.instructions = steps

/-- Once everything has settled, the steps that the phone shows are the last
ones it handed over, unless they are empty. -/
def Announced (system : System) : Prop :=
  system.Settled →
    ∀ steps ∈ system.phone.shownSteps, steps ≠ [] →
      system.announced = steps

/-- The steps of the record `target` go through if there are any. -/
def GoesThrough (phone : InstructionsViewController) (target : Int) : Prop :=
  (∃ steps ∈ SwiftArray.get phone.instructions target, steps ≠ []) →
    phone.Connected

instance (phone : InstructionsViewController) (target : Int) :
    Decidable (GoesThrough phone target) :=
  inferInstanceAs <| Decidable <|
    (∃ steps ∈ SwiftArray.get phone.instructions target, steps ≠ []) →
      phone.Connected

/-- The deferred block, and every tap after it, moves to an empty record or
sends while the session is activated and the watch reachable. -/
def SendsConnected (system : System) : Event → Prop
  | .deferredBlock =>
      GoesThrough system.phone
        ((system.phone.instructions.length : Int) - 1)
  | .previousTapped =>
      system.deferred = false →
        GoesThrough system.phone (system.phone.index + -1)
  | .nextTapped =>
      system.deferred = false →
        GoesThrough system.phone (system.phone.index + 1)
  | _ => True

instance (system : System) : DecidablePred system.SendsConnected
  | .deferredBlock => inferInstanceAs (Decidable (GoesThrough _ _))
  | .previousTapped => inferInstanceAs (Decidable (_ → GoesThrough _ _))
  | .nextTapped => inferInstanceAs (Decidable (_ → GoesThrough _ _))
  | .phoneActivation _ => inferInstanceAs (Decidable True)
  | .phoneReachability _ => inferInstanceAs (Decidable True)
  | .watchActivation _ => inferInstanceAs (Decidable True)
  | .watchReachability _ => inferInstanceAs (Decidable True)
  | .deliverToWatch => inferInstanceAs (Decidable True)
  | .deliverToPhone => inferInstanceAs (Decidable True)

/-- The phone's index is in range, and the watch will have the list that was
last handed over once it has handled all messages in flight. -/
structure Linked (system : System) : Prop where
  inRange : system.phone.InRange
  carried :
    system.toWatch.foldl heard system.watch.instructions = system.announced

/-- After the deferred block, the steps that the phone shows are the last
ones it handed over, unless they are empty. -/
def UpToDate (system : System) : Prop :=
  system.deferred = false →
    ∀ steps ∈ system.phone.shownSteps, steps ≠ [] →
      system.announced = steps

/-! ## One step -/

theorem send_deferred {system next : System}
    {action : Effect Message InstructionsViewController}
    (sent : system.send action = some next) :
    next.deferred = system.deferred := by
  rcases Option.map_eq_some_iff.mp sent with ⟨phone, _, rfl⟩
  rfl

/-- A handler that moves to a record keeps the two screens linked, and leaves
the phone up to date when the steps of the record go through. -/
theorem send_linked {system : System} {target : Int}
    {action : Effect Message InstructionsViewController}
    {moved : InstructionsViewController} {steps : List String}
    (linked : system.Linked)
    (moves : MovesTo target system.phone action moved steps) :
    ∃ next,
      system.send action = some next ∧ next.Linked ∧
        (GoesThrough system.phone target → next.UpToDate) := by
  rw [moves.action_eq]
  refine ⟨_, rfl, ⟨moves.inRange, ?_⟩, ?_⟩
  · change (system.toWatch ++ _).foldl heard _ = _
    rw [List.foldl_append, linked.carried]
  · intro goesThrough _ shown present nonempty
    rw [Option.mem_def, moves.shown] at present
    cases present
    have connected := goesThrough ⟨steps, moves.found, nonempty⟩
    change (system.phone.messagesFor steps).foldl heard _ = steps
    rw [messagesFor, if_pos ⟨nonempty, connected⟩]
    rfl

theorem exists_moves {system : System} (linked : system.Linked)
    {offset : Int}
    (inside :
      0 ≤ system.phone.index + offset ∧
        system.phone.index + offset < system.phone.instructions.length) :
    ∃ next,
      system.send (system.phone.turnBy offset) = some next ∧ next.Linked ∧
        (GoesThrough system.phone (system.phone.index + offset) →
          next.UpToDate) := by
  rcases system.phone.turnBy_movesTo linked.inRange inside.1 inside.2 with
    ⟨moved, steps, moves⟩
  exact send_linked linked moves

theorem step_linked (system : System) (event : Event)
    (linked : system.Linked) (enabled : machine.enabled system event) :
    ∃ next ∈ machine.step system event,
      next.Linked ∧
        (system.UpToDate → system.SendsConnected event →
          next.UpToDate) := by
  have lower := linked.inRange.lower
  have upper := linked.inRange.upper
  cases event with
  | phoneActivation activationState =>
      exact ⟨_, rfl, ⟨linked.inRange.setSession _, linked.carried⟩,
        fun upToDate _ => upToDate⟩
  | phoneReachability isReachable =>
      exact ⟨_, rfl, ⟨linked.inRange.setSession _, linked.carried⟩,
        fun upToDate _ => upToDate⟩
  | watchActivation activationState =>
      exact ⟨_, rfl, ⟨linked.inRange, linked.carried⟩,
        fun upToDate _ => upToDate⟩
  | watchReachability isReachable =>
      exact ⟨_, rfl, ⟨linked.inRange, linked.carried⟩,
        fun upToDate _ => upToDate⟩
  | deferredBlock =>
      rcases system.phone.deferredBlock_movesTo linked.inRange with
        ⟨moved, steps, moves⟩
      rcases @send_linked { system with deferred := false } _ _ _ _
        ⟨linked.inRange, linked.carried⟩ moves with
        ⟨next, sent, linkedNext, upToDate⟩
      exact ⟨next, sent, linkedNext, fun _ through => upToDate through⟩
  | previousTapped =>
      have positive := linked.inRange.previous.mp enabled
      rcases @exists_moves system linked (-1) ⟨by omega, by omega⟩ with
        ⟨next, sent, linkedNext, upToDate⟩
      refine ⟨next, sent, linkedNext, fun _ through done => ?_⟩
      exact upToDate (through ((send_deferred sent).symm.trans done)) done
  | nextTapped =>
      have below := linked.inRange.next.mp enabled
      rcases @exists_moves system linked 1 ⟨by omega, by omega⟩ with
        ⟨next, sent, linkedNext, upToDate⟩
      refine ⟨next, sent, linkedNext, fun _ through done => ?_⟩
      exact upToDate (through ((send_deferred sent).symm.trans done)) done
  | deliverToWatch =>
      rcases List.exists_cons_of_ne_nil enabled with ⟨message, rest, queue⟩
      rcases system.watch.exists_didReceiveMessage message with
        ⟨watch, received, instructions⟩
      refine ⟨{ system with watch := watch, toWatch := rest }, ?_,
        ⟨linked.inRange, ?_⟩, fun upToDate _ => upToDate⟩
      · simp [machine, queue, received]
      · have carried := linked.carried
        rw [queue, List.foldl_cons] at carried
        change rest.foldl heard watch.instructions = system.announced
        rw [instructions]
        exact carried
  | deliverToPhone =>
      exact ⟨_, rfl, ⟨linked.inRange, linked.carried⟩,
        fun upToDate _ => upToDate⟩

/-! ## Whole runs -/

theorem step_keeps_linked (system : System) (event : Event) (next : System)
    (linked : system.Linked) (enabled : machine.enabled system event)
    (handled : machine.step system event = some next) : next.Linked := by
  apply Machine.keeps_of_advance _ system event next linked enabled handled
  intro state event before possible
  rcases step_linked state event before possible with
    ⟨after, reached, linkedAfter, _⟩
  exact ⟨after, reached, linkedAfter⟩

theorem Linked.agreed_iff {system : System} (linked : system.Linked) :
    system.Agreed ↔ system.Announced := by
  apply forall_congr'
  intro settled
  have carried := linked.carried
  rw [settled.1] at carried
  rw [show system.watch.instructions = system.announced from carried]

/-- Every run over at least one record leaves the watch with the steps on the
phone exactly as far as the phone has handed them over, and so does every run
in which what is sent from the deferred block on is sent while connected. -/
theorem always_agreed (first : Instruction) (rest : List Instruction)
    (session watchSession : Option WCSession)
    (phone : InstructionsViewController) (watch : InterfaceController)
    (events : List Event)
    (loaded : viewDidLoad {} (some (first :: rest)) session = some phone)
    (legal : machine.Legal (start phone watch watchSession) events) :
    (machine.Always Agreed (start phone watch watchSession) events ↔
        machine.Always Announced (start phone watch watchSession) events) ∧
      (machine.EachStep SendsConnected
          (start phone watch watchSession) events →
        machine.Always Agreed (start phone watch watchSession) events) := by
  have linked : (start phone watch watchSession).Linked :=
    ⟨viewDidLoad_inRange loaded, rfl⟩
  have agree :
      machine.Always Agreed (start phone watch watchSession) events ↔
        machine.Always Announced (start phone watch watchSession) events :=
    Machine.always_congr step_keeps_linked (fun _ => Linked.agreed_iff)
      linked legal
  refine ⟨agree, fun connected => ?_⟩
  have upToDate :
      machine.Always (fun system => system.Linked ∧ system.UpToDate)
        (start phone watch watchSession) events := by
    apply Machine.always_of_eachStep _ ⟨linked, fun done => nomatch done⟩
      legal connected
    intro system event before enabled sends
    rcases step_linked system event before.1 enabled with
      ⟨next, handled, linkedNext, upToDate⟩
    exact ⟨next, handled, linkedNext, upToDate before.2 sends⟩
  apply agree.mpr
  apply upToDate.imp
  intro system both settled
  exact both.2 settled.2.2.1

def toast : Instruction :=
  { id := 1, steps := ["Slice", "Toast"], title := "Toast" }

def tea : Instruction :=
  { id := 2, steps := ["Boil"], title := "Tea" }

/-- The screen over both, with a session in the given state. -/
def opened (session : WCSession) : InstructionsViewController :=
  { instructions := [["Slice", "Toast"], ["Boil"]]
    titles := ["Toast", "Tea"]
    titleLabel := "Toast"
    previousButton := false
    nextButton := true
    session := some session }

def warm : WCSession :=
  { activationState := .activated, isReachable := true }

theorem agreed_warm_session :
    machine.Always Agreed
      (start (opened warm) .init (some warm))
      [.deferredBlock, .deliverToWatch, .previousTapped,
        .deliverToWatch] :=
  (always_agreed toast [tea] (some warm) (some warm) (opened warm) .init _
    rfl (by decide)).2 (by decide)

/-- The sessions come up after the recipe was sent; nobody sends it again. -/
def activatedLate : List Event :=
  [.deferredBlock, .phoneReachability true, .phoneActivation .activated,
    .watchReachability true, .watchActivation .activated, .deliverToPhone]

theorem never_told :
    viewDidLoad {} (some [toast, tea]) (some {}) = some (opened {}) ∧
      machine.Legal (start (opened {}) .init (some {})) activatedLate ∧
      ¬ machine.Always Agreed (start (opened {}) .init (some {}))
        activatedLate := by
  decide

end System
end Connectivity
end PocketChef
