import Mathlib.Tactic.TypeStar
import Mathlib.Data.Option.Basic

/-!
# Event-driven machines with traps

A machine receives one event at a time.  `enabled` says which events the
environment can deliver in a state, and `step` handles one of them; `none`
means that the handler traps.

Properties of runs come in two forms:

* `Always` holds when no event of the run traps and every state reached has
  the property;
* `EachStep` holds when every event of the run meets a condition together
  with the state in which it arrives.

The rules at the end pass from a fact about one step to a fact about every
run.
-/

namespace Reactive

universe u v

structure Machine (State : Type u) (Event : Type v) where
  enabled : State → Event → Prop
  step : State → Event → Option State

namespace Machine

variable {State : Type u} {Event : Type v}
variable (machine : Machine State Event)

/-- The state after a list of events, or `none` once one of them traps. -/
def run : State → List Event → Option State
  | state, [] => some state
  | state, event :: events =>
      (machine.step state event).bind fun next => run next events

/-- Every event is enabled in the state in which it arrives.  Nothing is
asked of the events after a trap. -/
def Legal : State → List Event → Prop
  | _, [] => True
  | state, event :: events =>
      machine.enabled state event ∧
        ∀ next ∈ machine.step state event, Legal next events

/-- No event traps and every state reached, the first one included, has the
property. -/
def Always (property : State → Prop) : State → List Event → Prop
  | state, [] => property state
  | state, event :: events =>
      property state ∧
        ∃ next ∈ machine.step state event, Always property next events

/-- Every event meets the condition in the state in which it arrives. -/
def EachStep (condition : State → Event → Prop) :
    State → List Event → Prop
  | _, [] => True
  | state, event :: events =>
      condition state event ∧
        ∀ next ∈ machine.step state event,
          EachStep condition next events

/-- The handler of the event returns. -/
def Returns (state : State) (event : Event) : Prop :=
  ∃ next, machine.step state event = some next

instance decidableReturns (state : State) :
    DecidablePred (machine.Returns state) := fun _ =>
  decidable_of_iff _ Option.isSome_iff_exists

instance decidableLegal
    [∀ state event, Decidable (machine.enabled state event)] :
    ∀ state events, Decidable (machine.Legal state events)
  | _, [] => inferInstanceAs (Decidable True)
  | state, event :: events =>
      have := fun next => decidableLegal next events
      inferInstanceAs <| Decidable <|
        machine.enabled state event ∧
          ∀ next ∈ machine.step state event, machine.Legal next events

instance decidableEachStep
    (condition : State → Event → Prop)
    [∀ state event, Decidable (condition state event)] :
    ∀ state events, Decidable (machine.EachStep condition state events)
  | _, [] => inferInstanceAs (Decidable True)
  | state, event :: events =>
      have := fun next => decidableEachStep condition next events
      inferInstanceAs <| Decidable <|
        condition state event ∧
          ∀ next ∈ machine.step state event,
            machine.EachStep condition next events

instance decidableAlways
    (property : State → Prop) [DecidablePred property] :
    ∀ state events, Decidable (machine.Always property state events)
  | state, [] => inferInstanceAs (Decidable (property state))
  | state, event :: events =>
      have := fun next => decidableAlways property next events
      inferInstanceAs <| Decidable <|
        property state ∧
          ∃ next ∈ machine.step state event,
            machine.Always property next events

/-! ## Runs and their prefixes -/

variable {machine}

theorem returns_of_step {state next : State} {event : Event}
    (handled : machine.step state event = some next) :
    machine.Returns state event :=
  ⟨next, handled⟩

theorem not_returns_of_trap {state : State} {event : Event}
    (trapped : machine.step state event = none) :
    ¬ machine.Returns state event := by
  rintro ⟨next, handled⟩
  cases trapped.symm.trans handled

theorem run_append (state : State) (first second : List Event) :
    machine.run state (first ++ second) =
      (machine.run state first).bind fun next => machine.run next second := by
  induction first generalizing state with
  | nil =>
      rfl
  | cons event rest inductionHypothesis =>
      cases handled : machine.step state event with
      | none =>
          simp [run, handled]
      | some next =>
          simpa [run, handled] using inductionHypothesis next

theorem Legal.left {state : State} {first second : List Event}
    (legal : machine.Legal state (first ++ second)) :
    machine.Legal state first := by
  induction first generalizing state with
  | nil =>
      trivial
  | cons event rest inductionHypothesis =>
      exact ⟨legal.1, fun next handled =>
        inductionHypothesis (legal.2 next handled)⟩

theorem Legal.right
    {state reached : State} {first second : List Event}
    (legal : machine.Legal state (first ++ second))
    (arrived : machine.run state first = some reached) :
    machine.Legal reached second := by
  induction first generalizing state with
  | nil =>
      cases arrived
      exact legal
  | cons head rest inductionHypothesis =>
      obtain ⟨next, handled, remaining⟩ := Option.bind_eq_some_iff.mp arrived
      exact inductionHypothesis (legal.2 next handled) remaining

theorem Legal.last
    {state reached : State} {first : List Event} {event : Event}
    (legal : machine.Legal state (first ++ [event]))
    (arrived : machine.run state first = some reached) :
    machine.enabled reached event :=
  (legal.right arrived).1

theorem EachStep.left {condition : State → Event → Prop}
    {state : State} {first second : List Event}
    (steps : machine.EachStep condition state (first ++ second)) :
    machine.EachStep condition state first := by
  induction first generalizing state with
  | nil =>
      trivial
  | cons event rest inductionHypothesis =>
      exact ⟨steps.1, fun next handled =>
        inductionHypothesis (steps.2 next handled)⟩

theorem EachStep.last {condition : State → Event → Prop}
    {state reached : State} {first : List Event} {event : Event}
    (steps : machine.EachStep condition state (first ++ [event]))
    (arrived : machine.run state first = some reached) :
    condition reached event := by
  induction first generalizing state with
  | nil =>
      cases arrived
      exact steps.1
  | cons head rest inductionHypothesis =>
      obtain ⟨next, handled, remaining⟩ := Option.bind_eq_some_iff.mp arrived
      exact inductionHypothesis (steps.2 next handled) remaining

/-- A run that keeps a property ends, without a trap, in a state that has
it. -/
theorem Always.reached {property : State → Prop}
    {state : State} {events : List Event}
    (kept : machine.Always property state events) :
    ∃ final, machine.run state events = some final ∧ property final := by
  induction events generalizing state with
  | nil =>
      exact ⟨state, rfl, kept⟩
  | cons event rest inductionHypothesis =>
      obtain ⟨_, next, handled, remaining⟩ := kept
      obtain ⟨final, arrived, holds⟩ := inductionHypothesis remaining
      refine ⟨final, ?_, holds⟩
      rw [run, Option.mem_def.mp handled]
      exact arrived

theorem Always.left {property : State → Prop}
    {state : State} {first second : List Event}
    (kept : machine.Always property state (first ++ second)) :
    machine.Always property state first := by
  induction first generalizing state with
  | nil =>
      cases second with
      | nil => exact kept
      | cons event rest => exact kept.1
  | cons event rest inductionHypothesis =>
      obtain ⟨holds, next, handled, remaining⟩ := kept
      exact ⟨holds, next, handled, inductionHypothesis remaining⟩

/-! ## From one step to a run -/

/-- When every enabled event of a state with the invariant is handled and
leads to such a state, every handled event keeps the invariant. -/
theorem keeps_of_advance {invariant : State → Prop}
    (advance :
      ∀ state event, invariant state → machine.enabled state event →
        ∃ next ∈ machine.step state event, invariant next) :
    ∀ state event next, invariant state → machine.enabled state event →
      machine.step state event = some next → invariant next := by
  intro state event next holds enabled handled
  obtain ⟨other, same, holdsNext⟩ := advance state event holds enabled
  cases Option.mem_unique same handled
  exact holdsNext

section Invariants

variable {invariant : State → Prop}
variable
  (keeps :
    ∀ state event next, invariant state → machine.enabled state event →
      machine.step state event = some next → invariant next)

include keeps

theorem invariant_of_run
    {state final : State} {events : List Event}
    (start : invariant state) (legal : machine.Legal state events)
    (arrived : machine.run state events = some final) :
    invariant final := by
  induction events generalizing state with
  | nil =>
      cases arrived
      exact start
  | cons event rest inductionHypothesis =>
      obtain ⟨next, handled, remaining⟩ := Option.bind_eq_some_iff.mp arrived
      exact inductionHypothesis
        (keeps state event next start legal.1 handled)
        (legal.2 next handled) remaining

/-- A preorder that every handled event respects relates the two ends of every
run. -/
theorem related_of_run {relation : State → State → Prop}
    (reflexive : ∀ state, relation state state)
    (transitive :
      ∀ first second third, relation first second →
        relation second third → relation first third)
    (each :
      ∀ state event next, invariant state → machine.enabled state event →
        machine.step state event = some next → relation state next)
    {state final : State} {events : List Event}
    (start : invariant state) (legal : machine.Legal state events)
    (arrived : machine.run state events = some final) :
    relation state final := by
  induction events generalizing state with
  | nil =>
      cases arrived
      exact reflexive _
  | cons event rest inductionHypothesis =>
      obtain ⟨next, handled, remaining⟩ := Option.bind_eq_some_iff.mp arrived
      exact transitive state next final
        (each state event next start legal.1 handled)
        (inductionHypothesis
          (keeps state event next start legal.1 handled)
          (legal.2 next handled) remaining)

/-- Two conditions that agree on enabled events in states with the invariant
agree on whole runs. -/
theorem eachStep_congr {left right : State → Event → Prop}
    (agree :
      ∀ state event, invariant state → machine.enabled state event →
        (left state event ↔ right state event))
    {state : State} {events : List Event}
    (start : invariant state) (legal : machine.Legal state events) :
    machine.EachStep left state events ↔
      machine.EachStep right state events := by
  induction events generalizing state with
  | nil =>
      exact Iff.rfl
  | cons event rest inductionHypothesis =>
      refine and_congr (agree state event start legal.1) ?_
      refine forall_congr' fun next => forall_congr' fun handled => ?_
      exact inductionHypothesis
        (keeps state event next start legal.1 handled)
        (legal.2 next handled)

theorem always_congr {left right : State → Prop}
    (agree : ∀ state, invariant state → (left state ↔ right state))
    {state : State} {events : List Event}
    (start : invariant state) (legal : machine.Legal state events) :
    machine.Always left state events ↔
      machine.Always right state events := by
  induction events generalizing state with
  | nil =>
      exact agree state start
  | cons event rest inductionHypothesis =>
      refine and_congr (agree state start) ?_
      refine exists_congr fun next => and_congr_right fun handled => ?_
      exact inductionHypothesis
        (keeps state event next start legal.1 handled)
        (legal.2 next handled)

end Invariants

/-- A property that every event keeps under a condition holds along every run
whose events all meet the condition. -/
theorem always_of_eachStep
    {property : State → Prop} {condition : State → Event → Prop}
    (advance :
      ∀ state event, property state → machine.enabled state event →
        condition state event →
          ∃ next ∈ machine.step state event, property next)
    {state : State} {events : List Event}
    (holds : property state) (legal : machine.Legal state events)
    (meets : machine.EachStep condition state events) :
    machine.Always property state events := by
  induction events generalizing state with
  | nil =>
      exact holds
  | cons event rest inductionHypothesis =>
      obtain ⟨next, handled, holdsNext⟩ :=
        advance state event holds legal.1 meets.1
      exact ⟨holds, next, handled,
        inductionHypothesis holdsNext (legal.2 next handled)
          (meets.2 next handled)⟩

/-- A property that every enabled event keeps holds along every run. -/
theorem always_of_advance {property : State → Prop}
    (advance :
      ∀ state event, property state → machine.enabled state event →
        ∃ next ∈ machine.step state event, property next)
    {state : State} {events : List Event}
    (holds : property state) (legal : machine.Legal state events) :
    machine.Always property state events := by
  induction events generalizing state with
  | nil =>
      exact holds
  | cons event rest inductionHypothesis =>
      rcases advance state event holds legal.1 with
        ⟨next, handled, holdsNext⟩
      exact ⟨holds, next, handled,
        inductionHypothesis holdsNext (legal.2 next handled)⟩

theorem Always.imp {left right : State → Prop}
    (weaken : ∀ state, left state → right state)
    {state : State} {events : List Event}
    (kept : machine.Always left state events) :
    machine.Always right state events := by
  induction events generalizing state with
  | nil =>
      exact weaken state kept
  | cons event rest inductionHypothesis =>
      obtain ⟨holds, next, handled, remaining⟩ := kept
      exact ⟨weaken state holds, next, handled,
        inductionHypothesis remaining⟩

/-- A property holds along a run exactly when every event meets the condition
that is exact for one step. -/
theorem always_iff_eachStep
    {invariant property : State → Prop}
    {condition : State → Event → Prop}
    (keeps :
      ∀ state event next, invariant state → machine.enabled state event →
        machine.step state event = some next → invariant next)
    (exact_step :
      ∀ state event, invariant state → property state →
        machine.enabled state event →
          (condition state event ↔
            ∃ next ∈ machine.step state event, property next))
    {state : State} {events : List Event}
    (start : invariant state) (holds : property state)
    (legal : machine.Legal state events) :
    machine.Always property state events ↔
      machine.EachStep condition state events := by
  induction events generalizing state with
  | nil =>
      exact iff_of_true holds trivial
  | cons event rest inductionHypothesis =>
      have head := exact_step state event start holds legal.1
      constructor
      · rintro ⟨_, next, handled, kept⟩
        have holdsNext : property next := by
          cases rest with
          | nil => exact kept
          | cons _ _ => exact kept.1
        refine ⟨head.mpr ⟨next, handled, holdsNext⟩, ?_⟩
        intro other handledOther
        cases Option.mem_unique handled handledOther
        exact
          (inductionHypothesis
            (keeps state event next start legal.1 handled)
            holdsNext (legal.2 next handled)).mp kept
      · rintro ⟨meets, remaining⟩
        obtain ⟨next, handled, holdsNext⟩ := head.mp meets
        exact ⟨holds, next, handled,
          (inductionHypothesis
            (keeps state event next start legal.1 handled)
            holdsNext (legal.2 next handled)).mpr
              (remaining next handled)⟩

end Machine

end Reactive
