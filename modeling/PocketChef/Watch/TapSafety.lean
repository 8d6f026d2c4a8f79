import PocketChef.Watch.InterfaceController

/-!
# Taps on the watch and the range of `instructions`

An enabled button promises that the step it moves to exists.  A message keeps
that promise exactly when it fits the state it meets: an empty array must find
both buttons disabled, and any other array must be at least as long as
`stepIndex`.
-/

namespace PocketChef
namespace InterfaceController

open Reactive

/-- Each enabled button moves to an index of `instructions`. -/
def TapSafe (self : InterfaceController) : Prop :=
  (self.previousButton = true →
    0 ≤ self.stepIndex - 1 ∧
      self.stepIndex - 1 < self.instructions.length) ∧
  (self.nextButton = true →
    0 ≤ self.stepIndex + 1 ∧
      self.stepIndex + 1 < self.instructions.length)

instance : DecidablePred TapSafe := fun _ =>
  inferInstanceAs (Decidable ((_ → _) ∧ (_ → _)))

/-- An array fits a state when the buttons stay right after it arrives. -/
def Fits (self : InterfaceController) : List String → Prop
  | [] => self.previousButton = false ∧ self.nextButton = false
  | first :: rest => self.stepIndex ≤ (first :: rest).length

instance (self : InterfaceController) :
    ∀ getArray, Decidable (self.Fits getArray)
  | [] => inferInstanceAs (Decidable (_ ∧ _))
  | _ :: _ => inferInstanceAs (Decidable (_ ≤ _))

/-- Every array that arrives fits; taps are not restricted. -/
def FittingDelivery (self : InterfaceController) : Event → Prop
  | .didReceiveMessage message =>
      ∀ getArray ∈ message.passingInstructionArray, self.Fits getArray
  | .previousTapped => True
  | .nextTapped => True

instance : ∀ self event, Decidable (FittingDelivery self event)
  | self, .didReceiveMessage message =>
      inferInstanceAs <| Decidable <|
        ∀ getArray ∈ message.passingInstructionArray, self.Fits getArray
  | _, .previousTapped => inferInstanceAs (Decidable True)
  | _, .nextTapped => inferInstanceAs (Decidable True)

/-- The part of the state that every handler maintains, whatever arrives. -/
structure Indexed (watch : InterfaceController) : Prop where
  nonneg : 0 ≤ watch.stepIndex
  previous : watch.previousButton = true → 0 < watch.stepIndex

theorem init_indexed : init.Indexed where
  nonneg := Int.le_refl 0
  previous := fun enabled => absurd enabled (by decide)

theorem checkButtons_indexed {self : InterfaceController}
    (nonneg : 0 ≤ self.stepIndex) : self.checkButtons.Indexed where
  nonneg := nonneg
  previous := self.checkButtons_previousButton.mp

/-- After `checkButtons` only an index beyond the end makes a tap unsafe. -/
theorem checkButtons_tapSafe_iff {self : InterfaceController}
    (nonneg : 0 ≤ self.stepIndex) :
    self.checkButtons.TapSafe ↔
      (0 < self.stepIndex →
        self.stepIndex ≤ self.instructions.length) := by
  simp only [TapSafe, checkButtons_previousButton,
    checkButtons_nextButton, checkButtons_stepIndex,
    checkButtons_instructions]
  omega

/-- Delivering an array keeps the taps safe exactly when it fits. -/
theorem fits_iff {self next : InterfaceController} {message : Message}
    (indexed : self.Indexed) (safe : self.TapSafe)
    (handled : self.didReceiveMessage message = some next) :
    (∀ getArray ∈ message.passingInstructionArray, self.Fits getArray) ↔
      next.TapSafe := by
  cases received : message.passingInstructionArray with
  | none =>
      rw [self.didReceiveMessage_absent received] at handled
      cases handled
      simp [safe]
  | some getArray =>
      cases getArray with
      | nil =>
          rw [self.didReceiveMessage_empty received] at handled
          cases handled
          have outside (index : Int) :
              ¬ (0 ≤ index ∧ index < ((0 : Nat) : Int)) := by
            omega
          simp only [Option.mem_some_iff, forall_eq', Fits, TapSafe,
            List.length_nil, outside, imp_false, Bool.not_eq_true]
      | cons first rest =>
          rw [self.didReceiveMessage_cons received] at handled
          cases handled
          have nonneg : 0 ≤ self.stepIndex := indexed.nonneg
          have safe_iff :
              (self.showFirst first rest).TapSafe ↔
                (0 < self.stepIndex →
                  self.stepIndex ≤ (first :: rest).length) :=
            checkButtons_tapSafe_iff nonneg
          rw [safe_iff]
          simp only [Option.mem_some_iff, forall_eq', Fits]
          omega

/-- A move to an index in range succeeds and leaves the taps safe. -/
theorem stepBy_tapSafe {self : InterfaceController} (offset : Int)
    (lower : 0 ≤ self.stepIndex + offset)
    (upper : self.stepIndex + offset < self.instructions.length) :
    ∃ next ∈ self.stepBy offset, next.TapSafe := by
  obtain ⟨detail, found⟩ :=
    (SwiftArray.exists_get_iff self.instructions _).mpr ⟨lower, upper⟩
  refine ⟨_, (self.stepBy_eq_some_iff offset _).mpr ⟨detail, found, rfl⟩, ?_⟩
  rw [checkButtons_tapSafe_iff lower]
  intro _
  exact Int.le_of_lt upper

theorem stepBy_indexed {self next : InterfaceController} {offset : Int}
    (moved : self.stepBy offset = some next) : next.Indexed := by
  obtain ⟨detail, found, rfl⟩ := (self.stepBy_eq_some_iff offset next).mp moved
  exact checkButtons_indexed (SwiftArray.in_range_of_get_eq_some found).1

theorem step_indexed (self : InterfaceController) (event : Event)
    (next : InterfaceController) (indexed : self.Indexed)
    (_enabled : machine.enabled self event)
    (handled : machine.step self event = some next) : next.Indexed := by
  cases event with
  | didReceiveMessage message =>
      change self.didReceiveMessage message = some next at handled
      cases received : message.passingInstructionArray with
      | none =>
          rw [self.didReceiveMessage_absent received] at handled
          cases handled
          exact indexed
      | some getArray =>
          cases getArray with
          | nil =>
              rw [self.didReceiveMessage_empty received] at handled
              cases handled
              exact ⟨indexed.nonneg, indexed.previous⟩
          | cons first rest =>
              rw [self.didReceiveMessage_cons received] at handled
              cases handled
              exact checkButtons_indexed indexed.nonneg
  | previousTapped =>
      exact stepBy_indexed handled
  | nextTapped =>
      exact stepBy_indexed handled

theorem step_tapSafe_iff (self : InterfaceController) (event : Event)
    (indexed : self.Indexed) (safe : self.TapSafe)
    (enabled : machine.enabled self event) :
    self.FittingDelivery event ↔
      ∃ next ∈ machine.step self event, next.TapSafe := by
  cases event with
  | didReceiveMessage message =>
      obtain ⟨next, handled, _⟩ := self.exists_didReceiveMessage message
      have exact_step := fits_iff indexed safe handled
      simp only [FittingDelivery, machine, handled, Option.mem_some_iff,
        exists_eq_left']
      exact exact_step
  | previousTapped =>
      have range := safe.1 enabled
      exact iff_of_true trivial (stepBy_tapSafe (-1) range.1 range.2)
  | nextTapped =>
      have range := safe.2 enabled
      exact iff_of_true trivial (stepBy_tapSafe 1 range.1 range.2)

/-- Along a run from the initial state no event traps and every enabled
button stays in range exactly when every array that arrives fits. -/
theorem tapSafe_iff_fittingDelivery (events : List Event)
    (legal : machine.Legal init events) :
    machine.Always TapSafe init events ↔
      machine.EachStep FittingDelivery init events :=
  Machine.always_iff_eachStep step_indexed step_tapSafe_iff
    init_indexed (by decide) legal

theorem tapSafe_browse_two_recipes :
    machine.Always TapSafe init
      [recipeMessage ["Chop", "Fry"], .nextTapped, .previousTapped,
        recipeMessage ["Boil"]] :=
  (tapSafe_iff_fittingDelivery _ (by decide)).mpr (by decide)

def emptiedRun : List Event :=
  [recipeMessage ["Chop", "Fry"], recipeMessage [], .nextTapped]

/-- A shorter array leaves `stepIndex` two steps beyond its end. -/
def shortenedRun : List Event :=
  [recipeMessage ["Chop", "Fry", "Serve"], .nextTapped, .nextTapped,
    recipeMessage ["Boil"], .previousTapped]

theorem legal_run_traps :
    (machine.Legal init emptiedRun ∧
        machine.run init emptiedRun = none ∧
        ¬ machine.Always TapSafe init emptiedRun) ∧
      machine.Legal init shortenedRun ∧
        machine.run init shortenedRun = none ∧
        ¬ machine.Always TapSafe init shortenedRun := by
  decide

end InterfaceController
end PocketChef
