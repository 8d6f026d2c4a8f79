import PocketChef.Library.Reactive
import PocketChef.SavedLists.RoundTrip

/-!
# Editing the frequent list while it loads

The load of the frequent list completes at some point between the user's
edits.  Saving wipes the node and writes what is in memory, so it loses
entries before the load has completed, brings them back when the load
completes after `clearTapped`, and traps once nothing is left.  A screen whose
load could not be issued never gets that far.
-/

namespace PocketChef
namespace FrequentListViewController

open Reactive Firebase FUtilities Issuing SavedLists Ingredient

/-- A screen with the remote database and its `getData` request.

`remaining` is the list stored at the beginning without the entries that the
user has deleted.  A row can be deleted only once the list has arrived, and
until `clearTapped` the rows are the remaining entries. -/
structure Editing where
  screen : FrequentListViewController
  remote : Database
  request : Option DataSnapshot
  remaining : List Ingredient
  cleared : Bool

inductive Edit where
  | didGetData
  | removeRow (row : Nat)
  | saveTapped
  | clearTapped
  deriving DecidableEq

namespace Editing

/-- The screen opens for `currentUid` and asks for the stored list, unless
`child:` raises. -/
def start (currentUid : String) (database : Database) : Option Editing :=
  let opened : FrequentListViewController := { currentUid := currentUid }
  (opened.getData database).map fun snapshot =>
    { screen := opened
      remote := database
      request := some snapshot
      remaining := (opened.didGetData (.ok snapshot)).list
      cleared := false }

/-- The writes of an action reach the remote database in issue order. -/
def perform (editing : Editing)
    (action : Effect Write FrequentListViewController) : Option Editing :=
  action.result.map fun screen =>
    { editing with
      screen := screen
      remote := Write.applyAll editing.remote action.issued }

def machine : Machine Editing Edit where
  enabled
    | editing, .didGetData => editing.request.isSome
    | editing, .removeRow row => row < editing.screen.list.length
    | _, .saveTapped => True
    | _, .clearTapped => True
  step
    | editing, .didGetData =>
        editing.request.map fun snapshot =>
          { editing with
            screen := editing.screen.didGetData (.ok snapshot)
            request := none }
    | editing, .removeRow row =>
        (editing.screen.removeRow row).map fun screen =>
          { editing with
            screen := screen
            remaining := editing.remaining.eraseIdx row }
    | editing, .saveTapped =>
        editing.perform editing.screen.saveTapped
    | editing, .clearTapped =>
        (editing.perform editing.screen.clearTapped).map fun next =>
          { next with cleared := true }

instance : ∀ editing edit, Decidable (machine.enabled editing edit)
  | editing, .didGetData =>
      inferInstanceAs (Decidable (editing.request.isSome = true))
  | editing, .removeRow row =>
      inferInstanceAs (Decidable (row < editing.screen.list.length))
  | _, .saveTapped => inferInstanceAs (Decidable True)
  | _, .clearTapped => inferInstanceAs (Decidable True)

/-- What the remote list should be. -/
def expected (editing : Editing) : List Ingredient :=
  if editing.cleared then [] else editing.remaining

/-- The edit does not trap, and a save leaves the expected list on the
node. -/
def Kept (editing : Editing) (edit : Edit) : Prop :=
  ∃ next ∈ machine.step editing edit,
    edit = .saveTapped →
      loaded next.screen.currentUid next.remote = some next.expected

instance (editing : Editing) (edit : Edit) :
    Decidable (Kept editing edit) :=
  inferInstanceAs <| Decidable <|
    ∃ next ∈ machine.step editing edit, edit = .saveTapped →
      loaded next.screen.currentUid next.remote = some next.expected

/-- A save has a uid and comes after the list has arrived, with nothing
cleared and with some entry left. -/
def SavesRemaining (editing : Editing) : Edit → Prop
  | .saveTapped =>
      editing.screen.currentUid ≠ "" ∧ editing.request = none ∧
        editing.cleared = false ∧ editing.remaining ≠ []
  | _ => True

instance (editing : Editing) : DecidablePred editing.SavesRemaining
  | .saveTapped =>
      have : Decidable (editing.request = none) :=
        decidable_of_iff _ Option.isNone_iff_eq_none
      inferInstanceAs (Decidable (_ ≠ _ ∧ _ ∧ _ ∧ _))
  | .didGetData => inferInstanceAs (Decidable True)
  | .removeRow _ => inferInstanceAs (Decidable True)
  | .clearTapped => inferInstanceAs (Decidable True)

/-- How the list in memory is related to the one stored at the beginning. -/
structure Tracks (initial : List Ingredient) (editing : Editing) : Prop where
  plain : FValidation.isPlain editing.screen.currentUid = true
  waiting :
    ∀ snapshot ∈ editing.request,
      appendChildren [] snapshot = initial ∧
        editing.screen.list = [] ∧ editing.remaining = initial
  arrived :
    editing.request = none → editing.cleared = false →
      editing.screen.list = editing.remaining
  size : editing.screen.list.length ≤ initial.length

theorem start_tracks {currentUid : String} {database : Database}
    {editing : Editing} (opened : start currentUid database = some editing) :
    Tracks editing.remaining editing := by
  rw [start, getData_eq] at opened
  by_cases plain : FValidation.isPlain currentUid = true
  · rw [if_pos plain] at opened
    cases opened
    constructor
    · exact plain
    · intro snapshot requested
      cases requested
      have read := didGetData_list { currentUid := currentUid }
        ⟨database, listPath currentUid⟩
      exact ⟨read.symm, rfl, rfl⟩
    · intro done
      cases done
    · exact Nat.zero_le _
  · rw [if_neg plain] at opened
    cases opened

/-! ## One edit -/

theorem step_removeRow {editing next : Editing} {row : Nat}
    (handled : machine.step editing (.removeRow row) = some next) :
    row < editing.screen.list.length ∧
      next =
        { editing with
          screen :=
            { editing.screen with
              list := editing.screen.list.eraseIdx row }
          remaining := editing.remaining.eraseIdx row } := by
  by_cases inRange : row < editing.screen.list.length
  · simp only [machine, removeRow, SwiftArray.remove, if_pos inRange]
      at handled
    exact ⟨inRange, (Option.some.inj handled).symm⟩
  · simp only [machine, removeRow, SwiftArray.remove, if_neg inRange]
      at handled
    cases handled

theorem step_saveTapped_of_nil {editing : Editing}
    (plain : FValidation.isPlain editing.screen.currentUid = true)
    (empty : editing.screen.list = []) :
    machine.step editing .saveTapped = none := by
  simp only [machine, perform, saveTapped_of_nil _ plain empty,
    Option.map_none]

/-- Without a uid the node of all lists is removed, and then nothing can be
written. -/
theorem step_saveTapped_of_no_uid {editing : Editing}
    (unknown : editing.screen.currentUid = "") :
    machine.step editing .saveTapped = none := by
  have plain : FValidation.isPlain editing.screen.currentUid = true := by
    rw [unknown]
    rfl
  have invalid :
      FValidation.isValidPathString editing.screen.currentUid = false := by
    rw [unknown]
    rfl
  simp only [machine, perform, saveTapped_eq _ plain,
    writeEntries_of_invalid _ _ invalid, Option.map_none]

theorem step_saveTapped_of_ne_nil {editing : Editing}
    (valid :
      FValidation.isValidPathString editing.screen.currentUid = true)
    (nonempty : editing.screen.list ≠ []) :
    machine.step editing .saveTapped =
      some { editing with
        remote :=
          Write.applyAll editing.remote editing.screen.saveTapped.issued } := by
  simp only [machine, perform, saveTapped_of_ne_nil _ valid nonempty,
    Option.map_some]

theorem step_clearTapped {editing : Editing}
    (plain : FValidation.isPlain editing.screen.currentUid = true) :
    machine.step editing .clearTapped =
      some { editing with
        screen := { editing.screen with list := [] }
        remote :=
          Write.applyAll editing.remote editing.screen.clearTapped.issued
        cleared := true } := by
  simp only [machine, perform, clearTapped_eq _ plain, Option.map_some]

theorem step_tracks (initial : List Ingredient)
    (editing : Editing) (edit : Edit) (next : Editing)
    (tracks : Tracks initial editing)
    (_enabled : machine.enabled editing edit)
    (handled : machine.step editing edit = some next) :
    Tracks initial next := by
  cases edit with
  | didGetData =>
      obtain ⟨snapshot, requested, rfl⟩ := Option.map_eq_some_iff.mp handled
      have waiting := tracks.waiting snapshot requested
      have arrives :
          (editing.screen.didGetData (.ok snapshot)).list = initial := by
        rw [didGetData_list, waiting.2.1, waiting.1]
      constructor
      · rw [didGetData_currentUid]
        exact tracks.plain
      · intro _ requestedAgain
        cases requestedAgain
      · intro _ _
        exact arrives.trans waiting.2.2.symm
      · exact Nat.le_of_eq (congrArg List.length arrives)
  | removeRow row =>
      obtain ⟨inRange, rfl⟩ := step_removeRow handled
      constructor
      · exact tracks.plain
      · intro snapshot requested
        have empty := (tracks.waiting snapshot requested).2.1
        rw [empty] at inRange
        cases inRange
      · intro done kept
        exact congrArg (List.eraseIdx · row) (tracks.arrived done kept)
      · exact (List.length_eraseIdx_le _ _).trans tracks.size
  | saveTapped =>
      by_cases unknown : editing.screen.currentUid = ""
      · rw [step_saveTapped_of_no_uid unknown] at handled
        cases handled
      by_cases empty : editing.screen.list = []
      · rw [step_saveTapped_of_nil tracks.plain empty] at handled
        cases handled
      · have valid :=
          (FValidation.isValidPathString_iff unknown).mpr tracks.plain
        rw [step_saveTapped_of_ne_nil valid empty] at handled
        cases handled
        exact ⟨tracks.plain, tracks.waiting, tracks.arrived, tracks.size⟩
  | clearTapped =>
      rw [step_clearTapped tracks.plain] at handled
      cases handled
      constructor
      · exact tracks.plain
      · intro snapshot requested
        have waiting := tracks.waiting snapshot requested
        exact ⟨waiting.1, rfl, waiting.2.2⟩
      · intro _ kept
        cases kept
      · exact Nat.zero_le _

theorem loaded_saveTapped {editing : Editing}
    (valid :
      FValidation.isValidPathString editing.screen.currentUid = true)
    (nonempty : editing.screen.list ≠ [])
    (numeric : KeysNumeric editing.screen.list.length) :
    loaded editing.screen.currentUid
        (Write.applyAll editing.remote editing.screen.saveTapped.issued) =
      some editing.screen.list :=
  loaded_of_holds (FValidation.isPlain_of_isValidPathString valid)
    (saveTapped_holds _ valid nonempty editing.remote) numeric

theorem kept_saveTapped_iff {initial : List Ingredient} {editing : Editing}
    (numeric : KeysNumeric initial.length)
    (tracks : Tracks initial editing) :
    Kept editing .saveTapped ↔ editing.SavesRemaining .saveTapped := by
  have enumerated := numeric.mono tracks.size
  constructor
  · intro kept
    obtain ⟨next, handled, decoded⟩ := kept
    have known : editing.screen.currentUid ≠ "" := by
      intro unknown
      rw [step_saveTapped_of_no_uid unknown] at handled
      cases handled
    have valid := (FValidation.isValidPathString_iff known).mpr tracks.plain
    have nonempty : editing.screen.list ≠ [] := by
      intro empty
      rw [step_saveTapped_of_nil tracks.plain empty] at handled
      cases handled
    rw [step_saveTapped_of_ne_nil valid nonempty] at handled
    cases handled
    have shown : editing.screen.list = editing.expected :=
      Option.some.inj <|
        (loaded_saveTapped valid nonempty enumerated).symm.trans
          (decoded rfl)
    have notCleared : editing.cleared = false := by
      by_contra cleared
      have none_expected : editing.expected = [] :=
        if_pos (Bool.not_eq_false _ ▸ cleared)
      exact nonempty (shown.trans none_expected)
    have arrived : editing.request = none := by
      cases requested : editing.request with
      | none => rfl
      | some snapshot =>
          exact absurd (tracks.waiting snapshot requested).2.1 nonempty
    refine ⟨known, arrived, notCleared, ?_⟩
    rw [← tracks.arrived arrived notCleared]
    exact nonempty
  · intro saves
    obtain ⟨known, arrived, notCleared, left⟩ := saves
    have valid := (FValidation.isValidPathString_iff known).mpr tracks.plain
    have same := tracks.arrived arrived notCleared
    have nonempty : editing.screen.list ≠ [] := by
      rw [same]
      exact left
    refine ⟨_, step_saveTapped_of_ne_nil valid nonempty, fun _ => ?_⟩
    calc
      loaded editing.screen.currentUid
          (Write.applyAll editing.remote
            editing.screen.saveTapped.issued) =
          some editing.screen.list :=
        loaded_saveTapped valid nonempty enumerated
      _ = some editing.remaining := congrArg some same
      _ = _ := congrArg some (if_neg (Bool.eq_false_iff.mp notCleared)).symm

theorem kept_iff {initial : List Ingredient}
    (numeric : KeysNumeric initial.length)
    (editing : Editing) (edit : Edit)
    (tracks : Tracks initial editing)
    (enabled : machine.enabled editing edit) :
    Kept editing edit ↔ editing.SavesRemaining edit := by
  cases edit with
  | didGetData =>
      obtain ⟨snapshot, requested⟩ := Option.isSome_iff_exists.mp enabled
      refine iff_of_true ⟨_, Option.map_eq_some_iff.mpr
        ⟨snapshot, requested, rfl⟩, ?_⟩ trivial
      intro save
      cases save
  | removeRow row =>
      have removed :
          editing.screen.removeRow row =
            some { editing.screen with
              list := editing.screen.list.eraseIdx row } := by
        simp [removeRow, SwiftArray.remove, show row < _ from enabled]
      refine iff_of_true ⟨_, Option.map_eq_some_iff.mpr
        ⟨_, removed, rfl⟩, ?_⟩ trivial
      intro save
      cases save
  | saveTapped =>
      exact kept_saveTapped_iff numeric tracks
  | clearTapped =>
      refine iff_of_true ⟨_, step_clearTapped tracks.plain, ?_⟩ trivial
      intro save
      cases save

/-! ## Whole runs -/

/-- No edit of a run traps and every save leaves the expected list exactly
when every save has a uid and comes after the list has arrived, before any
clear, and with some entry left. -/
theorem eachStep_kept_iff (currentUid : String) (database : Database)
    (editing : Editing) (edits : List Edit)
    (opened : start currentUid database = some editing)
    (numeric : KeysNumeric editing.remaining.length)
    (legal : machine.Legal editing edits) :
    machine.EachStep Kept editing edits ↔
      machine.EachStep SavesRemaining editing edits :=
  Machine.eachStep_congr (step_tracks _) (kept_iff numeric)
    (start_tracks opened) legal

/-- The screen of a user who has one ingredient stored. -/
def oneStored : Editing where
  screen := { currentUid := "ann" }
  remote := savedOnce [flour]
  request := some ⟨savedOnce [flour], listPath "ann"⟩
  remaining := [flour]
  cleared := false

theorem start_oneStored :
    start "ann" (savedOnce [flour]) = some oneStored := by
  have plain : FValidation.isPlain "ann" = true := by
    decide
  have read : (didGetData { currentUid := "ann" }
      (.ok ⟨savedOnce [flour], listPath "ann"⟩)).list = [flour] := by
    rw [didGetData_list]
    exact (savedOnce_holds [flour]).appendChildren
      (keysNumeric_of_le (by decide)) []
  rw [start, getData_eq, if_pos plain, Option.map_some, read]
  rfl

theorem saved_after_load :
    machine.EachStep Kept oneStored
      [.didGetData, .saveTapped, .removeRow 0, .clearTapped] :=
  (eachStep_kept_iff "ann" (savedOnce [flour]) oneStored _ start_oneStored
    (keysNumeric_of_le (by decide)) (by decide +kernel)).mpr
      (by decide +kernel)

/-- Saving before the list has arrived traps after the node was removed. -/
def savedEarly : List Edit :=
  [.saveTapped, .didGetData]

/-- The list that arrives after a clear is written back. -/
def savedAfterClear : List Edit :=
  [.clearTapped, .didGetData, .saveTapped]

/-- Saving with every row deleted traps. -/
def savedEmpty : List Edit :=
  [.didGetData, .removeRow 0, .saveTapped]

theorem lost_and_resurrected :
    start "ann" (savedOnce [flour]) = some oneStored ∧
      (machine.Legal oneStored savedEarly ∧
        ¬ machine.EachStep Kept oneStored savedEarly) ∧
      (machine.Legal oneStored savedAfterClear ∧
        ¬ machine.EachStep Kept oneStored savedAfterClear) ∧
      machine.Legal oneStored savedEmpty ∧
        ¬ machine.EachStep Kept oneStored savedEmpty := by
  refine ⟨start_oneStored, ?_⟩
  decide +kernel

end Editing
end FrequentListViewController
end PocketChef
