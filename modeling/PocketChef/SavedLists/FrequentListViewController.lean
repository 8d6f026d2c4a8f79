import PocketChef.SavedLists.Node

/-!
# The frequent list screen

`FrequentListViewController` reads the saved list of one user once, when it
opens, and lets the user delete rows, save what is left or clear everything.
Its uid is handed over by the screen that opens it.  No handler catches the
exception of `child:`, which ends the process.
-/

namespace PocketChef

open KeyedTree Firebase FUtilities Issuing SavedLists

structure FrequentListViewController where
  list : List Ingredient := []
  currentUid : String := ""
  deriving DecidableEq

namespace FrequentListViewController

/-- `self.ref.child("SavedLists/\(currentUid)")`. -/
def listReference (self : FrequentListViewController) :
    Except NSException DatabaseReference :=
  reference.child ("SavedLists" ++ "/" ++ self.currentUid)

/-- What the `getData` of `loadFrequentList` reads at its reference. -/
def getData (self : FrequentListViewController) (database : Database) :
    Option DataSnapshot := do
  let list ← self.listReference.toOption
  some ⟨database, list.path⟩

/-- The completion block of `loadFrequentList`.  An error is only printed, and
so is the absence of data. -/
def didGetData (self : FrequentListViewController)
    (response : Except String DataSnapshot) : FrequentListViewController :=
  match response with
  | .error _ => self
  | .ok snapshot =>
      if snapshot.exists? then
        { self with list := appendChildren self.list snapshot }
      else
        self

/-- The node is removed before it is written again. -/
def saveTapped (self : FrequentListViewController) :
    Effect Write FrequentListViewController := do
  let list ← Effect.check self.listReference.toOption
  Effect.issue (.removeValue list.path)
  writeEntries self.currentUid self.list
  return self

def clearTapped (self : FrequentListViewController) :
    Effect Write FrequentListViewController := do
  let self := { self with list := [] }
  let list ← Effect.check self.listReference.toOption
  Effect.issue (.removeValue list.path)
  return self

/-- `list.remove(at:)` in the delete commit. -/
def removeRow (self : FrequentListViewController) (row : Nat) :
    Option FrequentListViewController := do
  let list ← SwiftArray.remove self.list row
  some { self with list := list }

def numberOfRowsInSection (self : FrequentListViewController) : Nat :=
  self.list.length

def cellForRowAt (self : FrequentListViewController) (row : Nat) :
    Option (String × FiniteDouble × String) :=
  cellForRow self.list row

/-- The list of a screen that opens for `currentUid` and whose load then
completes. -/
def loaded (currentUid : String) (database : Database) :
    Option (List Ingredient) :=
  let opened : FrequentListViewController := { currentUid := currentUid }
  (opened.getData database).map fun snapshot =>
    (opened.didGetData (.ok snapshot)).list

/-! ## What each action does -/

section Actions

variable (self : FrequentListViewController)

theorem listReference_eq :
    self.listReference.toOption =
      if FValidation.isPlain self.currentUid then
        some ⟨listPath self.currentUid⟩
      else none :=
  reference_child_eq self.currentUid

theorem getData_eq (database : Database) :
    self.getData database =
      if FValidation.isPlain self.currentUid then
        some ⟨database, listPath self.currentUid⟩
      else none := by
  rw [getData, listReference_eq]
  split
  · rfl
  · rfl

/-- The test for existence makes no difference to the list: a node that does
not exist has no children. -/
theorem didGetData_list (snapshot : DataSnapshot) :
    (self.didGetData (.ok snapshot)).list =
      appendChildren self.list snapshot := by
  by_cases present : Exists snapshot.database snapshot.path
  · simp [didGetData, DataSnapshot.exists?, present]
  · have childless := DataSnapshot.children_of_not_exists present
    simp [didGetData, DataSnapshot.exists?, present, appendChildren_eq,
      childless]

theorem didGetData_currentUid
    (response : Except String DataSnapshot) :
    (self.didGetData response).currentUid = self.currentUid := by
  cases response with
  | error message => rfl
  | ok snapshot =>
      by_cases present : snapshot.exists?
      · simp [didGetData, present]
      · simp [didGetData, present]

theorem loaded_eq {currentUid : String} (database : Database)
    (plain : FValidation.isPlain currentUid = true) :
    loaded currentUid database =
      some (appendChildren [] ⟨database, listPath currentUid⟩) := by
  rw [loaded, getData_eq, if_pos plain, Option.map_some, didGetData_list]

theorem loaded_of_not_plain {currentUid : String} (database : Database)
    (special : FValidation.isPlain currentUid = false) :
    loaded currentUid database = none := by
  rw [loaded, getData_eq, special]
  rfl

/-- Under a uid with a special character nothing is removed or written. -/
theorem saveTapped_of_not_plain
    (special : FValidation.isPlain self.currentUid = false) :
    self.saveTapped = ⟨[], none⟩ := by
  unfold saveTapped
  rw [listReference_eq, if_neg (by simp [special]), Effect.check_none_bind]

theorem clearTapped_of_not_plain
    (special : FValidation.isPlain self.currentUid = false) :
    self.clearTapped = ⟨[], none⟩ := by
  unfold clearTapped
  dsimp only
  rw [listReference_eq, if_neg (by simp [special]), Effect.check_none_bind]

section Plain

variable (plain : FValidation.isPlain self.currentUid = true)

include plain

theorem saveTapped_eq :
    self.saveTapped =
      ⟨.removeValue (listPath self.currentUid) ::
          (writeEntries self.currentUid self.list).issued,
        (writeEntries self.currentUid self.list).result.map fun _ =>
          self⟩ := by
  unfold saveTapped
  rw [listReference_eq, if_pos plain, Effect.check_some_bind,
    Effect.issue_bind, Effect.result_bind, Effect.issued_bind_pure]
  cases (writeEntries self.currentUid self.list).result with
  | none => rfl
  | some _ => rfl

/-- On an empty list the node is removed and then the loop traps. -/
theorem saveTapped_of_nil (empty : self.list = []) :
    self.saveTapped =
      ⟨[.removeValue (listPath self.currentUid)], none⟩ := by
  rw [saveTapped_eq self plain, empty, writeEntries_nil]
  rfl

theorem clearTapped_eq :
    self.clearTapped =
      ⟨[.removeValue (listPath self.currentUid)],
        some { self with list := [] }⟩ := by
  unfold clearTapped
  dsimp only
  rw [listReference_eq, if_pos plain, Effect.check_some_bind]
  rfl

end Plain

variable (valid : FValidation.isValidPathString self.currentUid = true)

include valid

theorem saveTapped_of_ne_nil (nonempty : self.list ≠ []) :
    self.saveTapped =
      ⟨.removeValue (listPath self.currentUid) ::
          entryWrites (listPath self.currentUid) 0 self.list,
        some self⟩ := by
  have plain := FValidation.isPlain_of_isValidPathString valid
  rw [saveTapped_eq self plain, writeEntries_of_ne_nil _ nonempty valid]
  rfl

/-- Saving leaves exactly the screen's list on the node, whatever was stored
before. -/
theorem saveTapped_holds (nonempty : self.list ≠ [])
    (database : Database) :
    Holds (Write.applyAll database self.saveTapped.issued)
      (listPath self.currentUid) self.list := by
  rw [saveTapped_of_ne_nil self valid nonempty, Write.applyAll_cons]
  have emptied := holds_remove database (listPath self.currentUid)
  have written := @Holds.writeEntries _ self.list _ [] 0 emptied (Nat.le_refl 0)
  simpa [Write.apply] using written

end Actions

theorem loaded_of_holds {currentUid : String} {database : Database}
    {list : List Ingredient}
    (plain : FValidation.isPlain currentUid = true)
    (holds : Holds database (listPath currentUid) list)
    (numeric : KeysNumeric list.length) :
    loaded currentUid database = some list := by
  rw [loaded_eq database plain]
  exact congrArg some (holds.appendChildren numeric [])

theorem loaded_perm_of_holds {currentUid : String} {database : Database}
    {list : List Ingredient}
    (plain : FValidation.isPlain currentUid = true)
    (holds : Holds database (listPath currentUid) list) :
    ∃ read, loaded currentUid database = some read ∧ read.Perm list :=
  ⟨_, loaded_eq database plain, holds.appendChildren_perm⟩

end FrequentListViewController
end PocketChef
