import PocketChef.Shopping.Mirror

/-!
# When a call of Core Data fails

`clearList` and the delete commit change the list and the store one after the
other.  Each call of Core Data between them can fail: a fetch or a batch
delete throws, which is ignored in a release build, the result of a batch
delete is no array of identities, or `saveContext` ends the process.  Where
`deleteRows` raises, the delete commit does not return.
-/

namespace PocketChef
namespace ShoppingViewController

open ObjectStore Ingredient Mirror

/-- An operation with the outcomes of its calls; `saves` tells whether
`saveContext` succeeds, if it is called. -/
inductive Operation where
  | clearList (outcome : BatchDelete) (saves : Bool)
  | commitDelete (row : Nat) (results : Option (List ItemToBuyObject))
      (saves : Bool)
  deriving DecidableEq

namespace Operation

/-- What is left when the operation returns. -/
def perform (screen : ShoppingViewController) (store : ItemToBuyStore) :
    Operation → Option (ShoppingViewController × ItemToBuyStore)
  | .clearList .throws _ => some (screen.clearList store .throws)
  | .clearList .noIdentities _ => some (screen.clearList store .noIdentities)
  | .clearList .identities saves => do
      saveContext saves
      some (screen.clearList store .identities)
  | .commitDelete row results saves =>
      screen.commitDelete store row results saves

/-- The store call of the operation throws. -/
def Throws : Operation → Prop
  | .clearList outcome _ => outcome = .throws
  | .commitDelete _ results _ => results = none

instance : DecidablePred Throws
  | .clearList _ _ => inferInstanceAs (Decidable (_ = _))
  | .commitDelete _ _ _ => inferInstanceAs (Decidable (_ = _))

/-- The row of a delete is in the list, and its fetch finds the objects of
that name, if it does not throw. -/
def Valid (screen : ShoppingViewController) (store : ItemToBuyStore) :
    Operation → Prop
  | .clearList _ _ => True
  | .commitDelete row results _ =>
      ∃ dump ∈ screen.list[row]?,
        ∀ found ∈ results, store.Fetched (hasName dump) found

instance (screen : ShoppingViewController) (store : ItemToBuyStore) :
    DecidablePred (Valid screen store)
  | .clearList _ _ => inferInstanceAs (Decidable True)
  | .commitDelete row results _ => inferInstanceAs <| Decidable <|
      ∃ dump ∈ screen.list[row]?,
        ∀ found ∈ results, store.Fetched (hasName dump) found

/-- If the operation returns, the list and the store agree, and they are as
before if the store call threw. -/
def Recovers (screen : ShoppingViewController) (store : ItemToBuyStore)
    (operation : Operation) : Prop :=
  ∀ after ∈ operation.perform screen store,
    after.1.list.Perm (stored after.2) ∧
      (operation.Throws → after.1.list = screen.list ∧ after.2 = store)

instance (screen : ShoppingViewController) (store : ItemToBuyStore) :
    DecidablePred (Recovers screen store) := fun operation =>
  inferInstanceAs <| Decidable <|
    ∀ after ∈ operation.perform screen store,
      after.1.list.Perm (stored after.2) ∧
        (operation.Throws → after.1.list = screen.list ∧ after.2 = store)

/-- The list is empty when a batch delete throws.  Should `deleteRows` return,
no fetch throws, and the object that a delete fetches first equals the row, if
saving succeeds. -/
def Harmless (screen : ShoppingViewController) : Operation → Prop
  | .clearList outcome _ => outcome = .throws → screen.list = []
  | .commitDelete _ none _ => ¬ screen.OneRowGone
  | .commitDelete row (some results) saves =>
      screen.OneRowGone → saves = true →
        ∀ first ∈ results.head?,
          screen.list[row]? = some first.attributes.ingredient

instance (screen : ShoppingViewController) : DecidablePred (Harmless screen)
  | .clearList _ _ => inferInstanceAs (Decidable (_ = _ → _ = _))
  | .commitDelete _ none _ => inferInstanceAs (Decidable (¬ _))
  | .commitDelete row (some results) saves => inferInstanceAs <| Decidable <|
      screen.OneRowGone → saves = true →
        ∀ first ∈ results.head?,
          screen.list[row]? = some first.attributes.ingredient

/-- The table view remembers no more rows than the list has. -/
def RowsListed (screen : ShoppingViewController) : Prop :=
  screen.shoppingList.rows ≤ screen.list.length

section Outcomes

variable {screen : ShoppingViewController} {store : ItemToBuyStore}

theorem RowsListed.not_oneRowGone (listed : RowsListed screen) :
    ¬ screen.OneRowGone := by
  unfold RowsListed at listed
  unfold OneRowGone
  omega

theorem perform_commitDelete_of_not_oneRowGone (stays : ¬ screen.OneRowGone)
    (row : Nat) (results : Option (List ItemToBuyObject)) (saves : Bool) :
    perform screen store (.commitDelete row results saves) = none :=
  screen.commitDelete_of_not_oneRowGone stays store row results saves

/-- Whatever fails, the table view does not remember more rows than the list
has. -/
theorem perform_rowsListed {operation : Operation}
    {after : ShoppingViewController × ItemToBuyStore}
    (listed : RowsListed screen)
    (returned : operation.perform screen store = some after) :
    RowsListed after.1 := by
  cases operation with
  | clearList outcome saves =>
      cases outcome with
      | throws =>
          cases returned
          exact Nat.le_refl 0
      | noIdentities =>
          cases returned
          exact Nat.le_refl 0
      | identities =>
          rcases Option.bind_eq_some_iff.mp returned with ⟨_, _, same⟩
          cases same
          exact Nat.le_refl 0
  | commitDelete row results saves =>
      have raised := @perform_commitDelete_of_not_oneRowGone screen store
        listed.not_oneRowGone row results saves
      cases raised.symm.trans returned

theorem clearList_clears_recovers {outcome : BatchDelete}
    (runs : outcome ≠ .throws) (saves : Bool) :
    Recovers screen store (.clearList outcome saves) := by
  intro after returned
  refine ⟨?_, fun thrown => absurd thrown runs⟩
  cases outcome with
  | throws =>
      exact absurd rfl runs
  | noIdentities =>
      cases returned
      exact List.Perm.refl _
  | identities =>
      rcases Option.bind_eq_some_iff.mp returned with ⟨_, _, same⟩
      cases same
      exact List.Perm.refl _

variable (agree : screen.list.Perm (stored store))

include agree

theorem clearList_throws_recovers_iff (saves : Bool) :
    Recovers screen store (.clearList .throws saves) ↔ screen.list = [] := by
  have performed :
      perform screen store (.clearList .throws saves) =
        some ({ screen with list := [], shoppingList := {} }, store) :=
    rfl
  rw [Recovers, performed]
  constructor
  · intro recovers
    exact ((recovers _ rfl).2 rfl).1.symm
  · intro empty after returned
    cases returned
    rw [empty] at agree
    exact ⟨agree, fun _ => ⟨empty.symm, rfl⟩⟩

section OneRow

variable {row : Nat} {dump : Ingredient}
variable (shown : screen.list[row]? = some dump)
variable (gone : screen.OneRowGone)

include shown gone

/-- The row leaves the list although nothing was deleted. -/
theorem commitDelete_throws_not_recovers (saves : Bool) :
    ¬ Recovers screen store (.commitDelete row none saves) := by
  have performed :
      perform screen store (.commitDelete row none saves) =
        some (screen.afterDelete row, store) :=
    screen.commitDelete_of_oneRowGone gone shown none saves
  intro recovers
  have still : (screen.list.eraseIdx row).Perm (stored store) :=
    (recovers _ performed).1
  have split := SwiftArray.eraseIdx_perm shown
  have size := (split.symm.trans (agree.trans still.symm)).length_eq
  rw [List.length_cons] at size
  omega

theorem commitDelete_recovers_iff {results : List ItemToBuyObject}
    (fetched : store.Fetched (hasName dump) results) (saves : Bool) :
    Recovers screen store (.commitDelete row (some results) saves) ↔
      Harmless screen (.commitDelete row (some results) saves) := by
  rcases @exists_fetched ⟨screen, store, true⟩ dump row results agree shown
    fetched with ⟨first, others, rfl⟩
  have member := (fetched.mem List.mem_cons_self).1
  have committed :
      perform screen store
          (.commitDelete row (some (first :: others)) saves) =
        (deleteFetched store (some (first :: others)) saves).map
          fun store => (screen.afterDelete row, store) :=
    screen.commitDelete_of_oneRowGone gone shown _ saves
  have exact_delete :=
    perm_tails_iff agree (SwiftArray.eraseIdx_perm shown)
      (stored_delete_perm member)
  rw [Recovers, committed]
  cases saves with
  | false =>
      have ended :
          deleteFetched store (some (first :: others)) false = none :=
        rfl
      rw [ended]
      exact iff_of_true (fun after absent => nomatch absent)
        (fun _ saved => nomatch saved)
  | true =>
      have deleted :
          deleteFetched store (some (first :: others)) true =
            some (store.delete first.objectID) :=
        rfl
      have equal :
          Harmless screen (.commitDelete row (some (first :: others)) true) ↔
            dump = first.attributes.ingredient := by
        simp [Harmless, shown, gone]
      rw [equal, ← exact_delete, deleted]
      constructor
      · intro recovers
        exact (recovers _ rfl).1
      · intro rests after same
        cases same
        exact ⟨rests, fun thrown => nomatch thrown⟩

end OneRow

end Outcomes

theorem recovers_iff {screen : ShoppingViewController}
    {store : ItemToBuyStore} {operation : Operation}
    (agree : screen.list.Perm (stored store))
    (valid : operation.Valid screen store) :
    operation.Recovers screen store ↔ operation.Harmless screen := by
  cases operation with
  | clearList outcome saves =>
      by_cases thrown : outcome = .throws
      · subst thrown
        rw [clearList_throws_recovers_iff agree saves]
        simp [Harmless]
      · exact iff_of_true (clearList_clears_recovers thrown saves)
          (fun threw => absurd threw thrown)
  | commitDelete row results saves =>
      rcases valid with ⟨dump, shown, fetched⟩
      by_cases gone : screen.OneRowGone
      · cases results with
        | none =>
            exact iff_of_false
              (commitDelete_throws_not_recovers agree shown gone saves)
              (fun stays => stays gone)
        | some results =>
            exact commitDelete_recovers_iff agree shown gone
              (fetched results rfl) saves
      · have raised := @perform_commitDelete_of_not_oneRowGone screen store
          gone row results saves
        rw [Recovers, raised]
        refine iff_of_true (fun after absent => nomatch absent) ?_
        cases results with
        | none => exact gone
        | some results => exact fun returns => absurd returns gone

/-- The only operation that does any harm while the table view remembers no
more rows than the list has. -/
theorem harmless_iff {screen : ShoppingViewController}
    (listed : RowsListed screen) (operation : Operation) :
    operation.Harmless screen ↔
      ∀ saves, operation = .clearList .throws saves → screen.list = [] := by
  cases operation with
  | clearList outcome saves =>
      constructor
      · rintro harmless other same
        cases same
        exact harmless rfl
      · rintro unlisted thrown
        exact unlisted saves (by rw [thrown])
  | commitDelete row results saves =>
      refine iff_of_true ?_ fun other same => nomatch same
      cases results with
      | none => exact listed.not_oneRowGone
      | some results =>
          exact fun returns => absurd returns listed.not_oneRowGone

/-- An operation that returns leaves the list and the store in agreement, and
untouched after a failed store call, exactly when it is harmless.  While the
table view remembers no more rows than the list has, which no operation
changes, that is: unless the batch delete of a list with entries throws. -/
theorem recovers_iff_harmless (screen : ShoppingViewController)
    (store : ItemToBuyStore) (operation : Operation)
    (agree : screen.list.Perm (stored store))
    (valid : operation.Valid screen store) :
    (operation.Recovers screen store ↔ operation.Harmless screen) ∧
      (RowsListed screen →
        (operation.Recovers screen store ↔
            ∀ saves, operation = .clearList .throws saves →
              screen.list = []) ∧
          ∀ after ∈ operation.perform screen store, RowsListed after.1) := by
  have exact_operation := recovers_iff agree valid
  refine ⟨exact_operation, fun listed => ⟨?_, ?_⟩⟩
  · exact exact_operation.trans (harmless_iff listed operation)
  · intro after returned
    exact perform_rowsListed listed returned

/-- The screen that has loaded the pantry, with its table view. -/
def pantryList : ShoppingViewController :=
  { list := [flour, milk], shoppingList := { rows := 2 } }

/-- A screen whose table view has a row too many. -/
def rowTooMany : ShoppingViewController :=
  { list := [flour, milk], shoppingList := { rows := 3 } }

theorem recovers_pantry :
    Recovers pantryList pantry (.clearList .noIdentities true) ∧
      Recovers rowTooMany pantry
        (.commitDelete 0 (some [flourObject]) true) :=
  ⟨((recovers_iff_harmless pantryList pantry
      (.clearList .noIdentities true) (by decide) (by decide)).2
        (Nat.le_refl 2)).1.mpr (fun _ other => nomatch other),
    (recovers_iff_harmless rowTooMany pantry _ (by decide)
      (by decide)).1.mpr (by decide)⟩

/-- The list is emptied and the store stays full. -/
theorem not_recovered :
    Valid pantryList pantry (.clearList .throws true) ∧
      pantryList.list.Perm (stored pantry) ∧
      perform pantryList pantry (.clearList .throws true) =
        some ({}, pantry) ∧
      ¬ Recovers pantryList pantry (.clearList .throws true) := by
  decide

end Operation
end ShoppingViewController
end PocketChef
