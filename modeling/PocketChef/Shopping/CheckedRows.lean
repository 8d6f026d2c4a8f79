import Mathlib.Algebra.Group.Nat.Even
import PocketChef.Library.Reactive
import PocketChef.Shopping.IngredientsViewController

/-!
# Which ingredients are added

The check marks live in the cells of the rows that the table shows.  A row
that leaves the window loses its cell, and with it the user's choice; when it
comes back it is checked again.  `addToShopping` therefore adds the
ingredients that were tapped an even number of times exactly when every row
still has the cell that remembers its taps, or happens to agree without it.
-/

namespace PocketChef
namespace IngredientsViewController

open Reactive ObjectStore Ingredient

/-- The table at work: the rows `lower, …, upper - 1` are in the window and
have the cells.  `taps` counts all taps on a row and `recentTaps` those since
the row last entered the window. -/
structure Table where
  lower : Nat
  upper : Nat
  cells : Cells
  taps : Nat → Nat
  recentTaps : Nat → Nat

inductive TableEvent where
  | scroll (lower upper : Nat)
  | tap (row : Nat)
  deriving DecidableEq

namespace Table

def opened : Table where
  lower := 0
  upper := 0
  cells := fun _ => none
  taps := fun _ => 0
  recentTaps := fun _ => 0

def Visible (table : Table) (row : Nat) : Prop :=
  table.lower ≤ row ∧ row < table.upper

instance (table : Table) (row : Nat) : Decidable (table.Visible row) :=
  inferInstanceAs (Decidable (_ ∧ _))

/-- A row that stays in the window keeps its cell; a row that enters it gets
one from `tableView(_:cellForRowAt:)`. -/
def scroll (table : Table) (lower upper : Nat) : Table :=
  { table with
    lower := lower
    upper := upper
    cells := fun row =>
      if lower ≤ row ∧ row < upper then
        some ((table.cells row).getD cellForRowAt)
      else
        none
    recentTaps := fun row =>
      if table.Visible row then table.recentTaps row else 0 }

def tap (table : Table) (row : Nat) : Table :=
  { table with
    cells := didSelectRowAt table.cells row
    taps := Function.update table.taps row (table.taps row + 1)
    recentTaps :=
      Function.update table.recentTaps row (table.recentTaps row + 1) }

/-- The table of a screen: windows lie within the rows, and only a row of the
window can be tapped. -/
def machine (screen : IngredientsViewController) :
    Machine Table TableEvent where
  enabled
    | _, .scroll _ upper => upper ≤ screen.ingredientList.length
    | table, .tap row => table.Visible row
  step
    | table, .scroll lower upper => some (table.scroll lower upper)
    | table, .tap row => some (table.tap row)

instance (screen : IngredientsViewController) :
    ∀ table event, Decidable ((machine screen).enabled table event)
  | _, .scroll _ upper =>
      inferInstanceAs (Decidable (upper ≤ screen.ingredientList.length))
  | table, .tap row => inferInstanceAs (Decidable (table.Visible row))

/-- The rows that the user left checked, by the count of all taps. -/
def leftChecked (screen : IngredientsViewController) (table : Table) :
    List (Ingredient × Nat) :=
  screen.ingredientList.zipIdx.filter fun entry => Even (table.taps entry.2)

/-- `addToShopping` inserts one object for each row left checked, in list
order, and nothing for the others. -/
def AddsLeftChecked (screen : IngredientsViewController) (table : Table)
    (store : ItemToBuyStore) : Prop :=
  screen.checkedEntries table.cells = leftChecked screen table ∧
    (screen.addToShopping table.cells store).attributes =
      store.attributes ++
        (leftChecked screen table).map fun entry =>
          ItemToBuy.ofIngredient entry.1

instance (screen : IngredientsViewController) (table : Table)
    (store : ItemToBuyStore) :
    Decidable (AddsLeftChecked screen table store) :=
  inferInstanceAs (Decidable (_ ∧ _))

/-- The row was tapped an even number of times exactly if it is visible and
was tapped an even number of times since it entered the window. -/
def Remembered (table : Table) (row : Nat) : Prop :=
  Even (table.taps row) ↔
    table.Visible row ∧ Even (table.recentTaps row)

instance (table : Table) (row : Nat) : Decidable (table.Remembered row) :=
  inferInstanceAs (Decidable (_ ↔ _))

/-- The mark of a cell that was tapped `count` times. -/
def markAfter (count : Nat) : AccessoryType :=
  if Even count then .checkmark else .none

/-- The rows of the window have the mark of their recent taps, and no other
row has a cell. -/
def Marked (table : Table) : Prop :=
  ∀ row, table.cells row =
    if table.Visible row then some (markAfter (table.recentTaps row))
    else none

theorem opened_marked : opened.Marked := by
  intro row
  have hidden : ¬ opened.Visible row := fun visible =>
    Nat.not_lt_zero row visible.2
  rw [if_neg hidden]
  rfl

theorem scroll_marked {table : Table} (lower upper : Nat)
    (marked : table.Marked) : (table.scroll lower upper).Marked := by
  intro row
  have before := marked row
  by_cases inWindow : lower ≤ row ∧ row < upper
  · rw [if_pos (show (table.scroll lower upper).Visible row from inWindow)]
    simp only [scroll, if_pos inWindow, before]
    by_cases visible : table.Visible row
    · rw [if_pos visible, if_pos visible]
      rfl
    · rw [if_neg visible, if_neg visible]
      rfl
  · rw [if_neg (show ¬ (table.scroll lower upper).Visible row from inWindow)]
    exact if_neg inWindow

theorem didSelectRowAt_of_mark {cells : Cells} {row count : Nat}
    (mark : cells row = some (markAfter count)) :
    didSelectRowAt cells row =
      Function.update cells row (some (markAfter (count + 1))) := by
  unfold didSelectRowAt markAfter at *
  rw [mark]
  by_cases even : Even count
  · simp [even, Nat.even_add_one]
  · simp [even, Nat.even_add_one]

theorem tap_marked {table : Table} {row : Nat}
    (marked : table.Marked) (visible : table.Visible row) :
    (table.tap row).Marked := by
  have mark : table.cells row = some (markAfter (table.recentTaps row)) := by
    rw [marked row, if_pos visible]
  intro other
  have sameWindow : (table.tap row).Visible other ↔ table.Visible other :=
    Iff.rfl
  simp only [sameWindow]
  by_cases same : other = row
  · subst same
    simp only [tap, didSelectRowAt_of_mark mark, Function.update_self,
      if_pos visible]
  · simp only [tap, didSelectRowAt_of_mark mark,
      Function.update_of_ne same]
    exact marked other

theorem step_marked (screen : IngredientsViewController)
    (table : Table) (event : TableEvent) (next : Table)
    (marked : table.Marked)
    (enabled : (machine screen).enabled table event)
    (handled : (machine screen).step table event = some next) :
    next.Marked := by
  cases event with
  | scroll lower upper =>
      cases handled
      exact scroll_marked lower upper marked
  | tap row =>
      cases handled
      exact tap_marked marked enabled

/-- A row is checked for `addToShopping` when it is visible and its recent
taps cancel out. -/
theorem Marked.checked_iff {table : Table} (marked : table.Marked)
    (row : Nat) :
    table.cells row = some .checkmark ↔
      table.Visible row ∧ Even (table.recentTaps row) := by
  rw [marked row]
  by_cases visible : table.Visible row
  · by_cases even : Even (table.recentTaps row)
    · simp [visible, even, markAfter]
    · simp [visible, even, markAfter]
  · simp [visible]

theorem Marked.adds_iff_remembered {table : Table}
    (marked : table.Marked) (screen : IngredientsViewController)
    (store : ItemToBuyStore) :
    AddsLeftChecked screen table store ↔
      ∀ row < screen.ingredientList.length, table.Remembered row := by
  constructor
  · intro adds row inRange
    have member :
        (screen.ingredientList[row], row) ∈
          screen.ingredientList.zipIdx :=
      List.mem_zipIdx_iff_getElem?.mpr (List.getElem?_eq_getElem inRange)
    have chosen :
        (screen.ingredientList[row], row) ∈
            screen.checkedEntries table.cells ↔
          (screen.ingredientList[row], row) ∈ leftChecked screen table := by
      rw [adds.1]
    simp only [checkedEntries, leftChecked, List.mem_filter, member,
      true_and, decide_eq_true_eq, marked.checked_iff] at chosen
    exact chosen.symm
  · intro remembered
    have same :
        screen.checkedEntries table.cells = leftChecked screen table := by
      apply List.filter_congr
      intro entry member
      have found := List.mem_zipIdx_iff_getElem?.mp member
      have inRange := (List.getElem?_eq_some_iff.mp found).1
      rw [decide_eq_decide, marked.checked_iff]
      exact (remembered entry.2 inRange).symm
    refine ⟨same, ?_⟩
    rw [addToShopping_attributes, same]

/-- After any run of scrolls and taps, the ingredients left checked are added
exactly when every row is remembered. -/
theorem addsLeftChecked_iff (screen : IngredientsViewController)
    (events : List TableEvent) (final : Table) (store : ItemToBuyStore)
    (legal : (machine screen).Legal opened events)
    (arrived : (machine screen).run opened events = some final) :
    AddsLeftChecked screen final store ↔
      ∀ row < screen.ingredientList.length, final.Remembered row := by
  have marked : final.Marked :=
    Machine.invariant_of_run (step_marked screen) opened_marked legal arrived
  exact marked.adds_iff_remembered screen store

def pancakes : IngredientsViewController :=
  { ingredientList := [flour, milk] }

theorem adds_left_checked_pancakes :
    AddsLeftChecked pancakes
      ((((opened.scroll 0 2).tap 0).tap 1).tap 1) .empty :=
  (addsLeftChecked_iff pancakes
    [.scroll 0 2, .tap 0, .tap 1, .tap 1] _ .empty
    (by decide) rfl).mpr (by decide)

def belowWindow : List TableEvent :=
  [.scroll 0 1]

/-- A row that was switched off and scrolled away comes back checked. -/
def scrolledBack : List TableEvent :=
  [.scroll 0 1, .tap 0, .scroll 1 2, .scroll 0 2]

theorem forgotten_taps :
    ((machine pancakes).Legal opened belowWindow ∧
        ∃ final ∈ (machine pancakes).run opened belowWindow,
          ¬ AddsLeftChecked pancakes final .empty) ∧
      (machine pancakes).Legal opened scrolledBack ∧
        ∃ final ∈ (machine pancakes).run opened scrolledBack,
          ¬ AddsLeftChecked pancakes final .empty := by
  decide

end Table
end IngredientsViewController
end PocketChef
