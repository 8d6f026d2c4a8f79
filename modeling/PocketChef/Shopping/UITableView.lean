import Mathlib.Data.Option.Basic

/-!
# Table views

A `UITableView` remembers how many rows its data source had at the last
`reloadData` or `deleteRows`, and it offers just those rows.  `deleteRows`
counts again and raises unless one row is gone.
-/

namespace PocketChef

/-- The number of rows that a table view remembers. -/
structure UITableView where
  rows : Nat := 0
  deriving DecidableEq

namespace UITableView

def reloadData (_table : UITableView) (numberOfRows : Nat) : UITableView :=
  { rows := numberOfRows }

/-- `deleteRows(at:with:)` of one row, with the rows that the data source
then has. -/
def deleteRows (table : UITableView) (numberOfRows : Nat) :
    Option UITableView :=
  if numberOfRows + 1 = table.rows then some { rows := numberOfRows } else none

theorem deleteRows_of_le {table : UITableView} {numberOfRows : Nat}
    (enough : table.rows ≤ numberOfRows) :
    table.deleteRows numberOfRows = none :=
  if_neg (by omega)

end UITableView
end PocketChef
