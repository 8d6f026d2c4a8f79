import Mathlib.Data.List.Basic

/-!
# Array accesses that trap

Swift indexes an array with a signed integer and stops the program when the
index is negative or not below `count`.  The closed range `lower...upper`
stops the program when `upper < lower`.  In both definitions `none` is the
trap, and so it is for `remove`.
-/

namespace SwiftArray

universe u v w

variable {α : Type u} {β : Type v}

/-- `items[index]`. -/
def get (items : List α) (index : Int) : Option α :=
  if 0 ≤ index then items[index.toNat]? else none

/-- `items.remove(at: row)` for a row of an index path. -/
def remove (items : List α) (row : Nat) : Option (List α) :=
  if row < items.length then some (items.eraseIdx row) else none

/-- The integers of `lower...upper`, in order. -/
def closedRange (lower upper : Int) : Option (List Int) :=
  if lower ≤ upper then
    some ((List.range (upper - lower + 1).toNat).map fun offset : Nat =>
      lower + (offset : Int))
  else
    none

theorem get_natCast (items : List α) (index : Nat) :
    get items (index : Int) = items[index]? := by
  simp [get]

@[simp]
theorem get_zero_cons (head : α) (tail : List α) :
    get (head :: tail) 0 = some head :=
  rfl

theorem get_map (convert : α → β) (items : List α) (index : Int) :
    get (items.map convert) index = (get items index).map convert := by
  unfold get
  split
  · exact List.getElem?_map
  · rfl

theorem isSome_get_iff (items : List α) (index : Int) :
    (get items index).isSome ↔
      0 ≤ index ∧ index < items.length := by
  unfold get
  split
  · rename_i nonnegative
    rw [isSome_getElem?]
    omega
  · rename_i negative
    simp [negative]

theorem exists_get_iff (items : List α) (index : Int) :
    (∃ item, get items index = some item) ↔
      0 ≤ index ∧ index < items.length := by
  rw [← isSome_get_iff, Option.isSome_iff_exists]

theorem in_range_of_get_eq_some
    {items : List α} {index : Int} {item : α}
    (found : get items index = some item) :
    0 ≤ index ∧ index < items.length :=
  (exists_get_iff items index).mp ⟨item, found⟩

theorem eraseIdx_perm {items : List α} {row : Nat} {item : α}
    (found : items[row]? = some item) :
    items.Perm (item :: items.eraseIdx row) := by
  obtain ⟨inRange, located⟩ := List.getElem?_eq_some_iff.mp found
  have split : items = items.take row ++ item :: items.drop (row + 1) := by
    rw [← located, List.getElem_cons_drop inRange, List.take_append_drop]
  rw [List.eraseIdx_eq_take_drop_succ]
  calc
    items = items.take row ++ item :: items.drop (row + 1) := split
    List.Perm _ (item :: (items.take row ++ items.drop (row + 1))) :=
      List.perm_middle

/-- `0...count-1` is the range of all indices, except that it traps on the
empty array. -/
theorem closedRange_count (count : Nat) :
    closedRange 0 ((count : Int) - 1) =
      if count = 0 then none
      else some ((List.range count).map fun index : Nat => (index : Int)) := by
  unfold closedRange
  by_cases empty : count = 0
  · rw [if_neg (by omega), if_pos empty]
  · rw [if_pos (by omega), if_neg empty]
    have size : ((count : Int) - 1 - 0 + 1).toNat = count := by omega
    rw [size]
    simp

/-- A loop whose body appends what it decodes from an entry, and skips an
entry that it cannot decode, appends what the entries decode to. -/
theorem foldl_append_decoded
    {State : Type u} {Entry : Type v} {Item : Type w}
    {body : State → Entry → State} (decode : Entry → Option Item)
    (append : State → List Item → State)
    (start : ∀ state, append state [] = state)
    (each :
      ∀ state entry items,
        append (body state entry) items =
          append state ((decode entry).toList ++ items))
    (state : State) (entries : List Entry) :
    entries.foldl body state = append state (entries.filterMap decode) := by
  induction entries generalizing state with
  | nil =>
      exact (start state).symm
  | cons entry rest inductionHypothesis =>
      rw [List.foldl_cons, inductionHypothesis, each]
      cases decoded : decode entry with
      | none =>
          rw [List.filterMap_cons_none decoded]
          rfl
      | some item =>
          rw [List.filterMap_cons_some decoded]
          rfl

/-- A loop whose body never traps does not trap. -/
theorem foldlM_of_total
    {State : Type u} {Entry : Type v} {body : State → Entry → Option State}
    {step : State → Entry → State}
    (each : ∀ state entry, body state entry = some (step state entry))
    (state : State) (entries : List Entry) :
    entries.foldlM body state = some (entries.foldl step state) := by
  induction entries generalizing state with
  | nil =>
      rfl
  | cons entry rest inductionHypothesis =>
      rw [List.foldlM_cons, each, List.foldl_cons]
      exact inductionHypothesis (step state entry)

/-- What the last selected item gives, or what was there before. -/
def lastOr (selects : α → Bool) (value : α → β) (before : β)
    (items : List α) : β :=
  ((items.filter selects).getLast?).elim before value

theorem lastOr_append_singleton (selects : α → Bool)
    (value : α → β) (before : β) (items : List α) (item : α) :
    lastOr selects value before (items ++ [item]) =
      if selects item then value item
      else lastOr selects value before items := by
  by_cases selected : selects item = true
  · simp [lastOr, selected]
  · simp [lastOr, selected]

end SwiftArray
