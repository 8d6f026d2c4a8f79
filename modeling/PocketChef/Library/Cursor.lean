import PocketChef.Library.SwiftArray

/-!
# A cursor over a list

The abstract view of a screen that shows one item of a list at a time: the
items and a signed offset.  A cursor restarts at the first item; moving it is
safe exactly in the directions that `HasPrevious` and `HasNext` allow.
-/

namespace Browsing

universe u

structure Cursor (α : Type u) where
  items : List α
  offset : Int

namespace Cursor

variable {α : Type u}

def restart (items : List α) : Cursor α :=
  ⟨items, 0⟩

def back (cursor : Cursor α) : Cursor α :=
  { cursor with offset := cursor.offset - 1 }

def forward (cursor : Cursor α) : Cursor α :=
  { cursor with offset := cursor.offset + 1 }

def current (cursor : Cursor α) : Option α :=
  SwiftArray.get cursor.items cursor.offset

def InRange (cursor : Cursor α) : Prop :=
  0 ≤ cursor.offset ∧ cursor.offset < cursor.items.length

def HasPrevious (cursor : Cursor α) : Prop :=
  0 < cursor.offset

def HasNext (cursor : Cursor α) : Prop :=
  cursor.offset < (cursor.items.length : Int) - 1

instance (cursor : Cursor α) : Decidable cursor.HasPrevious :=
  inferInstanceAs (Decidable (_ < _))

instance (cursor : Cursor α) : Decidable cursor.HasNext :=
  inferInstanceAs (Decidable (_ < _))

theorem back_inRange {cursor : Cursor α}
    (inRange : cursor.InRange) (possible : cursor.HasPrevious) :
    cursor.back.InRange := by
  unfold InRange HasPrevious back at *
  dsimp only
  omega

theorem forward_inRange {cursor : Cursor α}
    (inRange : cursor.InRange) (possible : cursor.HasNext) :
    cursor.forward.InRange := by
  unfold InRange HasNext forward at *
  dsimp only
  omega

theorem exists_current {cursor : Cursor α} (inRange : cursor.InRange) :
    ∃ item, cursor.current = some item :=
  (SwiftArray.exists_get_iff cursor.items cursor.offset).mpr inRange

theorem inRange_of_current {cursor : Cursor α} {item : α}
    (shown : cursor.current = some item) : cursor.InRange :=
  SwiftArray.in_range_of_get_eq_some shown

end Cursor

end Browsing
