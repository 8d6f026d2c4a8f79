import Mathlib.Algebra.Ring.Int.Defs

/-!
# Integers in attributes of a fixed width

An attribute of `width` bits keeps an integer modulo `2 ^ width`, as a signed
value.  It gives back exactly the integers of its range, and it cannot tell
two integers apart whose difference is a multiple of `2 ^ width`.
-/

namespace StoredInteger

variable {width : Nat}

theorem toInt_ofInt_eq_self_iff (positive : 0 < width) (value : Int) :
    (BitVec.ofInt width value).toInt = value ↔
      -2 ^ (width - 1) ≤ value ∧ value < 2 ^ (width - 1) := by
  constructor
  · intro same
    rw [← same]
    exact ⟨BitVec.le_toInt _, BitVec.toInt_lt⟩
  · intro range
    exact BitVec.toInt_ofInt_eq_self positive range.1 range.2

theorem ofInt_eq_ofInt_iff (first second : Int) :
    BitVec.ofInt width first = BitVec.ofInt width second ↔
      2 ^ width ∣ first - second := by
  rw [← BitVec.toInt_inj, BitVec.toInt_ofInt, BitVec.toInt_ofInt,
    Int.bmod_eq_bmod_iff_bmod_sub_eq_zero, ← Int.dvd_iff_bmod_eq_zero,
    Int.natCast_pow]
  rfl

end StoredInteger
