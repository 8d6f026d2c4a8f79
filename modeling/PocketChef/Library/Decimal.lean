import Mathlib.Data.Nat.Digits.Defs

/-!
# Decimal numerals

The numerals that `toString` writes for integers, and the numerals that a
decimal parser reads back: an optional sign and at least one digit.
-/

namespace Decimal

/-- The value of a non-empty list of digits. -/
def parseDigits (digits : List Char) : Option Nat :=
  if digits ≠ [] ∧ digits.all Char.isDigit then
    some (Nat.ofDigitChars 10 digits 0)
  else
    none

def parse (text : String) : Option Int :=
  match text.toList with
  | '-' :: digits => (parseDigits digits).map fun value : Nat => -(value : Int)
  | '+' :: digits => (parseDigits digits).map fun value : Nat => (value : Int)
  | digits => (parseDigits digits).map fun value : Nat => (value : Int)

theorem isDigit_of_mem_toDigits {value : Nat} {c : Char}
    (member : c ∈ Nat.toDigits 10 value) : c.isDigit = true :=
  Nat.isDigit_of_mem_toDigits (by decide) (by decide) member

theorem parseDigits_toDigits (value : Nat) :
    parseDigits (Nat.toDigits 10 value) = some value := by
  have nonempty : Nat.toDigits 10 value ≠ [] :=
    List.ne_nil_of_length_pos Nat.length_toDigits_pos
  have digits : (Nat.toDigits 10 value).all Char.isDigit = true :=
    List.all_eq_true.mpr fun _ => isDigit_of_mem_toDigits
  rw [parseDigits, if_pos ⟨nonempty, digits⟩,
    Nat.ofDigitChars_ten_toDigits]

theorem toList_toString_natCast (value : Nat) :
    (toString (value : Int)).toList = Nat.toDigits 10 value :=
  Nat.toList_repr

theorem toList_toString_negSucc (value : Nat) :
    (toString (Int.negSucc value)).toList =
      '-' :: Nat.toDigits 10 (value + 1) := by
  change ("-" ++ Nat.repr (value + 1)).toList = _
  rw [String.toList_append, Nat.toList_repr]
  rfl

theorem parse_toString (value : Int) : parse (toString value) = some value := by
  cases value with
  | ofNat value =>
      rw [parse, show Int.ofNat value = (value : Int) from rfl,
        toList_toString_natCast]
      have unsigned (sign : Char) (notDigit : sign.isDigit = false) :
          ∀ rest, Nat.toDigits 10 value ≠ sign :: rest := by
        intro rest shape
        have digit := @isDigit_of_mem_toDigits value sign
          (shape ▸ List.mem_cons_self)
        rw [notDigit] at digit
        cases digit
      split
      · rename_i rest shape
        exact absurd shape (unsigned '-' rfl rest)
      · rename_i rest shape
        exact absurd shape (unsigned '+' rfl rest)
      · rw [parseDigits_toDigits]
        rfl
  | negSucc value =>
      rw [parse, toList_toString_negSucc]
      exact congrArg (Option.map fun value : Nat => -(value : Int))
        (parseDigits_toDigits (value + 1))

theorem toString_injective {first second : Int}
    (same : toString first = toString second) : first = second := by
  have values := congrArg parse same
  rw [parse_toString, parse_toString] at values
  exact Option.some.inj values

theorem mem_toString {value : Int} {c : Char}
    (member : c ∈ (toString value).toList) :
    c = '-' ∨ c.isDigit = true := by
  cases value with
  | ofNat value =>
      rw [show Int.ofNat value = (value : Int) from rfl,
        toList_toString_natCast] at member
      exact Or.inr (isDigit_of_mem_toDigits member)
  | negSucc value =>
      rw [toList_toString_negSucc] at member
      rcases List.mem_cons.mp member with sign | digit
      · exact Or.inl sign
      · exact Or.inr (isDigit_of_mem_toDigits digit)

theorem toString_ne_empty (value : Int) : toString value ≠ "" := by
  intro empty
  have read := parse_toString value
  rw [empty] at read
  cases read

end Decimal
