import Mathlib.Data.List.Lex
import Mathlib.Order.Basic
import PocketChef.Library.Decimal

/-!
# The order of keys in the Firebase database

Children are enumerated by `FUtilities compareKey`: keys that parse as 32-bit
integers come first, by value, and all other keys follow, by their UTF-16
code units.

`key index` is the key under which the controllers store the entry number
`index`.  Below `2 ^ 31` the order of these keys is the order of the numbers.
-/

namespace PocketChef
namespace FUtilities

/-- The UTF-16 code units of a character. -/
def utf16Units (c : Char) : List Nat :=
  if c.toNat < 0x10000 then
    [c.toNat]
  else
    [0xD800 + (c.toNat - 0x10000) / 0x400,
      0xDC00 + (c.toNat - 0x10000) % 0x400]

def utf16 (string : String) : List Nat :=
  string.toList.flatMap utf16Units

/-- The digit loop of `tryParseStringToInt`. -/
def parseDigits : List Nat → Int → Option Int
  | [], value => some value
  | c :: rest, value =>
      if c < 48 ∨ 57 < c then none
      else parseDigits rest (value * 10 + ((c : Int) - 48))

def inInt32 (value : Int) : Option Int :=
  if value < -2 ^ 31 ∨ 2 ^ 31 - 1 < value then none else some value

def tryParseStringToInt (string : String) : Option Int :=
  let units := utf16 string
  if units.length > 11 ∨ units.length = 0 then none
  else
    match units with
    | 45 :: rest =>
        if rest.length = 0 then none
        else (parseDigits rest 0).bind fun value => inInt32 (-value)
    | digits => (parseDigits digits 0).bind inInt32

def compareKey (a b : String) : Ordering :=
  match tryParseStringToInt a, tryParseStringToInt b with
  | some aAsInt, some bAsInt =>
      if aAsInt > bAsInt then .gt
      else if aAsInt < bAsInt then .lt
      else if (utf16 a).length > (utf16 b).length then .gt
      else if (utf16 a).length < (utf16 b).length then .lt
      else .eq
  | some _, none => .lt
  | none, some _ => .gt
  | none, none =>
      if utf16 a < utf16 b then .lt
      else if utf16 b < utf16 a then .gt
      else .eq

/-- `a` is not enumerated after `b`. -/
def keyLE (a b : String) : Bool :=
  (compareKey a b).isLE

/-! ## The order is total and transitive -/

theorem keyLE_iff (a b : String) :
    keyLE a b = true ↔
      match tryParseStringToInt a, tryParseStringToInt b with
      | some left, some right =>
          left < right ∨
            left = right ∧ (utf16 a).length ≤ (utf16 b).length
      | some _, none => True
      | none, some _ => False
      | none, none => utf16 a ≤ utf16 b := by
  unfold keyLE compareKey
  cases tryParseStringToInt a with
  | none =>
      cases tryParseStringToInt b with
      | none =>
          dsimp only
          by_cases before : utf16 a < utf16 b
          · simp [before, le_of_lt before]
          · by_cases after : utf16 b < utf16 a
            · simp [before, after]
            · simp [before, after, not_lt.mp after]
      | some right =>
          simp
  | some left =>
      cases tryParseStringToInt b with
      | none =>
          simp
      | some right =>
          dsimp only
          split_ifs <;> simp <;> omega

theorem keyLE_trans (a b c : String)
    (first : keyLE a b = true) (second : keyLE b c = true) :
    keyLE a c = true := by
  rw [keyLE_iff] at first second ⊢
  cases left : tryParseStringToInt a <;>
    cases middle : tryParseStringToInt b <;>
    cases right : tryParseStringToInt c <;>
    simp only [left, middle, right] at first second ⊢
  · exact le_trans first second
  · omega

theorem keyLE_total (a b : String) :
    (keyLE a b || keyLE b a) = true := by
  rw [Bool.or_eq_true, keyLE_iff, keyLE_iff]
  cases tryParseStringToInt a <;> cases tryParseStringToInt b <;>
    simp only [true_or, or_true]
  · exact le_total _ _
  · omega

/-! ## Numbered keys -/

def key (index : Nat) : String :=
  toString (index : Int)

theorem key_eq_repr (index : Nat) : key index = Nat.repr index :=
  rfl

theorem key_injective {first second : Nat}
    (same : key first = key second) : first = second :=
  Int.ofNat.inj (Decimal.toString_injective same)

/-- The keys `0, …, count - 1` are enumerated in numeric order. -/
def KeysNumeric (count : Nat) : Prop :=
  ∀ i j, i < count → j < count → (keyLE (key i) (key j) = true ↔ i ≤ j)

theorem KeysNumeric.mono {small large : Nat}
    (numeric : KeysNumeric large) (smaller : small ≤ large) :
    KeysNumeric small := by
  intro i j left right
  exact numeric i j (by omega) (by omega)

theorem toNat_digit {c : Char} (digit : c.isDigit = true) :
    48 ≤ c.toNat ∧ c.toNat ≤ 57 := by
  simpa [Char.isDigit, UInt32.le_iff_toNat_le] using digit

theorem utf16Units_digit {c : Char} (digit : c.isDigit = true) :
    utf16Units c = [c.toNat] := by
  have range := toNat_digit digit
  rw [utf16Units, if_pos (by omega)]

theorem parseDigits_ofDigitChars (digits : List Char) (value : Nat)
    (isDigits : ∀ c ∈ digits, c.isDigit = true) :
    parseDigits (digits.flatMap utf16Units) value =
      some (Nat.ofDigitChars 10 digits value : Int) := by
  induction digits generalizing value with
  | nil =>
      simp [parseDigits]
  | cons c rest inductionHypothesis =>
      have digit := isDigits c List.mem_cons_self
      have units := utf16Units_digit digit
      have range := toNat_digit digit
      have following :
          (value : Int) * 10 + ((c.toNat : Int) - 48) =
            ((10 * value + (c.toNat - 48) : Nat) : Int) := by
        omega
      rw [List.flatMap_cons, units, List.singleton_append, parseDigits,
        if_neg (by omega), following,
        inductionHypothesis _ fun c member =>
          isDigits c (List.mem_cons_of_mem _ member)]
      rw [Nat.ofDigitChars_cons]
      rfl

theorem utf16_key (index : Nat) :
    utf16 (key index) = (Nat.toDigits 10 index).flatMap utf16Units := by
  rw [utf16, key_eq_repr, Nat.toList_repr]

/-- The digits of a number have one code unit each, none of them a sign. -/
theorem flatMap_utf16Units_digits {digits : List Char}
    (isDigits : ∀ c ∈ digits, c.isDigit = true) :
    digits.flatMap utf16Units = digits.map Char.toNat ∧
      ∀ unit ∈ digits.flatMap utf16Units, unit ≠ 45 := by
  induction digits with
  | nil =>
      simp
  | cons c rest inductionHypothesis =>
      have digit := isDigits c List.mem_cons_self
      have units := utf16Units_digit digit
      have range := toNat_digit digit
      obtain ⟨mapped, unsigned⟩ := inductionHypothesis fun d member =>
        isDigits d (List.mem_cons_of_mem _ member)
      rw [List.flatMap_cons, units, List.singleton_append]
      refine ⟨by rw [mapped, List.map_cons], ?_⟩
      intro unit member
      rcases List.mem_cons.mp member with head | tail
      · omega
      · exact unsigned unit tail

theorem tryParseStringToInt_key {index : Nat} (small : index < 2 ^ 31) :
    tryParseStringToInt (key index) = some (index : Int) := by
  have isDigits : ∀ c ∈ Nat.toDigits 10 index, c.isDigit = true :=
    fun c => Decimal.isDigit_of_mem_toDigits
  obtain ⟨mapped, unsigned⟩ := flatMap_utf16Units_digits isDigits
  have positive : 0 < (Nat.toDigits 10 index).length :=
    Nat.length_toDigits_pos
  have short : (Nat.toDigits 10 index).length ≤ 10 :=
    (Nat.length_toDigits_le_iff (by decide) (by decide)).mpr (by omega)
  have parsed :
      parseDigits ((Nat.toDigits 10 index).flatMap utf16Units) 0 =
        some (index : Int) := by
    have digits := parseDigits_ofDigitChars _ 0 isDigits
    rwa [Nat.ofDigitChars_ten_toDigits] at digits
  have bounded : inInt32 (index : Int) = some (index : Int) := by
    rw [inInt32, if_neg (by omega)]
  have size :
      ((Nat.toDigits 10 index).flatMap utf16Units).length =
        (Nat.toDigits 10 index).length := by
    rw [mapped, List.length_map]
  unfold tryParseStringToInt
  rw [utf16_key]
  dsimp only
  rw [if_neg (by omega)]
  split
  · rename_i rest shape
    rw [shape] at unsigned
    exact absurd rfl (unsigned 45 List.mem_cons_self)
  · rw [parsed, Option.bind_some, bounded]

/-- All keys that fit in 32 bits are enumerated in numeric order. -/
theorem keysNumeric_of_le {count : Nat} (fits : count ≤ 2 ^ 31) :
    KeysNumeric count := by
  intro i j left right
  rw [keyLE_iff, tryParseStringToInt_key (by omega),
    tryParseStringToInt_key (by omega)]
  dsimp only
  constructor
  · intro order
    omega
  · intro order
    by_cases same : i = j
    · subst same
      exact Or.inr ⟨rfl, Nat.le_refl _⟩
    · exact Or.inl (by omega)

end FUtilities
end PocketChef
