import Mathlib.Data.Nat.Bitwise
import PocketChef.Firebase.KeyOrder

/-!
# Keys that compare equal

`compareKey` orders all keys, but it does not tell all of them apart: a zero
that is written with a sign compares equal to one of the same length that is
written with one more digit.  There are no other such keys.
-/

namespace PocketChef
namespace FUtilities

/-! ## Code units -/

theorem toNat_scalar (c : Char) :
    c.toNat < 0xD800 ∨ 0xDFFF < c.toNat ∧ c.toNat < 0x110000 :=
  c.valid

/-- The code units of a character are not the beginning of those of another
one. -/
theorem utf16Units_append {first second : Char} {rest others : List Nat}
    (same : utf16Units first ++ rest = utf16Units second ++ others) :
    first = second ∧ rest = others := by
  have left := toNat_scalar first
  have right := toNat_scalar second
  unfold utf16Units at same
  split at same
  · split at same
    · obtain ⟨units, tails⟩ := List.cons.inj same
      exact ⟨Char.toNat_inj.mp units, tails⟩
    · obtain ⟨units, _⟩ := List.cons.inj same
      omega
  · split at same
    · obtain ⟨units, _⟩ := List.cons.inj same
      omega
    · obtain ⟨high, lows⟩ := List.cons.inj same
      obtain ⟨low, tails⟩ := List.cons.inj lows
      refine ⟨Char.toNat_inj.mp ?_, tails⟩
      omega

theorem utf16Units_ne_nil (c : Char) : utf16Units c ≠ [] := by
  unfold utf16Units
  split <;> exact List.cons_ne_nil _ _

theorem flatMap_utf16Units_injective :
    Function.Injective fun characters : List Char =>
      characters.flatMap utf16Units := by
  intro left right same
  induction left generalizing right with
  | nil =>
      cases right with
      | nil => rfl
      | cons c rest =>
          have none := (List.append_eq_nil_iff.mp same.symm).1
          exact absurd none (utf16Units_ne_nil c)
  | cons c rest inductionHypothesis =>
      cases right with
      | nil =>
          have none := (List.append_eq_nil_iff.mp same).1
          exact absurd none (utf16Units_ne_nil c)
      | cons d others =>
          obtain ⟨heads, tails⟩ := utf16Units_append same
          rw [heads, inductionHypothesis tails]

theorem utf16_injective : Function.Injective utf16 := by
  intro a b same
  exact String.toList_injective (flatMap_utf16Units_injective same)

/-! ## Digits -/

def Digits (units : List Nat) : Prop :=
  ∀ unit ∈ units, 48 ≤ unit ∧ unit ≤ 57

/-- The number that digits spell, the first of them weighing most. -/
def decimalValue : List Nat → Nat
  | [] => 0
  | unit :: rest => (unit - 48) * 10 ^ rest.length + decimalValue rest

theorem decimalValue_lt {units : List Nat} (digits : Digits units) :
    decimalValue units < 10 ^ units.length := by
  induction units with
  | nil => decide
  | cons unit rest inductionHypothesis =>
      obtain ⟨_, most⟩ := digits unit List.mem_cons_self
      have smaller := inductionHypothesis fun other member =>
        digits other (List.mem_cons_of_mem unit member)
      have head : (unit - 48) * 10 ^ rest.length ≤ 9 * 10 ^ rest.length :=
        Nat.mul_le_mul_right _ (by omega)
      rw [decimalValue, List.length_cons, Nat.pow_succ]
      omega

/-- Numerals of one length that spell one number are the same. -/
theorem decimalValue_injective {left right : List Nat}
    (leftDigits : Digits left) (rightDigits : Digits right)
    (size : left.length = right.length)
    (same : decimalValue left = decimalValue right) : left = right := by
  induction left generalizing right with
  | nil => exact (List.length_eq_zero_iff.mp size.symm).symm
  | cons unit rest inductionHypothesis =>
      cases right with
      | nil => cases size
      | cons other others =>
          have sizes : rest.length = others.length := Nat.succ.inj size
          have restDigits : Digits rest := fun digit member =>
            leftDigits digit (List.mem_cons_of_mem unit member)
          have othersDigits : Digits others := fun digit member =>
            rightDigits digit (List.mem_cons_of_mem other member)
          have lower := decimalValue_lt restDigits
          have lowerOthers := decimalValue_lt othersDigits
          have leftRange := leftDigits unit List.mem_cons_self
          have rightRange := rightDigits other List.mem_cons_self
          rw [decimalValue, decimalValue, sizes] at same
          rw [sizes] at lower
          -- the digit in front is the quotient by the weight of the others
          have quotient (digit below : Nat)
              (less : below < 10 ^ others.length) :
              (digit * 10 ^ others.length + below) / 10 ^ others.length =
                digit := by
            rw [Nat.mul_comm, Nat.mul_add_div (by positivity),
              Nat.div_eq_of_lt less, Nat.add_zero]
          have heads : unit - 48 = other - 48 := by
            rw [← quotient (unit - 48) _ lower, same,
              quotient (other - 48) _ lowerOthers]
          rw [heads] at same
          have tails := inductionHypothesis restDigits othersDigits sizes
            (Nat.add_left_cancel same)
          rw [tails]
          congr 1
          omega

theorem parseDigits_eq_some {units : List Nat} {value result : Int}
    (parsed : parseDigits units value = some result) :
    Digits units ∧
      result = value * 10 ^ units.length + (decimalValue units : Int) := by
  induction units generalizing value with
  | nil =>
      refine ⟨fun unit member => absurd member List.not_mem_nil, ?_⟩
      simpa [decimalValue] using (Option.some.inj parsed).symm
  | cons unit rest inductionHypothesis =>
      rw [parseDigits] at parsed
      split at parsed
      · cases parsed
      · rename_i inside
        obtain ⟨digits, spelled⟩ := inductionHypothesis parsed
        refine ⟨?_, ?_⟩
        · intro other member
          rcases List.mem_cons.mp member with rfl | later
          · omega
          · exact digits other later
        · have weight : ((unit - 48 : Nat) : Int) = (unit : Int) - 48 := by
            omega
          rw [spelled, decimalValue, List.length_cons, pow_succ]
          push_cast
          rw [weight]
          ring

theorem parseDigits_replicate_zero (count : Nat) :
    parseDigits (List.replicate count 48) 0 = some 0 := by
  induction count with
  | zero => rfl
  | succ count inductionHypothesis =>
      rw [List.replicate_succ, parseDigits, if_neg (by decide)]
      exact inductionHypothesis

theorem decimalValue_eq_zero {units : List Nat} (digits : Digits units)
    (zero : decimalValue units = 0) :
    units = List.replicate units.length 48 := by
  induction units with
  | nil => rfl
  | cons unit rest inductionHypothesis =>
      have range := digits unit List.mem_cons_self
      rw [decimalValue, Nat.add_eq_zero_iff, Nat.mul_eq_zero] at zero
      obtain ⟨head, tail⟩ := zero
      have positive : 0 < 10 ^ rest.length := by
        positivity
      have first : unit = 48 := by
        omega
      have others := inductionHypothesis
        (fun other member => digits other (List.mem_cons_of_mem unit member))
        tail
      rw [List.length_cons, List.replicate_succ, ← others, first]

/-! ## Integer keys -/

/-- A key that is read as an integer is a numeral, with or without a sign. -/
theorem tryParseStringToInt_eq_some {text : String} {value : Int}
    (parsed : tryParseStringToInt text = some value) :
    ∃ units, Digits units ∧ units ≠ [] ∧
      (utf16 text = units ∧ value = decimalValue units ∨
        utf16 text = 45 :: units ∧ value = -(decimalValue units : Int)) ∧
      (utf16 text).length ≤ 11 := by
  have bounded {read result : Int} (kept : inInt32 read = some result) :
      result = read := by
    unfold inInt32 at kept
    split at kept
    · cases kept
    · exact (Option.some.inj kept).symm
  unfold tryParseStringToInt at parsed
  dsimp only at parsed
  split at parsed
  · cases parsed
  · rename_i size
    split at parsed
    · rename_i rest shape
      split at parsed
      · cases parsed
      · rename_i some
        obtain ⟨read, spelled, kept⟩ := Option.bind_eq_some_iff.mp parsed
        obtain ⟨digits, same⟩ := parseDigits_eq_some spelled
        refine ⟨rest, digits, ?_, Or.inr ⟨shape, ?_⟩, ?_⟩
        · exact fun nothing => some (by rw [nothing]; rfl)
        · rw [bounded kept, same]
          simp
        · omega
    · obtain ⟨read, spelled, kept⟩ := Option.bind_eq_some_iff.mp parsed
      obtain ⟨digits, same⟩ := parseDigits_eq_some spelled
      refine ⟨utf16 text, digits, ?_, Or.inl ⟨rfl, ?_⟩, ?_⟩
      · exact fun nothing => size (Or.inr (by rw [nothing]; rfl))
      · rw [bounded kept, same]
        simp
      · omega

/-- A sign and `count` zeros. -/
def signedZero (count : Nat) : String :=
  String.ofList ('-' :: List.replicate count '0')

/-- `count` zeros and one more. -/
def unsignedZero (count : Nat) : String :=
  String.ofList ('0' :: List.replicate count '0')

theorem utf16_zeros (count : Nat) :
    (List.replicate count '0').flatMap utf16Units =
      List.replicate count 48 := by
  induction count with
  | zero => rfl
  | succ count inductionHypothesis =>
      rw [List.replicate_succ, List.flatMap_cons, inductionHypothesis]
      rfl

theorem utf16_signedZero (count : Nat) :
    utf16 (signedZero count) = 45 :: List.replicate count 48 := by
  rw [utf16, signedZero, String.toList_ofList, List.flatMap_cons, utf16_zeros]
  rfl

theorem utf16_unsignedZero (count : Nat) :
    utf16 (unsignedZero count) = 48 :: List.replicate count 48 := by
  rw [utf16, unsignedZero, String.toList_ofList, List.flatMap_cons,
    utf16_zeros]
  rfl

theorem tryParseStringToInt_signedZero {count : Nat} (positive : 0 < count)
    (short : count ≤ 10) :
    tryParseStringToInt (signedZero count) = some 0 := by
  have size : (45 :: List.replicate count 48).length = count + 1 := by
    simp
  unfold tryParseStringToInt
  rw [utf16_signedZero]
  dsimp only
  rw [size, if_neg (by omega)]
  change (if (List.replicate count 48).length = 0 then none
    else (parseDigits (List.replicate count 48) 0).bind fun value =>
      inInt32 (-value)) = some 0
  rw [List.length_replicate, if_neg (by omega), parseDigits_replicate_zero]
  rfl

theorem tryParseStringToInt_unsignedZero {count : Nat} (short : count ≤ 10) :
    tryParseStringToInt (unsignedZero count) = some 0 := by
  have size : (48 :: List.replicate count 48).length = count + 1 := by
    simp
  have parsed := parseDigits_replicate_zero (count + 1)
  rw [List.replicate_succ] at parsed
  unfold tryParseStringToInt
  rw [utf16_unsignedZero]
  dsimp only
  rw [size, if_neg (by omega)]
  change (parseDigits (48 :: List.replicate count 48) 0).bind inInt32 = some 0
  rw [parsed]
  rfl

/-! ## The order -/

theorem compareKey_swap (a b : String) :
    compareKey a b = (compareKey b a).swap := by
  unfold compareKey
  cases tryParseStringToInt a with
  | none =>
      cases tryParseStringToInt b with
      | none =>
          dsimp only
          by_cases before : utf16 a < utf16 b
          · have after : ¬ utf16 b < utf16 a := not_lt_of_gt before
            simp [before, after]
          · by_cases after : utf16 b < utf16 a
            · simp [before, after]
            · simp [before, after]
      | some right => rfl
  | some left =>
      cases tryParseStringToInt b with
      | none => rfl
      | some right =>
          dsimp only
          split_ifs <;> first | rfl | omega

instance : Std.TransCmp compareKey where
  eq_swap := compareKey_swap _ _
  isLE_trans := keyLE_trans _ _ _

/-- Both keys are zeros of one length, one of them with a sign. -/
def ZeroTwice (a b : String) : Prop :=
  ∃ count, 0 < count ∧ count ≤ 10 ∧
    (a = signedZero count ∧ b = unsignedZero count ∨
      a = unsignedZero count ∧ b = signedZero count)

/-- Integer keys with one value and one length, the first signed and the
second not, are zeros. -/
theorem zeros_of_mixed {a b : String} {left right : List Nat}
    (leftDigits : Digits left) (rightDigits : Digits right)
    (nonempty : left ≠ []) (signed : utf16 a = 45 :: left)
    (unsigned : utf16 b = right) (short : (utf16 a).length ≤ 11)
    (size : (utf16 a).length = (utf16 b).length)
    (same : -(decimalValue left : Int) = decimalValue right) :
    ∃ count, 0 < count ∧ count ≤ 10 ∧
      a = signedZero count ∧ b = unsignedZero count := by
  have leftZero := decimalValue_eq_zero leftDigits (by omega)
  have rightZero := decimalValue_eq_zero rightDigits (by omega)
  have positive : 0 < left.length := List.length_pos_iff.mpr nonempty
  rw [signed, unsigned, List.length_cons] at size
  rw [signed, List.length_cons] at short
  refine ⟨left.length, positive, by omega, ?_, ?_⟩
  · refine utf16_injective ?_
    rw [signed, utf16_signedZero, ← leftZero]
  · refine utf16_injective ?_
    rw [unsigned, utf16_unsignedZero, ← List.replicate_succ, size]
    exact rightZero

theorem compareKey_eq_of_zeroTwice {a b : String} (zeros : ZeroTwice a b) :
    compareKey a b = .eq := by
  have pair (count : Nat) (positive : 0 < count) (short : count ≤ 10) :
      compareKey (signedZero count) (unsignedZero count) = .eq := by
    unfold compareKey
    rw [tryParseStringToInt_signedZero positive short,
      tryParseStringToInt_unsignedZero short, utf16_signedZero,
      utf16_unsignedZero]
    simp
  rcases zeros with ⟨count, positive, short, ⟨rfl, rfl⟩ | ⟨rfl, rfl⟩⟩
  · exact pair count positive short
  · exact Std.OrientedCmp.eq_symm (pair count positive short)

/-- The only different keys that compare equal are zeros of one length, one
with a sign and one without. -/
theorem compareKey_eq_iff (a b : String) :
    compareKey a b = .eq ↔ a = b ∨ ZeroTwice a b := by
  constructor
  · intro equal
    unfold compareKey at equal
    cases left : tryParseStringToInt a with
    | none =>
        rw [left] at equal
        cases right : tryParseStringToInt b with
        | none =>
            rw [right] at equal
            dsimp only at equal
            split at equal
            · cases equal
            · rename_i notBefore
              split at equal
              · cases equal
              · rename_i notAfter
                have units := le_antisymm (not_lt.mp notAfter)
                  (not_lt.mp notBefore)
                exact Or.inl (utf16_injective units)
        | some other =>
            rw [right] at equal
            cases equal
    | some value =>
        rw [left] at equal
        cases right : tryParseStringToInt b with
        | none =>
            rw [right] at equal
            cases equal
        | some other =>
            rw [right] at equal
            dsimp only at equal
            have alike : value = other ∧
                (utf16 a).length = (utf16 b).length := by
              split_ifs at equal
              omega
            obtain ⟨rfl, size⟩ := alike
            obtain ⟨units, digits, nonempty, spelled, short⟩ :=
              tryParseStringToInt_eq_some left
            obtain ⟨others, otherDigits, otherNonempty, otherSpelled, _⟩ :=
              tryParseStringToInt_eq_some right
            rcases spelled with ⟨plain, reads⟩ | ⟨signed, reads⟩
            · rcases otherSpelled with ⟨plain', reads'⟩ | ⟨signed', reads'⟩
              · refine Or.inl (utf16_injective ?_)
                rw [plain, plain'] at size ⊢
                exact decimalValue_injective digits otherDigits size
                  (by omega)
              · obtain ⟨count, positive, few, zero, zero'⟩ :=
                  zeros_of_mixed otherDigits digits otherNonempty signed'
                    plain (by omega) size.symm (by omega)
                exact Or.inr ⟨count, positive, few, Or.inr ⟨zero', zero⟩⟩
            · rcases otherSpelled with ⟨plain', reads'⟩ | ⟨signed', reads'⟩
              · obtain ⟨count, positive, few, zero, zero'⟩ :=
                  zeros_of_mixed digits otherDigits nonempty signed plain'
                    short size (by omega)
                exact Or.inr ⟨count, positive, few, Or.inl ⟨zero, zero'⟩⟩
              · refine Or.inl (utf16_injective ?_)
                rw [signed, signed'] at size ⊢
                rw [decimalValue_injective digits otherDigits
                  (Nat.succ.inj size) (by omega)]
  · intro cases
    rcases cases with rfl | zeros
    · exact Std.ReflCmp.compare_self
    · exact compareKey_eq_of_zeroTwice zeros

/-! ## Plain keys -/

/-- The key is not a zero with a sign. -/
def PlainKey (name : String) : Prop :=
  ∀ count, 0 < count → count ≤ 10 → name ≠ signedZero count

theorem eq_of_compareKey_eq {a b : String} (plain : PlainKey a)
    (otherPlain : PlainKey b) (equal : compareKey a b = .eq) : a = b := by
  rcases (compareKey_eq_iff a b).mp equal with same | zeros
  · exact same
  · rcases zeros with ⟨count, positive, short, ⟨zero, _⟩ | ⟨_, zero⟩⟩
    · exact absurd zero (plain count positive short)
    · exact absurd zero (otherPlain count positive short)

theorem plainKey_of_head {name : String}
    (front : name.toList.head? ≠ some '-') : PlainKey name := by
  intro count _ _ zero
  refine front ?_
  rw [zero, signedZero, String.toList_ofList, List.head?_cons]

end FUtilities
end PocketChef
