import Mathlib.Data.List.TakeWhile

/-!
# The query of a URL

A URL is read as its parser reads it: what follows the first `#` is the
fragment, what follows the first `?` before it the query.  The pieces of the
query between `&` are parameters, each split at its first `=` and
percent-decoded; an escape is `%` with two hexadecimal digits.
-/

namespace UrlQuery

/-- The characters of the generic URL syntax: the unreserved and the reserved
ones, and the sign that begins an escape. -/
def isAllowed (c : Char) : Bool :=
  c.isAlphanum || "-._~:/?#[]@!$&'()*+,;=%".toList.contains c

def hexValue (c : Char) : Option Nat :=
  if c.isDigit then some (c.toNat - 48)
  else if 'a' ≤ c ∧ c ≤ 'f' then some (c.toNat - 87)
  else if 'A' ≤ c ∧ c ≤ 'F' then some (c.toNat - 55)
  else none

/-- The bytes that a text stands for, unless an escape is incomplete. -/
def percentBytes : List Char → Option (List UInt8)
  | [] => some []
  | '%' :: high :: low :: rest => do
      let high ← hexValue high
      let low ← hexValue low
      let bytes ← percentBytes rest
      some (UInt8.ofNat (16 * high + low) :: bytes)
  | '%' :: _ => none
  | c :: rest => do
      let bytes ← percentBytes rest
      some (String.utf8EncodeChar c ++ bytes)

def percentDecode (text : List Char) : Option String :=
  (percentBytes text).bind fun bytes => String.fromUTF8? bytes.toByteArray

def fragment (url : List Char) : Option (List Char) :=
  match url.dropWhile (· ≠ '#') with
  | [] => none
  | _ :: rest => some rest

def query (url : List Char) : Option (List Char) :=
  match (url.takeWhile (· ≠ '#')).dropWhile (· ≠ '?') with
  | [] => none
  | _ :: rest => some rest

/-- The name and, after the first `=`, the value of a piece of a query. -/
def parameter (piece : List Char) : Option (String × Option String) :=
  match piece.dropWhile (· ≠ '=') with
  | [] => (percentDecode piece).map fun name => (name, none)
  | _ :: rest => do
      let name ← percentDecode (piece.takeWhile (· ≠ '='))
      let value ← percentDecode rest
      some (name, some value)

def parameters (url : List Char) :
    Option (List (String × Option String)) := do
  let query ← query url
  (query.splitOn '&').mapM parameter

/-! ## Escapes -/

theorem percentBytes_of_plain {text : List Char} (plain : '%' ∉ text) :
    percentBytes text = some (text.flatMap String.utf8EncodeChar) := by
  induction text with
  | nil =>
      rfl
  | cons c rest inductionHypothesis =>
      rw [List.mem_cons, not_or] at plain
      have tail := inductionHypothesis plain.2
      have different : c ≠ '%' := fun same => plain.1 same.symm
      rw [percentBytes, tail]
      · rfl
      · intro high low others same
        exact absurd same different
      · intro same
        exact absurd same different

theorem length_utf8EncodeChar_pos (c : Char) :
    0 < (String.utf8EncodeChar c).length :=
  List.length_pos_iff.mpr String.utf8EncodeChar_ne_nil

/-- Each escape stands for a single byte, which is shorter than itself. -/
theorem length_percentBytes {text : List Char} {bytes : List UInt8}
    (decoded : percentBytes text = some bytes) :
    bytes.length ≤ (text.flatMap String.utf8EncodeChar).length ∧
      ('%' ∈ text →
        bytes.length < (text.flatMap String.utf8EncodeChar).length) := by
  fun_induction percentBytes text generalizing bytes with
  | case1 =>
      cases decoded
      exact ⟨Nat.le_refl 0, fun member => nomatch member⟩
  | case2 high low rest inductionHypothesis =>
      rcases Option.bind_eq_some_iff.mp decoded with ⟨first, _, decoded⟩
      rcases Option.bind_eq_some_iff.mp decoded with ⟨second, _, decoded⟩
      rcases Option.bind_eq_some_iff.mp decoded with ⟨tail, found, same⟩
      cases same
      have shorter := (inductionHypothesis found).1
      have percentSize := length_utf8EncodeChar_pos '%'
      have highSize := length_utf8EncodeChar_pos high
      simp only [List.flatMap_cons, List.length_append, List.length_cons]
      exact ⟨by omega, fun _ => by omega⟩
  | case3 =>
      cases decoded
  | case4 c rest _ different inductionHypothesis =>
      rcases Option.bind_eq_some_iff.mp decoded with ⟨tail, found, same⟩
      cases same
      have shorter := inductionHypothesis found
      simp only [List.flatMap_cons, List.length_append, List.mem_cons]
      refine ⟨by omega, fun member => ?_⟩
      rcases member with here | later
      · exact (different here.symm).elim
      · have strictly := shorter.2 later
        omega

theorem fromUTF8?_eq_some_iff {bytes : ByteArray} {text : String} :
    String.fromUTF8? bytes = some text ↔ bytes = text.toByteArray := by
  unfold String.fromUTF8?
  constructor
  · intro read
    split at read
    · cases read
      rfl
    · cases read
  · rintro rfl
    rw [dif_pos text.isValidUTF8]
    rfl

/-- A text decodes to itself exactly when it contains no percent sign. -/
theorem percentDecode_eq_self_iff (text : String) :
    percentDecode text.toList = some text ↔ '%' ∉ text.toList := by
  have encoded :
      text.toByteArray =
        (text.toList.flatMap String.utf8EncodeChar).toByteArray :=
    String.utf8Encode_toList.symm
  constructor
  · intro decoded escaped
    rcases Option.bind_eq_some_iff.mp decoded with ⟨bytes, found, read⟩
    rw [fromUTF8?_eq_some_iff, encoded] at read
    have sizes := congrArg ByteArray.size read
    rw [List.size_toByteArray, List.size_toByteArray] at sizes
    have shorter := (length_percentBytes found).2 escaped
    omega
  · intro plain
    rw [percentDecode, percentBytes_of_plain plain, Option.bind_some,
      fromUTF8?_eq_some_iff, encoded]

/-! ## Parts of a URL -/

theorem forall_ne_iff {separator : Char} {text : List Char} :
    (∀ c ∈ text, decide (c ≠ separator) = true) ↔ separator ∉ text := by
  constructor
  · intro every member
    simpa using every separator member
  · intro plain c member
    exact decide_eq_true fun same => plain (same ▸ member)

theorem fragment_eq_none_iff (url : List Char) :
    fragment url = none ↔ '#' ∉ url := by
  rw [← forall_ne_iff, ← List.dropWhile_eq_nil_iff]
  unfold fragment
  cases url.dropWhile (· ≠ '#') with
  | nil => simp
  | cons c rest => simp

/-- A text is split at the first occurrence of a separator. -/
theorem split_append_cons {separator : Char} {before : List Char}
    (plain : separator ∉ before) (rest : List Char) :
    (before ++ separator :: rest).takeWhile (· ≠ separator) = before ∧
      (before ++ separator :: rest).dropWhile (· ≠ separator) =
        separator :: rest := by
  have passed := forall_ne_iff.mpr plain
  rw [List.takeWhile_append_of_pos passed,
    List.dropWhile_append_of_pos passed]
  simp

theorem query_append {before rest : List Char}
    (unfragmented : '#' ∉ before ++ '?' :: rest) (plain : '?' ∉ before) :
    query (before ++ '?' :: rest) = some rest := by
  have whole :=
    List.takeWhile_eq_self_iff.mpr (forall_ne_iff.mpr unfragmented)
  rw [query, whole, (split_append_cons plain rest).2]

theorem parameter_append {name : String} (value : List Char)
    (unsplit : '=' ∉ name.toList) (plain : '%' ∉ name.toList) :
    parameter (name.toList ++ '=' :: value) =
      (percentDecode value).map fun value => (name, some value) := by
  have split := split_append_cons unsplit value
  rw [parameter, split.1, split.2, (percentDecode_eq_self_iff name).mpr plain]
  exact Option.map_eq_bind.symm

theorem parameter_plain {name value : String}
    (unsplit : '=' ∉ name.toList) (plainName : '%' ∉ name.toList)
    (plainValue : '%' ∉ value.toList) :
    parameter (name.toList ++ '=' :: value.toList) =
      some (name, some value) := by
  rw [parameter_append value.toList unsplit plainName,
    (percentDecode_eq_self_iff value).mpr plainValue]
  rfl

theorem parameters_append {before rest : List Char}
    (unfragmented : '#' ∉ before ++ '?' :: rest) (plain : '?' ∉ before) :
    parameters (before ++ '?' :: rest) =
      (rest.splitOn '&').mapM parameter := by
  rw [parameters, query_append unfragmented plain]
  rfl

theorem length_of_mapM {α β : Type} {convert : α → Option β}
    {items : List α} {converted : List β}
    (succeeds : items.mapM convert = some converted) :
    items.length = converted.length := by
  induction items generalizing converted with
  | nil =>
      cases succeeds
      rfl
  | cons head tail inductionHypothesis =>
      rw [List.mapM_cons] at succeeds
      rcases Option.bind_eq_some_iff.mp succeeds with ⟨_, _, succeeds⟩
      rcases Option.bind_eq_some_iff.mp succeeds with ⟨rest, found, same⟩
      cases same
      rw [List.length_cons, List.length_cons, inductionHypothesis found]

/-- A separator in a text makes at least two pieces of it. -/
theorem length_splitOn {separator : Char} {text : List Char}
    (member : separator ∈ text) :
    2 ≤ (text.splitOn separator).length := by
  rcases List.append_of_mem member with ⟨before, after, rfl⟩
  have left : 0 < (before.splitOn separator).length :=
    List.length_pos_iff.mpr (List.splitOn_ne_nil separator before)
  have right : 0 < (after.splitOn separator).length :=
    List.length_pos_iff.mpr (List.splitOn_ne_nil separator after)
  rw [List.splitOn_append_cons_self, List.length_append]
  omega

end UrlQuery
