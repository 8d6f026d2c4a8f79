import Mathlib.Data.List.Infix

/-!
# Validation of paths and data

The texts that name children, the objects that a program hands to the client,
and the checks that they and the keys in them pass.  A failed check throws an
exception that names the calling function and, for data, the path.
-/

namespace PocketChef
namespace Firebase

/-- The Objective-C objects: `NSNull`, strings, numbers, dictionaries with
strings for keys, arrays, and the objects of any other class. -/
inductive NSObject (Number : Type) where
  | null
  | string (text : String)
  | number (value : Number)
  | dictionary (members : List (String × NSObject Number))
  | array (items : List (NSObject Number))
  | other (className : String)

/-- Induction over the members of dictionaries and the items of arrays. -/
theorem NSObject.induct {Number : Type} {motive : NSObject Number → Prop}
    (null : motive .null) (string : ∀ text, motive (.string text))
    (number : ∀ value, motive (.number value))
    (dictionary : ∀ members, (∀ pair ∈ members, motive pair.2) →
      motive (.dictionary members))
    (array : ∀ items, (∀ item ∈ items, motive item) → motive (.array items))
    (other : ∀ className, motive (.other className))
    (object : NSObject Number) : motive object := by
  refine @NSObject.rec Number motive
    (fun members => ∀ pair ∈ members, motive pair.2)
    (fun items => ∀ item ∈ items, motive item) (fun pair => motive pair.2)
    null string number dictionary array other ?_ ?_ ?_ ?_ ?_ object
  · exact fun pair member => absurd member List.not_mem_nil
  · intro head tail first others pair member
    rcases List.mem_cons.mp member with rfl | later
    · exact first
    · exact others pair later
  · exact fun item member => absurd member List.not_mem_nil
  · intro head tail first others item member
    rcases List.mem_cons.mp member with rfl | later
    · exact first
    · exact others item later
  · exact fun name object same => same

/-- What the checks and conversions use of the Foundation framework. -/
structure Foundation (Number : Type) where
  isNotANumber : Number → Bool
  isBoolean : Number → Bool
  className : NSObject Number → String
  decimalDigit : Char → Bool
  scanInteger : String → Option Int

structure NSException where
  name : String
  reason : String
deriving DecidableEq, Repr

def kPayloadPriority : String :=
  ".priority"

def kPayloadValue : String :=
  ".value"

def kServerValueSubKey : String :=
  ".sv"

def kPayloadMetadataPrefix : Char :=
  '.'

def kFirebaseMaxObjectDepth : Nat :=
  1000

def kFirebaseMaxLeafSize : Nat :=
  1024 * 1024 * 10

namespace FValidation

variable {Number : Type} (foundation : Foundation Number)

def kInvalidPathCharacters : List Char :=
  ['[', ']', '.', '#', '$']

def kInvalidKeyCharacters : List Char :=
  ['[', ']', '.', '#', '$', '/']

/-- The text has no character of `kInvalidPathCharacters`. -/
def isPlain (text : String) : Bool :=
  text.toList.all fun c => !kInvalidPathCharacters.contains c

def isValidPathString (pathString : String) : Bool :=
  !pathString.toList.isEmpty && isPlain pathString

/-- `validateFrom:validPathString:`. -/
def validPathString (fn pathString : String) : Except NSException Unit :=
  if isValidPathString pathString then .ok ()
  else .error
    { name := "InvalidPathValidation"
      reason := "(" ++ fn ++ ") Must be a non-empty string and not contain " ++
        "'.' '#' '$' '[' or ']'" }

/-- What ends a line for the `$` of a regular expression. -/
def kLineTerminators : List (List Char) :=
  [['\n'], ['\x0b'], ['\x0c'], ['\r'], ['\u0085'], ['\u2028'], ['\u2029'],
    ['\r', '\n']]

/-- What `(\/|$)` leaves of the characters where it stands, if it matches. -/
def afterDotInfo : List Char → Option (List Char)
  | [] => some []
  | '/' :: rest => some rest
  | rest => if kLineTerminators.contains rest then some rest else none

/-- What `^\/*\.info(\/|$)` matches is replaced by a slash. -/
def replaceDotInfo (pathString : String) : String :=
  let front := pathString.toList.dropWhile (· == '/')
  if ".info".toList.isPrefixOf front then
    match afterDotInfo (front.drop 5) with
    | some rest => String.ofList ('/' :: rest)
    | none => pathString
  else pathString

/-- `validateFrom:validRootPathString:`. -/
def validRootPathString (fn pathString : String) : Except NSException Unit :=
  let tempPath :=
    if ".info".toList <:+: pathString.toList then replaceDotInfo pathString
    else pathString
  validPathString fn tempPath

def isValidKey (key : String) : Bool :=
  !key.toList.isEmpty &&
    key.toList.all fun c => !kInvalidKeyCharacters.contains c

/-- At most 50 components of a path, for the text of an exception. -/
def pathString (path : List String) : String :=
  ".".intercalate (path.take 50)

def invalidFirebaseData (reason : String) : NSException where
  name := "InvalidFirebaseData"
  reason := reason

/-- `validateFrom:isValidLeafValue:withPath:`. -/
def isValidLeafValue (fn : String) (path : List String) :
    NSObject Number → Except NSException Bool
  | .string theString =>
      if theString.utf8ByteSize > kFirebaseMaxLeafSize then
        .error (invalidFirebaseData ("(" ++ fn ++ ") String exceeds max " ++
          "size of " ++ toString kFirebaseMaxLeafSize ++ " utf8 bytes: " ++
          pathString path))
      else .ok true
  | .number value =>
      if foundation.isNotANumber value then
        .error (invalidFirebaseData ("(" ++ fn ++ ") Cannot store NaN at " ++
          "path: " ++ pathString path ++ "."))
      else .ok true
  | .dictionary dval =>
      if (dval.lookup kServerValueSubKey).isSome then
        if dval.length > 1 then
          .error (invalidFirebaseData ("(" ++ fn ++ ") Cannot store other " ++
            "keys with server value keys." ++ pathString path ++ "."))
        else .ok true
      else .ok false
  | .null => .ok true
  | .array _ => .ok false
  | .other _ => .ok false

/-- `validateFrom:validDictionaryKey:withPath:`. -/
def validDictionaryKey (fn : String) (key : String) (path : List String) :
    Except NSException Unit :=
  if key ≠ kPayloadPriority ∧ key ≠ kPayloadValue ∧
      key ≠ kServerValueSubKey ∧ isValidKey key = false then
    .error (invalidFirebaseData ("(" ++ fn ++ ") Invalid key in object at " ++
      "path: " ++ pathString path ++ ". Keys must be non-empty and cannot " ++
      "contain '/' '.' '#' '$' '[' or ']'"))
  else .ok ()

/-- `validateFrom:isValidPriorityValue:withPath:`. -/
def isValidPriorityValue (fn : String) (path : List String) :
    NSObject Number → Except NSException Unit
  | .number value =>
      if foundation.isNotANumber value then
        .error (invalidFirebaseData ("(" ++ fn ++ ") Cannot store NaN as " ++
          "priority at path: " ++ pathString path ++ "."))
      else if foundation.isBoolean value then
        .error (invalidFirebaseData ("(" ++ fn ++ ") Cannot store " ++
          "true/false as priority at path: " ++ pathString path ++ "."))
      else .ok ()
  | .dictionary dval =>
      if (dval.lookup kServerValueSubKey).isSome then
        if dval.length > 1 then
          .error (invalidFirebaseData ("(" ++ fn ++ ") Cannot store other " ++
            "keys with server value keys as priority at path: " ++
            pathString path ++ "."))
        else .ok ()
      else
        .error (invalidFirebaseData ("(" ++ fn ++ ") Cannot store an " ++
          "NSDictionary as priority at path: " ++ pathString path ++ "."))
  | .array _ =>
      .error (invalidFirebaseData ("(" ++ fn ++ ") Cannot store an NSArray " ++
        "as priority at path: " ++ pathString path ++ "."))
  | .null => .ok ()
  | .string _ => .ok ()
  | .other _ => .ok ()

/-! ## What passes the checks -/

theorem isPlain_append (first second : String) :
    isPlain (first ++ second) = (isPlain first && isPlain second) := by
  simp [isPlain]

theorem isPlain_of_isValidPathString {text : String}
    (valid : isValidPathString text = true) : isPlain text = true := by
  rw [isValidPathString, Bool.and_eq_true] at valid
  exact valid.2

theorem isValidPathString_iff {text : String} (known : text ≠ "") :
    isValidPathString text = true ↔ isPlain text = true := by
  have characters : text.toList ≠ [] := by
    simpa using known
  simp [isValidPathString, characters]

/-- At the root the check is that of any other place, unless the text begins
like the place of the client's own data. -/
theorem validRootPathString_eq {fn pathString : String} {first : Char}
    (front : pathString.toList.head? = some first)
    (noSlash : first ≠ '/') (noDot : first ≠ '.') :
    validRootPathString fn pathString = validPathString fn pathString := by
  have kept : replaceDotInfo pathString = pathString := by
    rw [replaceDotInfo]
    cases characters : pathString.toList with
    | nil =>
        rw [characters] at front
        cases front
    | cons head tail =>
        rw [characters] at front
        cases front
        simp [noSlash, Ne.symm noDot]
  rw [validRootPathString, kept, ite_self]

/-- The values that leaves hold. -/
inductive LeafValue : NSObject Number → Prop
  | null : LeafValue .null
  | string {text : String}
      (short : text.utf8ByteSize ≤ kFirebaseMaxLeafSize) :
      LeafValue (.string text)
  | number {value : Number} (kept : foundation.isNotANumber value = false) :
      LeafValue (.number value)
  | serverValue (operation : NSObject Number) :
      LeafValue (.dictionary [(kServerValueSubKey, operation)])

/-- The values that are stored as priorities. -/
inductive PriorityValue : NSObject Number → Prop
  | string {text : String}
      (short : text.utf8ByteSize ≤ kFirebaseMaxLeafSize) :
      PriorityValue (.string text)
  | number {value : Number} (kept : foundation.isNotANumber value = false)
      (plain : foundation.isBoolean value = false) :
      PriorityValue (.number value)
  | serverValue (operation : NSObject Number) :
      PriorityValue (.dictionary [(kServerValueSubKey, operation)])

variable {foundation} {fn : String} {path : List String}
variable {object : NSObject Number}

theorem eq_of_lookup_of_length {members : List (String × NSObject Number)}
    {name : String} (found : (members.lookup name).isSome = true)
    (only : ¬ members.length > 1) :
    ∃ operation, members = [(name, operation)] := by
  cases members with
  | nil => cases found
  | cons first rest =>
      have alone : rest = [] := by
        refine List.length_eq_zero_iff.mp ?_
        rw [List.length_cons] at only
        omega
      obtain ⟨key, operation⟩ := first
      rw [alone] at found ⊢
      rw [List.lookup_cons] at found
      cases same : name == key with
      | true => exact ⟨operation, by rw [eq_of_beq same]⟩
      | false =>
          rw [same] at found
          cases found

theorem isValidLeafValue_eq_true_iff :
    isValidLeafValue foundation fn path object = .ok true ↔
      LeafValue foundation object := by
  constructor
  · intro valid
    cases object with
    | null => exact .null
    | string text =>
        rw [isValidLeafValue] at valid
        split at valid
        · cases valid
        · exact .string (by omega)
    | number value =>
        rw [isValidLeafValue] at valid
        split at valid
        · cases valid
        · rename_i kept
          exact .number (Bool.eq_false_iff.mpr kept)
    | dictionary members =>
        rw [isValidLeafValue] at valid
        split at valid
        · rename_i found
          split at valid
          · cases valid
          · rename_i only
            obtain ⟨operation, shape⟩ := eq_of_lookup_of_length found only
            rw [shape]
            exact .serverValue operation
        · cases valid
    | array items => cases valid
    | other className => cases valid
  · intro valid
    cases valid with
    | null => rfl
    | string short =>
        rw [isValidLeafValue, if_neg (by omega)]
    | number kept =>
        rw [isValidLeafValue, kept]
        rfl
    | serverValue operation => rfl

theorem PriorityValue.leafValue (valid : PriorityValue foundation object) :
    LeafValue foundation object := by
  cases valid with
  | string short => exact .string short
  | number kept plain => exact .number kept
  | serverValue operation => exact .serverValue operation

theorem PriorityValue.isValidPriorityValue
    (valid : PriorityValue foundation object) :
    isValidPriorityValue foundation fn path object = .ok () := by
  cases valid with
  | string short => rfl
  | number kept plain =>
      rw [FValidation.isValidPriorityValue, kept, plain]
      rfl
  | serverValue operation => rfl

/-- A priority that passes both checks is one that is stored. -/
theorem priorityValue_of_checks {other : String} {place : List String}
    (priority : FValidation.isValidPriorityValue foundation fn path object =
      .ok ())
    (leaf : isValidLeafValue foundation other place object = .ok true)
    (some : object ≠ .null) : PriorityValue foundation object := by
  cases isValidLeafValue_eq_true_iff.mp leaf with
  | null => exact absurd rfl some
  | string short => exact .string short
  | serverValue operation => exact .serverValue operation
  | number kept =>
      rw [FValidation.isValidPriorityValue, kept] at priority
      split at priority
      · rename_i impossible
        cases impossible
      · split at priority
        · cases priority
        · rename_i plain
          exact .number kept (Bool.eq_false_iff.mpr plain)

theorem isValidKey_not_mem {key : String} (valid : isValidKey key = true)
    {c : Char} (invalid : c ∈ kInvalidKeyCharacters) : c ∉ key.toList := by
  rw [isValidKey, Bool.and_eq_true, List.all_eq_true] at valid
  intro member
  have allowed := valid.2 c member
  rw [List.contains_iff_mem.mpr invalid] at allowed
  cases allowed

theorem validDictionaryKey_of_isValidKey {key : String}
    (valid : isValidKey key = true) :
    validDictionaryKey fn key path = .ok () := by
  rw [validDictionaryKey, valid]
  simp

/-- A key that does not begin like the keys of the metadata is valid if it
passes the check. -/
theorem isValidKey_of_validDictionaryKey {key : String}
    (checked : validDictionaryKey fn key path = .ok ())
    (plain : key.toList.head? ≠ some kPayloadMetadataPrefix) :
    isValidKey key = true := by
  rw [validDictionaryKey] at checked
  split at checked
  · cases checked
  · rename_i passed
    by_contra invalid
    refine passed ⟨?_, ?_, ?_, Bool.eq_false_iff.mpr invalid⟩
    · rintro rfl
      exact plain rfl
    · rintro rfl
      exact plain rfl
    · rintro rfl
      exact plain rfl

end FValidation

end Firebase
end PocketChef
