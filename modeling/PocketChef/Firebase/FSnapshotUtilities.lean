import PocketChef.Firebase.FImmutableSortedDictionary
import PocketChef.Firebase.FNode
import PocketChef.Firebase.FValidation
import PocketChef.Firebase.KeyEquality

/-!
# Objects and nodes

`nodeFrom` makes a node of an object, and `valForExport` makes an object of a
node again.  An object in the export format keeps the priorities.  Otherwise
they are dropped, and children under small integers become an array.
-/

namespace PocketChef
namespace Firebase

open FUtilities (compareKey key utf16)
open FValidation

abbrev Node (Number : Type) :=
  FNode String (NSObject Number)

namespace FSnapshotUtilities

variable {Number : Type} (foundation : Foundation Number)

/-! ## From an object to a node -/

def validDepth (fn : String) (depth : Nat) (path : List String) :
    Except NSException Unit :=
  if depth > kFirebaseMaxObjectDepth then
    .error (invalidFirebaseData ("(" ++ fn ++ ") Max object depth exceeded: "
      ++ ".".intercalate (path.take 100) ++ "..."))
  else .ok ()

def cannotStore (fn : String) (value : NSObject Number)
    (path : List String) : NSException :=
  invalidFirebaseData ("(" ++ fn ++ ") Cannot store object of type " ++
    foundation.className value ++ " at " ++ pathString path ++ ". Can only " ++
    "store objects of type NSNumber, NSString, NSDictionary, and NSArray.")

def invalidLeafValueType (fn : String) (value : NSObject Number) :
    NSException where
  name := "InvalidLeafValueType"
  reason := "(" ++ fn ++ ") Invalid data type used with .value. Can only " ++
    "use NSString and NSNumber or be null. Found " ++
    foundation.className value ++ " instead."

/-- `nodeFrom:` of a priority that has been checked. -/
def priorityFrom (aPriority : NSObject Number) :
    Except NSException (Option (NSObject Number)) :=
  match aPriority with
  | .null => .ok none
  | object => do
      if ← isValidLeafValue foundation "nodeFrom:priority:" [] object then
        return some object
      else throw (cannotStore foundation "nodeFrom:priority:" object [])

/-- The checks of the depth and of the priority. -/
def checkedPriority (fn : String) (aPriority : NSObject Number)
    (depth : Nat) (path : List String) :
    Except NSException (Option (NSObject Number)) := do
  validDepth fn depth path
  isValidPriorityValue foundation fn path aPriority
  priorityFrom foundation aPriority

/-- The priority in a dictionary goes before the one that is passed. -/
def ownPriority (fn : String) (path : List String)
    (priority : Option (NSObject Number))
    (dict : List (String × NSObject Number)) :
    Except NSException (Option (NSObject Number)) :=
  match dict.lookup kPayloadPriority with
  | some rawPriority => do
      isValidPriorityValue foundation fn path rawPriority
      priorityFrom foundation rawPriority
  | none => .ok priority

def leafFrom (fn : String) (aPriority : NSObject Number) (depth : Nat)
    (path : List String) (value : NSObject Number) :
    Except NSException (Node Number) := do
  let priority ← checkedPriority foundation fn aPriority depth path
  if ← isValidLeafValue foundation fn path value then
    return .leaf value priority
  else throw (cannotStore foundation fn value path)

/-- A node with children, which are put into an `FImmutableSortedDictionary`. -/
def childrenNode (priority : Option (NSObject Number))
    (children : List (String × Node Number)) :
    Except NSException (Node Number) :=
  if children.isEmpty then .ok .emptyNode
  else
    match FImmutableSortedDictionary.fromDictionary compareKey children with
    | some childrenDict => .ok (.children childrenDict.entries priority)
    | none =>
        .error {
          name := "NSInvalidArgumentException"
          reason := "Can't create FImmutableSortedDictionary with keys with " ++
            "same ordering!" }

mutual

def internalNodeFrom (fn : String) (aPriority : NSObject Number)
    (depth : Nat) (path : List String) :
    NSObject Number → Except NSException (Node Number)
  | .null => do
      validDepth fn depth path
      return .emptyNode
  | .dictionary dict => do
      let passed ← checkedPriority foundation fn aPriority depth path
      let priority ← ownPriority foundation fn path passed dict
      match dict.lookup kPayloadValue with
      | some value =>
          if ← isValidLeafValue foundation fn path value then
            return .leaf value priority
          else throw (invalidLeafValueType foundation fn value)
      | none =>
          if ← isValidLeafValue foundation fn path (.dictionary dict) then
            return .leaf (.dictionary dict) priority
          else
            childrenNode priority (← membersFrom fn depth path dict)
  | .array aval => do
      let priority ← checkedPriority foundation fn aPriority depth path
      childrenNode priority (← itemsFrom fn depth path 0 aval)
  | .string text => leafFrom foundation fn aPriority depth path (.string text)
  | .number value => leafFrom foundation fn aPriority depth path (.number value)
  | .other name => leafFrom foundation fn aPriority depth path (.other name)

/-- The children from the members of a dictionary. -/
def membersFrom (fn : String) (depth : Nat) (path : List String) :
    List (String × NSObject Number) →
      Except NSException (List (String × Node Number))
  | [] => return []
  | (keyId, value) :: rest => do
      validDictionaryKey fn keyId path
      if keyId.toList.head? = some kPayloadMetadataPrefix then
        membersFrom fn depth path rest
      else
        let childNode ←
          internalNodeFrom fn .null (depth + 1) (path ++ [keyId]) value
        let others ← membersFrom fn depth path rest
        return if childNode.isEmpty then others
          else (keyId, childNode) :: others

/-- The children from the items of an array, from number `i` on. -/
def itemsFrom (fn : String) (depth : Nat) (path : List String) (i : Nat) :
    List (NSObject Number) →
      Except NSException (List (String × Node Number))
  | [] => return []
  | item :: rest => do
      let childNode ←
        internalNodeFrom fn .null (depth + 1) (path ++ [key i]) item
      let others ← itemsFrom fn depth path (i + 1) rest
      return if childNode.isEmpty then others
        else (key i, childNode) :: others

end

/-- `nodeFrom:priority:withValidationFrom:`. -/
def nodeFrom (fn : String) (val : NSObject Number)
    (priority : NSObject Number) : Except NSException (Node Number) :=
  internalNodeFrom foundation fn priority 0 [] val

/-! ## From a node to an object -/

def intForString (string : String) : Option Int :=
  if string.toList.all foundation.decimalDigit then
    foundation.scanInteger string
  else none

/-- The largest integer and whether all keys are integers, after one more
key. -/
def scanKey (scanned : Int × Bool) (key : String) : Int × Bool :=
  if scanned.2 = false then scanned
  else if key.toList.head? = some '0' ∧ (utf16 key).length > 1 then
    (scanned.1, false)
  else
    match intForString foundation key with
    | some keyAsInt =>
        (if keyAsInt > scanned.1 then keyAsInt else scanned.1, true)
    | none => (scanned.1, false)

/-- The size of the array for children with these keys, if they become one. -/
def arraySize (exp : Bool) (keys : List String) : Option Nat :=
  let (maxKey, allIntegerKeys) := keys.foldl (scanKey foundation) (0, true)
  if !exp && allIntegerKeys && maxKey < 2 * keys.length then
    some (maxKey.toNat + 1)
  else none

mutual

def valForExport (exp : Bool) : Node Number → NSObject Number
  | .leaf value priority =>
      match exp, priority with
      | true, some priority =>
          .dictionary [(kPayloadValue, value), (kPayloadPriority, priority)]
      | _, _ => value
  | .children children priority =>
      if children.isEmpty then .null
      else
        let obj := membersForExport exp children
        match arraySize foundation exp (children.map Prod.fst) with
        | some size =>
            .array ((List.range size).map fun i =>
              (obj.lookup (key i)).getD .null)
        | none =>
            match exp, priority with
            | true, some priority =>
                .dictionary (obj ++ [(kPayloadPriority, priority)])
            | _, _ => .dictionary obj

def membersForExport (exp : Bool) :
    List (String × Node Number) → List (String × NSObject Number)
  | [] => []
  | (key, childNode) :: rest =>
      (key, valForExport exp childNode) :: membersForExport exp rest

end

def val (node : Node Number) : NSObject Number :=
  valForExport foundation false node

end FSnapshotUtilities

end Firebase
end PocketChef
