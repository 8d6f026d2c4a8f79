import PocketChef.Firebase.FValidation
import PocketChef.Firebase.KeyOrder
import PocketChef.Library.KeyedTree

/-!
# The Firebase realtime database

The database is a tree of keyed nodes whose leaves are strings and finite
doubles.  A reference is the list of path pieces that `FPath` keeps: the path
string is split at `/` and empty pieces are dropped.  A string with one of the
characters `.#$[]` names no child, and `child:` throws.

Writes are applied in the order in which they are issued.  A snapshot is the
database at the time of the read together with the path it was read at.
-/

namespace PocketChef

open KeyedTree

/-- The 64 bits of a Swift `Double` that is neither infinite nor a NaN. -/
structure FiniteDouble where
  bits : BitVec 64
  finite : bits.extractLsb' 52 11 ≠ 0x7FF#11
  deriving DecidableEq

namespace Firebase

inductive Value where
  | string (text : String)
  | number (value : FiniteDouble)
  deriving DecidableEq

namespace Value

/-- `as? String`. -/
def asString : Value → Option String
  | .string text => some text
  | .number _ => none

/-- `as? Double`. -/
def asDouble : Value → Option FiniteDouble
  | .string _ => none
  | .number value => some value

end Value

abbrev Path := List String

abbrev Database := Tree String Value

/-- `FPath pathWithString`: the non-empty pieces between slashes. -/
def pathWithString (path : String) : Path :=
  ((path.toList.splitOn '/').filter fun piece => !piece.isEmpty).map
    String.ofList

structure DatabaseReference where
  path : Path
  deriving DecidableEq

/-- `Database.database().reference()`. -/
def reference : DatabaseReference :=
  ⟨[]⟩

def DatabaseReference.child (ref : DatabaseReference) (pathString : String) :
    Except NSException DatabaseReference := do
  if ref.path.head? = none then
    FValidation.validRootPathString "child:" pathString
  else
    FValidation.validPathString "child:" pathString
  return ⟨ref.path ++ pathWithString pathString⟩

inductive Write where
  | setValue (path : Path) (fields : List (String × Value))
  | removeValue (path : Path)
  deriving DecidableEq

namespace Write

def path : Write → Path
  | .setValue path _ => path
  | .removeValue path => path

def apply (database : Database) : Write → Database
  | .setValue path fields => setFields database path fields
  | .removeValue path => remove database path

def applyAll (database : Database) (writes : List Write) : Database :=
  writes.foldl apply database

@[simp]
theorem applyAll_nil (database : Database) :
    applyAll database [] = database :=
  rfl

@[simp]
theorem applyAll_cons
    (database : Database) (write : Write) (writes : List Write) :
    applyAll database (write :: writes) =
      applyAll (write.apply database) writes :=
  rfl

theorem applyAll_append (database : Database) (first second : List Write) :
    applyAll database (first ++ second) =
      applyAll (applyAll database first) second :=
  List.foldl_append

end Write

structure DataSnapshot where
  database : Database
  path : Path

namespace DataSnapshot

def exists? (snapshot : DataSnapshot) : Bool :=
  decide (Exists snapshot.database snapshot.path)

/-- The children with their keys, in key order. -/
def children (snapshot : DataSnapshot) : List (String × DataSnapshot) :=
  (sortedKeys FUtilities.keyLE snapshot.database snapshot.path).map
    fun key => (key, ⟨snapshot.database, snapshot.path ++ [key]⟩)

/-- `value[field]` of a snapshot whose value is read as a dictionary. -/
def field (snapshot : DataSnapshot) (name : String) : Option Value :=
  lookup snapshot.database (snapshot.path ++ [name])

/-- A node that does not exist has no children. -/
theorem children_of_not_exists {snapshot : DataSnapshot}
    (absent : ¬ Exists snapshot.database snapshot.path) :
    snapshot.children = [] := by
  have noneBelow : childKeys snapshot.database snapshot.path = [] := by
    apply List.eq_nil_iff_forall_not_mem.mpr
    intro name member
    exact not_exists_child absent name (mem_childKeys_iff.mp member)
  simp [children, sortedKeys, noneBelow]

end DataSnapshot

/-! ## Paths -/

@[simp]
theorem pathWithString_empty : pathWithString "" = [] := by
  decide

theorem pathWithString_append_slash (first second : String) :
    pathWithString (first ++ "/" ++ second) =
      pathWithString first ++ pathWithString second := by
  have characters :
      (first ++ "/" ++ second).toList =
        first.toList ++ '/' :: second.toList := by
    simp
  simp only [pathWithString, characters, List.splitOn_append_cons_self,
    List.filter_append, List.map_append]

theorem pathWithString_single {piece : String}
    (nonempty : piece ≠ "") (plain : '/' ∉ piece.toList) :
    pathWithString piece = [piece] := by
  have characters : piece.toList ≠ [] := by
    simpa using nonempty
  simp [pathWithString, List.splitOn_eq_singleton plain, characters]

theorem pathWithString_toString (value : Int) :
    pathWithString (toString value) = [toString value] := by
  apply pathWithString_single (Decimal.toString_ne_empty value)
  intro slash
  rcases Decimal.mem_toString slash with sign | digit
  · cases sign
  · cases digit

/-! ## Children -/

theorem isPlain_toString (value : Int) :
    FValidation.isPlain (toString value) = true := by
  rw [FValidation.isPlain, List.all_eq_true]
  intro c member
  rcases Decimal.mem_toString member with sign | digit
  · rw [sign]
    rfl
  · have allowed : c ∉ FValidation.kInvalidPathCharacters := by
      intro invalid
      simp only [FValidation.kInvalidPathCharacters, List.mem_cons,
        List.not_mem_nil, or_false] at invalid
      rcases invalid with rfl | rfl | rfl | rfl | rfl <;> cases digit
    simpa using allowed

theorem toOption_bind {ε α β : Type} (action : Except ε α)
    (continuation : α → Except ε β) :
    (action >>= continuation).toOption =
      action.toOption.bind fun value => (continuation value).toOption := by
  cases action with
  | error thrown => rfl
  | ok value => rfl

theorem child_of_inner {ref : DatabaseReference} (inner : ref.path ≠ [])
    (pathString : String) :
    (ref.child pathString).toOption =
      if FValidation.isValidPathString pathString then
        some ⟨ref.path ++ pathWithString pathString⟩
      else none := by
  have below : ref.path.head? ≠ none := by
    simpa using inner
  rw [DatabaseReference.child, if_neg below, FValidation.validPathString]
  by_cases valid : FValidation.isValidPathString pathString = true
  · rw [if_pos valid, if_pos valid]
    rfl
  · rw [if_neg valid, if_neg valid]
    rfl

theorem reference_child {pathString : String} {first : Char}
    (front : pathString.toList.head? = some first)
    (noSlash : first ≠ '/') (noDot : first ≠ '.') :
    (reference.child pathString).toOption =
      if FValidation.isPlain pathString then
        some ⟨pathWithString pathString⟩
      else none := by
  have known : pathString ≠ "" := by
    intro empty
    rw [empty] at front
    cases front
  have same := FValidation.isValidPathString_iff known
  have atRoot : reference.path.head? = none := rfl
  rw [DatabaseReference.child, if_pos atRoot,
    FValidation.validRootPathString_eq front noSlash noDot,
    FValidation.validPathString]
  by_cases plain : FValidation.isPlain pathString = true
  · rw [if_pos (same.mpr plain), if_pos plain]
    rfl
  · rw [if_neg (mt same.mp plain), if_neg plain]
    rfl

/-- A name of a child of the root that needs no further check. -/
structure IsCollection (name : String) : Prop where
  piece : pathWithString name = [name]
  plain : FValidation.isPlain name = true
  front : ∃ first, name.toList.head? = some first ∧ first ≠ '/' ∧ first ≠ '.'

namespace IsCollection

variable {name : String} (collection : IsCollection name)

include collection

theorem child :
    (reference.child name).toOption = some ⟨[name]⟩ := by
  obtain ⟨first, front, noSlash, noDot⟩ := collection.front
  rw [reference_child front noSlash noDot, if_pos collection.plain,
    collection.piece]

/-- `child("\(name)/\(rest)")`. -/
theorem child_slash (rest : String) :
    (reference.child (name ++ "/" ++ rest)).toOption =
      if FValidation.isPlain rest then some ⟨name :: pathWithString rest⟩
      else none := by
  obtain ⟨first, front, noSlash, noDot⟩ := collection.front
  have begins : (name ++ "/" ++ rest).toList.head? = some first := by
    simp [front]
  have slash : FValidation.isPlain "/" = true := by
    decide
  rw [reference_child begins noSlash noDot, FValidation.isPlain_append,
    FValidation.isPlain_append, collection.plain, slash,
    pathWithString_append_slash, collection.piece]
  rfl

/-- `child(name).child(currentUid).child("\(value)")`. -/
theorem child_child (currentUid : String) (value : Int) :
    (do
      let nodes ← reference.child name
      let own ← nodes.child currentUid
      own.child (toString value)).toOption =
      if FValidation.isValidPathString currentUid then
        some ⟨name :: pathWithString currentUid ++ [toString value]⟩
      else none := by
  have number : FValidation.isValidPathString (toString value) = true :=
    (FValidation.isValidPathString_iff
      (Decimal.toString_ne_empty value)).mpr (isPlain_toString value)
  rw [toOption_bind, collection.child, Option.bind_some, toOption_bind,
    child_of_inner (List.cons_ne_nil _ _)]
  by_cases valid : FValidation.isValidPathString currentUid = true
  · have inner : [name] ++ pathWithString currentUid ≠ [] :=
      List.cons_ne_nil _ _
    rw [if_pos valid, if_pos valid, Option.bind_some, child_of_inner inner,
      if_pos number, pathWithString_toString]
    rfl
  · rw [if_neg valid, if_neg valid, Option.bind_none]

end IsCollection

end Firebase
end PocketChef
