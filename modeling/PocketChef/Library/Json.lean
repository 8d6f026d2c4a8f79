import Mathlib.Tactic.TypeStar
import Mathlib.Data.List.Basic

/-!
# Parsed JSON values and their conditional casts

A parsed value is read through conditional casts, each of which accepts one
kind of value.  What numbers are is a parameter.  The members of an object are
looked up by name; a name that occurs twice stands for its first member.
-/

universe u

inductive Json (Number : Type u) where
  | null
  | number (value : Number)
  | string (text : String)
  | array (items : List (Json Number))
  | object (members : List (String × Json Number))

namespace Json

variable {Number : Type u}

/-- The member of an object with the given name. -/
def member (members : List (String × Json Number)) (name : String) :
    Option (Json Number) :=
  members.lookup name

def asNumber : Json Number → Option Number
  | number value => some value
  | _ => none

def asString : Json Number → Option String
  | string text => some text
  | _ => none

def asArray : Json Number → Option (List (Json Number))
  | array items => some items
  | _ => none

def asObject : Json Number → Option (List (String × Json Number))
  | object members => some members
  | _ => none

/-- An array whose items all are strings. -/
def asStrings (json : Json Number) : Option (List String) :=
  json.asArray.bind fun items => items.mapM asString

theorem asArray_eq_some_iff {json : Json Number}
    {items : List (Json Number)} :
    json.asArray = some items ↔ json = array items := by
  cases json <;> simp [asArray]

theorem asObject_eq_some_iff {json : Json Number}
    {members : List (String × Json Number)} :
    json.asObject = some members ↔ json = object members := by
  cases json <;> simp [asObject]

end Json
