import PocketChef.Firebase.Database
import PocketChef.Library.Json

/-!
# Replies of the recipe service

A data task calls its completion handler with the data, the response and an
error, each of which may be missing.  All loaders begin with the same two
guards, read the parsed data, and leave a block on the main queue unless they
return before.

`JSONSerialization` is not modelled: the data is given by what its parse
yields.
-/

namespace PocketChef

/-- A number as the casts `as? Int` and `as? Double` see it. -/
structure NSNumber where
  asInt : Option Int := none
  asDouble : Option FiniteDouble := none
  inRange : ∀ value ∈ asInt, -2 ^ 63 ≤ value ∧ value < 2 ^ 63 := by decide

/-- A parsed JSON value. -/
abbrev AnyJson := Json NSNumber

/-- What the parse of the data yields: an error that is thrown, or a value. -/
abbrev Body := Except String AnyJson

namespace AnyJson

def asInt (json : AnyJson) : Option Int :=
  json.asNumber.bind NSNumber.asInt

def asDouble (json : AnyJson) : Option FiniteDouble :=
  json.asNumber.bind NSNumber.asDouble

/-- The member `name` of an object, if its cast succeeds. -/
def field {α : Type} (cast : AnyJson → Option α)
    (members : List (String × AnyJson)) (name : String) : Option α :=
  (Json.member members name).bind cast

end AnyJson

/-- `statusCode` is `none` where there is no response or it is not of HTTP. -/
structure Reply where
  data : Option Body := none
  statusCode : Option Int := none
  error : Option String := none

namespace Reply

/-- The body that the guards let through; where they return it is `none`
inside, and `none` outside would be a trap. -/
def received (reply : Reply) : Option (Option Body) :=
  if reply.error ≠ none then do
    let _message ← reply.error
    some none
  else if reply.statusCode = some 200 then
    some reply.data
  else
    some none

/-- Neither guard returns, and the data is `body`. -/
structure Delivers (reply : Reply) (body : Body) : Prop where
  error : reply.error = none
  statusCode : reply.statusCode = some 200
  data : reply.data = some body

theorem received_of_delivers {reply : Reply} {body : Body}
    (delivers : reply.Delivers body) : reply.received = some (some body) := by
  simp [received, delivers.error, delivers.statusCode, delivers.data]

theorem received_of_not_delivers {reply : Reply}
    (nothing : ∀ body, ¬ reply.Delivers body) :
    reply.received = some none := by
  unfold received
  by_cases failed : reply.error = none
  · by_cases accepted : reply.statusCode = some 200
    · cases present : reply.data with
      | none => simp [failed]
      | some body =>
          exact absurd ⟨failed, accepted, present⟩ (nothing body)
    · simp [failed, accepted]
  · rcases Option.ne_none_iff_exists'.mp failed with ⟨message, thrown⟩
    simp [thrown]

theorem Delivers.unique {reply : Reply} {first second : Body}
    (delivers : reply.Delivers first) (also : reply.Delivers second) :
    first = second :=
  Option.some.inj (delivers.data.symm.trans also.data)

theorem Delivers.forall_iff {reply : Reply} {body : Body}
    {property : Body → Prop} (delivers : reply.Delivers body) :
    (∀ other, reply.Delivers other → property other) ↔ property body := by
  constructor
  · intro every
    exact every body delivers
  · intro holds other also
    cases delivers.unique also
    exact holds

end Reply

/-- What a completion handler leaves behind: the screen, and what its block on
the main queue captures, unless it has returned before. -/
structure Handled (Screen Captured : Type) where
  screen : Screen
  block : Option Captured

/-- A loader with its completion handler and its block; `none` is a trap. -/
structure Loader (Screen Captured : Type) where
  completionHandler : Screen → Reply → Option (Handled Screen Captured)
  mainBlock : Captured → Screen → Option Screen

section Loaders

variable {Screen Entries Captured : Type}

/-- The frame of the completion handlers.  `read` finds what the rest of the
handler needs: `none` inside is an early return, `none` outside a trap. -/
def completion (self : Screen) (reply : Reply)
    (read : Body → Option (Option Entries))
    (finish : Entries → Option (Handled Screen Captured)) :
    Option (Handled Screen Captured) := do
  match ← reply.received with
  | none => some ⟨self, none⟩
  | some body =>
      match ← read body with
      | none => some ⟨self, none⟩
      | some entries => finish entries

/-- The array that a loader finds under `name` in a top-level object.  Where
there is none, the handler returns; data that is not JSON is only reported and
another top-level value is passed over, so that neither has entries. -/
def entriesOf (name : String) : Body → Option (List AnyJson)
  | .error _ => some []
  | .ok json =>
      match json.asObject with
      | none => some []
      | some members => AnyJson.field Json.asArray members name

variable {self : Screen} {reply : Reply} {body : Body}
variable {read : Body → Option (Option Entries)}
variable {finish : Entries → Option (Handled Screen Captured)}

theorem completion_of_not_delivers (nothing : ∀ body, ¬ reply.Delivers body) :
    completion self reply read finish = some ⟨self, none⟩ := by
  rw [completion, Reply.received_of_not_delivers nothing]
  rfl

theorem completion_of_trap (delivers : reply.Delivers body)
    (trapped : read body = none) :
    completion self reply read finish = none := by
  rw [completion, Reply.received_of_delivers delivers]
  simp [trapped]

theorem completion_of_return (delivers : reply.Delivers body)
    (returned : read body = some none) :
    completion self reply read finish = some ⟨self, none⟩ := by
  rw [completion, Reply.received_of_delivers delivers]
  simp [returned]

theorem completion_of_entries {entries : Entries}
    (delivers : reply.Delivers body)
    (found : read body = some (some entries)) :
    completion self reply read finish = finish entries := by
  rw [completion, Reply.received_of_delivers delivers]
  simp [found]

namespace Loader

variable (loader : Loader Screen Captured)

/-- The handler and its block as one step. -/
def handle (screen : Screen) (reply : Reply) : Option Screen := do
  let handled ← loader.completionHandler screen reply
  match handled.block with
  | none => some handled.screen
  | some captured => loader.mainBlock captured handled.screen

/-- Neither the handler nor its block traps, in whatever state the block runs
that `later` allows after the handler. -/
def Returns (later : Screen → Screen → Prop) (screen : Screen)
    (reply : Reply) : Prop :=
  ∃ handled ∈ loader.completionHandler screen reply,
    ∀ captured ∈ handled.block, ∀ reached, later handled.screen reached →
      ∃ next, loader.mainBlock captured reached = some next

/-- What keeps a loader from trapping, once the guards have let a body
through. -/
theorem returns_iff {loader : Loader Screen Captured}
    {later : Screen → Screen → Prop} {screen : Screen}
    (frame :
      loader.completionHandler screen reply =
        completion screen reply read finish) :
    loader.Returns later screen reply ↔
      ∀ body, reply.Delivers body →
        ∃ found, read body = some found ∧
          ∀ entries ∈ found, ∃ handled ∈ finish entries,
            ∀ captured ∈ handled.block, ∀ reached,
              later handled.screen reached →
                ∃ next, loader.mainBlock captured reached = some next := by
  rw [Returns, frame]
  by_cases arrives : ∃ body, reply.Delivers body
  · rcases arrives with ⟨body, delivers⟩
    rw [delivers.forall_iff]
    cases found : read body with
    | none => simp [completion_of_trap delivers found]
    | some entries =>
        cases entries with
        | none => simp [completion_of_return delivers found]
        | some entries => simp [completion_of_entries delivers found]
  · have nothing := not_exists.mp arrives
    rw [completion_of_not_delivers nothing]
    refine iff_of_true ⟨_, rfl, fun captured absent => nomatch absent⟩ ?_
    intro body delivers
    exact absurd delivers (nothing body)

end Loader

end Loaders

end PocketChef
