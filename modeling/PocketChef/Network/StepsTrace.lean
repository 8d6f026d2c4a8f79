import PocketChef.Network.InstructionTableViewController

/-!
# What a reply without steps leaves behind

The block of `loadInstructions` inserts an `Instruction` object and sends its
steps whatever the handler has read.  The handler skips the block where it
returns, but not where the data cannot be read or every entry is malformed.
-/

namespace PocketChef
namespace InstructionTableViewController

open Issuing

/-- An object with a string under `step`. -/
def WellFormedStep (item : AnyJson) : Prop :=
  ∃ step, item = .object step ∧
    ∃ verbal, AnyJson.field Json.asString step "step" = some verbal

/-- The steps that a body yields: those of the well-formed entries in the
steps array of the first element. -/
def stepsOf : Body → List String
  | .ok (.array (.object first :: _)) =>
      match AnyJson.field Json.asArray first "steps" with
      | some items => items.filterMap decodeStep
      | none => []
  | _ => []

/-- The steps that a reply yields. -/
def stepsIn (reply : Reply) : List String :=
  match reply with
  | { data := some body, statusCode := some 200, error := none } =>
      stepsOf body
  | _ => []

/-- The body yields no step, and the handler neither returns nor traps on it:
data that is not JSON, a top-level value that is no array, or a steps array
without a well-formed entry. -/
def Unread : Body → Prop
  | .error _ => True
  | .ok (.array []) => False
  | .ok (.array (first :: _)) =>
      ∃ instruction, first = .object instruction ∧
        ∃ items ∈ AnyJson.field Json.asArray instruction "steps",
          ∀ item ∈ items, ¬ WellFormedStep item
  | .ok _ => True

/-- A freshly opened screen. -/
def opened (id : Int) (recipeName : String) (session : Option WCSession) :
    InstructionTableViewController where
  id := id
  recipeName := recipeName
  session := session

/-- Without steps nothing is inserted or sent.  With steps exactly one object
is inserted, with these steps and the recipe's title, and the message that the
session lets through carries the same steps. -/
def LeavesTraceOf (self : InstructionTableViewController)
    (issued : List Trace) : List String → Prop
  | [] => issued = []
  | step :: steps =>
      ∃ object, object.steps = step :: steps ∧
        object.title = self.recipeName ∧
          issued = .insert object :: permitted self.session (step :: steps)

section Replies

variable {reply : Reply} {body : Body} {items : List AnyJson}

theorem decodeStep_eq_none_iff (item : AnyJson) :
    decodeStep item = none ↔ ¬ WellFormedStep item := by
  unfold decodeStep WellFormedStep
  simp only [← Json.asObject_eq_some_iff]
  cases item.asObject with
  | none => simp
  | some step =>
      rw [← not_iff_not]
      simp [Option.ne_none_iff_exists']

theorem stepsIn_of_delivers (delivers : reply.Delivers body) :
    stepsIn reply = stepsOf body := by
  rcases reply with ⟨data, statusCode, error⟩
  rcases delivers with ⟨accepted, status, present⟩
  cases accepted
  cases status
  cases present
  rfl

theorem stepsIn_of_not_delivers (nothing : ∀ body, ¬ reply.Delivers body) :
    stepsIn reply = [] := by
  unfold stepsIn
  split
  · exact absurd ⟨rfl, rfl, rfl⟩ (nothing _)
  · rfl

/-- The steps are those of the entries that the handler reads. -/
theorem stepsOf_eq (body : Body) :
    stepsOf body =
      ((readSteps body).join.getD []).filterMap decodeStep := by
  cases body with
  | error message => rfl
  | ok json =>
      cases json with
      | array elements =>
          cases elements with
          | nil => rfl
          | cons first rest =>
              cases first with
              | object members =>
                  have read :
                      readSteps (.ok (.array (.object members :: rest))) =
                        some (AnyJson.field Json.asArray members "steps") :=
                    rfl
                  rw [read, stepsOf]
                  cases AnyJson.field Json.asArray members "steps" <;> rfl
              | null => rfl
              | number value => rfl
              | string text => rfl
              | array items => rfl
      | null => rfl
      | number value => rfl
      | string text => rfl
      | object members => rfl

theorem filterMap_decodeStep_eq_nil_iff (items : List AnyJson) :
    items.filterMap decodeStep = [] ↔
      ∀ item ∈ items, ¬ WellFormedStep item := by
  rw [List.filterMap_eq_nil_iff]
  refine forall_congr' fun item => forall_congr' fun _ => ?_
  exact decodeStep_eq_none_iff item

theorem unread_iff (body : Body) :
    Unread body ↔
      ∃ items, readSteps body = some (some items) ∧
        items.filterMap decodeStep = [] := by
  have nothing :
      ∃ items : List AnyJson, some (some []) = some (some items) ∧
        items.filterMap decodeStep = [] :=
    ⟨[], rfl, rfl⟩
  cases body with
  | error message => exact iff_of_true trivial nothing
  | ok json =>
      cases json with
      | array elements =>
          cases elements with
          | nil => exact iff_of_false not_false (fun found => nomatch found)
          | cons first rest =>
              have read :
                  readSteps (.ok (.array (first :: rest))) =
                    some (first.asObject.bind fun instruction =>
                      AnyJson.field Json.asArray instruction "steps") :=
                rfl
              simp only [read, Unread, ← Json.asObject_eq_some_iff,
                filterMap_decodeStep_eq_nil_iff, Option.mem_def,
                Option.some.injEq, Option.bind_eq_some_iff]
              constructor
              · intro unread
                rcases unread with ⟨members, isObject, items, found, bare⟩
                exact ⟨items, ⟨members, isObject, found⟩, bare⟩
              · intro found
                rcases found with ⟨items, ⟨members, isObject, found⟩, bare⟩
                exact ⟨members, isObject, items, found, bare⟩
      | null => exact iff_of_true trivial nothing
      | number value => exact iff_of_true trivial nothing
      | string text => exact iff_of_true trivial nothing
      | object members => exact iff_of_true trivial nothing

end Replies

section Loading

variable {reply : Reply} {body : Body} {items : List AnyJson}
variable (self : InstructionTableViewController)

theorem loadInstructions_of_not_delivers
    (nothing : ∀ body, ¬ reply.Delivers body) :
    self.loadInstructions reply = ⟨[], some self⟩ := by
  have handled :
      instructionsLoader.completionHandler self reply = some ⟨self, none⟩ :=
    completion_of_not_delivers nothing
  rw [loadInstructions, handled, Effect.check_some_bind]
  rfl

theorem loadInstructions_of_trap (delivers : reply.Delivers body)
    (trapped : readSteps body = none) :
    self.loadInstructions reply = ⟨[], none⟩ := by
  have handled :
      instructionsLoader.completionHandler self reply = none :=
    completion_of_trap delivers trapped
  rw [loadInstructions, handled, Effect.check_none_bind]

theorem loadInstructions_of_return (delivers : reply.Delivers body)
    (returned : readSteps body = some none) :
    self.loadInstructions reply = ⟨[], some self⟩ := by
  have handled :
      instructionsLoader.completionHandler self reply = some ⟨self, none⟩ :=
    completion_of_return delivers returned
  rw [loadInstructions, handled, Effect.check_some_bind]
  rfl

theorem loadInstructions_of_read (delivers : reply.Delivers body)
    (read : readSteps body = some (some items)) :
    self.loadInstructions reply =
      (self.appendSteps items).keepInstructions := by
  have handled :
      instructionsLoader.completionHandler self reply =
        some ⟨self.appendSteps items, some ⟨⟩⟩ :=
    completion_of_entries delivers read
  rw [loadInstructions, handled, Effect.check_some_bind]

end Loading

/-- A reply leaves the trace of its steps exactly when the handler does not go
on with a body that it could not read a step from; and it traps exactly on an
empty array, before it has stored or sent anything. -/
theorem leavesTraceOf_steps_iff (id : Int) (recipeName : String)
    (session : Option WCSession) (reply : Reply) :
    ((opened id recipeName session).LeavesTraceOf
          ((opened id recipeName session).loadInstructions reply).issued
          (stepsIn reply) ↔
        ∀ body, reply.Delivers body → ¬ Unread body) ∧
      (((opened id recipeName session).loadInstructions reply).result = none ↔
        reply.Delivers (.ok (.array []))) := by
  by_cases arrives : ∃ body, reply.Delivers body
  · rcases arrives with ⟨body, delivers⟩
    rw [delivers.forall_iff, unread_iff, stepsIn_of_delivers delivers,
      stepsOf_eq]
    have empty_iff :
        reply.Delivers (.ok (.array [])) ↔ readSteps body = none := by
      rw [readSteps_eq_none_iff]
      exact ⟨fun also => delivers.unique also, fun same => same ▸ delivers⟩
    rw [empty_iff]
    cases read : readSteps body with
    | none =>
        rw [loadInstructions_of_trap _ delivers read]
        simp [LeavesTraceOf]
    | some found =>
        cases found with
        | none =>
            rw [loadInstructions_of_return _ delivers read]
            simp [LeavesTraceOf]
        | some items =>
            rw [loadInstructions_of_read _ delivers read, keepInstructions_eq,
              appendSteps_eq]
            simp only [Option.some.injEq, exists_eq_left', Option.join_some,
              Option.getD_some, reduceCtorEq, iff_self, and_true]
            generalize items.filterMap decodeStep = steps
            cases steps with
            | nil => simp [LeavesTraceOf]
            | cons step others =>
                refine iff_of_true ⟨_, rfl, rfl, rfl⟩ (List.cons_ne_nil _ _)
  · have nothing := not_exists.mp arrives
    rw [loadInstructions_of_not_delivers _ nothing,
      stepsIn_of_not_delivers nothing]
    refine ⟨iff_of_true rfl ?_, ?_⟩
    · intro body delivers
      exact absurd delivers (nothing body)
    · simp [nothing]

/-- A reply with status 200 and the given body. -/
def accepted (body : Body) : Reply where
  data := some body
  statusCode := some 200

/-- The screen of a recipe on a phone without a watch. -/
def toast : InstructionTableViewController :=
  opened 7 "Toast" none

theorem not_leavesTraceOf_steps :
    ¬ toast.LeavesTraceOf
        (toast.loadInstructions (accepted (.error "not JSON"))).issued
        (stepsIn (accepted (.error "not JSON"))) ∧
      ¬ toast.LeavesTraceOf
        (toast.loadInstructions (accepted (.ok (.object [])))).issued
        (stepsIn (accepted (.ok (.object [])))) ∧
      ¬ toast.LeavesTraceOf
        (toast.loadInstructions
          (accepted (.ok (.array [.object [("steps", .array [])]])))).issued
        (stepsIn
          (accepted (.ok (.array [.object [("steps", .array [])]])))) := by
  refine ⟨?_, ?_, ?_⟩ <;>
    exact fun trace => List.cons_ne_nil _ _ trace

end InstructionTableViewController
end PocketChef
