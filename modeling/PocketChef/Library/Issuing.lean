import Mathlib.Tactic.TypeStar
import Mathlib.Data.List.Basic

/-!
# Handlers that issue commands and may trap

An `Effect` records the commands that a handler sends to another component,
in order, and its result.  A handler that traps keeps the commands it issued
before the trap.
-/

namespace Issuing

universe u v

structure Effect (Command : Type u) (α : Type v) where
  issued : List Command
  result : Option α
  deriving DecidableEq, Repr

namespace Effect

variable {Command : Type u} {α β : Type v}

instance : Monad (Effect Command) where
  pure value := ⟨[], some value⟩
  bind action continuation :=
    match action.result with
    | none => ⟨action.issued, none⟩
    | some value =>
        ⟨action.issued ++ (continuation value).issued,
          (continuation value).result⟩

def issue (command : Command) : Effect Command PUnit :=
  ⟨[command], some ⟨⟩⟩

/-- A partial computation that issues nothing; `none` is a trap. -/
def check (partialResult : Option α) : Effect Command α :=
  ⟨[], partialResult⟩

theorem pure_eq (value : α) :
    (pure value : Effect Command α) = ⟨[], some value⟩ :=
  rfl

theorem bind_of_some {action : Effect Command α} {value : α}
    (continuation : α → Effect Command β)
    (finished : action.result = some value) :
    action >>= continuation =
      ⟨action.issued ++ (continuation value).issued,
        (continuation value).result⟩ := by
  change (match action.result with
    | none => _
    | some value => _) = _
  rw [finished]

theorem bind_of_none {action : Effect Command α}
    (continuation : α → Effect Command β)
    (trapped : action.result = none) :
    action >>= continuation = ⟨action.issued, none⟩ := by
  change (match action.result with
    | none => _
    | some value => _) = _
  rw [trapped]

theorem result_bind (action : Effect Command α)
    (continuation : α → Effect Command β) :
    (action >>= continuation).result =
      action.result.bind fun value => (continuation value).result := by
  cases finished : action.result with
  | none => rw [bind_of_none _ finished, Option.bind_none]
  | some value => rw [bind_of_some _ finished, Option.bind_some]

/-- What follows without a command adds none. -/
theorem issued_bind_pure (action : Effect Command α) (convert : α → β) :
    (action >>= fun value => pure (convert value)).issued =
      action.issued := by
  cases finished : action.result with
  | none => rw [bind_of_none _ finished]
  | some value =>
      rw [bind_of_some _ finished]
      exact List.append_nil action.issued

theorem id_map_eq (action : Effect Command α) :
    id <$> action = action := by
  rcases action with ⟨issued, result⟩
  cases result with
  | none => rfl
  | some value => exact congrArg (Effect.mk · _) (List.append_nil issued)

theorem bind_assoc_eq {γ : Type v} (action : Effect Command α)
    (first : α → Effect Command β) (second : β → Effect Command γ) :
    action >>= first >>= second =
      action >>= fun value => first value >>= second := by
  rcases action with ⟨issued, result⟩
  cases result with
  | none => rfl
  | some value =>
      rcases middle : first value with ⟨issuedFirst, resultFirst⟩
      cases resultFirst with
      | none => simp [bind, middle]
      | some other => simp [bind, middle]

instance : LawfulMonad (Effect Command) :=
  LawfulMonad.mk' _ id_map_eq (fun _ _ => rfl) bind_assoc_eq

theorem check_some_bind (value : α)
    (continuation : α → Effect Command β) :
    (check (some value) : Effect Command α) >>= continuation =
      continuation value :=
  bind_of_some continuation rfl

theorem check_none_bind (continuation : α → Effect Command β) :
    (check none : Effect Command α) >>= continuation = ⟨[], none⟩ :=
  bind_of_none continuation rfl

theorem issue_bind (command : Command)
    (continuation : PUnit → Effect Command β) :
    issue command >>= continuation =
      ⟨command :: (continuation ⟨⟩).issued, (continuation ⟨⟩).result⟩ :=
  bind_of_some continuation rfl

theorem forM_congr {Element : Type u} {elements : List Element}
    {first second : Element → Effect Command PUnit}
    (each : ∀ element ∈ elements, first element = second element) :
    forM elements first = forM elements second := by
  induction elements with
  | nil =>
      rfl
  | cons head tail inductionHypothesis =>
      rw [List.forM_cons, List.forM_cons, each head List.mem_cons_self,
        inductionHypothesis fun element member =>
          each element (List.mem_cons_of_mem head member)]

/-- A loop whose body issues one command per element issues all of them in
order and does not trap. -/
theorem forM_issue {Element : Type u} {elements : List Element}
    {body : Element → Effect Command PUnit} {command : Element → Command}
    (each : ∀ element ∈ elements, body element = issue (command element)) :
    forM elements body = ⟨elements.map command, some ⟨⟩⟩ := by
  induction elements with
  | nil =>
      rfl
  | cons head tail inductionHypothesis =>
      have rest := inductionHypothesis fun element member =>
        each element (List.mem_cons_of_mem head member)
      rw [List.forM_cons, each head List.mem_cons_self, issue_bind, rest,
        List.map_cons]

end Effect

end Issuing
