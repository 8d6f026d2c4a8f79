import Mathlib.Data.List.Perm.Basic
import PocketChef.Library.SwiftArray

/-!
# Requests whose answers come in any order

Requests are issued one after the other and are answered one at a time, each
of them once and in any order.  The requests answered and those still waiting
together are those issued; when none is waiting, the answers are a permutation
of the requests.
-/

universe u

structure InFlight (Request : Type u) where
  issued : List Request
  waiting : List Request
  answered : List Request
  balanced : (answered ++ waiting).Perm issued

namespace InFlight

variable {Request : Type u}

def first (request : Request) : InFlight Request where
  issued := [request]
  waiting := [request]
  answered := []
  balanced := List.Perm.refl [request]

def issue (flight : InFlight Request) (request : Request) :
    InFlight Request where
  issued := flight.issued ++ [request]
  waiting := flight.waiting ++ [request]
  answered := flight.answered
  balanced := by
    rw [← List.append_assoc]
    exact flight.balanced.append_right [request]

/-- The waiting request at a position is answered. -/
def answer (flight : InFlight Request) (position : Nat) :
    Option (Request × InFlight Request) :=
  if inRange : position < flight.waiting.length then
    some
      (flight.waiting[position],
        { issued := flight.issued
          waiting := flight.waiting.eraseIdx position
          answered := flight.answered ++ [flight.waiting[position]]
          balanced := by
            have located := List.getElem?_eq_getElem inRange
            have split := SwiftArray.eraseIdx_perm located
            rw [List.append_assoc]
            exact (split.symm.append_left flight.answered).trans
              flight.balanced })
  else
    none

theorem exists_answer (flight : InFlight Request) {position : Nat}
    (inRange : position < flight.waiting.length) :
    ∃ request next, flight.answer position = some (request, next) ∧
      next.issued = flight.issued ∧
      next.answered = flight.answered ++ [request] :=
  ⟨_, _, dif_pos inRange, rfl, rfl⟩

theorem issued_answer {flight next : InFlight Request} {position : Nat}
    {request : Request}
    (answered : flight.answer position = some (request, next)) :
    next.issued = flight.issued := by
  unfold answer at answered
  split at answered
  · cases answered
    rfl
  · cases answered

theorem answered_perm (flight : InFlight Request)
    (settled : flight.waiting = []) :
    flight.answered.Perm flight.issued := by
  have balanced := flight.balanced
  rwa [settled, List.append_nil] at balanced

/-- When everything is answered, what one issued request brings is all that
the answers bring exactly when no other request was issued, if every request
brings something. -/
theorem flatMap_answered_length_eq_iff {Item : Type u}
    (flight : InFlight Request) (settled : flight.waiting = [])
    (items : Request → List Item) (brings : ∀ request, items request ≠ [])
    {request : Request} {before : List Request}
    (last : flight.issued = before ++ [request]) :
    (flight.answered.flatMap items).length = (items request).length ↔
      before = [] := by
  have all := (flight.answered_perm settled).flatMap_right items
  rw [all.length_eq, last, List.flatMap_append, List.length_append,
    List.flatMap_singleton]
  cases before with
  | nil => simp
  | cons head tail =>
      have size := List.length_pos_iff.mpr (brings head)
      have longer :
          (items head).length ≤ ((head :: tail).flatMap items).length := by
        rw [List.flatMap_cons, List.length_append]
        exact Nat.le_add_right _ _
      refine iff_of_false ?_ (List.cons_ne_nil head tail)
      omega

end InFlight
