import Mathlib.Data.List.TakeDrop

/-!
# Operations sent more than once

A sender issues operations and sends them in order.  When its connection
drops it does not know how far the receiver has come, and on the next
connection it starts again from some operation that it had sent, at or before
the first one that was lost.

The receiver's log then repeats some stretches.  Where the operations absorb
repetitions, the receiver has the state of the plain sequence whenever it has
caught up with itself, that is, whenever it has handled everything that it had
handled on an earlier connection.
-/

namespace Retransmission

universe u v

variable {State : Type u} {Op : Type v}

/-- A stretch of operations has no effect before one that repeats all of
it. -/
def Absorbing (apply : State → Op → State) : Prop :=
  ∀ (state : State) (first second : List Op), first ⊆ second →
    (first ++ second).foldl apply state = second.foldl apply state

theorem Absorbing.comap {Code : Type v} {apply : State → Op → State}
    {run : State → Code → State} (absorbing : Absorbing apply)
    (decode : Code → Op)
    (runs : ∀ state code, run state code = apply state (decode code)) :
    Absorbing run := by
  have translated (state : State) (codes : List Code) :
      codes.foldl run state = (codes.map decode).foldl apply state := by
    rw [List.foldl_map]
    exact congrFun (congrFun (congrArg List.foldl
      (funext fun state => funext fun code => runs state code)) state) codes
  intro state first second repeated
  rw [translated, translated, List.map_append]
  exact absorbing state _ _ (List.map_subset decode repeated)

/-- The operations with the numbers `start, …, stop - 1`. -/
def stretch (issued : List Op) (start stop : Nat) : List Op :=
  (issued.take stop).drop start

theorem stretch_zero (issued : List Op) (stop : Nat) :
    stretch issued 0 stop = issued.take stop :=
  rfl

theorem stretch_self (issued : List Op) (start : Nat) :
    stretch issued start start = [] :=
  List.drop_eq_nil_of_le (List.length_take_le start issued)

theorem stretch_append {issued : List Op} {start middle stop : Nat}
    (lower : start ≤ middle) (upper : middle ≤ stop) :
    stretch issued start middle ++ stretch issued middle stop =
      stretch issued start stop := by
  have left : stretch issued start middle =
      ((issued.take stop).drop start).take (middle - start) := by
    rw [List.take_drop, stretch, List.take_take,
      Nat.add_sub_cancel' lower, Nat.min_eq_left upper]
  have right : stretch issued middle stop =
      ((issued.take stop).drop start).drop (middle - start) := by
    rw [List.drop_drop, Nat.add_sub_cancel' lower]
    rfl
  rw [left, right, List.take_append_drop]
  rfl

theorem stretch_succ {issued : List Op} {start stop : Nat} {op : Op}
    (lower : start ≤ stop) (next : issued[stop]? = some op) :
    stretch issued start (stop + 1) = stretch issued start stop ++ [op] := by
  have inRange := (List.getElem?_eq_some_iff.mp next).1
  have size := List.length_take_of_le (Nat.le_of_lt inRange)
  have last : stretch issued stop (stop + 1) = [op] := by
    rw [stretch, List.take_add_one, next]
    exact List.drop_left' size
  rw [← stretch_append lower (Nat.le_succ stop), last]

theorem stretch_append_issued {issued : List Op} {start stop : Nat}
    (upper : stop ≤ issued.length) (op : Op) :
    stretch (issued ++ [op]) start stop = stretch issued start stop := by
  rw [stretch, List.take_append_of_le_length upper]
  rfl

/-- The receiver has handled `log`.  Its connection began with the operation
`start`, and `next` is the one it expects; `high` is the first operation that
no connection has brought it. -/
structure Sent (apply : State → Op → State) (issued log : List Op)
    (start next high : Nat) : Prop where
  start_le : start ≤ next
  next_le : next ≤ high
  high_le : high ≤ issued.length
  logged : ∃ earlier, log = earlier ++ stretch issued start next ∧
    ∀ state,
      (earlier ++ stretch issued start high).foldl apply state =
        (issued.take high).foldl apply state

namespace Sent

variable {apply : State → Op → State} {issued log : List Op}
variable {start next high : Nat}

theorem nothing (apply : State → Op → State) :
    Sent apply [] [] 0 0 0 where
  start_le := Nat.le_refl 0
  next_le := Nat.le_refl 0
  high_le := Nat.le_refl 0
  logged := ⟨[], rfl, fun _ => rfl⟩

theorem issue (sent : Sent apply issued log start next high) (op : Op) :
    Sent apply (issued ++ [op]) log start next high where
  start_le := sent.start_le
  next_le := sent.next_le
  high_le := by
    rw [List.length_append]
    exact Nat.le_add_right_of_le sent.high_le
  logged := by
    rcases sent.logged with ⟨earlier, split, canonical⟩
    have nextInRange := Nat.le_trans sent.next_le sent.high_le
    refine ⟨earlier, ?_, ?_⟩
    · rw [stretch_append_issued nextInRange]
      exact split
    · intro state
      rw [stretch_append_issued sent.high_le, canonical,
        List.take_append_of_le_length sent.high_le]

/-- The receiver handles the operation that it expects. -/
theorem handle {op : Op} (sent : Sent apply issued log start next high)
    (expected : issued[next]? = some op) :
    Sent apply issued (log ++ [op]) start (next + 1)
      (max high (next + 1)) := by
  have inRange := (List.getElem?_eq_some_iff.mp expected).1
  rcases sent.logged with ⟨earlier, split, canonical⟩
  refine ⟨Nat.le_succ_of_le sent.start_le, Nat.le_max_right _ _,
    Nat.max_le.mpr ⟨sent.high_le, inRange⟩, earlier, ?_, ?_⟩
  · rw [stretch_succ sent.start_le expected, split, List.append_assoc]
  · intro state
    rcases Nat.lt_or_eq_of_le sent.next_le with behind | caughtUp
    · rw [Nat.max_eq_left behind]
      exact canonical state
    · subst caughtUp
      rw [Nat.max_eq_right (Nat.le_succ next),
        stretch_succ sent.start_le expected, ← List.append_assoc,
        List.foldl_append, canonical, ← List.foldl_append,
        ← stretch_zero issued next, ← stretch_zero issued (next + 1),
        stretch_succ (Nat.zero_le next) expected]

/-- A new connection starts with an operation that the receiver may have
handled. -/
theorem restart {again : Nat} (absorbing : Absorbing apply)
    (sent : Sent apply issued log start next high)
    (lower : start ≤ again) (upper : again ≤ next) :
    Sent apply issued log again again high := by
  rcases sent.logged with ⟨earlier, split, canonical⟩
  refine ⟨Nat.le_refl again, Nat.le_trans upper sent.next_le, sent.high_le,
    log, ?_, ?_⟩
  · rw [stretch_self, List.append_nil]
  · intro state
    have lost : stretch issued again next ⊆ stretch issued again high := by
      rw [← stretch_append upper sent.next_le]
      exact List.subset_append_left _ _
    calc
      (log ++ stretch issued again high).foldl apply state =
          (stretch issued again next ++ stretch issued again high).foldl apply
            ((earlier ++ stretch issued start again).foldl apply state) := by
        rw [split, ← stretch_append lower upper]
        simp only [List.foldl_append]
      _ = (stretch issued again high).foldl apply
            ((earlier ++ stretch issued start again).foldl apply state) :=
        absorbing _ _ _ lost
      _ = (earlier ++ stretch issued start high).foldl apply state := by
        rw [← stretch_append lower (Nat.le_trans upper sent.next_le)]
        simp only [List.foldl_append]
      _ = (issued.take high).foldl apply state := canonical state

/-- A receiver that has caught up has the state of the plain sequence. -/
theorem state_of_caughtUp (sent : Sent apply issued log start next high)
    (caughtUp : next = high) (state : State) :
    log.foldl apply state = (issued.take next).foldl apply state := by
  rcases sent.logged with ⟨earlier, split, canonical⟩
  subst caughtUp
  rw [split]
  exact canonical state

end Sent

end Retransmission
