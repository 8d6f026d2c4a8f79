import Mathlib.Data.List.Sort

/-!
# Queues of numbered items

Items get increasing numbers when they enter a queue and are found and
removed by number.  An increasing queue has one item for each of its numbers,
and its numbers are already sorted.

`numbered first items` numbers the items in order.  A loop over the numbers of
such a queue is followed with an invariant on the numbers that are left.
-/

namespace NumberedQueue

universe u v

variable {Item : Type u}

def Increasing (queue : List (Nat × Item)) : Prop :=
  queue.Pairwise fun first second => first.1 < second.1

def numbered : Nat → List Item → List (Nat × Item)
  | _, [] => []
  | first, item :: rest => (first, item) :: numbered (first + 1) rest

/-! ## Increasing queues -/

theorem Increasing.append {queue : List (Nat × Item)} {number : Nat}
    (increasing : Increasing queue)
    (below : ∀ entry ∈ queue, entry.1 < number) (item : Item) :
    Increasing (queue ++ [(number, item)]) := by
  refine List.pairwise_append.mpr
    ⟨increasing, List.pairwise_singleton _ _, ?_⟩
  intro entry member last isLast
  rw [List.mem_singleton.mp isLast]
  exact below entry member

theorem Increasing.filter {queue : List (Nat × Item)}
    (increasing : Increasing queue) (keeps : Nat × Item → Bool) :
    Increasing (queue.filter keeps) :=
  List.Pairwise.filter keeps increasing

theorem lookup_of_mem {queue : List (Nat × Item)}
    (increasing : Increasing queue) {entry : Nat × Item}
    (member : entry ∈ queue) : queue.lookup entry.1 = some entry.2 := by
  induction queue with
  | nil =>
      cases member
  | cons head rest inductionHypothesis =>
      rcases List.pairwise_cons.mp increasing with ⟨ahead, tail⟩
      rcases List.mem_cons.mp member with rfl | later
      · exact List.lookup_cons_self
      · have different : (entry.1 == head.1) = false := by
          rw [beq_eq_false_iff_ne]
          exact Nat.ne_of_gt (ahead entry later)
        rw [List.lookup_cons, different]
        exact inductionHypothesis tail later

theorem mem_of_lookup {queue : List (Nat × Item)} {number : Nat}
    {item : Item} (found : queue.lookup number = some item) :
    (number, item) ∈ queue := by
  induction queue with
  | nil =>
      cases found
  | cons head rest inductionHypothesis =>
      rw [List.lookup_cons] at found
      cases same : number == head.1 with
      | true =>
          rw [same] at found
          rw [eq_of_beq same, ← Option.some.inj found]
          exact List.mem_cons_self
      | false =>
          rw [same] at found
          exact List.mem_cons_of_mem head (inductionHypothesis found)

theorem lookup_isSome_iff {queue : List (Nat × Item)} {number : Nat} :
    (queue.lookup number).isSome ↔ number ∈ queue.map Prod.fst := by
  induction queue with
  | nil =>
      simp
  | cons head rest inductionHypothesis =>
      rw [List.lookup_cons, List.map_cons, List.mem_cons]
      cases same : number == head.1 with
      | true =>
          simp [eq_of_beq same]
      | false =>
          have different := beq_eq_false_iff_ne.mp same
          simp only [different, false_or]
          exact inductionHypothesis

/-- Removing the number of the head leaves the rest. -/
theorem filter_head {number : Nat} {item : Item}
    {rest : List (Nat × Item)}
    (increasing : Increasing ((number, item) :: rest)) :
    (((number, item) :: rest).filter fun entry => entry.1 ≠ number) =
      rest := by
  rw [List.filter_cons_of_neg (by simp), List.filter_eq_self]
  intro entry member
  have above := (List.pairwise_cons.mp increasing).1 entry member
  exact decide_eq_true (Nat.ne_of_gt above)

theorem nodup_numbers {queue : List (Nat × Item)}
    (increasing : Increasing queue) : (queue.map Prod.fst).Nodup := by
  rw [List.Nodup, List.pairwise_map]
  exact increasing.imp fun below => Nat.ne_of_lt below

theorem sorted_numbers {queue : List (Nat × Item)}
    (increasing : Increasing queue) :
    ((queue.map Prod.fst).mergeSort fun a b => decide (a ≤ b)) =
      queue.map Prod.fst := by
  apply List.mergeSort_of_pairwise
  rw [List.pairwise_map]
  exact increasing.imp fun below => decide_eq_true (Nat.le_of_lt below)

/-- The number of an item that is removed moves to the front. -/
theorem numbers_perm_filter {queue : List (Nat × Item)}
    (increasing : Increasing queue) {number : Nat}
    (member : number ∈ queue.map Prod.fst) :
    (queue.map Prod.fst).Perm
      (number ::
        (queue.filter fun entry => entry.1 ≠ number).map Prod.fst) := by
  have erased : (queue.filter fun entry => entry.1 ≠ number).map Prod.fst =
      (queue.map Prod.fst).erase number := by
    rw [(nodup_numbers increasing).erase_eq_filter, List.filter_map]
    refine congrArg (List.map Prod.fst) (List.filter_congr ?_)
    intro entry _
    rw [decide_not, ← beq_eq_decide]
    rfl
  rw [erased]
  exact List.perm_cons_erase member

/-! ## Consecutive numbers -/

theorem numbered_append (first : Nat) (items : List Item) (item : Item) :
    numbered first (items ++ [item]) =
      numbered first items ++ [(first + items.length, item)] := by
  induction items generalizing first with
  | nil =>
      rfl
  | cons head rest inductionHypothesis =>
      rw [List.cons_append, numbered, inductionHypothesis, numbered,
        List.cons_append, List.length_cons, Nat.add_right_comm,
        Nat.add_assoc]

theorem map_fst_numbered (first : Nat) (items : List Item) :
    (numbered first items).map Prod.fst =
      List.range' first items.length := by
  induction items generalizing first with
  | nil =>
      rfl
  | cons head rest inductionHypothesis =>
      rw [numbered, List.map_cons, inductionHypothesis, List.length_cons,
        List.range'_succ]

theorem map_snd_numbered (first : Nat) (items : List Item) :
    (numbered first items).map Prod.snd = items := by
  induction items generalizing first with
  | nil => rfl
  | cons head rest inductionHypothesis =>
      rw [numbered, List.map_cons, inductionHypothesis]

theorem increasing_numbered (first : Nat) (items : List Item) :
    Increasing (numbered first items) := by
  have numbers : ((numbered first items).map Prod.fst).Pairwise
      fun a b => a < b := by
    rw [map_fst_numbered]
    exact List.pairwise_lt_range'
  exact List.pairwise_map.mp numbers

theorem lookup_numbered (first : Nat) (items : List Item) (offset : Nat) :
    (numbered first items).lookup (first + offset) = items[offset]? := by
  induction items generalizing first offset with
  | nil =>
      rfl
  | cons head rest inductionHypothesis =>
      cases offset with
      | zero =>
          exact List.lookup_cons_self
      | succ offset =>
          have different : (first + (offset + 1) == first) = false := by
            rw [beq_eq_false_iff_ne]
            omega
          rw [numbered, List.lookup_cons, different, List.getElem?_cons_succ,
            ← inductionHypothesis (first + 1) offset, Nat.add_right_comm,
            Nat.add_assoc]

theorem length_numbered (first : Nat) (items : List Item) :
    (numbered first items).length = items.length := by
  rw [← List.length_map Prod.snd, map_snd_numbered]

theorem drop_numbered (first count : Nat) (items : List Item) :
    (numbered first items).drop count =
      numbered (first + count) (items.drop count) := by
  induction count generalizing first items with
  | zero => rfl
  | succ count inductionHypothesis =>
      cases items with
      | nil => rfl
      | cons item rest =>
          rw [numbered, List.drop_succ_cons, List.drop_succ_cons,
            inductionHypothesis, Nat.add_assoc, Nat.add_comm 1]

/-! ## Loops over the numbers -/

/-- What holds of all the numbers, and passes from the numbers that are left
to those after the next one, holds of no number in the end. -/
theorem foldlM_consumes {State : Type v} {body : State → Nat → Option State}
    {holds : List Nat → State → Prop}
    (each : ∀ number rest state, holds (number :: rest) state →
      ∃ next, body state number = some next ∧ holds rest next)
    {numbers : List Nat} {state : State} (initially : holds numbers state) :
    ∃ final, numbers.foldlM body state = some final ∧ holds [] final := by
  induction numbers generalizing state with
  | nil =>
      exact ⟨state, rfl, initially⟩
  | cons number rest inductionHypothesis =>
      rcases each number rest state initially with ⟨next, moved, holdsNext⟩
      rcases inductionHypothesis holdsNext with ⟨final, ran, holdsFinal⟩
      refine ⟨final, ?_, holdsFinal⟩
      rw [List.foldlM_cons, moved]
      exact ran

/-- What each step of a loop keeps, the loop keeps. -/
theorem foldlM_keeps {State : Type v} {body : State → Nat → Option State}
    {keeps : State → Prop}
    (each : ∀ number state next, body state number = some next →
      keeps state → keeps next)
    {numbers : List Nat} {state final : State}
    (ran : numbers.foldlM body state = some final)
    (initially : keeps state) : keeps final := by
  induction numbers generalizing state with
  | nil =>
      rw [← Option.some.inj ran]
      exact initially
  | cons number rest inductionHypothesis =>
      rw [List.foldlM_cons] at ran
      rcases Option.bind_eq_some_iff.mp ran with ⟨next, moved, remaining⟩
      exact inductionHypothesis remaining
        (each number state next moved initially)

end NumberedQueue
