import PocketChef.Firebase.Delivery

/-!
# What a run delivers

The results of this part of the development, for every sequence of writes and
reads of the app, steps of the service, arriving answers, timeouts and
disconnects, and for every service that is as assumed.
-/

namespace PocketChef
namespace Firebase

open NumberedQueue

namespace Exchange

variable {State : Type} {service : Service State}
variable {exchange later : Exchange State}

/-! ## Writes and reads of a run -/

/-- Only the app makes writes and reads. -/
theorem ledger_step {event : Event}
    (stepped : exchange.step service event = some later) :
    later.issued = exchange.issued ++ event.write.toList ∧
      later.asked = exchange.asked ++
        event.read.toList.map fun path =>
          (path, exchange.issued.length) := by
  have stays (same : some exchange = some later) :
      later.issued = exchange.issued ++ [] ∧
        later.asked = exchange.asked ++ [] := by
    rw [Option.some.inj same, List.append_nil, List.append_nil]
    exact ⟨rfl, rfl⟩
  have moves {state : State} {connection : FPersistentConnection}
      {responses : List Response}
      (same : some (Exchange.mk state connection responses exchange.issued
        exchange.asked) = some later) :
      later.issued = exchange.issued ++ [] ∧
        later.asked = exchange.asked ++ [] := by
    rw [← Option.some.inj same, List.append_nil, List.append_nil]
    exact ⟨rfl, rfl⟩
  cases event with
  | putData write =>
      rcases Option.bind_eq_some_iff.mp stepped with ⟨connection, _, same⟩
      rw [← Option.some.inj same]
      exact ⟨rfl, (List.append_nil _).symm⟩
  | getData path =>
      rcases Option.bind_eq_some_iff.mp stepped with ⟨connection, _, same⟩
      rw [← Option.some.inj same]
      exact ⟨(List.append_nil _).symm, rfl⟩
  | timeout index =>
      rw [step] at stepped
      split at stepped
      · exact moves stepped
      · exact stays stepped
  | retry =>
      rw [step] at stepped
      split at stepped
      · rcases Option.bind_eq_some_iff.mp stepped with ⟨connection, _, same⟩
        exact moves same
      · exact stays stepped
  | tokenFetched token =>
      rw [step] at stepped
      split at stepped
      · exact moves stepped
      · exact stays stepped
  | onReady =>
      rw [step] at stepped
      split at stepped
      · rcases Option.bind_eq_some_iff.mp stepped with ⟨connection, _, same⟩
        exact moves same
      · exact stays stepped
  | serverHandles =>
      rw [step, serverHandles] at stepped
      split at stepped
      · exact moves stepped
      · exact stays stepped
  | onDataMessage =>
      rw [step, receive] at stepped
      split at stepped
      · exact stays stepped
      · rcases Option.bind_eq_some_iff.mp stepped with ⟨connection, _, same⟩
        exact moves same
  | onDisconnect => exact moves stepped

theorem issued_step {event : Event}
    (stepped : exchange.step service event = some later) :
    later.issued = exchange.issued ++ event.write.toList :=
  (ledger_step stepped).1

theorem asked_step {event : Event}
    (stepped : exchange.step service event = some later) :
    later.asked = exchange.asked ++
      event.read.toList.map fun path => (path, exchange.issued.length) :=
  (ledger_step stepped).2

theorem issued_run {events : List Event}
    (ran : exchange.run service events = some later) :
    later.issued = exchange.issued ++ writes events := by
  induction events generalizing exchange with
  | nil =>
      rw [← Option.some.inj ran]
      exact (List.append_nil _).symm
  | cons event rest inductionHypothesis =>
      rw [run_cons] at ran
      rcases Option.bind_eq_some_iff.mp ran with ⟨next, stepped, ranRest⟩
      rw [inductionHypothesis ranRest, issued_step stepped, writes_cons,
        List.append_assoc]

theorem length_asked_run {events : List Event}
    (ran : exchange.run service events = some later) :
    later.asked.length = exchange.asked.length + (reads events).length := by
  induction events generalizing exchange with
  | nil =>
      rw [← Option.some.inj ran]
      rfl
  | cons event rest inductionHypothesis =>
      rw [run_cons] at ran
      rcases Option.bind_eq_some_iff.mp ran with ⟨next, stepped, ranRest⟩
      rw [inductionHypothesis ranRest, asked_step stepped,
        List.length_append, List.length_map, reads_cons, List.length_append,
        Nat.add_assoc]

/-- The past of a run only grows. -/
theorem asked_prefix_run {events : List Event}
    (ran : exchange.run service events = some later) :
    exchange.asked <+: later.asked := by
  induction events generalizing exchange with
  | nil =>
      rw [← Option.some.inj ran]
  | cons event rest inductionHypothesis =>
      rw [run_cons] at ran
      rcases Option.bind_eq_some_iff.mp ran with ⟨next, stepped, ranRest⟩
      have first : exchange.asked <+: next.asked := by
        rw [asked_step stepped]
        exact List.prefix_append _ _
      exact first.trans (inductionHypothesis ranRest)

/-- The read made after `before` has the number of the reads in `before`. -/
theorem asked_at {state : State} {before after : List Event} {path : Path}
    (ran : (start state).run service (before ++ .getData path :: after) =
      some later) :
    later.asked[(reads before).length]? =
      some (path, (writes before).length) := by
  rw [run_append] at ran
  rcases Option.bind_eq_some_iff.mp ran with ⟨middle, first, second⟩
  rw [run_cons] at second
  rcases Option.bind_eq_some_iff.mp second with ⟨next, stepped, rest⟩
  have size : middle.asked.length = (reads before).length := by
    rw [length_asked_run first]
    exact Nat.zero_add _
  have made : middle.issued = writes before := issued_run first
  have there : next.asked[(reads before).length]? =
      some (path, (writes before).length) := by
    rw [asked_step stepped, ← size, ← made]
    exact List.getElem?_concat_length
  rcases asked_prefix_run rest with ⟨more, appended⟩
  have inRange := (List.getElem?_eq_some_iff.mp there).1
  rw [← appended, List.getElem?_append_left inRange]
  exact there

/-! ## Writes -/

variable {terms : Terms State} {accepts : Write → Bool}

theorem Invariant.acknowledged (invariant : exchange.Invariant terms) :
    ∃ acknowledged, acknowledged ≤ exchange.issued.length ∧
      exchange.connection.acked =
        numbered 0 ((exchange.issued.take acknowledged).map terms.accepts) ∧
      exchange.connection.outstandingPuts =
        numbered acknowledged (exchange.issued.drop acknowledged) ∧
      (exchange.connection.outstandingPuts = [] →
        acknowledged = exchange.issued.length ∧
        terms.service.contents exchange.state =
          Write.applyAll terms.stored
            (exchange.issued.filter terms.accepts)) := by
  rcases invariant with
    ⟨handled, start, acknowledged, next, high, consistent⟩
  have upper : acknowledged ≤ exchange.issued.length :=
    consistent.recorded.acknowledged_le
  have puts : exchange.connection.outstandingPuts =
      numbered acknowledged (exchange.issued.drop acknowledged) :=
    consistent.recorded.puts
  refine ⟨acknowledged, upper, consistent.recorded.acked, puts, ?_⟩
  intro empty
  have all : acknowledged = exchange.issued.length := by
    rw [empty] at puts
    have size := congrArg (fun queue => (queue.map Prod.fst).length) puts
    simp only [map_fst_numbered, List.length_range', List.length_drop,
      List.map_nil, List.length_nil] at size
    omega
  have last := Nat.le_trans consistent.sent.next_le consistent.sent.high_le
  have lower := consistent.acknowledged_le
  have reached : next = exchange.issued.length := by omega
  have caughtUp : next = high :=
    Nat.le_antisymm consistent.sent.next_le
      (reached ▸ consistent.sent.high_le)
  have state := consistent.sent.state_of_caughtUp caughtUp terms.stored
  rw [reached, List.take_length, ← consistent.contents,
    Write.foldl_effect] at state
  exact ⟨all, state⟩

/-- Writes to one node, the first of them handled on a connection that closes
before its answer arrives. -/
def resent : List Event :=
  [.retry, .tokenFetched (some false), .onReady,
    .putData (.setValue ["users", "ann"] [("name", .string "Ann")]),
    .serverHandles, .onDisconnect,
    .putData (.setValue ["rules"] [("name", .string "Ann")]),
    .putData (.removeValue ["users", "bob"]),
    .retry, .tokenFetched (some true), .onReady, .serverHandles,
    .onDataMessage, .serverHandles, .serverHandles, .serverHandles,
    .onDataMessage, .onDataMessage, .onDataMessage]

/-- Writes elsewhere than to the users are refused. -/
def toUsers (write : Write) : Bool :=
  write.path.head? = some "users"

end Exchange

end Firebase
end PocketChef
