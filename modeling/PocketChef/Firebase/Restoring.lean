import PocketChef.Firebase.Ledger

/-!
# Restoring a connection

`restoreState` sends the outstanding writes again, in order, and then the
reads that were never sent.  After it the requests on the connection are again
those of a client that has sent everything.
-/

namespace PocketChef
namespace Firebase

open NumberedQueue

/-! ## The state of the connection -/

inductive Linked (past : Past) (acknowledged next high stop : Nat)
    (state : ConnectionState) (realtime : Option (List Request))
    (calls : List (Nat × OnMessage)) (responses : List Response) : Prop
  | closed (down : state = .disconnected ∨ state = .gettingToken)
      (none : realtime = none) (uncalled : calls = [])
      (lost : responses = [])
  | connecting (opening : state = .connecting) (unsent : realtime = some [])
      (uncalled : calls = []) (silent : responses = [])
  | authenticating (rn : Nat) (authenticating : state = .authenticating)
      (sent : realtime = some [{ rn := rn, action := .auth }])
      (called : calls = [(rn, .auth)]) (silent : responses = [])
  | answered (rn : Nat) (ok : Bool) (data : Option DataSnapshot)
      (authenticating : state = .authenticating)
      (handled : realtime = some []) (called : calls = [(rn, .auth)])
      (response : responses = [{ rn := rn, ok := ok, data := data }])
  | connected (requests : List Request)
      (before after : List (Nat × OnMessage)) (connected : state = .connected)
      (sent : realtime = some requests) (called : calls = before ++ after)
      (answered : Answered past acknowledged next responses before)
      (waiting : Waiting past high stop next requests after)

namespace Linked

variable {past : Past} {acknowledged next high stop : Nat}
variable {state : ConnectionState} {realtime : Option (List Request)}
variable {calls : List (Nat × OnMessage)} {responses : List Response}

theorem grows {later : Past} (grows : past.Grows later)
    (linked : Linked past acknowledged next high stop state realtime calls
      responses) :
    Linked later acknowledged next high stop state realtime calls responses
    := by
  cases linked with
  | closed down none uncalled lost =>
      exact Linked.closed down none uncalled lost
  | connecting opening unsent uncalled silent =>
      exact Linked.connecting opening unsent uncalled silent
  | authenticating rn authenticating sent called silent =>
      exact Linked.authenticating rn authenticating sent called silent
  | answered rn ok data authenticating handled called response =>
      exact Linked.answered rn ok data authenticating handled called response
  | connected requests before after connected sent called answered waiting =>
      exact Linked.connected requests before after connected sent called
        (answered.grows grows) (waiting.grows grows)

/-- Only an open connection has sent writes. -/
theorem unopened
    (linked : Linked past acknowledged next high stop state realtime calls
      responses)
    (unopened : state ≠ .connected) (acknowledged' next' high' stop' : Nat) :
    Linked past acknowledged' next' high' stop' state realtime calls responses
    := by
  cases linked with
  | closed down none uncalled lost =>
      exact Linked.closed down none uncalled lost
  | connecting opening unsent uncalled silent =>
      exact Linked.connecting opening unsent uncalled silent
  | authenticating rn authenticating sent called silent =>
      exact Linked.authenticating rn authenticating sent called silent
  | answered rn ok data authenticating handled called response =>
      exact Linked.answered rn ok data authenticating handled called response
  | connected _ _ _ connected => exact absurd connected unopened

theorem of_connected
    (linked : Linked past acknowledged next high stop state realtime calls
      responses)
    (connected : state = .connected) :
    ∃ requests before after, realtime = some requests ∧
      calls = before ++ after ∧
      Answered past acknowledged next responses before ∧
      Waiting past high stop next requests after := by
  subst connected
  cases linked with
  | closed down => rcases down with other | other <;> cases other
  | connecting other => cases other
  | authenticating rn other => cases other
  | answered rn ok data other => cases other
  | connected requests before after _ sent called answered waiting =>
      exact ⟨requests, before, after, sent, called, answered, waiting⟩

end Linked

namespace Exchange

variable {State : Type}

/-- The service, the writes that it accepts, and what it stored at first. -/
structure Terms (State : Type) where
  service : Service State
  accepts : Write → Bool
  stored : Database

def past (terms : Terms State) (exchange : Exchange State) : Past where
  stored := terms.stored
  accepts := terms.accepts
  issued := exchange.issued
  asked := exchange.asked

/-- The service has handled `handled`.  The open connection, or else the last
one, began with the write `start`.  The next write that the service handles on
it is `next`, and `high` is the first that no connection has brought.  The
client has sent the writes before `stop` and the reads that are not in
`unsent`. -/
structure Consistent (terms : Terms State) (exchange : Exchange State)
    (handled : List Write) (start acknowledged next high stop : Nat)
    (unsent : List Nat) : Prop where
  contents : terms.service.contents exchange.state =
    handled.foldl (Write.effect terms.accepts) terms.stored
  sent : Retransmission.Sent (Write.effect terms.accepts) exchange.issued
    handled start next high
  start_le : start ≤ acknowledged
  acknowledged_le : acknowledged ≤ next
  recorded : Recorded (exchange.past terms) acknowledged
    exchange.connection
  tracked : Tracked exchange.connection
  linked : Linked (exchange.past terms) acknowledged next high stop
    exchange.connection.connectionState exchange.connection.realtime
    exchange.connection.requestCBHash exchange.responses
  unsent : exchange.connection.connectionState = .connected →
    ∀ entry ∈ exchange.connection.outstandingGets,
      entry.2.sent = true ∨ entry.1 ∈ unsent

def Invariant (terms : Terms State) (exchange : Exchange State) : Prop :=
  ∃ handled start acknowledged next high,
    exchange.Consistent terms handled start acknowledged next high
      exchange.issued.length []

/-- The loop over the outstanding writes has those of `left` to send. -/
def Resending (exchange : Exchange State) (terms : Terms State)
    (handled : List Write) (start acknowledged next high : Nat)
    (unsent left : List Nat)
    (connection : FPersistentConnection) : Prop :=
  ∃ stop, left = List.range' stop (exchange.issued.length - stop) ∧
    acknowledged ≤ stop ∧ stop ≤ exchange.issued.length ∧
    connection.connectionState = .connected ∧
    connection.outstandingGets = exchange.connection.outstandingGets ∧
    Consistent terms { exchange with connection := connection }
      handled start acknowledged next high stop unsent

/-- The loop over the outstanding reads has those of `left` to send. -/
def Asking (exchange : Exchange State) (terms : Terms State)
    (handled : List Write) (start acknowledged next high : Nat)
    (left : List Nat)
    (connection : FPersistentConnection) : Prop :=
  connection.connectionState = .connected ∧
    Consistent terms { exchange with connection := connection }
      handled start acknowledged next high exchange.issued.length left

namespace Consistent

variable {terms : Terms State} {handled : List Write}
variable {start acknowledged next high stop : Nat}
variable {unsent : List Nat} {exchange : Exchange State}

/-- The next write is sent on the open connection. -/
theorem sendPut
    (consistent : exchange.Consistent terms handled start acknowledged next
      high stop unsent)
    (state : exchange.connection.connectionState = .connected)
    {write : Write} (found : exchange.issued[stop]? = some write) :
    ∃ connection, exchange.connection.sendPut stop = some connection ∧
      connection.connectionState = .connected ∧
      connection.outstandingPuts = exchange.connection.outstandingPuts ∧
      connection.outstandingGets = exchange.connection.outstandingGets ∧
      Consistent terms { exchange with connection := connection } handled
        start acknowledged next high (stop + 1) unsent := by
  rcases consistent.linked.of_connected state with
    ⟨requests, before, after, realtime, calls, answered, waiting⟩
  have outstanding : acknowledged ≤ stop :=
    Nat.le_trans consistent.acknowledged_le waiting.next_le
  have lookup := consistent.recorded.lookup_put outstanding
  have allowed : exchange.connection.canSendWrites = true :=
    FPersistentConnection.canSendWrites_iff.mpr state
  refine ⟨exchange.connection.sendAction (.put write) (.put stop), ?_, state,
    rfl, rfl, ?_⟩
  · rw [FPersistentConnection.sendPut, if_pos allowed, lookup]
    change ((exchange.issued[stop]?).bind _) = _
    rw [found]
    rfl
  · refine { consistent with
      recorded := consistent.recorded.sendAction _ _
      tracked := consistent.tracked.sendAction _ fun _ other => by cases other
      linked := ?_ }
    have queued :=
      waiting.append_put exchange.connection.requestNumber found
    refine Linked.connected _ before _ state ?_ ?_ answered queued
    · change exchange.connection.realtime.map _ = _
      rw [realtime]
      rfl
    · change exchange.connection.requestCBHash ++ _ = _
      rw [calls, List.append_assoc]

/-- A read that is left to send is sent, unless an earlier connection had
sent it. -/
theorem sendGet {index : Nat}
    (consistent : exchange.Consistent terms handled start acknowledged next
      high exchange.issued.length (index :: unsent))
    (state : exchange.connection.connectionState = .connected)
    (outstanding :
      index ∈ exchange.connection.outstandingGets.map Prod.fst) :
    ∃ connection, exchange.connection.sendGet index = some connection ∧
      connection.connectionState = .connected ∧
      Consistent terms { exchange with connection := connection } handled
        start acknowledged next high exchange.issued.length unsent := by
  rcases List.mem_map.mp outstanding with ⟨entry, member, rfl⟩
  have increasing := consistent.tracked.gets
  have lookup := lookup_of_mem increasing member
  have allowed : exchange.connection.canSendReads = true :=
    FPersistentConnection.canSendReads_iff.mpr state
  rcases consistent.linked.of_connected state with
    ⟨requests, before, after, realtime, calls, answered, waiting⟩
  rw [FPersistentConnection.sendGet, if_pos allowed, lookup]
  cases already : entry.2.sent with
  | true =>
      refine ⟨exchange.connection, ?_, state, { consistent with unsent := ?_ }⟩
      · change (if entry.2.sent = true then _ else _) = _
        rw [if_pos already]
      · intro _ other there
        rcases consistent.unsent state other there with sent | left
        · exact Or.inl sent
        · rcases List.mem_cons.mp left with same | later
          · have twice := lookup_of_mem increasing there
            rw [same, lookup] at twice
            rw [← Option.some.inj twice]
            exact Or.inl already
          · exact Or.inr later
  | false =>
      rcases consistent.recorded.gets entry member with ⟨count, found⟩
      have earlier := consistent.recorded.counts _
        (List.mem_of_getElem? found)
      have queued := waiting.append_get exchange.connection.requestNumber
        consistent.sent.high_le found earlier
      have marked := consistent.recorded.setSent entry.1
      refine ⟨FPersistentConnection.sendAction
        { exchange.connection with
          outstandingGets := FPersistentConnection.setSent
            exchange.connection.outstandingGets entry.1 }
        (.get entry.2.path) (.get entry.1), ?_, state,
        { consistent with
          recorded := marked.sendAction _ _
          tracked := consistent.tracked.change (.sent lookup already)
          linked := Linked.connected _ before _ state ?_ ?_ answered queued
          unsent := ?_ }⟩
      · change (if entry.2.sent = true then _ else _) = _
        rw [if_neg (by rw [already]; exact Bool.false_ne_true)]
      · change exchange.connection.realtime.map _ = _
        rw [realtime]
        rfl
      · change exchange.connection.requestCBHash ++ _ = _
        rw [calls, List.append_assoc]
      · intro _ other there
        rcases List.mem_map.mp there with ⟨original, before, rfl⟩
        by_cases same : original.1 = entry.1
        · rw [if_pos same]
          exact Or.inl rfl
        · rw [if_neg same]
          rcases consistent.unsent state original before with sent | left
          · exact Or.inl sent
          · exact Or.inr ((List.mem_cons.mp left).resolve_left same)

theorem restorePut {number : Nat} {left : List Nat}
    {connection : FPersistentConnection}
    (resending : exchange.Resending terms handled start
        acknowledged next high
      unsent (number :: left) connection) :
    ∃ later, connection.restorePut number = some later ∧
      exchange.Resending terms handled start acknowledged
        next high unsent left
        later := by
  rcases resending with
    ⟨stop, numbers, lower, upper, state, gets, consistent⟩
  have inRange : stop < exchange.issued.length := by
    rw [← Nat.sub_pos_iff_lt]
    have size := congrArg List.length numbers
    rw [List.length_cons, List.length_range'] at size
    omega
  have head : exchange.issued.length - stop =
      (exchange.issued.length - (stop + 1)) + 1 := by
    omega
  rw [head, List.range'_succ] at numbers
  rcases List.cons.inj numbers with ⟨rfl, rest⟩
  have found := List.getElem?_eq_getElem inRange
  rcases consistent.sendPut state found with
    ⟨later, sent, stillOpen, _, sameGets, after⟩
  have outstanding :
      (connection.outstandingPuts.lookup number).isSome = true := by
    have lookup := consistent.recorded.lookup_put lower
    change connection.outstandingPuts.lookup number =
      exchange.issued[number]? at lookup
    rw [lookup, found]
    rfl
  refine ⟨later, ?_, number + 1, rest, Nat.le_succ_of_le lower, inRange,
    stillOpen, sameGets.trans gets, after⟩
  rw [FPersistentConnection.restorePut, if_pos outstanding]
  exact sent

theorem restorePuts
    (consistent : exchange.Consistent terms handled start acknowledged next
      high acknowledged unsent)
    (state : exchange.connection.connectionState = .connected) :
    ∃ connection, exchange.connection.restorePuts = some connection ∧
      connection.connectionState = .connected ∧
      connection.outstandingGets = exchange.connection.outstandingGets ∧
      Consistent terms { exchange with connection := connection } handled
        start acknowledged next high exchange.issued.length unsent := by
  have numbers : exchange.connection.outstandingPuts.map Prod.fst =
      List.range' acknowledged (exchange.issued.length - acknowledged) := by
    rw [consistent.recorded.puts, map_fst_numbered, List.length_drop]
    rfl
  have increasing := increasing_numbered acknowledged
    ((exchange.past terms).issued.drop acknowledged)
  rw [← consistent.recorded.puts] at increasing
  have initially : exchange.Resending terms handled start
        acknowledged next high
      unsent (exchange.connection.outstandingPuts.map Prod.fst)
      exchange.connection :=
    ⟨acknowledged, numbers, Nat.le_refl _,
      consistent.recorded.acknowledged_le, state, rfl, consistent⟩
  rcases foldlM_consumes (fun _ _ _ => restorePut) initially with
    ⟨connection, ran, stop, done, _, upper, open', gets, after⟩
  have all : stop = exchange.issued.length := by
    have size := congrArg List.length done
    rw [List.length_range', List.length_nil] at size
    omega
  rw [all] at after
  refine ⟨connection, ?_, open', gets, after⟩
  rw [FPersistentConnection.restorePuts, sorted_numbers increasing]
  exact ran

theorem restoreGet {number : Nat} {left : List Nat}
    (consistent : exchange.Consistent terms handled start acknowledged next
      high exchange.issued.length (number :: left))
    (state : exchange.connection.connectionState = .connected) :
    ∃ connection, exchange.connection.restoreGet number = some connection ∧
      connection.connectionState = .connected ∧
      Consistent terms { exchange with connection := connection } handled
        start acknowledged next high exchange.issued.length left := by
  by_cases outstanding :
      (exchange.connection.outstandingGets.lookup number).isSome = true
  · rw [FPersistentConnection.restoreGet, if_pos outstanding]
    exact consistent.sendGet state (lookup_isSome_iff.mp outstanding)
  · rw [FPersistentConnection.restoreGet, if_neg outstanding]
    refine ⟨_, rfl, state, { consistent with unsent := ?_ }⟩
    intro _ entry member
    rcases consistent.unsent state entry member with sent | remaining
    · exact Or.inl sent
    · rcases List.mem_cons.mp remaining with same | later
      · refine absurd (lookup_isSome_iff.mpr ?_) outstanding
        rw [← same]
        exact List.mem_map_of_mem member
      · exact Or.inr later

theorem restoreGets
    (consistent : exchange.Consistent terms handled start acknowledged next
      high exchange.issued.length
      (exchange.connection.outstandingGets.map Prod.fst))
    (state : exchange.connection.connectionState = .connected) :
    ∃ connection, exchange.connection.restoreGets = some connection ∧
      connection.connectionState = .connected ∧
      Consistent terms { exchange with connection := connection } handled
        start acknowledged next high exchange.issued.length [] := by
  have each (number : Nat) (left : List Nat)
      (connection : FPersistentConnection)
      (asking : exchange.Asking terms handled start acknowledged
        next high
        (number :: left) connection) :
      ∃ later, connection.restoreGet number = some later ∧
        exchange.Asking terms handled start acknowledged
        next high left later :=
    asking.2.restoreGet asking.1
  have initially : exchange.Asking terms handled start acknowledged
        next high
      (exchange.connection.outstandingGets.map Prod.fst)
      exchange.connection :=
    ⟨state, consistent⟩
  rcases foldlM_consumes each initially with
    ⟨connection, ran, stillOpen, after⟩
  refine ⟨connection, ?_, stillOpen, after⟩
  rw [FPersistentConnection.restoreGets,
    sorted_numbers consistent.tracked.gets]
  exact ran

/-- The writes without a response are sent again, in order, and then the
reads that were never sent. -/
theorem restoreState
    (consistent : exchange.Consistent terms handled start acknowledged next
      high acknowledged (exchange.connection.outstandingGets.map Prod.fst))
    (state : exchange.connection.connectionState = .connected) :
    ∃ connection, exchange.connection.restoreState = some connection ∧
      connection.connectionState = .connected ∧
      Consistent terms { exchange with connection := connection } handled
        start acknowledged next high exchange.issued.length [] := by
  rcases consistent.restorePuts state with
    ⟨connection, resent, open', gets, after⟩
  rw [← gets] at after
  rcases after.restoreGets open' with ⟨final, asked, stillOpen, done⟩
  refine ⟨final, ?_, stillOpen, done⟩
  rw [FPersistentConnection.restoreState, if_pos state, resent]
  exact asked

end Consistent

end Exchange

end Firebase
end PocketChef
