import PocketChef.Firebase.Restoring

/-!
# What the connection delivers

A disconnect loses requests and answers, and the client does not know which
of its writes the service has handled.  It sends all of those again that were
not acknowledged.

Nevertheless each write is acknowledged once, in the order of the writes; the
service ends with the accepted writes applied once each; and every read that
succeeds has seen the writes up to some point after those that were made
before it.
-/

namespace PocketChef
namespace Firebase

open NumberedQueue

namespace Exchange

namespace Consistent

variable {State : Type} {terms : Terms State} {handled : List Write}
variable {start acknowledged next high stop : Nat}
variable {unsent : List Nat} {exchange : Exchange State}

/-! ## Steps of the client -/

/-- A write is noted, and still to be sent. -/
theorem issue
    (consistent : exchange.Consistent terms handled start acknowledged next
      high exchange.issued.length [])
    (write : Write) :
    Consistent terms
      { exchange with
        connection := exchange.connection.keep write
        issued := exchange.issued ++ [write] }
      handled start acknowledged next high exchange.issued.length [] where
  contents := consistent.contents
  sent := consistent.sent.issue write
  start_le := consistent.start_le
  acknowledged_le := consistent.acknowledged_le
  recorded := consistent.recorded.issue write
  tracked := consistent.tracked.same rfl rfl rfl rfl rfl
  linked := consistent.linked.grows ((exchange.past terms).grows_issue write)
  unsent := consistent.unsent

theorem putInternal
    (consistent : exchange.Consistent terms handled start acknowledged next
      high exchange.issued.length [])
    (write : Write) :
    ∃ later, exchange.step terms.service (.putData write) = some later ∧
      later.Consistent terms handled start acknowledged next high
        later.issued.length [] := by
  let issued : Exchange State :=
    { exchange with
      connection := exchange.connection.keep write
      issued := exchange.issued ++ [write] }
  have noted : issued.Consistent terms handled start acknowledged next high
      exchange.issued.length [] :=
    consistent.issue write
  by_cases state : exchange.connection.connectionState = .connected
  · have found : issued.issued[exchange.issued.length]? = some write :=
      List.getElem?_concat_length
    rcases noted.sendPut state found with ⟨connection, sent, _, _, _, after⟩
    refine ⟨{ issued with connection := connection }, ?_, ?_⟩
    · have put : exchange.connection.putInternal write = some connection := by
        rw [FPersistentConnection.putInternal_of_connected state,
          consistent.recorded.putCounter]
        exact sent
      rw [step, put]
      rfl
    · have total : issued.issued.length = exchange.issued.length + 1 :=
        List.length_append
      rw [← total] at after
      exact after
  · refine ⟨issued, ?_,
      { noted with linked := noted.linked.unopened state _ _ _ _ }⟩
    rw [step, FPersistentConnection.putInternal_of_not_connected state]
    rfl

/-- A read is noted, and still to be sent. -/
theorem ask
    (consistent : exchange.Consistent terms handled start acknowledged next
      high exchange.issued.length [])
    (path : Path) :
    Consistent terms
      { exchange with
        connection := exchange.connection.ask path
        asked := exchange.asked ++ [(path, exchange.issued.length)] }
      handled start acknowledged next high exchange.issued.length
      [exchange.connection.getCounter] where
  contents := consistent.contents
  sent := consistent.sent
  start_le := consistent.start_le
  acknowledged_le := consistent.acknowledged_le
  recorded := consistent.recorded.ask path
  tracked := consistent.tracked.ask path
  linked := consistent.linked.grows ((exchange.past terms).grows_ask path)
  unsent := by
    intro state entry member
    rcases List.mem_append.mp member with earlier | last
    · rcases consistent.unsent state entry earlier with sent | none'
      · exact Or.inl sent
      · cases none'
    · rw [List.mem_singleton.mp last]
      exact Or.inr List.mem_cons_self

theorem getDataAtPath
    (consistent : exchange.Consistent terms handled start acknowledged next
      high exchange.issued.length [])
    (path : Path) :
    ∃ later, exchange.step terms.service (.getData path) = some later ∧
      later.Consistent terms handled start acknowledged next high
        later.issued.length [] := by
  let asked : Exchange State :=
    { exchange with
      connection := exchange.connection.ask path
      asked := exchange.asked ++ [(path, exchange.issued.length)] }
  have noted : asked.Consistent terms handled start acknowledged next high
      asked.issued.length [exchange.connection.getCounter] :=
    consistent.ask path
  by_cases state : exchange.connection.connectionState = .connected
  · have outstanding : exchange.connection.getCounter ∈
        asked.connection.outstandingGets.map Prod.fst := by
      change _ ∈ (_ ++ [_]).map Prod.fst
      rw [List.map_append]
      exact List.mem_append_right _ List.mem_cons_self
    rcases noted.sendGet state outstanding with
      ⟨connection, sent, _, after⟩
    refine ⟨{ asked with connection := connection }, ?_, after⟩
    have get : exchange.connection.getDataAtPath path = some connection := by
      rw [FPersistentConnection.getDataAtPath_of_connected state]
      exact sent
    rw [step, get]
    rfl
  · rcases FPersistentConnection.getDataAtPath_of_not_connected state path
      with ⟨timers, get⟩
    let waits : Exchange State :=
      { asked with connection := { asked.connection with timers := timers } }
    refine ⟨waits, ?_,
      { contents := noted.contents
        sent := noted.sent
        start_le := noted.start_le
        acknowledged_le := noted.acknowledged_le
        recorded := { noted.recorded with }
        tracked := noted.tracked.same rfl rfl rfl rfl rfl
        linked := noted.linked.unopened state _ _ _ _
        unsent := fun connected => absurd connected state }⟩
    rw [step, get]
    rfl

/-- What a connection without requests or answers leaves of the exchange. -/
theorem unconnected
    (consistent : exchange.Consistent terms handled start acknowledged next
      high exchange.issued.length [])
    {connection : FPersistentConnection} {responses : List Response}
    (recorded : Recorded (exchange.past terms) acknowledged connection)
    (tracked : Tracked connection)
    (linked : Linked (exchange.past terms) acknowledged next high
      exchange.issued.length connection.connectionState connection.realtime
      connection.requestCBHash responses)
    (state : connection.connectionState ≠ .connected) :
    Consistent terms
      { exchange with connection := connection, responses := responses }
      handled start acknowledged next high exchange.issued.length [] :=
  { contents := consistent.contents
    sent := consistent.sent
    start_le := consistent.start_le
    acknowledged_le := consistent.acknowledged_le
    recorded := recorded
    tracked := tracked
    linked := linked
    unsent := fun connected => absurd connected state }

/-- A completion block runs. -/
theorem quiet
    (consistent : exchange.Consistent terms handled start acknowledged next
      high stop unsent)
    {connection : FPersistentConnection} (tracked : Tracked connection)
    (quiet : Quiet exchange.connection connection)
    (recorded : Recorded (exchange.past terms) acknowledged connection) :
    Consistent terms { exchange with connection := connection } handled
      start acknowledged next high stop unsent :=
  { contents := consistent.contents
    sent := consistent.sent
    start_le := consistent.start_le
    acknowledged_le := consistent.acknowledged_le
    recorded := recorded
    tracked := tracked
    linked := by
      change Linked _ _ _ _ _ connection.connectionState connection.realtime
        connection.requestCBHash _
      rw [quiet.state, quiet.realtime, quiet.calls]
      exact consistent.linked
    unsent := by
      intro state entry member
      rw [quiet.state] at state
      exact consistent.unsent state entry (quiet.gets member) }

/-- A connection on which nothing was sent yet is restored. -/
theorem restored
    (consistent : exchange.Consistent terms handled start acknowledged next
      high exchange.issued.length [])
    {connection : FPersistentConnection} (tracked : Tracked connection)
    (recorded : Recorded (exchange.past terms) acknowledged connection)
    (state : connection.connectionState = .connected)
    (realtime : connection.realtime = some [])
    (calls : connection.requestCBHash = []) :
    ∃ later, connection.restoreState = some later ∧
      later.connectionState = .connected ∧
      Invariant terms
        { exchange with connection := later, responses := [] } := by
  let opened : Exchange State :=
    { exchange with connection := connection, responses := [] }
  have restarted := consistent.sent.restart
    (Write.absorbing terms.accepts)
    consistent.start_le consistent.acknowledged_le
  have fresh : opened.Consistent terms handled acknowledged acknowledged
      acknowledged high acknowledged
        (connection.outstandingGets.map Prod.fst) :=
    { contents := consistent.contents
      sent := restarted
      start_le := Nat.le_refl _
      acknowledged_le := Nat.le_refl _
      recorded := recorded
      tracked := tracked
      linked := Linked.connected [] [] [] state realtime calls
        Answered.nothing Waiting.nothing
      unsent := fun _ entry member =>
        Or.inr (List.mem_map_of_mem member) }
  rcases fresh.restoreState state with ⟨later, ran, stillOpen, after⟩
  exact ⟨later, ran, stillOpen, _, _, _, _, _, after⟩

/-- A ready connection sends the credential that it has. -/
theorem readyWithCredential
    (consistent : exchange.Consistent terms handled start acknowledged next
      high exchange.issued.length [])
    (state : exchange.connection.connectionState = .connecting)
    (credential : exchange.connection.authToken = true)
    (unsent : exchange.connection.realtime = some [])
    (uncalled : exchange.connection.requestCBHash = [])
    (silent : exchange.responses = []) :
    ∃ connection, exchange.connection.onReady = some connection ∧
      Invariant terms { exchange with connection := connection } ∧
      connection.connectionState = .authenticating := by
  let sending : FPersistentConnection :=
    { exchange.connection with connectionState := .authenticating }
  have ready : exchange.connection.onReady =
      some (sending.sendAction .auth .auth) := by
    rw [FPersistentConnection.onReady, if_pos state, if_pos credential]
  have tracked : Tracked sending :=
    consistent.tracked.same rfl rfl rfl rfl rfl
  refine ⟨_, ready, ⟨handled, start, acknowledged, next, high, ?_⟩, rfl⟩
  refine consistent.unconnected { consistent.recorded with }
    (tracked.sendAction .auth fun _ other => by cases other) ?_
    (fun other => by cases other)
  refine Linked.authenticating exchange.connection.requestNumber rfl ?_ ?_
    silent
  · change exchange.connection.realtime.map _ = _
    rw [unsent]
    rfl
  · change exchange.connection.requestCBHash ++ _ = _
    rw [uncalled]
    rfl

/-- Without a credential it is restored at once. -/
theorem readyWithout
    (consistent : exchange.Consistent terms handled start acknowledged next
      high exchange.issued.length [])
    (state : exchange.connection.connectionState = .connecting)
    (credential : ¬ exchange.connection.authToken = true)
    (unsent : exchange.connection.realtime = some [])
    (uncalled : exchange.connection.requestCBHash = [])
    (silent : exchange.responses = []) :
    ∃ connection, exchange.connection.onReady = some connection ∧
      Invariant terms { exchange with connection := connection } ∧
      connection.connectionState = .connected := by
  let opened : FPersistentConnection :=
    { exchange.connection with connectionState := .connected }
  have tracked : Tracked opened :=
    consistent.tracked.same rfl rfl rfl rfl rfl
  have recorded : Recorded (exchange.past terms) acknowledged opened :=
    { consistent.recorded with }
  rcases consistent.restored tracked recorded rfl unsent uncalled with
    ⟨connection, ran, stillOpen, after⟩
  rw [← silent] at after
  refine ⟨connection, ?_, after, stillOpen⟩
  rw [FPersistentConnection.onReady, if_pos state, if_neg credential]
  exact ran

/-! ## What the service handles -/

/-- The credential is handled and its answer is on the way. -/
theorem handlesAuth (realtime : terms.service.Realtime terms.accepts)
    (consistent : exchange.Consistent terms handled start acknowledged next
      high exchange.issued.length [])
    {rn : Nat}
    (authenticating : exchange.connection.connectionState = .authenticating)
    (sent : exchange.connection.realtime =
      some [{ rn := rn, action := .auth }])
    (called : exchange.connection.requestCBHash = [(rn, .auth)])
    (silent : exchange.responses = []) :
    (exchange.serverHandles terms.service).Invariant terms := by
  rcases realtime.auth exchange.state rn [] with
    ⟨after, ok, data, served, contents⟩
  rw [serverHandles_of_serve sent served]
  refine ⟨handled, start, acknowledged, next, high, ?_⟩
  exact
    { contents := contents.trans consistent.contents
      sent := consistent.sent
      start_le := consistent.start_le
      acknowledged_le := consistent.acknowledged_le
      recorded := { consistent.recorded with }
      tracked := consistent.tracked.same rfl rfl rfl rfl rfl
      linked := by
        refine Linked.answered rn ok data authenticating rfl called ?_
        rw [silent]
        rfl
      unsent := consistent.unsent }

variable {requests : List Request} {before calls : List (Nat × OnMessage)}

/-- The next write is handled: the service has now applied it or refused
it. -/
theorem handlesPut (realtime : terms.service.Realtime terms.accepts)
    (consistent : exchange.Consistent terms handled start acknowledged next
      high exchange.issued.length [])
    {rn : Nat} {write : Write}
    (connected : exchange.connection.connectionState = .connected)
    (sent : exchange.connection.realtime =
      some ({ rn := rn, action := .put write } :: requests))
    (called : exchange.connection.requestCBHash =
      before ++ (rn, .put next) :: calls)
    (answered : Answered (exchange.past terms) acknowledged next
      exchange.responses before)
    (found : (exchange.past terms).issued[next]? = some write)
    (rest : Waiting (exchange.past terms) high exchange.issued.length
      (next + 1) requests calls) :
    (exchange.serverHandles terms.service).Invariant terms := by
  rcases realtime.put exchange.state rn write requests with
    ⟨later, data, served, contents⟩
  rw [serverHandles_of_serve sent served]
  have moved := answered.append_put rn data found
  have raised := rest.raise (Nat.le_refl _)
  refine ⟨handled ++ [write], start, acknowledged, next + 1,
    max high (next + 1), ?_⟩
  exact
    { contents := by
        rw [List.foldl_append, ← consistent.contents]
        exact contents
      sent := consistent.sent.handle found
      start_le := consistent.start_le
      acknowledged_le := Nat.le_succ_of_le consistent.acknowledged_le
      recorded := { consistent.recorded with }
      tracked := consistent.tracked.same rfl rfl rfl rfl rfl
      linked := by
        refine Linked.connected _ _ _ connected rfl ?_ moved raised
        rw [List.append_assoc]
        exact called
      unsent := consistent.unsent }

/-- A read is handled: its answer has the data after all writes that any
connection has brought. -/
theorem handlesGet (realtime : terms.service.Realtime terms.accepts)
    (consistent : exchange.Consistent terms handled start acknowledged next
      high exchange.issued.length [])
    {rn index count : Nat} {path : Path}
    (connected : exchange.connection.connectionState = .connected)
    (sent : exchange.connection.realtime =
      some ({ rn := rn, action := .get path } :: requests))
    (called : exchange.connection.requestCBHash =
      before ++ (rn, .get index) :: calls)
    (answered : Answered (exchange.past terms) acknowledged next
      exchange.responses before)
    (caughtUp : high ≤ next)
    (found : (exchange.past terms).asked[index]? = some (path, count))
    (later : count ≤ next)
    (rest : Waiting (exchange.past terms) high exchange.issued.length next
      requests calls) :
    (exchange.serverHandles terms.service).Invariant terms := by
  rcases realtime.get exchange.state rn path requests with
    ⟨after, ok, data, served, contents, answer⟩
  rw [serverHandles_of_serve sent served]
  have same : next = high :=
    Nat.le_antisymm consistent.sent.next_le caughtUp
  have stored : terms.service.contents exchange.state =
      Write.applyAll terms.stored
        ((exchange.issued.take next).filter terms.accepts) := by
    rw [consistent.contents, ← Write.foldl_effect]
    exact consistent.sent.state_of_caughtUp same terms.stored
  have fresh (accepted : ok = true) :
      (exchange.past terms).Fresh index data := by
    refine ⟨path, count, next, found, later, ?_, ?_⟩
    · exact Nat.le_trans consistent.sent.next_le consistent.sent.high_le
    · rw [answer accepted, stored]
      rfl
  have moved := answered.append_get rn fresh
  refine ⟨handled, start, acknowledged, next, high, ?_⟩
  exact
    { contents := contents.trans consistent.contents
      sent := consistent.sent
      start_le := consistent.start_le
      acknowledged_le := consistent.acknowledged_le
      recorded := { consistent.recorded with }
      tracked := consistent.tracked.same rfl rfl rfl rfl rfl
      linked := by
        refine Linked.connected _ _ _ connected rfl ?_ moved rest
        rw [List.append_assoc]
        exact called
      unsent := consistent.unsent }

end Consistent

namespace Invariant

variable {State : Type} {terms : Terms State} {exchange : Exchange State}

theorem initially (terms : Terms State) {state : State}
    (stores : terms.service.contents state = terms.stored) :
    Invariant terms (start state) := by
  refine ⟨[], 0, 0, 0, 0, ?_⟩
  exact
    { contents := stores
      sent := Retransmission.Sent.nothing (Write.effect terms.accepts)
      start_le := Nat.le_refl 0
      acknowledged_le := Nat.le_refl 0
      recorded :=
        { acked := rfl
          acknowledged_le := Nat.le_refl 0
          putCounter := rfl
          puts := rfl
          getCounter := rfl
          gets := fun _ member => absurd member List.not_mem_nil
          counts := fun _ member => absurd member List.not_mem_nil
          results := fun _ _ member => absurd member List.not_mem_nil }
      tracked := Tracked.initially
      linked := Linked.closed (Or.inl rfl) rfl rfl rfl
      unsent := fun state => by cases state }

theorem putData (invariant : exchange.Invariant terms) (write : Write) :
    ∃ later, exchange.step terms.service (.putData write) = some later ∧
      later.Invariant terms := by
  rcases invariant with
    ⟨handled, start, acknowledged, next, high, consistent⟩
  rcases consistent.putInternal write with ⟨later, stepped, after⟩
  exact ⟨later, stepped, handled, start, acknowledged, next, high, after⟩

theorem getData (invariant : exchange.Invariant terms) (path : Path) :
    ∃ later, exchange.step terms.service (.getData path) = some later ∧
      later.Invariant terms := by
  rcases invariant with
    ⟨handled, start, acknowledged, next, high, consistent⟩
  rcases consistent.getDataAtPath path with ⟨later, stepped, after⟩
  exact ⟨later, stepped, handled, start, acknowledged, next, high, after⟩

theorem timeout (invariant : exchange.Invariant terms) (index : Nat) :
    ∃ later, exchange.step terms.service (.timeout index) = some later ∧
      later.Invariant terms := by
  by_cases scheduled : index ∈ exchange.connection.timers
  · rcases invariant with
      ⟨handled, start, acknowledged, next, high, consistent⟩
    have stepped : exchange.step terms.service (.timeout index) = some
        { exchange with
          connection := exchange.connection.getTimedOut index } :=
      if_pos scheduled
    exact ⟨_, stepped, handled, start, acknowledged, next, high,
      consistent.quiet (tracked_step consistent.tracked stepped)
        (Quiet.getTimedOut _ index)
        (consistent.recorded.getTimedOut index)⟩
  · exact ⟨exchange, if_neg scheduled, invariant⟩

theorem retry (invariant : exchange.Invariant terms) :
    ∃ later, exchange.step terms.service .retry = some later ∧
      later.Invariant terms := by
  by_cases state : exchange.connection.connectionState = .disconnected
  · rcases invariant with
      ⟨handled, start, acknowledged, next, high, consistent⟩
    have linked := consistent.linked
    rw [state] at linked
    refine ⟨{ exchange with connection := { exchange.connection with
      connectionState := .gettingToken } }, ?_, handled, start, acknowledged,
        next, high, ?_⟩
    · rw [step, if_pos state, FPersistentConnection.retry, if_pos state]
      rfl
    · refine consistent.unconnected { consistent.recorded with }
        (consistent.tracked.same rfl rfl rfl rfl rfl) ?_
        (fun other => by cases other)
      cases linked with
      | closed down none uncalled lost =>
          exact Linked.closed (Or.inr rfl) none uncalled lost
      | connecting other => cases other
      | authenticating rn other => cases other
      | answered rn ok data other => cases other
      | connected _ _ _ other => cases other
  · exact ⟨exchange, if_neg state, invariant⟩

theorem tokenFetched (invariant : exchange.Invariant terms)
    (token : Option Bool) :
    ∃ later, exchange.step terms.service (.tokenFetched token) = some later ∧
      later.Invariant terms := by
  by_cases state : exchange.connection.connectionState = .gettingToken
  · rcases invariant with
      ⟨handled, start, acknowledged, next, high, consistent⟩
    refine ⟨_, if_pos state, handled, start, acknowledged, next, high, ?_⟩
    have linked := consistent.linked
    rw [state] at linked
    cases linked with
    | closed down none uncalled lost =>
        cases token with
        | none =>
            exact consistent.unconnected { consistent.recorded with }
              (consistent.tracked.same rfl rfl rfl rfl rfl)
              (Linked.closed (Or.inl rfl) none uncalled lost)
              (fun other => by cases other)
        | some token =>
            exact consistent.unconnected { consistent.recorded with }
              (consistent.tracked.same rfl rfl rfl rfl rfl)
              (Linked.connecting rfl rfl uncalled lost)
              (fun other => by cases other)
    | connecting other => cases other
    | authenticating rn other => cases other
    | answered rn ok data other => cases other
    | connected _ _ _ other => cases other
  · exact ⟨exchange, if_neg state, invariant⟩

/-- A connection that is ready authenticates, or it is restored at once. -/
theorem onReady (invariant : exchange.Invariant terms) :
    ∃ later, exchange.step terms.service .onReady = some later ∧
      later.Invariant terms ∧
      (exchange.connection.connectionState = .connecting →
        later.connection.connectionState =
          if exchange.connection.authToken then .authenticating
          else .connected) := by
  by_cases state : exchange.connection.connectionState = .connecting
  · rcases invariant with
      ⟨handled, start, acknowledged, next, high, consistent⟩
    have linked := consistent.linked
    rw [state] at linked
    cases linked with
    | closed down => rcases down with other | other <;> cases other
    | connecting opening unsent uncalled silent =>
        have became : ∃ connection,
            exchange.connection.onReady = some connection ∧
              Invariant terms { exchange with connection := connection } ∧
              connection.connectionState =
                if exchange.connection.authToken then .authenticating
                else .connected := by
          by_cases credential : exchange.connection.authToken = true
          · rw [if_pos credential]
            exact consistent.readyWithCredential state credential unsent
              uncalled silent
          · rw [if_neg credential]
            exact consistent.readyWithout state credential unsent uncalled
              silent
        rcases became with ⟨connection, ready, after, reached⟩
        refine ⟨{ exchange with connection := connection }, ?_, after,
          fun _ => reached⟩
        rw [step, if_pos state, ready]
        rfl
    | authenticating rn other => cases other
    | answered rn ok data other => cases other
    | connected _ _ _ other => cases other
  · exact ⟨exchange, if_neg state, invariant, fun other => absurd other state⟩

theorem onDisconnect (invariant : exchange.Invariant terms) :
    ∃ later, exchange.step terms.service .onDisconnect = some later ∧
      later.Invariant terms := by
  rcases invariant with
    ⟨handled, start, acknowledged, next, high, consistent⟩
  refine ⟨_, rfl, handled, start, acknowledged, next, high, ?_⟩
  exact consistent.unconnected { consistent.recorded with }
    (consistent.tracked.quiet rfl rfl rfl (List.nil_sublist _) rfl)
    (Linked.closed (Or.inl rfl) rfl rfl rfl) (fun other => by cases other)

/-! ## Steps of the service -/

theorem serverHandles (realtime : terms.service.Realtime terms.accepts)
    (invariant : exchange.Invariant terms) :
    (exchange.serverHandles terms.service).Invariant terms := by
  have unchanged := invariant
  rcases invariant with
    ⟨handled, start, acknowledged, next, high, consistent⟩
  have idle (nothing : exchange.connection.realtime = some []) :
      (exchange.serverHandles terms.service).Invariant terms := by
    rw [serverHandles_of_idle (realtime.idle exchange.state) nothing]
    exact unchanged
  cases consistent.linked with
  | closed down none uncalled lost =>
      rw [serverHandles_of_closed none]
      exact unchanged
  | connecting opening unsent uncalled silent => exact idle unsent
  | answered rn ok data authenticating quiet called response =>
      exact idle quiet
  | authenticating rn authenticating sent called silent =>
      exact consistent.handlesAuth realtime authenticating sent called silent
  | connected requests before after connected sent called answered waiting =>
      cases waiting with
      | nothing => exact idle sent
      | put rn write found rest =>
          exact consistent.handlesPut realtime connected sent called answered
            found rest
      | get rn index path count caughtUp found later rest =>
          exact consistent.handlesGet realtime connected sent called answered
            caughtUp found later rest

/-! ## Answers -/

/-- The block of the first answer has run on an open connection. -/
theorem completed {handled : List Write}
    {start acknowledged next high : Nat} {requests : List Request}
    {responses : List Response} {before after : List (Nat × OnMessage)}
    {more : Nat} {final : FPersistentConnection}
    (consistent : exchange.Consistent terms handled start acknowledged next
      high exchange.issued.length [])
    (connected : exchange.connection.connectionState = .connected)
    (sent : exchange.connection.realtime = some requests)
    (tracked : Tracked final)
    (quiet : Quiet
      { exchange.connection with requestCBHash := before ++ after } final)
    (recorded : Recorded (exchange.past terms) more final)
    (increased : acknowledged ≤ more)
    (answered : Answered (exchange.past terms) more next responses before)
    (waiting : Waiting (exchange.past terms) high exchange.issued.length
      next requests after) :
    Invariant terms
      { exchange with connection := final, responses := responses } := by
  refine ⟨handled, start, more, next, high, ?_⟩
  exact
    { contents := consistent.contents
      sent := consistent.sent
      start_le := Nat.le_trans consistent.start_le increased
      acknowledged_le := answered.first_le
      recorded := recorded
      tracked := tracked
      linked := Linked.connected requests before after
        (quiet.state.trans connected) (quiet.realtime.trans sent) quiet.calls
        answered waiting
      unsent := fun _ entry member =>
        consistent.unsent connected entry (quiet.gets member) }

/-- The first answer on an open connection is passed to the first block. -/
theorem receive_connected {handled : List Write}
    {start acknowledged next high : Nat} {requests : List Request}
    {responses : List Response} {before after : List (Nat × OnMessage)}
    (consistent : exchange.Consistent terms handled start acknowledged next
      high exchange.issued.length [])
    (connected : exchange.connection.connectionState = .connected)
    (sent : exchange.connection.realtime = some requests)
    (called : exchange.connection.requestCBHash = before ++ after)
    (arriving : exchange.responses = responses)
    (answered : Answered (exchange.past terms) acknowledged next
      responses before)
    (waiting : Waiting (exchange.past terms) high exchange.issued.length
      next requests after) :
    ∃ later, exchange.receive = some later ∧ later.Invariant terms ∧
      later.connection.connectionState = .connected ∧
      later.connection.realtime = exchange.connection.realtime ∧
      later.responses = exchange.responses.tail := by
  have moved {later : Exchange State} (received : exchange.receive =
      some later) : Tracked later.connection :=
    @tracked_step _ terms.service _ _ .onDataMessage consistent.tracked
      received
  cases answered with
  | nothing =>
      refine ⟨exchange, ?_, ⟨handled, start, acknowledged, acknowledged, high,
        consistent⟩, connected, rfl, ?_⟩
      · rw [receive, arriving]
      · rw [arriving]
        rfl
  | @put _ _ responses calls rn write data found rest =>
      have head : exchange.connection.requestCBHash =
          (rn, .put acknowledged) :: (calls ++ after) :=
        called
      have handed := consistent.tracked.onDataMessage
        { rn := rn, ok := terms.accepts write, data := data } head
      have popped : Recorded (exchange.past terms) acknowledged
          { exchange.connection with requestCBHash := calls ++ after } :=
        { consistent.recorded with }
      have quiet := Quiet.putCompleted
        { exchange.connection with requestCBHash := calls ++ after }
        acknowledged (terms.accepts write)
      have received := receive_of_open arriving handed
        (quiet.realtime.trans sent)
      refine ⟨_, received, ?_, quiet.state.trans connected, quiet.realtime,
        by rw [arriving]; rfl⟩
      exact completed consistent connected sent (moved received) quiet
        (popped.putCompleted found) (Nat.le_succ _) rest waiting
  | @get _ _ responses calls rn index ok data fresh rest =>
      have head : exchange.connection.requestCBHash =
          (rn, .get index) :: (calls ++ after) :=
        called
      have handed := consistent.tracked.onDataMessage
        { rn := rn, ok := ok, data := data } head
      have popped : Recorded (exchange.past terms) acknowledged
          { exchange.connection with requestCBHash := calls ++ after } :=
        { consistent.recorded with }
      have quiet := Quiet.getCompleted
        { exchange.connection with requestCBHash := calls ++ after }
        index ok data
      have received := receive_of_open arriving handed
        (quiet.realtime.trans sent)
      refine ⟨_, received, ?_, quiet.state.trans connected, quiet.realtime,
        by rw [arriving]; rfl⟩
      exact completed consistent connected sent (moved received) quiet
        (popped.getCompleted fresh) (Nat.le_refl _) rest waiting

/-- The answer to the credential opens the connection or closes it. -/
theorem receive_answered {handled : List Write}
    {start acknowledged next high rn : Nat} {ok : Bool}
    {data : Option DataSnapshot}
    (consistent : exchange.Consistent terms handled start acknowledged next
      high exchange.issued.length [])
    (sent : exchange.connection.realtime = some [])
    (called : exchange.connection.requestCBHash = [(rn, .auth)])
    (response : exchange.responses = [{ rn := rn, ok := ok, data := data }]) :
    ∃ later, exchange.receive = some later ∧ later.Invariant terms ∧
      (ok = true → later.connection.connectionState = .connected) := by
  have handed := consistent.tracked.onDataMessage
    { rn := rn, ok := ok, data := data } called
  have recorded : Recorded (exchange.past terms) acknowledged
      { exchange.connection with
        requestCBHash := [], connectionState := .connected } :=
    { consistent.recorded with }
  have tracked : Tracked
      { exchange.connection with
        requestCBHash := [], connectionState := .connected } :=
    consistent.tracked.quiet rfl rfl rfl (List.nil_sublist _) rfl
  cases ok with
  | true =>
      rcases consistent.restored tracked recorded rfl sent rfl with
        ⟨connection, ran, stillOpen, after⟩
      refine ⟨_, receive_of_response response (handed.trans ran), ?_,
        fun _ => stillOpen⟩
      rw [ite_self]
      exact after
  | false =>
      refine ⟨_, receive_of_response response handed,
        ⟨handled, start, acknowledged, next, high, ?_⟩,
        fun other => by cases other⟩
      exact consistent.unconnected { consistent.recorded with }
        (tracked.same rfl rfl rfl rfl rfl)
        (Linked.closed (Or.inl rfl) rfl rfl rfl)
        (fun other => by cases other)

theorem receive (invariant : exchange.Invariant terms) :
    ∃ later, exchange.receive = some later ∧ later.Invariant terms := by
  have unchanged := invariant
  rcases invariant with
    ⟨handled, start, acknowledged, next, high, consistent⟩
  have silence (silent : exchange.responses = []) :
      ∃ later, exchange.receive = some later ∧ later.Invariant terms := by
    refine ⟨exchange, ?_, unchanged⟩
    rw [Exchange.receive, silent]
  cases consistent.linked with
  | closed down none uncalled lost => exact silence lost
  | connecting opening unsent uncalled silent => exact silence silent
  | authenticating rn authenticating sent called silent =>
      exact silence silent
  | connected requests before after connected sent called answered waiting =>
      rcases receive_connected consistent connected sent called rfl answered
        waiting with ⟨later, received, kept, _⟩
      exact ⟨later, received, kept⟩
  | answered rn ok data authenticating sent called response =>
      rcases receive_answered consistent sent called response with
        ⟨later, received, kept, _⟩
      exact ⟨later, received, kept⟩

theorem step (realtime : terms.service.Realtime terms.accepts)
    (invariant : exchange.Invariant terms) (event : Event) :
    ∃ later, exchange.step terms.service event = some later ∧
      later.Invariant terms := by
  cases event with
  | putData write => exact invariant.putData write
  | getData path => exact invariant.getData path
  | timeout index => exact invariant.timeout index
  | retry => exact invariant.retry
  | tokenFetched token => exact invariant.tokenFetched token
  | onReady =>
      rcases invariant.onReady with ⟨later, stepped, kept, _⟩
      exact ⟨later, stepped, kept⟩
  | serverHandles => exact ⟨_, rfl, serverHandles realtime invariant⟩
  | onDataMessage => exact invariant.receive
  | onDisconnect => exact invariant.onDisconnect

theorem run (realtime : terms.service.Realtime terms.accepts)
    (invariant : exchange.Invariant terms) (events : List Event) :
    ∃ later, exchange.run terms.service events = some later ∧
      later.Invariant terms := by
  induction events generalizing exchange with
  | nil =>
      exact ⟨exchange, rfl, invariant⟩
  | cons event rest inductionHypothesis =>
      rcases step realtime invariant event with ⟨middle, stepped, kept⟩
      rcases inductionHypothesis kept with ⟨later, ran, done⟩
      refine ⟨later, ?_, done⟩
      rw [run_cons, stepped]
      exact ran

end Invariant

end Exchange

end Firebase
end PocketChef
